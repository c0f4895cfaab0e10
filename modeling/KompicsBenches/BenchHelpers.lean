import Mathlib.Data.List.Basic

namespace KompicsBenches.BenchHelpers
variable {τ π : Type*} [DecidableEq τ] [DecidableEq π]

-- What the mailbox of a process that traps exits holds: `{Token, Pid}` and
-- `{'EXIT', Pid, Reason}`.
inductive Signal (τ π : Type*) where
  | token (token : τ) (pid : π)
  | exit (pid : π)
  deriving DecidableEq, Repr

def Signal.sender : Signal τ π → π
  | .token _ pid => pid
  | .exit pid => pid

def Signal.carries (token : τ) : Signal τ π → Bool
  | .token other _ => other = token
  | .exit _ => false

-- One round of a loop that waits for all pids, with the signal it takes. An error
-- ends the loop.
inductive Received (τ π : Type*) where
  | ok
  | waits
  | error
  | next (pids : List π) (signal : Signal τ π)
  deriving DecidableEq, Repr

def received (pids : List π) (signal : Signal τ π) : Received τ π :=
  if signal.sender ∈ pids then .next (pids.erase signal.sender) signal else .error

-- The receive of `await_exit_all` takes whatever is first in the mailbox.
def awaitExitAll (pids : List π) (mailbox : List (Signal τ π)) : Received τ π :=
  if pids = [] then .ok
  else match mailbox with
    | [] => .waits
    | .exit pid :: _ => received pids (.exit pid)
    | .token _ _ :: _ => .error

-- The receive of `await_all` takes the first one with the token and leaves the others.
def awaitAll (pids : List π) (token : τ) (mailbox : List (Signal τ π)) : Received τ π :=
  if pids = [] then .ok
  else match mailbox.find? (Signal.carries token) with
    | none => .waits
    | some signal => received pids signal

variable {pids pids' : List π} {mailbox : List (Signal τ π)} {token : τ} {signal : Signal τ π}

omit [DecidableEq π] in
theorem carries_inv (named : signal.carries token = true) : signal = .token token signal.sender := by
  cases signal with
  | exit pid => cases named
  | token other pid =>
    have same : other = token := of_decide_eq_true named
    rw [same]
    rfl

omit [DecidableEq τ] in
theorem awaitExitAll_token (some : pids ≠ []) (rest : List (Signal τ π)) :
    awaitExitAll pids (.token token pid :: rest) = .error := by
  simp [awaitExitAll,some]

omit [DecidableEq τ] in
theorem awaitExitAll_exit (some : pids ≠ []) (rest : List (Signal τ π)) :
    awaitExitAll pids (.exit pid :: rest) = if pid ∈ pids then .next (pids.erase pid) (.exit pid) else .error := by
  simp only [awaitExitAll,if_neg some]
  rfl

omit [DecidableEq τ] in
theorem awaitExitAll_ok (done : awaitExitAll pids mailbox = .ok) : pids = [] := by
  unfold awaitExitAll received at done
  split at done
  · assumption
  · split at done
    · cases done
    · split at done <;> cases done
    · cases done

omit [DecidableEq τ] in
theorem awaitExitAll_next (done : awaitExitAll pids mailbox = .next pids' signal) :
    ∃ pid ∈ pids, signal = .exit pid ∧ pids' = pids.erase pid ∧ signal ∈ mailbox := by
  unfold awaitExitAll received at done
  split at done
  · cases done
  · split at done
    · cases done
    · split at done
      · rename_i pid rest member
        cases done
        exact ⟨pid,member,rfl,rfl,List.mem_cons_self⟩
      · cases done
    · cases done

omit [DecidableEq τ] in
theorem awaitExitAll_error (failed : awaitExitAll pids mailbox = .error) :
    pids ≠ [] ∧ ∃ signal rest, mailbox = signal :: rest ∧ ∀ pid ∈ pids, signal ≠ .exit pid := by
  unfold awaitExitAll received at failed
  split at failed
  · cases failed
  · rename_i some
    refine ⟨some,?_⟩
    split at failed
    · cases failed
    · split at failed
      · cases failed
      · rename_i pid rest absent
        refine ⟨_,rest,rfl,?_⟩
        rintro other member same
        cases same
        exact absent member
    · rename_i token pid rest
      exact ⟨_,rest,rfl,by simp⟩

theorem awaitAll_ok (done : awaitAll pids token mailbox = .ok) : pids = [] := by
  unfold awaitAll received at done
  split at done
  · assumption
  · split at done
    · cases done
    · split at done <;> cases done

theorem awaitAll_next (done : awaitAll pids token mailbox = .next pids' signal) :
    ∃ pid ∈ pids, signal = .token token pid ∧ pids' = pids.erase pid ∧ signal ∈ mailbox := by
  unfold awaitAll received at done
  split at done
  · cases done
  · split at done
    · cases done
    · rename_i here
      split at done
      · rename_i member
        cases done
        have same := carries_inv (List.find?_some here)
        exact ⟨signal.sender,member,same,rfl,List.mem_of_find?_eq_some here⟩
      · cases done

theorem awaitAll_error (failed : awaitAll pids token mailbox = .error) :
    ∃ pid, pid ∉ pids ∧ .token token pid ∈ mailbox := by
  unfold awaitAll received at failed
  split at failed
  · cases failed
  · split at failed
    · cases failed
    · rename_i found here
      split at failed
      · cases failed
      · rename_i absent
        refine ⟨found.sender,absent,?_⟩
        rw [← carries_inv (List.find?_some here)]
        exact List.mem_of_find?_eq_some here

end KompicsBenches.BenchHelpers
