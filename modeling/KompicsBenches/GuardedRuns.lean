import Mathlib

namespace KompicsBenches.GuardedRuns

-- Runs of a partial step function in which every step meets a condition on the
-- state before it and its event.
variable {σ ε : Type*}

inductive Reached (step : σ → ε → Option σ) (allowed : σ → ε → Prop) (start : σ) : σ → Prop where
  | start : Reached step allowed start start
  | step : Reached step allowed start s → allowed s event → step s event = some next →
      Reached step allowed start next

section Runs
variable {step : σ → ε → Option σ} {allowed : σ → ε → Prop} {start s : σ}

theorem Reached.invariant (path : Reached step allowed start s) (holds : σ → Prop) (first : holds start)
    (kept : ∀ s event next, holds s → allowed s event → step s event = some next → holds next) : holds s := by
  induction path with
  | start => exact first
  | step _ able done ih => exact kept _ _ _ ih able done

variable (step allowed) [∀ s event, Decidable (allowed s event)]

def runs (s : σ) : List ε → Option σ
  | [] => some s
  | event :: rest => if allowed s event then (step s event).bind (runs · rest) else none

variable {step allowed}

theorem runs_reached (path : Reached step allowed start s) (done : runs step allowed s events = some next) :
    Reached step allowed start next := by
  induction events generalizing s with
  | nil =>
    cases done
    exact path
  | cons event rest ih =>
    rw [runs] at done
    split at done
    · rename_i able
      obtain ⟨middle,first,last⟩ := Option.bind_eq_some_iff.mp done
      exact ih (.step path able first) last
    · cases done

theorem runs_check {check : σ → Bool} (events : List ε)
    (passed : (runs step allowed start events).map check = some true) :
    ∃ s, Reached step allowed start s ∧ check s = true := by
  obtain ⟨s,done,holds⟩ := Option.map_eq_some_iff.mp passed
  exact ⟨s,runs_reached .start done,holds⟩

end Runs

end KompicsBenches.GuardedRuns
