import KompicsBenches.GuardedRuns
import KompicsBenches.StoppingRule

namespace KompicsBenches.RequestQueue

open StoppingRule (State)
open GuardedRuns

inductive Kind where
  | alone
  | distributed
  deriving DecidableEq, Repr

-- A request of the runner: its benchmark may be missing, and its message may
-- not give a configuration.
structure Request where
  id : ℕ
  kind : Kind
  implemented : Bool
  converts : Bool
  deriving DecidableEq, Repr

structure Active where
  request : Request
  queued : Bool
  deriving DecidableEq, Repr

-- The server thread handles one call at a time: `handling` is a request with
-- what it read of the state. `resets` and `polls` are the callbacks of completed
-- benchmarks that have not run yet, in no fixed order.
structure Master where
  state : State
  waitFor : ℕ
  clients : ℕ
  benchQueue : List Request
  handling : Option (Request × Bool)
  active : Option Active
  resets : ℕ
  polls : ℕ
  refused : List Request
  rejected : List Request
  deriving DecidableEq, Repr

def Master.start (waitFor : ℕ) : Master := ⟨.init,waitFor,0,[],none,none,0,0,[],[]⟩

def Kind.entry : Kind → State
  | .alone => .run
  | .distributed => .setup

-- `handledF`. A request of the queue whose future is complete polls the queue
-- again; one that throws at the transition is refused.
def Master.handledF (m : Master) (queued : Bool) (r : Request) : Master :=
  let again := if queued then m.polls + 1 else m.polls
  if r.implemented && r.converts then
    match State.cas .ready r.kind.entry m.state with
    | some state => { m with state := state, active := some ⟨r,queued⟩ }
    | none =>
      if queued then { m with refused := m.refused ++ [r], polls := again }
      else { m with rejected := m.rejected ++ [r] }
  else { m with polls := again }

def Master.emptyQ (m : Master) : Master :=
  match m.benchQueue with
  | [] => m
  | br :: rest => ({ m with benchQueue := rest }).handledF true br

def Master.goReady (m : Master) : Option Master := do
  let state ← State.cas .init .ready m.state
  some ({ m with state := state }).emptyQ

inductive Event where
  | checkIn
  | arrive (r : Request)
  | act
  | advance
  | complete
  | reset
  | poll
  deriving DecidableEq, Repr

def checkIn (m : Master) : Option Master :=
  if m.handling.isSome then none
  else if m.state = .init then
    let m := { m with clients := m.clients + 1 }
    if m.clients = m.waitFor then m.goReady else some m
  else some m

-- `queueIfNotReady` in two steps, since the state may change between them.
def arrive (r : Request) (m : Master) : Option Master :=
  if m.handling.isSome then none else some { m with handling := some (r,m.state = .ready) }

def act (m : Master) : Option Master :=
  match m.handling with
  | none => none
  | some (r,true) => some (({ m with handling := none }).handledF false r)
  | some (r,false) => some { m with handling := none, benchQueue := m.benchQueue ++ [r] }

-- The steps of a distributed benchmark through its states.
def advance (m : Master) : Option Master :=
  match m.active,m.state with
  | some ⟨⟨_,.distributed,_,_⟩,_⟩,.setup => some { m with state := .run }
  | some ⟨⟨_,.distributed,_,_⟩,_⟩,.run => some { m with state := .cleanup }
  | some ⟨⟨_,.distributed,_,_⟩,_⟩,.cleanup => some { m with state := .finished }
  | _,_ => none

def complete (m : Master) : Option Master :=
  match m.active with
  | none => none
  | some a =>
    let polls := if a.queued then m.polls + 1 else m.polls
    some { m with active := none, resets := m.resets + 1, polls := polls }

def reset (m : Master) : Option Master :=
  if 0 < m.resets then some { m with state := .ready, resets := m.resets - 1 } else none

def poll (m : Master) : Option Master :=
  if 0 < m.polls then some ({ m with polls := m.polls - 1 }).emptyQ else none

def step (m : Master) : Event → Option Master
  | .checkIn => checkIn m
  | .arrive r => arrive r m
  | .act => act m
  | .advance => advance m
  | .complete => complete m
  | .reset => reset m
  | .poll => poll m

-- The chain of polls goes on: not started, one to come, or one after the
-- benchmark that runs.
def Draining (m : Master) : Prop :=
  m.state = .init ∨ 0 < m.polls ∨ m.active.any Active.queued = true

instance (m : Master) : Decidable (Draining m) := inferInstanceAs (Decidable (_ ∨ _))

-- A request joins the queue while the chain goes on, none starts past a poll to
-- come, and a poll comes after the reset of the state.
def Orderly (m : Master) : Event → Prop
  | .act => if m.handling.any Prod.snd then m.polls = 0 else Draining m
  | .poll => m.resets = 0
  | _ => True

instance (m : Master) : (event : Event) → Decidable (Orderly m event)
  | .act => inferInstanceAs (Decidable (if m.handling.any Prod.snd then m.polls = 0 else Draining m))
  | .poll => inferInstanceAs (Decidable (m.resets = 0))
  | .checkIn | .arrive _ | .advance | .complete | .reset => inferInstanceAs (Decidable True)

structure Inv (m : Master) : Prop where
  served : m.refused = []
  chain : m.benchQueue ≠ [] → Draining m
  early : m.state = .init → m.active = none ∧ m.polls = 0 ∧ m.resets = 0
  busy : m.active ≠ none → m.polls = 0 ∧ m.resets = 0 ∧ m.state ≠ .ready
  stale : 0 < m.resets → m.state ≠ .ready
  idle : m.active = none → m.resets = 0 → m.state = .init ∨ m.state = .ready
  single : m.polls ≤ 1 ∧ m.resets ≤ 1

theorem inv_start (waitFor : ℕ) : Inv (.start waitFor) := by
  constructor <;> simp [Master.start]

theorem entry_apart (kind : Kind) : kind.entry ≠ .init ∧ kind.entry ≠ .ready := by
  cases kind <;> simp [Kind.entry]

-- A master that is ready with nothing under way.
structure Free (m : Master) : Prop where
  served : m.refused = []
  ready : m.state = .ready
  active : m.active = none
  quiet : m.polls = 0 ∧ m.resets = 0

theorem Free.inv {m : Master} (free : Free m) (empty : m.benchQueue = []) : Inv m where
  served := free.served
  chain some_left := absurd empty some_left
  early state := by
    rw [free.ready] at state
    cases state
  busy running := absurd free.active running
  stale pending := by
    have none_left := free.quiet.2
    omega
  idle _ _ := .inr free.ready
  single := by
    obtain ⟨polls,resets⟩ := free.quiet
    omega

theorem Free.begins {m : Master} (free : Free m) (queued : Bool) (r : Request)
    (chain : queued = true ∨ m.benchQueue = []) : Inv (m.handledF queued r) := by
  obtain ⟨polls,resets⟩ := free.quiet
  unfold Master.handledF
  dsimp only
  split
  · simp only [State.cas,free.ready,if_true]
    refine ⟨free.served,?_,?_,?_,?_,?_,?_⟩
    · intro some_left
      rcases chain with rfl | empty
      · exact .inr (.inr rfl)
      · exact absurd empty some_left
    · intro early
      exact absurd early (entry_apart r.kind).1
    · intro _
      exact ⟨polls,resets,(entry_apart r.kind).2⟩
    · intro _
      exact (entry_apart r.kind).2
    · intro none_runs
      cases none_runs
    · dsimp only
      omega
  · cases queued with
    | false => exact free.inv (chain.resolve_left (by simp))
    | true =>
      refine ⟨free.served,?_,?_,?_,?_,?_,?_⟩
      · intro _
        exact .inr (.inl (by simp))
      · intro early
        rw [free.ready] at early
        cases early
      · intro running
        exact absurd free.active running
      · intro pending
        dsimp only at pending
        omega
      · intro _ _
        exact .inr free.ready
      · simp [polls,resets]

theorem Free.emptyQ {m : Master} (free : Free m) : Inv m.emptyQ := by
  unfold Master.emptyQ
  split
  · rename_i empty
    exact free.inv empty
  · rename_i br rest queue
    have shorter : Free { m with benchQueue := rest } := ⟨free.served,free.ready,free.active,free.quiet⟩
    exact shorter.begins true br (.inl rfl)

section Steps
variable {m next : Master} (inv : Inv m)
include inv

theorem checkIn_inv (done : checkIn m = some next) : Inv next := by
  unfold checkIn at done
  split at done
  · cases done
  · split at done
    · rename_i early
      obtain ⟨active,polls,resets⟩ := inv.early early
      dsimp only at done
      split at done
      · simp only [Master.goReady,State.cas,early,if_true,Option.bind_eq_bind,Option.bind_some] at done
        cases done
        apply Free.emptyQ
        exact ⟨inv.served,rfl,active,polls,resets⟩
      · cases done
        exact ⟨inv.served,inv.chain,inv.early,inv.busy,inv.stale,inv.idle,inv.single⟩
    · cases done
      exact inv

theorem arrive_inv (done : arrive r m = some next) : Inv next := by
  unfold arrive at done
  split at done
  · cases done
  · cases done
    exact ⟨inv.served,inv.chain,inv.early,inv.busy,inv.stale,inv.idle,inv.single⟩

theorem act_inv (orderly : Orderly m .act) (done : act m = some next) : Inv next := by
  unfold act at done
  split at done
  · cases done
  · rename_i r handling
    have quiet : m.polls = 0 := by
      simpa [Orderly,handling] using orderly
    cases done
    by_cases ready : m.state = .ready
    · have active : m.active = none := by
        by_contra running
        exact (inv.busy running).2.2 ready
      have resets : m.resets = 0 := by
        by_contra pending
        exact inv.stale (by omega) ready
      have empty : m.benchQueue = [] := by
        by_contra some_left
        rcases inv.chain some_left with early | more | queued
        · rw [ready] at early
          cases early
        · omega
        · simp [active] at queued
      have free : Free { m with handling := none } := ⟨inv.served,ready,active,quiet,resets⟩
      exact free.begins false r (.inr empty)
    · unfold Master.handledF
      simp only [State.cas,ready,if_false]
      split
      all_goals exact ⟨inv.served,inv.chain,inv.early,inv.busy,inv.stale,inv.idle,inv.single⟩
  · rename_i r handling
    have draining : Draining m := by
      simpa [Orderly,handling] using orderly
    cases done
    exact ⟨inv.served,fun _ => draining,inv.early,inv.busy,inv.stale,inv.idle,inv.single⟩

theorem Inv.started (running : m.active ≠ none) : m.state ≠ .init := by
  intro early
  exact running (inv.early early).1

theorem advance_inv (done : advance m = some next) : Inv next := by
  obtain ⟨running,state,later,rfl⟩ : m.active ≠ none ∧ ∃ state, (state ≠ .init ∧ state ≠ .ready) ∧
      next = { m with state := state } := by
    unfold advance at done
    split at done
    all_goals
      cases done
    all_goals
      rename_i active _
      exact ⟨by simp [active],_,by simp,rfl⟩
  obtain ⟨polls,resets,_⟩ := inv.busy running
  refine ⟨inv.served,?_,?_,?_,?_,?_,inv.single⟩
  · intro some_left
    rcases inv.chain some_left with early | more
    · exact absurd early (inv.started running)
    · exact .inr more
  · intro early
    exact absurd early later.1
  · intro _
    exact ⟨polls,resets,later.2⟩
  · intro _
    exact later.2
  · intro none_runs
    exact absurd none_runs running

theorem complete_inv (done : complete m = some next) : Inv next := by
  unfold complete at done
  split at done
  · cases done
  · rename_i a active
    have running : m.active ≠ none := by simp [active]
    obtain ⟨polls,resets,unready⟩ := inv.busy running
    cases done
    refine ⟨inv.served,?_,?_,?_,?_,?_,?_⟩
    · intro some_left
      rcases inv.chain some_left with early | more | queued
      · exact absurd early (inv.started running)
      · omega
      · rw [active] at queued
        exact .inr (.inl (by simp [show a.queued = true from queued]))
    · intro early
      exact absurd early (inv.started running)
    · intro none_runs
      exact absurd rfl none_runs
    · intro _
      exact unready
    · intro _ reset
      dsimp only at reset
      omega
    · dsimp only
      split <;> omega

theorem reset_inv (done : reset m = some next) : Inv next := by
  unfold reset at done
  split at done
  · rename_i pending
    have idle : m.active = none := by
      by_contra running
      have resets := (inv.busy running).2.1
      omega
    have single := inv.single
    cases done
    refine ⟨inv.served,?_,?_,?_,?_,?_,?_⟩
    · intro some_left
      rcases inv.chain some_left with early | more | queued
      · have resets := (inv.early early).2.2
        omega
      · exact .inr (.inl more)
      · simp [idle] at queued
    · intro early
      cases early
    · intro running
      exact absurd idle running
    · intro again
      dsimp only at again
      omega
    · intro _ _
      exact .inr rfl
    · dsimp only
      omega
  · cases done

theorem poll_inv (orderly : Orderly m .poll) (done : poll m = some next) : Inv next := by
  have resets : m.resets = 0 := orderly
  unfold poll at done
  split at done
  · rename_i pending
    cases done
    have idle : m.active = none := by
      by_contra running
      have polls := (inv.busy running).1
      omega
    have ready : m.state = .ready := by
      rcases inv.idle idle resets with early | ready
      · have polls := (inv.early early).2.1
        omega
      · exact ready
    have single := inv.single
    apply Free.emptyQ
    exact ⟨inv.served,ready,idle,by dsimp only; omega,resets⟩
  · cases done

theorem step_inv (orderly : Orderly m event) (done : step m event = some next) : Inv next := by
  cases event with
  | checkIn => exact checkIn_inv inv done
  | arrive r => exact arrive_inv inv done
  | act => exact act_inv inv orderly done
  | advance => exact advance_inv inv done
  | complete => exact complete_inv inv done
  | reset => exact reset_inv inv done
  | poll => exact poll_inv inv orderly done

end Steps

theorem reached_inv (path : Reached step Orderly (.start waitFor) m) : Inv m :=
  path.invariant Inv (inv_start waitFor) fun _ _ _ inv orderly done => step_inv inv orderly done

def ask (id : ℕ) : Request := ⟨id,.alone,true,true⟩

-- The same two requests with the reset first, and the last poll that finds the
-- queue empty.
def drained : List Event :=
  [.arrive (ask 1),.act,.arrive (ask 2),.act,.checkIn,.complete,.reset,.poll,.complete,.reset,.poll]

end KompicsBenches.RequestQueue
