import KompicsBenches.MasterClients
import KompicsBenches.Graphs

namespace KompicsBenches.RequestCleanup

open StoppingRule (State)
open MasterClients

-- How the call of a client ends: its command runs or not, and the master sees
-- the response or an error.
inductive SetupRpc where
  | answered (outcome : Except String String)
  | unanswered (outcome : Except String String)
  | lost

inductive CleanupRpc where
  | answered
  | unanswered
  | lost
  deriving DecidableEq, Repr

-- A client of the list with the outcome of its calls, round by round.
structure Entry where
  client : Client
  setup : SetupRpc
  cleanups : ℕ → CleanupRpc

-- `rounds` iterations come before the final one.
structure Request where
  masterSetup : Bool
  rounds : ℕ
  entries : List Entry

def Entry.setUp (e : Entry) : Entry :=
  match e.setup with
  | .answered outcome => { e with client := (e.client.setup outcome).1 }
  | .unanswered outcome => { e with client := (e.client.setup outcome).1 }
  | .lost => e

def Entry.setupOk (e : Entry) : Bool :=
  match e.setup with
  | .answered outcome => (e.client.setup outcome).2.success
  | _ => false

def Entry.cleanup (final : Bool) (round : ℕ) (e : Entry) : Option Entry :=
  match e.cleanups round with
  | .lost => some e
  | _ => (e.client.cleanup final).map fun client => { e with client := client }

def cleanupOk (round : ℕ) (entries : List Entry) : Bool :=
  entries.all fun e => e.cleanups round = .answered

-- The loop over the iterations. One failed cleanup ends it.
def iterations : ℕ → ℕ → List Entry → Option (List Entry × Bool)
  | 0, round, entries => do
    let entries' ← entries.mapM (Entry.cleanup true round)
    some (entries',cleanupOk round entries)
  | left + 1, round, entries => do
    let entries' ← entries.mapM (Entry.cleanup false round)
    if cleanupOk round entries then iterations left (round + 1) entries' else some (entries',false)

-- The clients after the calls of the request, and whether it succeeded. Every
-- way out sets the state back to ready and touches no client.
def runDistributedBenchmark (state : State) (request : Request) : Option (List Entry × Bool × State) := do
  let state ← State.cas .ready .setup state
  if request.masterSetup then
    let entries := request.entries.map Entry.setUp
    if request.entries.all Entry.setupOk then
      let _ ← State.cas .setup .run state
      let (entries,ok) ← iterations request.rounds 0 entries
      some (entries,ok,.ready)
    else some (entries,false,.ready)
  else some (request.entries,false,.ready)

def Entry.succeeded (e : Entry) : Bool :=
  match e.setup with
  | .answered (.ok _) => true
  | .unanswered (.ok _) => true
  | _ => false

-- One final cleanup more than before, and ready.
def Cleaned (before after : Entry) : Prop :=
  after.client.state = .ready ∧
    after.client.calls.count (.cleanupIteration true) = before.client.calls.count (.cleanupIteration true) + 1

-- Without the setup of the master no client is asked.
def LeavesClean (request : Request) (after : List Entry) : Prop :=
  request.masterSetup = true →
    ∀ pair ∈ request.entries.zip after, pair.1.succeeded = true → Cleaned pair.1 pair.2

-- What a cleanup leaves of a client that runs its benchmark.
def Entry.swept (final : Bool) (round : ℕ) (e : Entry) : Entry :=
  match e.cleanups round with
  | .lost => e
  | _ =>
    if final then
      { e with client := ⟨.ready,e.client.calls ++ [.cleanupIteration true]⟩ }
    else
      { e with client := ⟨.running,e.client.calls ++ [.cleanupIteration false,.prepareIteration]⟩ }

theorem cleanup_swept {e : Entry} (runs : e.client.state = .running) (final : Bool) (round : ℕ) :
    e.cleanup final round = some (e.swept final round) := by
  unfold Entry.cleanup Entry.swept
  split
  · rfl
  · cases final with
    | true => simp [Client.cleanup,runs]
    | false => simp [Client.cleanup,runs]

theorem mapM_swept {entries : List Entry} (running : ∀ e ∈ entries, e.client.state = .running) (final : Bool)
    (round : ℕ) : entries.mapM (Entry.cleanup final round) = some (entries.map (Entry.swept final round)) :=
  Graphs.mapM_run fun e member => cleanup_swept (running e member) final round

@[simp] theorem swept_cleanups (final : Bool) (round : ℕ) (e : Entry) :
    (e.swept final round).cleanups = e.cleanups := by
  unfold Entry.swept
  split
  · rfl
  · split <;> rfl

theorem swept_running {e : Entry} (runs : e.client.state = .running) (round : ℕ) :
    (e.swept false round).client.state = .running := by
  unfold Entry.swept
  split
  · exact runs
  · rfl

theorem swept_count (round : ℕ) (e : Entry) :
    (e.swept false round).client.calls.count (.cleanupIteration true) =
      e.client.calls.count (.cleanupIteration true) := by
  unfold Entry.swept
  split
  · rfl
  · simp

theorem cleaned_swept {e : Entry} (runs : e.client.state = .running) (round : ℕ) :
    Cleaned e (e.swept true round) ↔ e.cleanups round ≠ .lost := by
  unfold Cleaned Entry.swept
  split
  · rename_i lost
    simp [lost,runs]
  · rename_i reached
    simp only [if_true,List.count_append]
    simpa using reached

theorem forall_zip_map {α β : Type*} {P : α → β → Prop} (f : α → β) (xs : List α) :
    (∀ pair ∈ xs.zip (xs.map f), P pair.1 pair.2) ↔ ∀ x ∈ xs, P x (f x) := by
  induction xs with
  | nil => simp
  | cons x xs ih => rw [List.map_cons,List.zip_cons_cons,List.forall_mem_cons,List.forall_mem_cons,ih]

theorem forall_map_zip {α β γ : Type*} {P : β → γ → Prop} (f : α → β) (xs : List α) (ys : List γ) :
    (∀ pair ∈ (xs.map f).zip ys, P pair.1 pair.2) ↔ ∀ pair ∈ xs.zip ys, P (f pair.1) pair.2 := by
  rw [List.zip_map_left,List.forall_mem_map]
  rfl

theorem iterations_clean (left round : ℕ) {entries : List Entry} (running : ∀ e ∈ entries, e.client.state = .running) :
    ∃ after ok, iterations left round entries = some (after,ok) ∧
      ((∀ pair ∈ entries.zip after, Cleaned pair.1 pair.2) ↔
        entries = [] ∨ (∀ k < left, ∀ e ∈ entries, e.cleanups (round + k) = .answered) ∧
          ∀ e ∈ entries, e.cleanups (round + left) ≠ .lost) := by
  induction left generalizing round entries with
  | zero =>
    refine ⟨_,_,by rw [iterations,mapM_swept running]; rfl,?_⟩
    rw [forall_zip_map]
    constructor
    · intro clean
      refine .inr ⟨by omega,?_⟩
      intro e member
      exact (cleaned_swept (running e member) round).mp (clean e member)
    · rintro (rfl | ⟨-,reached⟩) e member
      · cases member
      · exact (cleaned_swept (running e member) round).mpr (reached e member)
  | succ left ih =>
    rw [iterations,mapM_swept running]
    simp only [Option.bind_eq_bind,Option.bind_some]
    by_cases ok : cleanupOk round entries = true
    · have answered : ∀ e ∈ entries, e.cleanups round = .answered := by
        simpa [cleanupOk] using ok
      have still : ∀ e ∈ entries.map (Entry.swept false round), e.client.state = .running := by
        rw [List.forall_mem_map]
        intro e member
        exact swept_running (running e member) round
      obtain ⟨after,done,run,clean⟩ := ih (round + 1) still
      refine ⟨after,done,by rw [if_pos ok,run],?_⟩
      rw [forall_map_zip] at clean
      simp only [Cleaned,swept_count,List.map_eq_nil_iff,List.forall_mem_map,swept_cleanups] at clean ⊢
      rw [clean]
      refine or_congr Iff.rfl (and_congr ?_ ?_)
      · constructor
        · intro later k below e member
          rcases k with _ | k
          · exact answered e member
          · rw [show round + (k + 1) = round + 1 + k by omega]
            exact later k (by omega) e member
        · intro all k below e member
          rw [show round + 1 + k = round + (k + 1) by omega]
          exact all (k + 1) (by omega) e member
      · rw [show round + 1 + left = round + (left + 1) by omega]
    · obtain ⟨e,member,failed⟩ : ∃ e ∈ entries, e.cleanups round ≠ .answered := by
        simpa [cleanupOk] using ok
      refine ⟨_,_,if_neg ok,?_⟩
      rw [forall_zip_map]
      constructor
      · intro clean
        have ready := (clean e member).1
        rw [swept_running (running e member)] at ready
        cases ready
      · rintro (rfl | ⟨answered,-⟩)
        · cases member
        · exact absurd (answered 0 (by omega) e member) failed

theorem setup_ok (c : Client) (data : String) : (c.setup (.ok data)).1.state = .running ∧
    (c.setup (.ok data)).1.calls = c.calls ++ [.setup,.prepareIteration] := by
  unfold Client.setup
  dsimp only
  split <;> exact ⟨rfl,rfl⟩

@[simp] theorem setUp_cleanups (e : Entry) : e.setUp.cleanups = e.cleanups := by
  unfold Entry.setUp
  split <;> rfl

theorem setupOk_iff (e : Entry) : e.setupOk = true ↔ ∃ data, e.setup = .answered (.ok data) := by
  unfold Entry.setupOk Client.setup
  cases e.setup with
  | answered outcome => cases outcome <;> simp
  | unanswered outcome => simp
  | lost => simp

theorem succeeded_running {e : Entry} (succeeded : e.succeeded = true) :
    e.setUp.client.state = .running ∧
      e.setUp.client.calls.count (.cleanupIteration true) = e.client.calls.count (.cleanupIteration true) := by
  unfold Entry.succeeded at succeeded
  unfold Entry.setUp
  split at succeeded
  · rename_i data outcome
    rw [outcome]
    simp [setup_ok]
  · rename_i data outcome
    rw [outcome]
    simp [setup_ok]
  · cases succeeded

-- A request is clean when no client got as far as its setup, or when all
-- setups are answered with success, no cleanup before the final one fails, and
-- the final one reaches every client.
def Clean (request : Request) : Prop :=
  request.masterSetup = false ∨ (∀ e ∈ request.entries, e.succeeded = false) ∨
    (∀ e ∈ request.entries, ∃ data, e.setup = .answered (.ok data)) ∧
    (∀ k < request.rounds, ∀ e ∈ request.entries, e.cleanups k = .answered) ∧
    ∀ e ∈ request.entries, e.cleanups request.rounds ≠ .lost

theorem request_leaves_clean (request : Request) :
    ∃ after ok, runDistributedBenchmark .ready request = some (after,ok,.ready) ∧
      (LeavesClean request after ↔ Clean request) := by
  unfold runDistributedBenchmark LeavesClean Clean
  simp only [State.cas,Option.bind_eq_bind,Option.bind_some,if_true]
  cases request.masterSetup with
  | false => exact ⟨request.entries,false,rfl,by simp⟩
  | true =>
    by_cases ok : request.entries.all Entry.setupOk = true
    · have answered : ∀ e ∈ request.entries, ∃ data, e.setup = .answered (.ok data) := by
        intro e member
        exact (setupOk_iff e).mp (List.all_eq_true.mp ok e member)
      have succeeded : ∀ e ∈ request.entries, e.succeeded = true := by
        intro e member
        obtain ⟨data,outcome⟩ := answered e member
        simp [Entry.succeeded,outcome]
      have running : ∀ e ∈ request.entries.map Entry.setUp, e.client.state = .running := by
        rw [List.forall_mem_map]
        intro e member
        exact (succeeded_running (succeeded e member)).1
      obtain ⟨after,done,run,clean⟩ := iterations_clean request.rounds 0 running
      refine ⟨after,done,by simp [ok,run],?_⟩
      have shape : (true = true → ∀ pair ∈ request.entries.zip after,
          pair.1.succeeded = true → Cleaned pair.1 pair.2) ↔
          ∀ pair ∈ (request.entries.map Entry.setUp).zip after, Cleaned pair.1 pair.2 := by
        rw [forall_map_zip]
        constructor
        · intro each pair inside
          have known := succeeded pair.1 (List.of_mem_zip inside).1
          rw [Cleaned,(succeeded_running known).2]
          exact each rfl pair inside known
        · intro each _ pair inside known
          have cleaned := each pair inside
          rwa [Cleaned,(succeeded_running known).2] at cleaned
      rw [shape,clean]
      simp only [List.map_eq_nil_iff,List.forall_mem_map,setUp_cleanups,Nat.zero_add]
      constructor
      · rintro (nobody | ⟨early,last⟩)
        · exact .inr (.inl (by simp [nobody]))
        · exact .inr (.inr ⟨answered,early,last⟩)
      · rintro (absent | nobody | ⟨-,early,last⟩)
        · cases absent
        · refine .inl (List.eq_nil_iff_forall_not_mem.mpr ?_)
          intro e member
          exact absurd (succeeded e member) (by simp [nobody e member])
        · exact .inr ⟨early,last⟩
    · obtain ⟨e,member,failed⟩ : ∃ e ∈ request.entries, ¬ e.setupOk = true := by
        simpa using ok
      refine ⟨request.entries.map Entry.setUp,false,by simp [ok],?_⟩
      rw [forall_zip_map (P := fun e after => e.succeeded = true → Cleaned e after)]
      constructor
      · intro each
        refine .inr (.inl ?_)
        intro other inside
        rw [← Bool.not_eq_true]
        intro known
        have ready := (each rfl other inside known).1
        rw [(succeeded_running known).1] at ready
        cases ready
      · rintro (absent | nobody | ⟨answered,-⟩)
        · cases absent
        · intro _ other inside known
          rw [nobody other inside] at known
          cases known
        · exact absurd ((setupOk_iff e).mpr (answered e member)) failed

-- Two clients: the first is set up, the second reports an error.
def halfSetUp : Request :=
  ⟨true,0,[⟨⟨.ready,[]⟩,.answered (.ok ""),fun _ => .answered⟩,
    ⟨⟨.ready,[]⟩,.answered (.error "Test is local!"),fun _ => .answered⟩]⟩

theorem half_set_up_leaks : ∃ after, runDistributedBenchmark .ready halfSetUp = some (after,false,.ready) ∧
    ¬ LeavesClean halfSetUp after := by
  refine ⟨halfSetUp.entries.map Entry.setUp,rfl,?_⟩
  intro clean
  have ready := (clean rfl _ List.mem_cons_self rfl).1
  cases ready

end KompicsBenches.RequestCleanup
