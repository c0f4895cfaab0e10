import Mathlib

namespace KompicsBenches.StoppingRule

structure Rule (T R : Type) where
  minRuns : ℕ
  maxRuns : ℕ
  rseTarget : R
  rse : List T → R

-- What a loop asks of the benchmark, and of the clients where there are any.
inductive Call (T : Type) where
  | prepareIteration
  | runIteration
  | cleanupIteration (lastIteration : Bool) (time : T)
  | cleanupClients (final : Bool)
  deriving DecidableEq, Repr

inductive Failure (R : Type) where
  | rseTargetNotMet (rse : R) (runs : ℕ)
  | exceededMaxRuns (rse : R)
  deriving DecidableEq, Repr

structure Outcome (T R : Type) where
  calls : List (Call T)
  result : Except (Failure R) (List T)

structure Progress (T : Type) where
  calls : List (Call T)
  results : List T
  nRuns : ℕ

inductive State where
  | init
  | ready
  | setup
  | run
  | cleanup
  | finished
  | stopped
  deriving DecidableEq, Repr

def State.cas (old new state : State) : Option State := if state = old then some new else none

section Rust
variable {T R : Type} [LinearOrder R] (rule : Rule T R) (times : ℕ → T)

def Progress.start : Progress T := ⟨[],[],0⟩

def Progress.prepare (it : Progress T) : Progress T :=
  { it with calls := it.calls ++ [.prepareIteration] }

def Progress.run (it : Progress T) : Progress T where
  calls := it.calls ++ [.runIteration]
  results := it.results ++ [times it.nRuns]
  nRuns := it.nRuns + 1

def Progress.cleanup (lastIteration : Bool) (it : Progress T) : Option (Progress T) := do
  let time ← it.results.getLast?
  some { it with calls := it.calls ++ [.cleanupIteration lastIteration time] }

def whileLoop (cond : Progress T → Bool) : ℕ → Progress T → Option (Progress T)
  | 0, _ => none
  | fuel + 1, it =>
    if cond it then do
      let it ← it.cleanup false
      whileLoop cond fuel (it.prepare.run times)
    else some it

def run (fuel : ℕ) : Option (Outcome T R) := do
  let it := Progress.start.prepare.run times
  let it ← whileLoop times (fun it => it.nRuns < rule.minRuns) fuel it
  let it ← whileLoop times (fun it => it.nRuns < rule.maxRuns && rule.rseTarget < rule.rse it.results) fuel it
  let it ← it.cleanup true
  let resultRse := rule.rse it.results
  if rule.rseTarget < resultRse then some ⟨it.calls,.error (.rseTargetNotMet resultRse it.nRuns)⟩
  else some ⟨it.calls,.ok it.results⟩

-- The cleanup decides whether it is the final one, and passes it on.
def DistributedIteration.cleanup (it : Progress T) : Option (Progress T × Bool) := do
  let isFinal := !(it.nRuns < rule.minRuns || it.nRuns < rule.maxRuns && rule.rseTarget < rule.rse it.results)
  let it ← it.cleanup isFinal
  some ({ it with calls := it.calls ++ [.cleanupClients isFinal] },isFinal)

def loopFn : ℕ → State → Progress T → Option (Outcome T R)
  | 0, _, _ => none
  | fuel + 1, state, it => do
    let it := it.prepare
    let it := it.run times
    let state ← State.cas .run .cleanup state
    let (it,isFinal) ← DistributedIteration.cleanup rule it
    if isFinal then
      let _ ← State.cas .cleanup .finished state
      some ⟨it.calls,.ok it.results⟩
    else
      let state ← State.cas .cleanup .run state
      loopFn fuel state it

def runDistributedBenchmark (fuel : ℕ) : Option (Outcome T R) := do
  let state ← State.cas .setup .run .setup
  loopFn rule times fuel state Progress.start

end Rust

namespace Erlang
variable {T R : Type} [LinearOrder R] (rule : Rule T R) (times : ℕ → T)

-- The latest result is the head of the list.
def runCounted : ℕ → List (Call T) → List T → Option (List (Call T) × List T)
  | 0, calls, res => some (calls,res)
  | count + 1, calls, res => do
    let lastTime ← res.head?
    runCounted count (calls ++ [.cleanupIteration false lastTime,.prepareIteration,.runIteration])
      (times res.length :: res)

def runRse : ℕ → ℕ → List (Call T) → List T → Option (List (Call T) × Except (Failure R) (List T))
  | 0, _, _, _ => none
  | fuel + 1, count, calls, res =>
    if rule.maxRuns ≤ count then
      let rse := rule.rse res
      if rule.rseTarget < rse then some (calls,.error (.rseTargetNotMet rse count))
      else some (calls,.ok res)
    else if rule.rse res ≤ rule.rseTarget then some (calls,.ok res)
    else do
      let lastTime ← res.head?
      runRse fuel (count + 1)
        (calls ++ [.cleanupIteration false lastTime,.prepareIteration,.runIteration])
        (times res.length :: res)

-- The final cleanup gets the time of the first iteration.
def runCaught (fuel : ℕ) : Option (Outcome T R) := do
  let time := times 0
  let (calls,res) ← runCounted times (rule.minRuns - 1) [.prepareIteration,.runIteration] [time]
  let (calls,resArg) ← runRse rule times fuel rule.minRuns calls res
  some ⟨calls ++ [.cleanupIteration true time],resArg⟩

def loopDistributedIteration : ℕ → List (Call T) → List T → Option (Outcome T R)
  | 0, _, _ => none
  | fuel + 1, calls, resultData =>
    let nRuns := resultData.length
    let time := times nRuns
    let calls := calls ++ [.prepareIteration,.runIteration]
    let newResultData := time :: resultData
    let newNRuns := nRuns + 1
    if newNRuns < rule.maxRuns then
      let lastIteration := rule.minRuns ≤ newNRuns && rule.rse newResultData ≤ rule.rseTarget
      let calls := calls ++ [.cleanupIteration lastIteration time,.cleanupClients lastIteration]
      if lastIteration then some ⟨calls,.ok newResultData⟩
      else loopDistributedIteration fuel calls newResultData
    else
      some ⟨calls ++ [.cleanupIteration true time,.cleanupClients true],
        .error (.exceededMaxRuns (rule.rse newResultData))⟩

end Erlang

-- The claims of the loops, over the calls to the benchmark alone.
inductive Phase where
  | prepare
  | run
  | cleanup (final : Bool)
  deriving DecidableEq, Repr

def Call.phase {T : Type} : Call T → Option Phase
  | .prepareIteration => some .prepare
  | .runIteration => some .run
  | .cleanupIteration final _ => some (.cleanup final)
  | .cleanupClients _ => none

def phases {T : Type} (calls : List (Call T)) : List Phase := calls.filterMap Call.phase

def cycles (n : ℕ) : List Phase := (List.replicate n [.prepare,.run,.cleanup false]).flatten

def schedule (n : ℕ) : List Phase := cycles (n - 1) ++ [.prepare,.run,.cleanup true]

def Outcome.succeeds {T R : Type} (outcome : Outcome T R) : Prop := ∃ results, outcome.result = .ok results

theorem cycles_succ (n : ℕ) : cycles (n + 1) = cycles n ++ [.prepare,.run,.cleanup false] := by
  simp [cycles,List.replicate_succ']

@[simp] theorem phases_nil {T : Type} : phases ([] : List (Call T)) = [] := rfl

@[simp] theorem phases_append {T : Type} (calls more : List (Call T)) :
    phases (calls ++ more) = phases calls ++ phases more :=
  List.filterMap_append

@[simp] theorem phases_cons {T : Type} (call : Call T) (calls : List (Call T)) :
    phases (call :: calls) = call.phase.toList ++ phases calls := by
  cases call <;> rfl

section Runs
variable {T R : Type} (times : ℕ → T)

def firstRuns (n : ℕ) : List T := (List.range n).map times

theorem firstRuns_succ (n : ℕ) : firstRuns times (n + 1) = firstRuns times n ++ [times n] := by
  simp [firstRuns,List.range_succ]

theorem firstRuns_length (n : ℕ) : (firstRuns times n).length = n := by
  simp [firstRuns]

theorem firstRuns_last (n : ℕ) : (firstRuns times (n + 1)).getLast? = some (times n) := by
  simp [firstRuns_succ]

-- `n` iterations are run and the last of them is not cleaned up yet.
structure Ran (n : ℕ) (it : Progress T) : Prop where
  calls : phases it.calls = cycles (n - 1) ++ [.prepare,.run]
  results : it.results = firstRuns times n
  count : it.nRuns = n

variable {times}

theorem ran_start : Ran times 1 ((Progress.start : Progress T).prepare.run times) where
  calls := rfl
  results := rfl
  count := rfl

theorem Ran.cleanup {it : Progress T} (ran : Ran times (n + 1) it) (last : Bool) :
    it.cleanup last = some { it with calls := it.calls ++ [.cleanupIteration last (times n)] } := by
  simp [Progress.cleanup,ran.results,firstRuns_last]

theorem Ran.again {it : Progress T} (ran : Ran times (n + 1) it) {calls : List (Call T)}
    (cleaned : phases calls = phases it.calls ++ [.cleanup false]) :
    Ran times (n + 2) (({ it with calls := calls } : Progress T).prepare.run times) where
  calls := by
    simp [Progress.run,Progress.prepare,cleaned,ran.calls,Call.phase,cycles_succ]
  results := by
    simp only [Progress.run,Progress.prepare,ran.results,ran.count,firstRuns_succ]
  count := by
    simp only [Progress.run,Progress.prepare,ran.count]

-- The same for the lists of the Erlang loops, latest result first.
structure Held (times : ℕ → T) (n : ℕ) (calls : List (Call T)) (res : List T) : Prop where
  calls : phases calls = cycles (n - 1) ++ [.prepare,.run]
  results : res = (firstRuns times n).reverse

theorem Held.head {calls : List (Call T)} {res : List T} (held : Held times (n + 1) calls res) :
    res.head? = some (times n) := by
  simp [held.results,firstRuns_succ]

theorem Held.again {calls : List (Call T)} {res : List T} (held : Held times (n + 1) calls res)
    (time : T) : Held times (n + 2)
      (calls ++ [.cleanupIteration false time,.prepareIteration,.runIteration]) (times res.length :: res) where
  calls := by simp [held.calls,Call.phase,cycles_succ]
  results := by simp [held.results,firstRuns_length,firstRuns_succ times (n + 1)]

theorem runCounted_held {calls : List (Call T)} {res : List T} (count : ℕ)
    (held : Held times (n + 1) calls res) :
    ∃ calls' res', Erlang.runCounted times count calls res = some (calls',res') ∧
      Held times (n + 1 + count) calls' res' := by
  induction count generalizing n calls res with
  | zero => exact ⟨calls,res,rfl,held⟩
  | succ count ih =>
    obtain ⟨calls',res',run,last⟩ := ih (held.again (times n))
    refine ⟨calls',res',?_,by convert last using 1; omega⟩
    simpa [Erlang.runCounted,held.head] using run

theorem whileLoop_ran {cond : Progress T → Bool} {n m : ℕ} (some_run : 1 ≤ n) (ahead : n ≤ m)
    (goes : ∀ k it, n ≤ k → k < m → Ran times k it → cond it = true)
    (stops : ∀ it, Ran times m it → cond it = false) (enough : m - n < fuel) {it : Progress T}
    (ran : Ran times n it) : ∃ last, whileLoop times cond fuel it = some last ∧ Ran times m last := by
  induction fuel generalizing n it with
  | zero => omega
  | succ fuel ih =>
    rw [whileLoop]
    rcases ahead.eq_or_lt with rfl | less
    · exact ⟨it,by simp [stops it ran],ran⟩
    · rw [if_pos (goes n it le_rfl less ran)]
      obtain ⟨n,rfl⟩ : ∃ k, n = k + 1 := ⟨n - 1,by omega⟩
      have cleaned : phases (it.calls ++ [.cleanupIteration false (times n)]) =
          phases it.calls ++ [.cleanup false] := by
        simp [Call.phase]
      have next := ran.again cleaned
      obtain ⟨last,run,reached⟩ := ih (by omega) (by omega)
        (fun k it low => goes k it (by omega)) (by omega) next
      exact ⟨last,by simpa [ran.cleanup] using run,reached⟩

end Runs

section Loops
variable {T R : Type} [LinearOrder R] (rule : Rule T R) (times : ℕ → T)

-- The one rule behind the four loops.
def Continues (n : ℕ) : Prop :=
  n < rule.minRuns ∨ n < rule.maxRuns ∧ rule.rseTarget < rule.rse (firstRuns times n)

instance (n : ℕ) : Decidable (Continues rule times n) :=
  inferInstanceAs (Decidable (_ ∨ _))

theorem stops_at (ordered : rule.minRuns ≤ rule.maxRuns) :
    ∃ n, rule.minRuns ≤ n ∧ n ≤ rule.maxRuns ∧ ¬ Continues rule times n ∧
      ∀ k < n, Continues rule times k := by
  have bounded : ∃ n, ¬ Continues rule times n := ⟨rule.maxRuns,by simp [Continues,ordered]⟩
  have first := Nat.find_spec bounded
  refine ⟨Nat.find bounded,?_,?_,first,?_⟩
  · by_contra low
    exact first (.inl (not_le.mp low))
  · exact Nat.find_min' bounded (by simp [Continues,ordered])
  · intro k less
    exact not_not.mp (Nat.find_min bounded less)

-- Where a loop stops, what it called, and how it classifies the results.
def Finishes (n : ℕ) (good : Prop) (outcome : Option (Outcome T R)) : Prop :=
  ∃ out, outcome = some out ∧ phases out.calls = schedule n ∧ (out.succeeds ↔ good)

omit [LinearOrder R] in
theorem Finishes.congr {outcome : Option (Outcome T R)} (finishes : Finishes n left outcome)
    (same : left ↔ right) : Finishes n right outcome := by
  obtain ⟨out,run,calls,good⟩ := finishes
  exact ⟨out,run,calls,good.trans same⟩

omit [LinearOrder R] in
theorem Finishes.calls {outcome : Option (Outcome T R)} (finishes : Finishes n good outcome) :
    ∃ out, outcome = some out ∧ phases out.calls = schedule n := by
  obtain ⟨out,run,calls,-⟩ := finishes
  exact ⟨out,run,calls⟩

theorem schedule_inj {n m : ℕ} (first : 1 ≤ n) (second : 1 ≤ m) (same : schedule n = schedule m) : n = m := by
  have long := congrArg List.length same
  simp only [schedule,cycles,List.length_append,List.length_flatten,List.map_replicate,List.sum_replicate,
    List.length_cons,List.length_nil,smul_eq_mul] at long
  omega

omit [LinearOrder R] in
theorem Finishes.unique {outcome : Option (Outcome T R)} (first : Finishes n left outcome)
    (second : Finishes m right outcome) (low : 1 ≤ n) (low' : 1 ≤ m) : n = m ∧ (left ↔ right) := by
  obtain ⟨out,rfl,calls,good⟩ := first
  obtain ⟨out',same,calls',good'⟩ := second
  cases same
  exact ⟨schedule_inj low low' (calls.symm.trans calls'),good.symm.trans good'⟩

section Stop
variable {rule times} {n fuel : ℕ} (some_run : 1 ≤ rule.minRuns) (low : rule.minRuns ≤ n)
  (ends : ¬ Continues rule times n) (goes : ∀ k < n, Continues rule times k)
  (enough : n ≤ fuel)
include some_run low ends goes enough

theorem run_finishes :
    Finishes n (rule.rse (firstRuns times n) ≤ rule.rseTarget) (run rule times fuel) := by
  have counting : ∃ it, whileLoop times (fun it => it.nRuns < rule.minRuns) fuel
      (Progress.start.prepare.run times) = some it ∧ Ran times rule.minRuns it := by
    apply whileLoop_ran le_rfl some_run _ _ (by omega) ran_start
    · intro k it _ less ran
      simp [ran.count,less]
    · intro it ran
      simp [ran.count]
  obtain ⟨counted,first,ran⟩ := counting
  have measuring : ∃ it, whileLoop times
      (fun it => it.nRuns < rule.maxRuns && rule.rseTarget < rule.rse it.results) fuel counted = some it ∧
      Ran times n it := by
    apply whileLoop_ran some_run low _ _ (by omega) ran
    · intro k it above less ran
      have onwards := (goes k less).resolve_left (not_lt.mpr above)
      simp [ran.count,ran.results,onwards]
    · intro it ran
      have done : ¬ (n < rule.maxRuns ∧ rule.rseTarget < rule.rse (firstRuns times n)) :=
        fun more => ends (.inr more)
      simpa [ran.count,ran.results] using done
  obtain ⟨last,second,ran⟩ := measuring
  obtain ⟨n,rfl⟩ : ∃ k, n = k + 1 := ⟨n - 1,by omega⟩
  have calls : phases (last.calls ++ [.cleanupIteration true (times n)]) = schedule (n + 1) := by
    simp [ran.calls,Call.phase,schedule]
  unfold Finishes run
  simp only [first,second,ran.cleanup,ran.results,Option.bind_eq_bind,Option.bind_some]
  split
  · rename_i above
    exact ⟨_,rfl,calls,by simpa [Outcome.succeeds] using above⟩
  · rename_i within
    exact ⟨_,rfl,calls,by simpa [Outcome.succeeds] using within⟩

omit some_run low enough in
theorem loopFn_finishes {k : ℕ} (before : k < n) (left : n - k ≤ fuel) {it : Progress T}
    (ran : Ran times (k + 1) (it.prepare.run times)) :
    Finishes n True (loopFn rule times fuel .run it) := by
  induction fuel generalizing k it with
  | zero => omega
  | succ fuel ih =>
    have more : (decide ((it.prepare.run times).nRuns < rule.minRuns) ||
        decide ((it.prepare.run times).nRuns < rule.maxRuns) &&
          decide (rule.rseTarget < rule.rse (it.prepare.run times).results)) = true ↔
        Continues rule times (k + 1) := by
      simp [ran.count,ran.results,Continues]
    let ended (last : Bool) : Call T := .cleanupIteration last (times k)
    let informed (last : Bool) : Call T := .cleanupClients last
    rcases (show k + 1 ≤ n from before).eq_or_lt with rfl | less
    · refine ⟨⟨(it.prepare.run times).calls ++ [ended true] ++ [informed true],
        .ok (it.prepare.run times).results⟩,?_,?_,by simp [Outcome.succeeds]⟩
      · have final := Bool.eq_false_of_not_eq_true (more.not.mpr ends)
        rw [loopFn]
        simp [State.cas,DistributedIteration.cleanup,final,ran.cleanup,ended,informed]
      · simp [ran.calls,Call.phase,schedule,ended,informed]
    · have cleaned : phases ((it.prepare.run times).calls ++ [ended false] ++ [informed false]) =
          phases (it.prepare.run times).calls ++ [.cleanup false] := by
        simp [Call.phase,ended,informed]
      obtain ⟨out,run,calls,good⟩ := ih less (by omega) (ran.again cleaned)
      refine ⟨out,?_,calls,good⟩
      rw [loopFn]
      simpa [State.cas,DistributedIteration.cleanup,more.mpr (goes (k + 1) less),ran.cleanup] using run

theorem runDistributedBenchmark_finishes :
    Finishes n True (runDistributedBenchmark rule times fuel) := by
  have loop : Finishes n True (loopFn rule times fuel .run Progress.start) :=
    loopFn_finishes ends goes (by omega) (by omega) ran_start
  simpa [runDistributedBenchmark,State.cas] using loop

section Erlang
variable (insensitive : ∀ left right : List T, left.Perm right → rule.rse left = rule.rse right)
include insensitive

omit some_run low enough in
theorem runRse_finishes {k : ℕ} (above : rule.minRuns ≤ k + 1) (before : k + 1 ≤ n)
    (left : n - k ≤ fuel) {calls : List (Call T)} {res : List T} (held : Held times (k + 1) calls res) :
    ∃ calls' result, Erlang.runRse rule times fuel (k + 1) calls res = some (calls',result) ∧
      phases calls' = cycles (n - 1) ++ [.prepare,.run] ∧
      ((∃ results, result = .ok results) ↔ rule.rse (firstRuns times n) ≤ rule.rseTarget) := by
  induction fuel generalizing k calls res with
  | zero => omega
  | succ fuel ih =>
    have same : rule.rse res = rule.rse (firstRuns times (k + 1)) := by
      rw [held.results]
      exact insensitive _ _ (List.reverse_perm _)
    rw [Erlang.runRse,same]
    rcases before.eq_or_lt with rfl | less
    · have stays : ¬ (k + 1 < rule.maxRuns ∧ rule.rseTarget < rule.rse (firstRuns times (k + 1))) :=
        fun more => ends (.inr more)
      split
      · dsimp only
        split
        · rename_i above
          exact ⟨calls,_,rfl,held.calls,by simpa using above⟩
        · rename_i within
          exact ⟨calls,_,rfl,held.calls,by simpa using within⟩
      · rename_i below
        have within : rule.rse (firstRuns times (k + 1)) ≤ rule.rseTarget :=
          not_lt.mp fun more => stays ⟨not_le.mp below,more⟩
        rw [if_pos within]
        exact ⟨calls,_,rfl,held.calls,by simpa using within⟩
    · obtain ⟨below,exceeds⟩ := (goes (k + 1) less).resolve_left (not_lt.mpr above)
      obtain ⟨calls',result,run,rest⟩ := ih (by omega) less (by omega) (held.again (times k))
      refine ⟨calls',result,?_,rest⟩
      rw [if_neg (not_le.mpr below),if_neg (not_le.mpr exceeds)]
      simpa [held.head] using run

theorem runCaught_finishes :
    Finishes n (rule.rse (firstRuns times n) ≤ rule.rseTarget) (Erlang.runCaught rule times fuel) := by
  have first : Held times (0 + 1) [.prepareIteration,.runIteration] [times 0] := ⟨rfl,rfl⟩
  obtain ⟨calls,res,counted,held⟩ := runCounted_held (rule.minRuns - 1) first
  obtain ⟨k,low_eq⟩ : ∃ k, rule.minRuns = k + 1 := ⟨rule.minRuns - 1,by omega⟩
  rw [show 0 + 1 + (rule.minRuns - 1) = k + 1 by omega] at held
  obtain ⟨calls',result,measured,last,good⟩ :=
    runRse_finishes ends goes insensitive (by omega) (by omega) (by omega : n - k ≤ fuel) held
  refine ⟨⟨calls' ++ [.cleanupIteration true (times 0)],result⟩,?_,?_,by simpa [Outcome.succeeds] using good⟩
  · rw [Erlang.runCaught,counted]
    simp only [Option.bind_eq_bind,Option.bind_some]
    rw [low_eq,measured]
    rfl
  · simp [last,Call.phase,schedule]

omit some_run low enough in
theorem loopDistributedIteration_finishes {k : ℕ} (before : k < n) (high : n ≤ rule.maxRuns)
    (left : n - k ≤ fuel) {calls : List (Call T)} {res : List T}
    (held : Held times (k + 1) (calls ++ [.prepareIteration,.runIteration]) (times res.length :: res)) :
    Finishes n (n < rule.maxRuns) (Erlang.loopDistributedIteration rule times fuel calls res) := by
  induction fuel generalizing k calls res with
  | zero => omega
  | succ fuel ih =>
    have count : res.length = k := by
      have long := congrArg List.length held.results
      simpa [firstRuns_length] using long
    have same : rule.rse (times k :: res) = rule.rse (firstRuns times (k + 1)) := by
      rw [← count,held.results,count]
      exact insensitive _ _ (List.reverse_perm _)
    have last : (decide (rule.minRuns ≤ k + 1) && decide (rule.rse (times k :: res) ≤ rule.rseTarget)) = true ↔
        rule.minRuns ≤ k + 1 ∧ rule.rse (firstRuns times (k + 1)) ≤ rule.rseTarget := by
      simp [same]
    have opened : phases calls = cycles k := by
      have whole := held.calls
      simpa [Call.phase] using whole
    rw [Erlang.loopDistributedIteration]
    dsimp only
    rw [count]
    rcases (show k + 1 ≤ n from before).eq_or_lt with rfl | less
    · split
      · rename_i below
        have final : rule.minRuns ≤ k + 1 ∧ rule.rse (firstRuns times (k + 1)) ≤ rule.rseTarget := by
          have stays := not_or.mp ends
          exact ⟨not_lt.mp stays.1,not_lt.mp fun more => stays.2 ⟨below,more⟩⟩
        rw [last.mpr final]
        refine ⟨_,rfl,?_,by simp [Outcome.succeeds,below]⟩
        simp [opened,Call.phase,schedule]
      · rename_i above
        refine ⟨_,rfl,?_,by simpa [Outcome.succeeds] using above⟩
        simp [opened,Call.phase,schedule]
    · have more : ¬ (rule.minRuns ≤ k + 1 ∧ rule.rse (firstRuns times (k + 1)) ≤ rule.rseTarget) := by
        rintro ⟨enough,within⟩
        rcases goes (k + 1) less with short | ⟨_,exceeds⟩
        · omega
        · exact absurd within (not_le.mpr exceeds)
      rw [if_pos (by omega),Bool.eq_false_of_not_eq_true (last.not.mpr more)]
      apply ih less (by omega)
      have results := (held.again (times k)).results
      rw [count] at results
      exact ⟨by simp [opened,Call.phase,cycles_succ],results⟩

end Erlang

end Stop

def fourLoops (fuel : ℕ) : List (Option (Outcome T R)) :=
  [run rule times fuel,runDistributedBenchmark rule times fuel,Erlang.runCaught rule times fuel,
    Erlang.loopDistributedIteration rule times fuel [] []]

-- The four agree on the iteration to stop at and on the calls. They agree on
-- the verdict just when the target is met before the last allowed iteration:
-- at that one the two distributed loops look at no error, and one of them
-- always succeeds where the other always fails.
theorem loops_agree (some_run : 1 ≤ rule.minRuns) (ordered : rule.minRuns ≤ rule.maxRuns)
    (insensitive : ∀ left right : List T, left.Perm right → rule.rse left = rule.rse right)
    (enough : rule.maxRuns ≤ fuel) :
    (∃ n, rule.minRuns ≤ n ∧ n ≤ rule.maxRuns ∧ ∀ outcome ∈ fourLoops rule times fuel,
      ∃ out, outcome = some out ∧ phases out.calls = schedule n) ∧
    ((∃ n, rule.minRuns ≤ n ∧ n ≤ rule.maxRuns ∧ ∀ outcome ∈ fourLoops rule times fuel,
        Finishes n (rule.rse (firstRuns times n) ≤ rule.rseTarget) outcome) ↔
      ∃ n, rule.minRuns ≤ n ∧ n < rule.maxRuns ∧ rule.rse (firstRuns times n) ≤ rule.rseTarget) := by
  obtain ⟨n,low,high,ends,goes⟩ := stops_at rule times ordered
  have alone := run_finishes some_run low ends goes (by omega : n ≤ fuel)
  have shared := runDistributedBenchmark_finishes some_run low ends goes (by omega : n ≤ fuel)
  have caught := runCaught_finishes some_run low ends goes (by omega : n ≤ fuel) insensitive
  have held : Held times (0 + 1) ([] ++ [.prepareIteration,.runIteration]) (times ([] : List T).length :: []) :=
    ⟨rfl,rfl⟩
  have looped := loopDistributedIteration_finishes ends goes insensitive (by omega) high
    (by omega : n - 0 ≤ fuel) held
  have each : ∀ P : Option (Outcome T R) → Prop, (∀ outcome ∈ fourLoops rule times fuel, P outcome) ↔
      P (run rule times fuel) ∧ P (runDistributedBenchmark rule times fuel) ∧
      P (Erlang.runCaught rule times fuel) ∧ P (Erlang.loopDistributedIteration rule times fuel [] []) := by
    simp [fourLoops]
  refine ⟨⟨n,low,high,(each _).mpr
    ⟨alone.calls,shared.calls,caught.calls,looped.calls⟩⟩,?_,?_⟩
  · rintro ⟨m,low',-,all⟩
    obtain ⟨-,shared',-,looped'⟩ := (each _).mp all
    obtain ⟨rfl,within⟩ := shared.unique shared' (by omega) (by omega)
    obtain ⟨-,early⟩ := looped.unique looped' (by omega) (by omega)
    exact ⟨n,low,early.mpr (within.mp trivial),within.mp trivial⟩
  · rintro ⟨k,enough_runs,below,within⟩
    have first : n ≤ k := by
      by_contra later
      rcases goes k (not_le.mp later) with short | ⟨-,exceeds⟩
      · omega
      · exact absurd within (not_le.mpr exceeds)
    have met : rule.rse (firstRuns times n) ≤ rule.rseTarget :=
      not_lt.mp fun exceeds => ends (.inr ⟨by omega,exceeds⟩)
    refine ⟨n,low,high,(each _).mpr ⟨alone,?_,caught,?_⟩⟩
    · exact shared.congr (iff_of_true trivial met)
    · exact looped.congr (iff_of_true (by omega) met)

end Loops

-- The error stays above the target.
def noisy : Rule ℕ ℕ := ⟨2,3,0,fun _ => 1⟩

theorem noisy_verdicts_differ :
    ¬ ∃ n, noisy.minRuns ≤ n ∧ n ≤ noisy.maxRuns ∧ ∀ outcome ∈ fourLoops noisy id 3,
      Finishes n (noisy.rse (firstRuns id n) ≤ noisy.rseTarget) outcome := by
  rintro ⟨n,-,-,all⟩
  obtain ⟨out,run,-,good⟩ := all (runDistributedBenchmark noisy id 3) (by simp [fourLoops])
  have success : runDistributedBenchmark noisy id 3 = some ⟨out.calls,.ok [0,1,2]⟩ := by
    cases Option.some.inj run
    rfl
  rw [run] at success
  have ok : out.succeeds := ⟨[0,1,2],congrArg Outcome.result (Option.some.inj success)⟩
  exact absurd (good.mp ok) (by simp [noisy])

-- The error falls to the target in the second iteration.
def settling : Rule ℕ ℕ := ⟨1,3,2,fun results => 4 - results.length⟩

theorem settling_agrees : settling.minRuns ≤ 2 ∧ 2 < settling.maxRuns ∧
    ∃ n, settling.minRuns ≤ n ∧ n ≤ settling.maxRuns ∧ ∀ outcome ∈ fourLoops settling id 3,
      Finishes n (settling.rse (firstRuns id n) ≤ settling.rseTarget) outcome := by
  refine ⟨by decide,by decide,?_⟩
  have insensitive : ∀ left right : List ℕ, left.Perm right → settling.rse left = settling.rse right := by
    intro left right same
    simp [settling,same.length_eq]
  exact (loops_agree settling id (by decide) (by decide) insensitive (le_refl 3)).2.mpr
    ⟨2,by decide,by decide,by decide⟩

end KompicsBenches.StoppingRule
