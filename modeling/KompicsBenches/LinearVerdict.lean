import KompicsBenches.LinearCheck

namespace KompicsBenches.LinearVerdict

open LinearCheck

variable {ι V : Type}

-- The part of the actor that gathers the timestamps. The promise is taken once.
structure PartitioningActor (ι V : Type) where
  n : ℕ
  doneCount : ℕ
  testResults : Trace ι V
  testPromise : Bool
  fulfilled : Option (Trace ι V)

def prepared (nodes : ℕ) : PartitioningActor ι V := ⟨nodes,0,[],true,none⟩

def testDone (actor : PartitioningActor ι V) (td : Trace ι V) : Option (PartitioningActor ι V) :=
  let actor := { actor with doneCount := actor.doneCount + 1, testResults := actor.testResults ++ td }
  if actor.doneCount = actor.n then
    if actor.testPromise then some { actor with testPromise := false, fulfilled := some actor.testResults }
    else none
  else some actor

def collect (nodes : ℕ) (arrivals : List (Trace ι V)) : Option (Trace ι V) := do
  let actor ← arrivals.foldlM testDone (prepared nodes)
  actor.fulfilled

def NotLater (x y : KVTimestamp ι V) : Prop := x.time ≤ y.time

instance : DecidableRel (NotLater : KVTimestamp ι V → KVTimestamp ι V → Prop) :=
  fun x y => inferInstanceAs (Decidable (x.time ≤ y.time))
instance : Std.Total (NotLater : KVTimestamp ι V → KVTimestamp ι V → Prop) := ⟨fun _ _ => le_total _ _⟩
instance : IsTrans (KVTimestamp ι V) NotLater := ⟨fun _ _ _ => le_trans⟩

-- The group of a key, sorted by time. The sort is stable.
def keyTrace (timestamps : Trace ι V) (key : ℕ) : Trace ι V :=
  (timestamps.filter (fun x => x.key = key)).insertionSort NotLater

-- The groups come out of a hash map: `keys` is the order of one iteration.
-- `removeOp` asserts that a trace gets shorter, so its length bounds the calls.
def allLinearizable [DecidableEq ι] [DecidableEq V] [Zero V] (timestamps : Trace ι V) : List ℕ → Option Bool
  | [] => some true
  | key :: keys => do
    let trace := keyTrace timestamps key
    let (linearizable,_) ← isLinearizable (trace.length + 1) trace [0]
    if linearizable then allLinearizable timestamps keys else some false

theorem gather_run (arrivals : List (Trace ι V)) {actor : PartitioningActor ι V} (some_left : arrivals ≠ [])
    (waits : actor.testPromise = true) (count : actor.doneCount + arrivals.length = actor.n) :
    (do let last ← arrivals.foldlM testDone actor; last.fulfilled) =
      some (actor.testResults ++ arrivals.flatten) := by
  induction arrivals generalizing actor with
  | nil => exact absurd rfl some_left
  | cons td rest ih =>
    cases rest with
    | nil =>
      have full : actor.doneCount + 1 = actor.n := by simpa using count
      simp [testDone,full,waits]
    | cons next rest =>
      have more : actor.doneCount + 1 ≠ actor.n := by
        simp only [List.length_cons] at count
        omega
      have step : testDone actor td = some { actor with
          doneCount := actor.doneCount + 1, testResults := actor.testResults ++ td } := by
        simp [testDone,more]
      rw [List.foldlM_cons,step]
      simp only [Option.bind_eq_bind,Option.bind_some]
      have inner := @ih { actor with doneCount := actor.doneCount + 1, testResults := actor.testResults ++ td }
        (by simp) waits (by simp only [List.length_cons] at count ⊢; omega)
      simpa using inner

theorem collect_eq {arrivals : List (Trace ι V)} (some_node : arrivals ≠ []) :
    collect arrivals.length arrivals = some arrivals.flatten := by
  have start : (prepared arrivals.length : PartitioningActor ι V).doneCount + arrivals.length =
      (prepared arrivals.length : PartitioningActor ι V).n := by
    simp [prepared]
  have run := gather_run arrivals some_node rfl start
  simpa [collect,prepared] using run

theorem keyTrace_perm (timestamps : Trace ι V) (key : ℕ) :
    (keyTrace timestamps key).Perm (timestamps.filter (fun x => x.key = key)) :=
  List.perm_insertionSort _ _

theorem mem_keyTrace {timestamps : Trace ι V} :
    entry ∈ keyTrace timestamps key ↔ entry ∈ timestamps ∧ entry.key = key := by
  rw [(keyTrace_perm timestamps key).mem_iff,List.mem_filter,decide_eq_true_eq]

theorem keyTrace_sorted (timestamps : Trace ι V) (key : ℕ) :
    (keyTrace timestamps key).Pairwise NotLater :=
  List.pairwise_insertionSort _ _

-- What the nodes of one run report: one list for each rank, and in it one
-- operation for each key it names, in the order of its events. Nothing is said
-- of the clocks.
structure OneRun (results : List (ι × Trace ι V)) : Prop where
  some_node : results ≠ []
  ranks : (results.map Prod.fst).Nodup
  senders : ∀ node ∈ results, ∀ entry ∈ node.2, entry.sender = node.1
  operations : ∀ node ∈ results, ∀ entry ∈ node.2,
    isOperation (node.2.filter (fun x => x.key = entry.key)) = true

-- No response of one node and invocation of another, on one key, at one time.
def Apart (timestamps : Trace ι V) : Prop :=
  ∀ answer ∈ timestamps, ∀ call ∈ timestamps, answer.operation.isInvokation = false →
    call.operation.isInvokation = true → answer.key = call.key → answer.sender ≠ call.sender →
    answer.time ≠ call.time

def gathered (results : List (ι × Trace ι V)) : Trace ι V := (results.map Prod.snd).flatten

theorem OneRun.perm {results other : List (ι × Trace ι V)} (run : OneRun results)
    (same : other.Perm results) : OneRun other where
  some_node := by
    rintro rfl
    exact run.some_node same.symm.eq_nil
  ranks := (same.map Prod.fst).nodup_iff.mpr run.ranks
  senders node member := run.senders node (same.mem_iff.mp member)
  operations node member := run.operations node (same.mem_iff.mp member)

theorem mem_gathered {results : List (ι × Trace ι V)} :
    entry ∈ gathered results ↔ ∃ node ∈ results, entry ∈ node.2 := by
  rw [gathered,← List.flatMap_def,List.mem_flatMap]

theorem event_res {entry : KVTimestamp ι V} (returns : entry.event = .res i out) :
    entry.sender = i ∧ entry.operation.isInvokation = false ∧
      (entry.operation = .readResponse ∧ out = some entry.value ∨ entry.operation = .writeResponse ∧ out = none) := by
  unfold KVTimestamp.event at returns
  split at returns <;> cases returns
  · rename_i kind
    exact ⟨rfl,by rw [kind]; rfl,.inl ⟨kind,rfl⟩⟩
  · rename_i kind
    exact ⟨rfl,by rw [kind]; rfl,.inr ⟨kind,rfl⟩⟩

theorem event_inv {entry : KVTimestamp ι V} (calls : entry.event = .inv i op) :
    entry.sender = i ∧ entry.operation.isInvokation = true ∧
      (entry.operation = .readInvokation ∧ op = .read ∨
        entry.operation = .writeInvokation ∧ op = .write entry.value) := by
  unfold KVTimestamp.event at calls
  split at calls <;> cases calls
  · rename_i kind
    exact ⟨rfl,by rw [kind]; rfl,.inl ⟨kind,rfl⟩⟩
  · rename_i kind
    exact ⟨rfl,by rw [kind]; rfl,.inr ⟨kind,rfl⟩⟩

theorem entries_ordered {h : Trace ι V} (ordered : [Histories.Event.res i out,Histories.Event.inv j op].Sublist (LinearCheck.history h)) :
    ∃ answer call, [answer,call].Sublist h ∧ answer.event = .res i out ∧ call.event = .inv j op := by
  obtain ⟨both,placed,shape⟩ := List.sublist_map_iff.mp ordered
  obtain ⟨answer,rest,rfl,returns,tail⟩ := List.map_eq_cons_iff.mp shape.symm
  obtain ⟨call,rest,rfl,calls,nothing⟩ := List.map_eq_cons_iff.mp tail
  cases List.map_eq_nil_iff.mp nothing
  exact ⟨answer,call,placed,returns,calls⟩

variable [DecidableEq ι]

theorem OneRun.own {results : List (ι × Trace ι V)} (run : OneRun results) (member : node ∈ results) :
    (gathered results).filter (fun x => x.sender = node.1) = node.2 := by
  have senders := run.senders
  have ranks := run.ranks
  clear run
  -- The lists of the other ranks hold nothing of this sender.
  have foreign : ∀ others : List (ι × Trace ι V), (∀ other ∈ others, other.1 ≠ node.1) →
      (∀ other ∈ others, ∀ entry ∈ other.2, entry.sender = other.1) →
      (gathered others).filter (fun x => x.sender = node.1) = [] := by
    intro others apart senders
    apply List.filter_eq_nil_iff.mpr
    intro entry inside
    obtain ⟨other,found,entry_in⟩ := mem_gathered.mp inside
    simpa [senders other found entry entry_in] using apart other found
  obtain ⟨before,after,rfl⟩ := List.append_of_mem member
  have split : gathered (before ++ node :: after) = gathered before ++ (node.2 ++ gathered after) := by
    simp [gathered]
  rw [List.map_append,List.map_cons,List.nodup_middle] at ranks
  have unseen := (List.nodup_cons.mp ranks).1
  have distinct : ∀ other ∈ before ++ after, other.1 ≠ node.1 := by
    intro other found same
    rw [← List.map_append] at unseen
    exact unseen (List.mem_map.mpr ⟨other,found,same⟩)
  rw [split,List.filter_append,List.filter_append,
    foreign before (fun other found => distinct other (by simp [found]))
      (fun other found => senders other (by simp [found])),
    foreign after (fun other found => distinct other (by simp [found]))
      (fun other found => senders other (by simp [found])),List.nil_append,List.append_nil]
  apply List.filter_eq_self.mpr
  intro entry inside
  simp [senders node member entry inside]

-- A stable sort keeps the two events of a sender in their order, unless its
-- clock went back between them.
theorem OneRun.own_keyTrace {results : List (ι × Trace ι V)} (run : OneRun results)
    (member : entry ∈ keyTrace (gathered results) key) :
    ∃ call answer, isOperation [call,answer] = true ∧
      (keyTrace (gathered results) key).filter (fun x => x.sender = entry.sender) =
        if call.time ≤ answer.time then [call,answer] else [answer,call] := by
  obtain ⟨inside,named⟩ := mem_keyTrace.mp member
  obtain ⟨node,found,reported⟩ := mem_gathered.mp inside
  have operation := run.operations node found entry reported
  obtain ⟨call,answer,events,-⟩ := isOperation_cases operation
  rw [events] at operation
  refine ⟨call,answer,operation,?_⟩
  have own : ((gathered results).filter (fun x => x.key = key)).filter (fun x => x.sender = entry.sender) =
      [call,answer] := by
    rw [run.senders node found entry reported,List.filter_comm,run.own found,← named,events]
  have pair : ((keyTrace (gathered results) key).filter (fun x => x.sender = entry.sender)).Perm
      [call,answer] := by
    rw [← own]
    exact (keyTrace_perm _ _).filter _
  have ordered : ∀ first second, [first,second].Perm [call,answer] →
      [first,second].Sublist (keyTrace (gathered results) key) →
      (keyTrace (gathered results) key).filter (fun x => x.sender = entry.sender) = [first,second] := by
    intro first second same placed
    have kept := placed.filter (fun x => decide (x.sender = entry.sender))
    have both : ∀ x ∈ [first,second], x.sender = entry.sender := by
      intro x here
      have there := pair.mem_iff.mpr (same.mem_iff.mp here)
      simpa using (List.mem_filter.mp there).2
    rw [List.filter_eq_self.mpr (fun x here => decide_eq_true (both x here))] at kept
    exact (kept.eq_of_length (by rw [pair.length_eq]; rfl)).symm
  split
  · rename_i early
    apply ordered call answer (List.Perm.refl _)
    apply List.pair_sublist_insertionSort (show NotLater call answer from early)
    rw [← own]
    exact List.filter_sublist
  · rename_i late
    apply ordered answer call (List.Perm.swap _ _ _)
    have there : ∀ x ∈ [call,answer], x ∈ keyTrace (gathered results) key := by
      intro x here
      exact (List.mem_filter.mp (pair.mem_iff.mpr here)).1
    exact Histories.sorted_pair (keyTrace_sorted _ _) (there answer (by simp)) (there call (by simp))
      (not_le.mp late)

omit [DecidableEq ι] in
theorem not_both_operation {x y : KVTimestamp ι V} (first : isOperation [x,y] = true) :
    isOperation [y,x] ≠ true := by
  obtain ⟨_,_,same,kind⟩ := isOperation_cases first
  cases same
  rcases kind with ⟨reads,returns,-⟩ | ⟨writes,acks,-⟩
  · simp [isOperation,reads,returns]
  · simp [isOperation,writes,acks]

theorem OneRun.paired {results : List (ι × Trace ι V)} (run : OneRun results) (key : ℕ) :
    Paired (keyTrace (gathered results) key) := by
  intro entry member
  obtain ⟨call,answer,operation,own⟩ := run.own_keyTrace member
  rw [own]
  split
  · exact .inl operation
  · exact .inr (by simpa using operation)

section Orders
variable {results other : List (ι × Trace ι V)} (same : other.Perm results)
include same

omit [DecidableEq ι] in
theorem gathered_perm : (gathered other).Perm (gathered results) :=
  (same.map Prod.snd).flatten

omit [DecidableEq ι] in
theorem keyTrace_same (key : ℕ) :
    (keyTrace (gathered other) key).Perm (keyTrace (gathered results) key) :=
  (keyTrace_perm _ _).trans (((gathered_perm same).filter _).trans (keyTrace_perm _ _).symm)

theorem OneRun.complete_same (run : OneRun results) (complete : Complete (keyTrace (gathered results) key)) :
    Complete (keyTrace (gathered other) key) := by
  intro entry member
  have there := (keyTrace_same same key).mem_iff.mp member
  have known := complete entry there
  obtain ⟨call,answer,operation,own⟩ := run.own_keyTrace there
  obtain ⟨call',answer',operation',own'⟩ := (run.perm same).own_keyTrace member
  have entries := (keyTrace_same same key).filter (fun x => decide (x.sender = entry.sender))
  have punctual : call.time ≤ answer.time := by
    by_contra late
    rw [own,if_neg late] at known
    exact not_both_operation operation known
  rw [own,if_pos punctual] at entries
  -- The two entries are the same ones, and only one order makes an operation.
  have equal : call' = call ∧ answer' = answer := by
    have pair : [call',answer'].Perm [call,answer] := by
      rw [own'] at entries
      split at entries
      · exact entries
      · exact (List.Perm.swap _ _ _).trans entries
    rcases List.mem_pair.mp (pair.mem_iff.mp (by simp : call' ∈ [call',answer'])) with rfl | rfl
    · have rest := List.perm_cons _ |>.mp pair
      exact ⟨rfl,List.singleton_inj.mp (List.perm_singleton.mp rest)⟩
    · have rest := List.perm_cons _ |>.mp (pair.trans (List.Perm.swap _ _ _))
      cases List.singleton_inj.mp (List.perm_singleton.mp rest)
      exact absurd operation (not_both_operation operation')
  obtain ⟨rfl,rfl⟩ := equal
  rw [own',if_pos punctual]
  exact operation'

theorem OneRun.explained_same (run : OneRun results) (apart : Apart (gathered results))
    (complete : Complete (keyTrace (gathered results) key))
    (explained : Explained current (keyTrace (gathered results) key)) :
    Explained current (keyTrace (gathered other) key) := by
  have complete' := run.complete_same same complete
  have entries := keyTrace_same same key
  obtain ⟨order,valid⟩ := explained
  refine ⟨order,complete.history.transfer complete'.history ?_ ?_ valid⟩
  · intro event
    simp only [history,List.mem_map,entries.mem_iff]
  · intro i out j op ordered
    obtain ⟨answer,call,placed,returns,calls⟩ := entries_ordered ordered
    obtain ⟨rfl,answers,-⟩ := event_res returns
    obtain ⟨rfl,invokes,-⟩ := event_inv calls
    have foreign : answer.sender ≠ call.sender := by
      intro same
      rw [same] at ordered
      exact complete'.history.response_last ordered
    have inside : ∀ x ∈ [answer,call], x ∈ keyTrace (gathered results) key :=
      fun x here => entries.mem_iff.mp (placed.subset here)
    obtain ⟨answer_in,answer_key⟩ := mem_keyTrace.mp (inside answer (by simp))
    obtain ⟨call_in,call_key⟩ := mem_keyTrace.mp (inside call (by simp))
    have distinct := apart answer answer_in call call_in answers invokes (answer_key.trans call_key.symm) foreign
    have sorted := List.Pairwise.sublist placed (keyTrace_sorted (gathered other) key)
    have early : NotLater answer call := List.pairwise_pair.mp sorted
    have before := Histories.sorted_pair (keyTrace_sorted (gathered results) key)
      (inside answer (by simp)) (inside call (by simp)) (lt_of_le_of_ne early distinct)
    simpa [history,returns,calls] using before.map KVTimestamp.event

end Orders

section Verdict
variable [DecidableEq V] [Zero V]

-- The verdict of one collection: all keys of it, whatever the iteration order.
def Accepted (timestamps : Trace ι V) (key : ℕ) : Prop :=
  Complete (keyTrace timestamps key) ∧ Explained (some 0) (keyTrace timestamps key)

theorem allLinearizable_decides {timestamps : Trace ι V}
    (paired : ∀ key, Paired (keyTrace timestamps key)) (keys : List ℕ) :
    ∃ verdict, allLinearizable timestamps keys = some verdict ∧
      (verdict = true ↔ ∀ key ∈ keys, Accepted timestamps key) := by
  induction keys with
  | nil => exact ⟨true,rfl,by simp⟩
  | cons key keys ih =>
    obtain ⟨later,rest,correct⟩ := ih
    obtain ⟨verdict,after,run,decides,-⟩ := search_paired removeOp_member
      ((keyTrace timestamps key).length + 1) (paired key) (by omega) (rfl : [(0 : V)].getLast? = some 0)
    rw [allLinearizable,isLinearizable,run]
    simp only [Option.bind_eq_bind,Option.bind_some,List.forall_mem_cons,← correct]
    cases verdict with
    | true => exact ⟨later,rest,by simpa [Accepted] using fun _ => decides.mp rfl⟩
    | false =>
      refine ⟨false,rfl,by simp,?_⟩
      rintro ⟨accepted,-⟩
      exact decides.mpr accepted

-- A run of the test: the messages arrive, then the keys are checked.
def testVerdict (arrivals : List (ι × Trace ι V)) (keys : List ℕ) : Option Bool := do
  let results ← collect arrivals.length (arrivals.map Prod.snd)
  allLinearizable results keys

theorem testVerdict_decides {arrivals : List (ι × Trace ι V)} (run : OneRun arrivals) (keys : List ℕ) :
    ∃ verdict, testVerdict arrivals keys = some verdict ∧
      (verdict = true ↔ ∀ key ∈ keys, Accepted (gathered arrivals) key) := by
  obtain ⟨verdict,checked,decides⟩ := allLinearizable_decides run.paired keys
  refine ⟨verdict,?_,decides⟩
  have collected : collect (arrivals.map Prod.snd).length (arrivals.map Prod.snd) = _ :=
    collect_eq (by simpa using run.some_node)
  rw [List.length_map] at collected
  rw [testVerdict,collected]
  exact checked

-- All arrival orders, and all orders of the key groups, give one verdict.
def OrderFree (results : List (ι × Trace ι V)) : Prop :=
  ∃ verdict, ∀ arrivals keys, arrivals.Perm results → keys.Perm ((gathered results).map KVTimestamp.key).dedup →
    testVerdict arrivals keys = some verdict

theorem order_free_of {results : List (ι × Trace ι V)} (run : OneRun results)
    (accepted : ∀ arrivals key, arrivals.Perm results →
      key ∈ ((gathered results).map KVTimestamp.key).dedup →
      (Accepted (gathered arrivals) key ↔ Accepted (gathered results) key)) : OrderFree results := by
  obtain ⟨verdict,-,decides⟩ := testVerdict_decides run ((gathered results).map KVTimestamp.key).dedup
  refine ⟨verdict,?_⟩
  intro arrivals keys same groups
  obtain ⟨verdict',checked,decides'⟩ := testVerdict_decides (run.perm same) keys
  have equal : verdict' = verdict := by
    rw [Bool.eq_iff_iff,decides,decides']
    constructor
    · intro all key member
      exact (accepted arrivals key same member).mp (all key (groups.mem_iff.mpr member))
    · intro all key member
      have inside := groups.mem_iff.mp member
      exact (accepted arrivals key same inside).mpr (all key inside)
  rw [checked,equal]

theorem Apart.order_free {results : List (ι × Trace ι V)} (run : OneRun results) (apart : Apart (gathered results)) :
    OrderFree results := by
  apply order_free_of run
  intro arrivals key same _
  have run' := run.perm same
  have apart' : Apart (gathered arrivals) := by
    intro answer first call second
    exact apart answer ((gathered_perm same).mem_iff.mp first) call ((gathered_perm same).mem_iff.mp second)
  constructor
  · rintro ⟨complete,explained⟩
    exact ⟨run'.complete_same same.symm complete,run'.explained_same same.symm apart' complete explained⟩
  · rintro ⟨complete,explained⟩
    exact ⟨run.complete_same same complete,run.explained_same same apart complete explained⟩

end Verdict

end KompicsBenches.LinearVerdict
