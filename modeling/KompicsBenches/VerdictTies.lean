import KompicsBenches.LinearVerdict

namespace KompicsBenches.LinearVerdict

open LinearCheck Histories

variable {ι V : Type} {h : Trace ι V}

theorem isOperation_kinds {call answer : KVTimestamp ι V} (operation : isOperation [call,answer] = true) :
    call.operation.isInvokation = true ∧ answer.operation.isInvokation = false := by
  obtain ⟨_,_,same,kind⟩ := isOperation_cases operation
  cases same
  rcases kind with ⟨reads,returns,-⟩ | ⟨writes,acks,-⟩
  · simp [reads,returns,KVOperation.isInvokation]
  · simp [writes,acks,KVOperation.isInvokation]

-- The two entries of one sender in a complete trace.
structure Own (h : Trace ι V) (i : ι) (call answer : KVTimestamp ι V) : Prop where
  placed : [call,answer].Sublist h
  calls : call.sender = i ∧ call.operation.isInvokation = true
  returns : answer.sender = i ∧ answer.operation.isInvokation = false
  only : ∀ x ∈ h, x.sender = i → x = call ∨ x = answer
  kind : call.operation = .readInvokation ∧ answer.operation = .readResponse ∨
    call.operation = .writeInvokation ∧ answer.operation = .writeResponse

theorem Own.the_answer {call answer : KVTimestamp ι V} (own : Own h i call answer) (member : x ∈ h)
    (sender : x.sender = i) (returns : x.operation.isInvokation = false) : x = answer := by
  rcases own.only x member sender with rfl | same
  · rw [own.calls.2] at returns
    cases returns
  · exact same

theorem Own.the_call {call answer : KVTimestamp ι V} (own : Own h i call answer) (member : x ∈ h)
    (sender : x.sender = i) (calls : x.operation.isInvokation = true) : x = call := by
  rcases own.only x member sender with same | rfl
  · exact same
  · rw [own.returns.2] at calls
    cases calls

-- A response that is timed before its own invocation.
def Backward (timestamps : Trace ι V) : Prop :=
  ∃ call ∈ timestamps, ∃ answer ∈ timestamps, call.sender = answer.sender ∧ call.key = answer.key ∧
    call.operation.isInvokation = true ∧ answer.operation.isInvokation = false ∧ answer.time < call.time

-- The same events at the same times, whatever was read or written.
def stamp (x : KVTimestamp ι V) : ℕ × Bool × ℤ × ι := (x.key,x.operation.isInvokation,x.time,x.sender)

def SameTimes (contents results : List (ι × Trace ι V)) : Prop :=
  contents.map (fun node => (node.1,node.2.map stamp)) = results.map fun node => (node.1,node.2.map stamp)

section Times
variable {contents results : List (ι × Trace ι V)}

theorem SameTimes.gathered (same : SameTimes contents results) :
    (LinearVerdict.gathered contents).map stamp = (LinearVerdict.gathered results).map stamp := by
  have both := congrArg (fun nodes => (nodes.map Prod.snd).flatten) same
  simp only [List.map_map,Function.comp_def] at both
  simpa [LinearVerdict.gathered,List.map_flatten,Function.comp_def] using both

theorem SameTimes.entry (same : SameTimes contents results) (member : x ∈ LinearVerdict.gathered contents) :
    ∃ y ∈ LinearVerdict.gathered results, stamp y = stamp x := by
  have found : stamp x ∈ (LinearVerdict.gathered contents).map stamp := List.mem_map_of_mem member
  rw [same.gathered] at found
  exact List.mem_map.mp found

theorem SameTimes.apart (same : SameTimes contents results) (apart : Apart (LinearVerdict.gathered results)) :
    Apart (LinearVerdict.gathered contents) := by
  intro answer answer_in call call_in returns calls key sender
  obtain ⟨first,first_in,first_same⟩ := same.entry answer_in
  obtain ⟨second,second_in,second_same⟩ := same.entry call_in
  simp only [stamp,Prod.mk.injEq] at first_same second_same
  have distinct := apart first first_in second second_in (by rw [first_same.2.1,returns])
    (by rw [second_same.2.1,calls]) (by rw [first_same.1,second_same.1,key])
    (by rw [first_same.2.2.2,second_same.2.2.2]; exact sender)
  rw [first_same.2.2.1,second_same.2.2.1] at distinct
  exact distinct

theorem SameTimes.backward (same : SameTimes contents results) (backward : Backward (LinearVerdict.gathered results)) :
    Backward (LinearVerdict.gathered contents) := by
  obtain ⟨call,call_in,answer,answer_in,sender,key,calls,returns,late⟩ := backward
  obtain ⟨first,first_in,first_same⟩ := SameTimes.entry same.symm call_in
  obtain ⟨second,second_in,second_same⟩ := SameTimes.entry same.symm answer_in
  simp only [stamp,Prod.mk.injEq] at first_same second_same
  refine ⟨first,first_in,second,second_in,?_,?_,?_,?_,?_⟩
  · rw [first_same.2.2.2,second_same.2.2.2,sender]
  · rw [first_same.1,second_same.1,key]
  · rw [first_same.2.1,calls]
  · rw [second_same.2.1,returns]
  · rw [first_same.2.2.1,second_same.2.2.1]
    exact late

end Times

-- The times of a tie: the response of `i` and the call of `j` on one key.
structure Tie (results : List (ι × Trace ι V)) (i j : ι) (k : ℕ) (t : ℤ) : Prop where
  apart : i ≠ j
  answer : ∃ a ∈ gathered results, a.sender = i ∧ a.key = k ∧ a.operation.isInvokation = false ∧ a.time = t
  call : ∃ c ∈ gathered results, c.sender = j ∧ c.key = k ∧ c.operation.isInvokation = true ∧ c.time = t

section Arrivals
variable {results : List (ι × Trace ι V)}

theorem tie_of_not_apart (tied : ¬Apart (gathered results)) : ∃ i j k t, Tie results i j k t := by
  unfold Apart at tied
  push Not at tied
  obtain ⟨answer,answer_in,call,call_in,returns,calls,key,sender,time⟩ := tied
  exact ⟨answer.sender,call.sender,call.key,call.time,sender,
    ⟨answer,answer_in,rfl,key,returns,time⟩,⟨call,call_in,rfl,rfl,calls,rfl⟩⟩

-- Any node can be the first one to arrive.
theorem arrives_first (run : OneRun results) (member : x ∈ gathered results) :
    ∃ node others, node.1 = x.sender ∧ (node :: others).Perm results := by
  obtain ⟨node,reported,inside⟩ := mem_gathered.mp member
  obtain ⟨before,after,rfl⟩ := List.append_of_mem reported
  exact ⟨node,before ++ after,(run.senders node reported x inside).symm,List.perm_middle.symm⟩

end Arrivals

-- On a tie the list that was collected first goes first.
theorem first_collected {node : ι × Trace ι V} {others : List (ι × Trace ι V)} (mine : x ∈ node.2)
    (theirs : y ∈ gathered others) (key : x.key = y.key) (time : x.time ≤ y.time) :
    [x,y].Sublist (keyTrace (gathered (node :: others)) y.key) := by
  apply List.pair_sublist_insertionSort (show NotLater x y from time)
  have placed : [x,y].Sublist (gathered (node :: others)) := by
    have split : gathered (node :: others) = node.2 ++ gathered others := by simp [gathered]
    rw [split]
    exact (List.singleton_sublist.mpr mine).append (List.singleton_sublist.mpr theirs)
  have kept := placed.filter (fun z => decide (z.key = y.key))
  rw [List.filter_cons_of_pos (by simpa using key),List.filter_cons_of_pos (by simp)] at kept
  exact kept

variable [DecidableEq ι]

theorem own_entries (complete : LinearCheck.Complete h) (member : x ∈ h) :
    ∃ call answer, Own h x.sender call answer := by
  obtain ⟨call,answer,events,caller,answerer,kind⟩ := complete.operation member
  have operation := complete x member
  rw [events] at operation
  obtain ⟨calls,returns⟩ := isOperation_kinds operation
  refine ⟨call,answer,?_,⟨caller,calls⟩,⟨answerer,returns⟩,?_,?_⟩
  · rw [← events]
    exact List.filter_sublist
  · intro y inside same
    have kept : y ∈ h.filter (fun z => z.sender = x.sender) := List.mem_filter.mpr ⟨inside,decide_eq_true same⟩
    rw [events] at kept
    simpa using kept
  · rcases kind with ⟨reads,returns,-⟩ | ⟨writes,acks,-⟩
    · exact .inl ⟨reads,returns⟩
    · exact .inr ⟨writes,acks⟩

-- One write of `v`, and reads that return it exactly when they end late: as late as
-- the write begins or later.
structure Scene [Zero V] (v : V) (late : ℤ → Bool) (h : Trace ι V) : Prop where
  complete : LinearCheck.Complete h
  sorted : h.Pairwise NotLater
  upward : ∀ a b, a ≤ b → late a = true → late b = true
  write : ∀ x ∈ h, x.operation = .writeInvokation → x.value = some v ∧ late x.time = true
  single : ∀ x ∈ h, ∀ y ∈ h, x.operation = .writeInvokation → y.operation = .writeInvokation → x.sender = y.sender
  reads : ∀ x ∈ h, x.operation = .readResponse → x.value = some (if late x.time then v else 0)
  written : ∀ x ∈ h, x.operation = .readResponse → late x.time = true → ∃ y ∈ h, y.operation = .writeInvokation
  first : ∀ x y, [x,y].Sublist h → y.operation = .writeInvokation → x.sender ≠ y.sender → late x.time = false

def lateTag (late : ℤ → Bool) (h : Trace ι V) (i : ι) : ℕ :=
  if h.any (fun x => x.sender = i && !x.operation.isInvokation && late x.time) then 1 else 0

theorem Own.tag {call answer : KVTimestamp ι V} (own : Own h i call answer) (late : ℤ → Bool) :
    lateTag late h i = if late answer.time then 1 else 0 := by
  have found : h.any (fun x => x.sender = i && !x.operation.isInvokation && late x.time) = late answer.time := by
    rw [Bool.eq_iff_iff,List.any_eq_true]
    constructor
    · rintro ⟨x,member,holds⟩
      simp only [Bool.and_eq_true,decide_eq_true_eq,Bool.not_eq_true'] at holds
      rw [← own.the_answer member holds.1.1 holds.1.2]
      exact holds.2
    · intro ends_late
      refine ⟨answer,own.placed.subset (by simp),?_⟩
      simp [own.returns.1,own.returns.2,ends_late]
  rw [lateTag,found]

section Scenes
variable [Zero V] {v : V} {late : ℤ → Bool}

theorem Scene.isWrite_iff (scene : Scene v late h) :
    isWrite (LinearCheck.history h) i = true ↔ ∃ x ∈ h, x.operation = .writeInvokation ∧ x.sender = i := by
  rw [Histories.isWrite_iff]
  constructor
  · rintro ⟨value,found⟩
    obtain ⟨x,member,calls⟩ := List.mem_map.mp (opOf_mem found)
    obtain ⟨sender,-,kind⟩ := event_inv calls
    rcases kind with ⟨-,read⟩ | ⟨writes,-⟩
    · cases read
    · exact ⟨x,member,writes,sender⟩
  · rintro ⟨x,member,writes,rfl⟩
    have invoked : Event.inv x.sender (.write x.value) ∈ LinearCheck.history h := by
      refine List.mem_map.mpr ⟨x,member,?_⟩
      simp [KVTimestamp.event,writes]
    exact ⟨x.value,scene.complete.history.opOf_eq invoked⟩

-- The sorted trace keeps the response of a sender behind its invocation.
theorem Scene.call_late (scene : Scene v late h) {call answer : KVTimestamp ι V} (own : Own h i call answer)
    (begins_late : late call.time = true) : lateTag late h i = 1 := by
  have sorted : NotLater call answer := List.pairwise_pair.mp (scene.sorted.sublist own.placed)
  rw [own.tag late,if_pos (scene.upward _ _ sorted begins_late)]

theorem Scene.write_tag (scene : Scene v late h) (member : x ∈ h) (writes : x.operation = .writeInvokation) :
    lateTag late h x.sender = 1 := by
  obtain ⟨call,answer,own⟩ := own_entries scene.complete member
  have same := own.the_call member rfl (by rw [writes]; rfl)
  subst same
  exact scene.call_late own (scene.write x member writes).2

theorem Scene.realtime (scene : Scene v late h)
    (ordered : [Event.res i out,Event.inv j op].Sublist (LinearCheck.history h)) :
    lateTag late h i ≤ lateTag late h j ∧ (op ≠ .read → lateTag late h i < lateTag late h j) := by
  obtain ⟨x,y,placed,returns,calls⟩ := entries_ordered ordered
  obtain ⟨rfl,answers,-⟩ := event_res returns
  obtain ⟨rfl,invokes,kind⟩ := event_inv calls
  have x_in : x ∈ h := placed.subset (by simp)
  have y_in : y ∈ h := placed.subset (by simp)
  obtain ⟨_,answer,own⟩ := own_entries scene.complete x_in
  obtain ⟨call,_,other⟩ := own_entries scene.complete y_in
  have same := own.the_answer x_in rfl answers
  subst same
  have same := other.the_call y_in rfl invokes
  subst same
  have sorted : NotLater x y := List.pairwise_pair.mp (scene.sorted.sublist placed)
  constructor
  · rw [own.tag late]
    split
    · rename_i ends_late
      rw [scene.call_late other (scene.upward _ _ sorted ends_late)]
    · exact Nat.zero_le _
  · intro not_read
    have writes : y.operation = .writeInvokation := by
      rcases kind with ⟨-,read⟩ | ⟨writes,-⟩
      · exact absurd read not_read
      · exact writes
    have apart : x.sender ≠ y.sender := by
      intro same
      rw [same] at ordered
      exact scene.complete.history.response_last ordered
    rw [scene.write_tag y_in writes,own.tag late,if_neg (by rw [scene.first x y placed writes apart]; decide)]
    exact Nat.zero_lt_one

theorem Scene.tagged (scene : Scene v late h) :
    Tagged (some (0 : V)) 0 (LinearCheck.history h) (lateTag late h) (h.map KVTimestamp.sender).dedup where
  nodup := List.nodup_dedup _
  answered i out found := by
    obtain ⟨x,member,returns⟩ := List.mem_map.mp found
    rw [List.mem_dedup,← (event_res returns).1]
    exact List.mem_map_of_mem member
  invoked i member := by
    obtain ⟨x,inside,rfl⟩ := List.mem_map.mp (List.mem_dedup.mp member)
    obtain ⟨call,answer,own⟩ := own_entries scene.complete inside
    have call_in : call ∈ h := own.placed.subset (by simp)
    rcases own.kind with ⟨reads,-⟩ | ⟨writes,-⟩
    · refine ⟨.read,List.mem_map.mpr ⟨call,call_in,?_⟩⟩
      simp [KVTimestamp.event,reads,own.calls.1]
    · refine ⟨.write call.value,List.mem_map.mpr ⟨call,call_in,?_⟩⟩
      simp [KVTimestamp.event,writes,own.calls.1]
  realtime i _ j _ out op ordered := scene.realtime ordered
  apart i _ j _ first second _ := by
    obtain ⟨x,x_in,x_writes,rfl⟩ := scene.isWrite_iff.mp first
    obtain ⟨y,y_in,y_writes,rfl⟩ := scene.isWrite_iff.mp second
    exact scene.single x x_in y y_in x_writes y_writes
  above i _ marked := by
    obtain ⟨x,member,writes,rfl⟩ := scene.isWrite_iff.mp marked
    rw [scene.write_tag member writes]
    exact Nat.zero_lt_one
  source i value _ found := by
    obtain ⟨x,member,returns⟩ := List.mem_map.mp found
    obtain ⟨rfl,answers,kind⟩ := event_res returns
    rcases kind with ⟨returned,filled⟩ | ⟨-,empty⟩
    · cases filled
      obtain ⟨call,answer,own⟩ := own_entries scene.complete member
      have same := own.the_answer member rfl answers
      subst same
      rw [own.tag late,scene.reads x member returned]
      split
      · rename_i ends_late
        obtain ⟨y,y_in,writes⟩ := scene.written x member returned ends_late
        refine .inr ⟨y.sender,List.mem_dedup.mpr (List.mem_map_of_mem y_in),?_,scene.write_tag y_in writes⟩
        apply scene.complete.history.opOf_eq
        refine List.mem_map.mpr ⟨y,y_in,?_⟩
        simp [KVTimestamp.event,writes,(scene.write y y_in writes).1]
      · exact .inl ⟨rfl,rfl⟩
    · cases empty

theorem Scene.explained (scene : Scene v late h) : Explained (some 0) h :=
  linearizable_of_tags scene.complete.history.wellFormed scene.tagged

end Scenes

section Runs
variable {results : List (ι × Trace ι V)}

theorem OneRun.forward (run : OneRun results) (forward : ¬Backward (gathered results)) (key : ℕ) :
    LinearCheck.Complete (keyTrace (gathered results) key) := by
  intro entry member
  obtain ⟨call,answer,operation,own⟩ := run.own_keyTrace member
  have inside : ∀ x ∈ [call,answer], x ∈ gathered results ∧ x.key = key ∧ x.sender = entry.sender := by
    intro x here
    have kept : x ∈ (keyTrace (gathered results) key).filter (fun x => x.sender = entry.sender) := by
      rw [own]
      split
      · exact here
      · simpa [or_comm] using here
    rw [List.mem_filter,mem_keyTrace,decide_eq_true_eq] at kept
    exact ⟨kept.1.1,kept.1.2,kept.2⟩
  obtain ⟨call_in,call_key,call_sender⟩ := inside call (by simp)
  obtain ⟨answer_in,answer_key,answer_sender⟩ := inside answer (by simp)
  have punctual : call.time ≤ answer.time := by
    by_contra late
    apply forward
    obtain ⟨calls,returns⟩ := isOperation_kinds operation
    exact ⟨call,call_in,answer,answer_in,call_sender.trans answer_sender.symm,call_key.trans answer_key.symm,
      calls,returns,not_le.mp late⟩
  rw [own,if_pos punctual]
  exact operation

theorem backward_incomplete {timestamps : Trace ι V} (backward : Backward timestamps) :
    ∃ key ∈ timestamps.map KVTimestamp.key, ¬LinearCheck.Complete (keyTrace timestamps key) := by
  obtain ⟨call,call_in,answer,answer_in,sender,key,calls,returns,late⟩ := backward
  refine ⟨call.key,List.mem_map_of_mem call_in,?_⟩
  intro complete
  have placed : call ∈ keyTrace timestamps call.key := mem_keyTrace.mpr ⟨call_in,rfl⟩
  obtain ⟨first,second,own⟩ := own_entries complete placed
  have same := own.the_call placed rfl calls
  subst same
  have same := own.the_answer (mem_keyTrace.mpr ⟨answer_in,key.symm⟩) sender.symm returns
  subst same
  have sorted : NotLater call answer := List.pairwise_pair.mp ((keyTrace_sorted timestamps call.key).sublist own.placed)
  exact absurd late (not_lt.mpr sorted)

theorem complete_nodup (complete : LinearCheck.Complete h) : h.Nodup := by
  rw [List.nodup_iff_sublist]
  intro x twice
  obtain ⟨call,answer,events,-,-,kind⟩ := complete.operation (twice.subset (by simp) : x ∈ h)
  have kept := twice.filter (fun y => decide (y.sender = x.sender))
  rw [events,List.filter_cons_of_pos (by simp),List.filter_cons_of_pos (by simp)] at kept
  have equal : call = answer := by
    cases kept.eq_of_length (by simp)
    rfl
  subst equal
  rcases kind with ⟨reads,returns,-⟩ | ⟨writes,acks,-⟩
  · rw [reads] at returns
    cases returns
  · rw [writes] at acks
    cases acks

theorem OneRun.split {node : ι × Trace ι V} {others : List (ι × Trace ι V)} (run : OneRun (node :: others))
    (member : x ∈ gathered (node :: others)) :
    if x.sender = node.1 then x ∈ node.2 else x ∈ gathered others := by
  split
  · rename_i sender
    rw [← run.own (List.mem_cons_self : node ∈ node :: others)]
    exact List.mem_filter.mpr ⟨member,decide_eq_true sender⟩
  · rename_i other
    obtain ⟨found,inside,reported⟩ := mem_gathered.mp member
    rcases List.mem_cons.mp inside with rfl | behind
    · exact absurd (run.senders found inside x reported) other
    · exact mem_gathered.mpr ⟨found,behind,reported⟩

end Runs

section Ties
variable [Zero V] {results : List (ι × Trace ι V)}

-- Contents for given times: one node writes `v` to one key, and every read of
-- that key returns it that ends at the time `t` or later. All else reads zero.
def refill (k : ℕ) (j : ι) (t : ℤ) (v : V) (x : KVTimestamp ι V) : KVTimestamp ι V :=
  if x.key = k ∧ x.sender = j then
    { x with operation := if x.operation.isInvokation then .writeInvokation else .writeResponse, value := some v }
  else
    { x with
      operation := if x.operation.isInvokation then .readInvokation else .readResponse
      value := if x.operation.isInvokation then none else some (if x.key = k ∧ t ≤ x.time then v else 0) }

section Refills
variable {k : ℕ} {j : ι} {t : ℤ} {v : V}

@[simp] theorem refill_key (x : KVTimestamp ι V) : (refill k j t v x).key = x.key := by
  unfold refill
  split <;> rfl

@[simp] theorem refill_sender (x : KVTimestamp ι V) : (refill k j t v x).sender = x.sender := by
  unfold refill
  split <;> rfl

@[simp] theorem refill_time (x : KVTimestamp ι V) : (refill k j t v x).time = x.time := by
  unfold refill
  split <;> rfl

@[simp] theorem refill_isInvokation (x : KVTimestamp ι V) :
    (refill k j t v x).operation.isInvokation = x.operation.isInvokation := by
  unfold refill
  cases kind : x.operation.isInvokation <;> split <;> simp [KVOperation.isInvokation]

theorem refill_write {x : KVTimestamp ι V} (writes : (refill k j t v x).operation = .writeInvokation) :
    x.key = k ∧ x.sender = j ∧ x.operation.isInvokation = true ∧ (refill k j t v x).value = some v := by
  unfold refill at writes ⊢
  split at writes
  · rename_i own
    dsimp only at writes
    split at writes
    · rename_i calls
      exact ⟨own.1,own.2,calls,by rw [if_pos own]⟩
    · cases writes
  · dsimp only at writes
    split at writes <;> cases writes

theorem refill_read {x : KVTimestamp ι V} (returns : (refill k j t v x).operation = .readResponse) :
    (refill k j t v x).value = some (if x.key = k ∧ t ≤ x.time then v else 0) := by
  unfold refill at returns ⊢
  split at returns
  · dsimp only at returns
    split at returns <;> cases returns
  · rename_i other
    dsimp only at returns
    split at returns
    · cases returns
    · rename_i answers
      simp only [if_neg other,if_neg answers]

def refilled (k : ℕ) (j : ι) (t : ℤ) (v : V) (results : List (ι × Trace ι V)) : List (ι × Trace ι V) :=
  results.map fun node => (node.1,node.2.map (refill k j t v))

theorem refilled_times : SameTimes (refilled k j t v results) results := by
  simp [SameTimes,refilled,stamp]

theorem gathered_refilled : gathered (refilled k j t v results) = (gathered results).map (refill k j t v) := by
  simp [gathered,refilled,List.map_flatten,Function.comp_def]

theorem refill_operation {call answer : KVTimestamp ι V} (operation : isOperation [call,answer] = true)
    (key : call.key = answer.key) (sender : call.sender = answer.sender) :
    isOperation [refill k j t v call,refill k j t v answer] = true := by
  have kinds := isOperation_kinds operation
  by_cases own : answer.key = k ∧ answer.sender = j
  · simp [refill,isOperation,key,sender,own,kinds]
  · simp [refill,isOperation,key,sender,own,kinds]

theorem OneRun.refilled (run : OneRun results) : OneRun (LinearVerdict.refilled k j t v results) where
  some_node := by
    simpa [LinearVerdict.refilled] using run.some_node
  ranks := by
    simpa [LinearVerdict.refilled,Function.comp_def] using run.ranks
  senders := by
    intro node member entry inside
    obtain ⟨node,reported,rfl⟩ := List.mem_map.mp member
    obtain ⟨x,listed,rfl⟩ := List.mem_map.mp inside
    rw [refill_sender]
    exact run.senders node reported x listed
  operations := by
    intro node member entry inside
    obtain ⟨node,reported,rfl⟩ := List.mem_map.mp member
    obtain ⟨x,listed,rfl⟩ := List.mem_map.mp inside
    have operation := run.operations node reported x listed
    obtain ⟨call,answer,events,-⟩ := isOperation_cases operation
    have kept : (node.2.map (refill k j t v)).filter (fun y => y.key = (refill k j t v x).key) =
        [refill k j t v call,refill k j t v answer] := by
      rw [List.filter_map]
      simp only [Function.comp_def,refill_key,events]
      rfl
    have both : ∀ y ∈ [call,answer], y.key = x.key ∧ y.sender = node.1 := by
      intro y here
      rw [← events,List.mem_filter,decide_eq_true_eq] at here
      exact ⟨here.2,run.senders node reported y here.1⟩
    have first := both call (by simp)
    have second := both answer (by simp)
    rw [events] at operation
    dsimp only
    rw [kept]
    exact refill_operation operation (first.1.trans second.1.symm) (first.2.trans second.2.symm)

end Refills

section Verdicts
variable {i j : ι} {k : ℕ} {t : ℤ} {v : V} {node : ι × Trace ι V} {others : List (ι × Trace ι V)}

theorem origin (same : (node :: others).Perm (refilled k j t v results)) (member : y ∈ gathered (node :: others)) :
    ∃ x ∈ gathered results, y = refill k j t v x := by
  have there := (gathered_perm same).mem_iff.mp member
  rw [gathered_refilled] at there
  obtain ⟨x,inside,equal⟩ := List.mem_map.mp there
  exact ⟨x,inside,equal.symm⟩

theorem image (same : (node :: others).Perm (refilled k j t v results)) (member : x ∈ gathered results) :
    refill k j t v x ∈ gathered (node :: others) := by
  rw [(gathered_perm same).mem_iff,gathered_refilled]
  exact List.mem_map_of_mem member

theorem refilled_forward (same : (node :: others).Perm (refilled k j t v results))
    (forward : ¬Backward (gathered results)) : ¬Backward (gathered (node :: others)) := by
  rintro ⟨call,call_in,answer,answer_in,sender,key,calls,returns,late⟩
  obtain ⟨x,x_in,rfl⟩ := origin same call_in
  obtain ⟨y,y_in,rfl⟩ := origin same answer_in
  apply forward
  exact ⟨x,x_in,y,y_in,by simpa using sender,by simpa using key,by simpa using calls,by simpa using returns,
    by simpa using late⟩

section Filled
variable (run : OneRun results) (forward : ¬Backward (gathered results))
  (same : (node :: others).Perm (refilled k j t v results))
include run forward same

theorem filled_complete (key : ℕ) : LinearCheck.Complete (keyTrace (gathered (node :: others)) key) :=
  (run.refilled.perm same).forward (refilled_forward same forward) key

-- The writing node calls once, at the time of the tie.
theorem filled_write {key : ℕ} (tie : Tie results i j k t) (member : y ∈ keyTrace (gathered (node :: others)) key)
    (writes : y.operation = .writeInvokation) :
    key = k ∧ y.sender = j ∧ y.time = t ∧ y.value = some v := by
  obtain ⟨inside,named⟩ := mem_keyTrace.mp member
  obtain ⟨x,-,rfl⟩ := origin same inside
  obtain ⟨own_key,own_sender,calls,value⟩ := refill_write writes
  rw [refill_key] at named
  have here : key = k := named.symm.trans own_key
  subst here
  obtain ⟨c,c_in,c_sender,c_key,c_calls,c_time⟩ := tie.call
  obtain ⟨call,answer,own⟩ := own_entries (filled_complete run forward same key) member
  have mine := own.the_call member rfl (by rw [refill_isInvokation,calls])
  have placed : refill key j t v c ∈ keyTrace (gathered (node :: others)) key :=
    mem_keyTrace.mpr ⟨image same c_in,by rw [refill_key,c_key]⟩
  have tied := own.the_call placed (by rw [refill_sender,refill_sender,c_sender,own_sender])
    (by rw [refill_isInvokation,c_calls])
  refine ⟨rfl,by rw [refill_sender,own_sender],?_,value⟩
  rw [mine,← tied,refill_time,c_time]

theorem filled_scene (tie : Tie results i j k t) (writer : node.1 = j) (key : ℕ) :
    Scene v (fun time => decide (key = k ∧ t ≤ time)) (keyTrace (gathered (node :: others)) key) where
  complete := filled_complete run forward same key
  sorted := keyTrace_sorted _ _
  upward a b below begun := by
    have both : key = k ∧ t ≤ a := of_decide_eq_true begun
    exact decide_eq_true ⟨both.1,both.2.trans below⟩
  write x member writes := by
    obtain ⟨here,-,time,value⟩ := filled_write run forward same tie member writes
    exact ⟨value,decide_eq_true ⟨here,time.ge⟩⟩
  single x x_in y y_in x_writes y_writes := by
    rw [(filled_write run forward same tie x_in x_writes).2.1,(filled_write run forward same tie y_in y_writes).2.1]
  reads x member returns := by
    obtain ⟨inside,named⟩ := mem_keyTrace.mp member
    obtain ⟨y,-,rfl⟩ := origin same inside
    rw [refill_read returns,refill_time]
    rw [refill_key] at named
    simp only [named,decide_eq_true_eq]
  written x member _ ends_late := by
    have both : key = k ∧ t ≤ x.time := of_decide_eq_true ends_late
    obtain ⟨c,c_in,c_sender,c_key,c_calls,-⟩ := tie.call
    refine ⟨refill k j t v c,mem_keyTrace.mpr ⟨image same c_in,by rw [refill_key,c_key,both.1]⟩,?_⟩
    simp [refill,c_sender,c_key,c_calls]
  first x y placed writes foreign := by
    have member : y ∈ keyTrace (gathered (node :: others)) key := placed.subset (by simp)
    obtain ⟨here,sender,time,-⟩ := filled_write run forward same tie member writes
    obtain ⟨y_in,y_key⟩ := mem_keyTrace.mp member
    obtain ⟨x_in,x_key⟩ := mem_keyTrace.mp (placed.subset (by simp) : x ∈ _)
    apply decide_eq_false
    rintro ⟨-,reached⟩
    -- The node was collected first, so its write goes before this entry.
    have mine := (run.refilled.perm same).split y_in
    rw [if_pos (by rw [sender,writer])] at mine
    have theirs := (run.refilled.perm same).split x_in
    rw [if_neg (by rw [writer,← sender]; exact foreign)] at theirs
    have back := first_collected mine theirs (y_key.trans x_key.symm) (by rw [time]; exact reached)
    rw [x_key] at back
    exact nodup_swap (complete_nodup (filled_complete run forward same key)) placed back

theorem writer_first_accepted (tie : Tie results i j k t) (writer : node.1 = j) (key : ℕ) :
    Accepted (gathered (node :: others)) key :=
  ⟨filled_complete run forward same key,(filled_scene run forward same tie writer key).explained⟩

theorem reader_first_rejected (tie : Tie results i j k t) (nonzero : v ≠ 0) (reader : node.1 = i) :
    ¬Accepted (gathered (node :: others)) k := by
  rintro ⟨complete,order,valid⟩
  obtain ⟨a,a_in,a_sender,a_key,returns,a_time⟩ := tie.answer
  obtain ⟨c,c_in,c_sender,c_key,calls,c_time⟩ := tie.call
  have a_event : (refill k j t v a).event = .res i (some (some v)) := by
    simp [refill,KVTimestamp.event,tie.apart,returns,a_sender,a_key,a_time]
  have c_event : (refill k j t v c).event = .inv j (.write (some v)) := by
    simp [refill,KVTimestamp.event,c_sender,c_key,calls]
  -- The reader was collected first, so its response goes before the write.
  have mine := (run.refilled.perm same).split (image same a_in)
  rw [refill_sender,if_pos (by rw [a_sender,reader])] at mine
  have theirs := (run.refilled.perm same).split (image same c_in)
  rw [refill_sender,if_neg (by rw [c_sender,reader]; exact tie.apart.symm)] at theirs
  have placed := first_collected mine theirs (by rw [refill_key,refill_key,a_key,c_key])
    (by rw [refill_time,refill_time,a_time,c_time])
  rw [refill_key,c_key] at placed
  have ordered : [Event.res i (some (some v)),Event.inv j (.write (some v))].Sublist
      (LinearCheck.history (keyTrace (gathered (node :: others)) k)) := by
    simpa [LinearCheck.history,a_event,c_event] using placed.map KVTimestamp.event
  have read : Event.inv i .read ∈ LinearCheck.history (keyTrace (gathered (node :: others)) k) := by
    have here : refill k j t v a ∈ keyTrace (gathered (node :: others)) k := placed.subset (by simp)
    obtain ⟨call,answer,own⟩ := own_entries complete here
    have mine := own.the_answer here rfl (by rw [refill_isInvokation,returns])
    refine List.mem_map.mpr ⟨call,own.placed.subset (by simp),?_⟩
    have kind : call.operation = .readInvokation := by
      rcases own.kind with ⟨reads,-⟩ | ⟨-,acks⟩
      · exact reads
      · rw [← mine] at acks
        simp [refill,tie.apart,returns,a_sender] at acks
    simp [KVTimestamp.event,kind,own.calls.1,a_sender]
  have writer : ∀ s value, Event.inv s (.write value) ∈
      LinearCheck.history (keyTrace (gathered (node :: others)) k) → s = j := by
    intro s value found
    obtain ⟨y,inside,invoked⟩ := List.mem_map.mp found
    obtain ⟨rfl,-,kind⟩ := event_inv invoked
    rcases kind with ⟨-,read⟩ | ⟨writes,-⟩
    · cases read
    · exact (filled_write run forward same tie inside writes).2.1
  have value := complete.history.read_initial valid read ordered writer
  exact nonzero (Option.some.inj value).symm

end Filled

end Verdicts

variable [DecidableEq V]

theorem Backward.order_free (run : OneRun results) (backward : Backward (gathered results)) : OrderFree results := by
  obtain ⟨key,named,incomplete⟩ := backward_incomplete backward
  refine ⟨false,?_⟩
  intro arrivals keys same groups
  obtain ⟨verdict,checked,decides⟩ := testVerdict_decides (run.perm same) keys
  have rejected : verdict ≠ true := by
    intro accepted
    have complete := (decides.mp accepted key (groups.mem_iff.mpr (List.mem_dedup.mpr named))).1
    exact incomplete ((run.perm same).complete_same same.symm complete)
  rw [checked,Bool.eq_false_iff.mpr rejected]

theorem tie_order_matters (run : OneRun results) (forward : ¬Backward (gathered results))
    (tie : Tie results i j k t) (nonzero : v ≠ (0 : V)) : ¬OrderFree (refilled k j t v results) := by
  rintro ⟨verdict,constant⟩
  have filled : OneRun (refilled k j t v results) := run.refilled
  have lists (x) (member : x ∈ gathered results) :
      ∃ node others, node.1 = x.sender ∧ (node :: others).Perm (refilled k j t v results) := by
    have image : refill k j t v x ∈ gathered (refilled k j t v results) := by
      rw [gathered_refilled]
      exact List.mem_map_of_mem member
    obtain ⟨node,others,sender,same⟩ := arrives_first filled image
    exact ⟨node,others,by rw [sender,refill_sender],same⟩
  have named : k ∈ ((gathered (refilled k j t v results)).map KVTimestamp.key).dedup := by
    obtain ⟨c,c_in,-,c_key,-⟩ := tie.call
    rw [List.mem_dedup,gathered_refilled,List.map_map]
    exact List.mem_map.mpr ⟨c,c_in,by simp [c_key]⟩
  obtain ⟨a,a_in,a_sender,-⟩ := tie.answer
  obtain ⟨c,c_in,c_sender,-⟩ := tie.call
  obtain ⟨reader,others,reads,same⟩ := lists a a_in
  obtain ⟨writer,others',writes,same'⟩ := lists c c_in
  obtain ⟨verdict₁,checked₁,decides₁⟩ := testVerdict_decides (filled.perm same)
    ((gathered (refilled k j t v results)).map KVTimestamp.key).dedup
  obtain ⟨verdict₂,checked₂,decides₂⟩ := testVerdict_decides (filled.perm same')
    ((gathered (refilled k j t v results)).map KVTimestamp.key).dedup
  have accepted : verdict₂ = true := decides₂.mpr fun key _ =>
    writer_first_accepted run forward same' tie (writes.trans c_sender) key
  have rejected : verdict₁ ≠ true := fun all =>
    reader_first_rejected run forward same tie nonzero (reads.trans a_sender) (decides₁.mp all k named)
  have first := constant _ _ same (List.Perm.refl _)
  have second := constant _ _ same' (List.Perm.refl _)
  rw [checked₁] at first
  rw [checked₂] at second
  apply rejected
  rw [← accepted]
  exact Option.some.inj (first.trans second.symm)

-- Whatever the nodes read and wrote at these times, the order of collection
-- decides nothing, unless a response and a call of two nodes on one key fall on one
-- time. If a clock went back inside an operation, every verdict is false anyway.
theorem verdict_order_free_iff [Nontrivial V] (results : List (ι × Trace ι V)) (run : OneRun results) :
    (∀ contents, SameTimes contents results → OneRun contents → OrderFree contents) ↔
      Apart (gathered results) ∨ Backward (gathered results) := by
  constructor
  · intro free
    by_contra neither
    push Not at neither
    obtain ⟨tied,forward⟩ := neither
    obtain ⟨i,j,k,t,tie⟩ := tie_of_not_apart tied
    obtain ⟨v,nonzero⟩ := exists_ne (0 : V)
    exact tie_order_matters run forward tie nonzero (free _ refilled_times run.refilled)
  · rintro (apart | backward) contents same run'
    · exact Apart.order_free run' (same.apart apart)
    · exact Backward.order_free run' (same.backward backward)

end Ties

-- Rank 1 reads the value of rank 2 while rank 2 writes it. The response of the
-- read and the invocation of the write fall into one millisecond.
def reader : ℕ × Trace ℕ ℕ := (1,[⟨0,.readInvokation,none,4,1⟩,⟨0,.readResponse,some 2,5,1⟩])
def writer : ℕ × Trace ℕ ℕ := (2,[⟨0,.writeInvokation,some 2,5,2⟩,⟨0,.writeResponse,some 2,6,2⟩])

theorem tie_changes_verdict : OneRun [reader,writer] ∧
    testVerdict [reader,writer] [0] = some false ∧ testVerdict [writer,reader] [0] = some true := by
  refine ⟨⟨by simp,by decide,by decide,by decide⟩,?_⟩
  decide

-- One millisecond more for the read.
def lateReader : ℕ × Trace ℕ ℕ := (1,[⟨0,.readInvokation,none,4,1⟩,⟨0,.readResponse,some 2,6,1⟩])

theorem late_reader_accepted : OneRun [lateReader,writer] ∧ Apart (gathered [lateReader,writer]) ∧
    ∀ arrivals keys, arrivals.Perm [lateReader,writer] → keys.Perm [0] →
      testVerdict arrivals keys = some true := by
  have run : OneRun [lateReader,writer] := ⟨by simp,by decide,by decide,by decide⟩
  have apart : Apart (gathered [lateReader,writer]) := by
    unfold Apart
    decide
  refine ⟨run,apart,?_⟩
  obtain ⟨verdict,constant⟩ := (verdict_order_free_iff _ run).mpr (.inl apart) _ rfl run
  have first := constant [lateReader,writer] [0] (List.Perm.refl _) (List.Perm.refl _)
  have accepted : testVerdict [lateReader,writer] [0] = some true := by decide
  rw [accepted] at first
  cases first
  exact constant

end KompicsBenches.LinearVerdict
