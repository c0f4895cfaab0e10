import Mathlib

namespace KompicsBenches.Histories

-- Histories of one read/write register. An operation is named by an identity
-- of type `ι`; a history carries at most one invocation for each identity.
inductive Op (V : Type*) where
  | read
  | write (value : V)
  deriving DecidableEq, Repr

inductive Event (ι V : Type*) where
  | inv (id : ι) (op : Op V)
  | res (id : ι) (out : Option V)
  deriving DecidableEq, Repr

abbrev History (ι V : Type*) := List (Event ι V)

variable {ι V : Type*} [DecidableEq ι]

def Event.invocation? (i : ι) : Event ι V → Option (Op V)
  | .inv j op => if j = i then some op else none
  | .res _ _ => none

def opOf (history : History ι V) (i : ι) : Option (Op V) :=
  history.findSome? (Event.invocation? i)

def Op.apply (current : V) : Option (Op V) → V
  | some (.write value) => value
  | _ => current

-- The value a register holds after the operations of `order`, one by one.
def replay (initial : V) (history : History ι V) (order : List ι) : V :=
  order.foldl (fun current i => Op.apply current (opOf history i)) initial

-- `order` holds every answered operation and any choice of pending ones. It
-- respects response-before-invocation, and every answered read returns what
-- the register holds at its place.
structure Linearization (initial : V) (history : History ι V) (order : List ι) : Prop where
  nodup : order.Nodup
  answered : ∀ i out, Event.res i out ∈ history → i ∈ order
  invoked : ∀ i ∈ order, ∃ op, Event.inv i op ∈ history
  realtime : ∀ i ∈ order, ∀ j ∈ order, ∀ out op,
    [Event.res i out,Event.inv j op].Sublist history → [i,j].Sublist order
  legal : ∀ before i after, order = before ++ i :: after → Event.inv i .read ∈ history →
    ∀ value, Event.res i (some value) ∈ history → replay initial history before = value

def Linearizable (initial : V) (history : History ι V) : Prop :=
  ∃ order, Linearization initial history order

structure WellFormed (history : History ι V) : Prop where
  once : ∀ before i op after, history = before ++ Event.inv i op :: after →
    ∀ other, Event.inv i other ∉ before ∧ Event.inv i other ∉ after
  pending : ∀ before i out after, history = before ++ Event.res i out :: after →
    ∃ op, Event.inv i op ∈ before

omit [DecidableEq ι] in
theorem wellFormed_nil : WellFormed ([] : History ι V) := by
  constructor <;> simp

omit [DecidableEq ι] in
theorem WellFormed.snoc_inv {history : History ι V} (wf : WellFormed history)
    (fresh : ∀ op, Event.inv i op ∉ history) (op : Op V) :
    WellFormed (history ++ [Event.inv i op]) where
  once before j op' after split other := by
    rcases List.eq_nil_or_concat after with rfl | ⟨init,last,rfl⟩
    · obtain ⟨rfl,tail⟩ := List.append_inj' split rfl
      cases tail
      exact ⟨fresh other,by simp⟩
    · rw [List.concat_eq_append,← List.cons_append,← List.append_assoc] at split
      obtain ⟨rfl,tail⟩ := List.append_inj' split rfl
      cases tail
      obtain ⟨left,right⟩ := wf.once before j op' init rfl other
      refine ⟨left,?_⟩
      rw [List.concat_eq_append,List.mem_append]
      rintro (inside | new)
      · exact right inside
      · cases List.mem_singleton.mp new
        exact fresh op' (by simp)
  pending before j out after split := by
    rcases List.eq_nil_or_concat after with rfl | ⟨init,last,rfl⟩
    · obtain ⟨_,tail⟩ := List.append_inj' split rfl
      cases tail
    · rw [List.concat_eq_append,← List.cons_append,← List.append_assoc] at split
      obtain ⟨rfl,_⟩ := List.append_inj' split rfl
      exact wf.pending before j out init rfl

omit [DecidableEq ι] in
theorem WellFormed.snoc_res {history : History ι V} (wf : WellFormed history)
    (invoked : Event.inv i op ∈ history) (out : Option V) :
    WellFormed (history ++ [Event.res i out]) where
  once before j op' after split other := by
    rcases List.eq_nil_or_concat after with rfl | ⟨init,last,rfl⟩
    · obtain ⟨_,tail⟩ := List.append_inj' split rfl
      cases tail
    · rw [List.concat_eq_append,← List.cons_append,← List.append_assoc] at split
      obtain ⟨rfl,tail⟩ := List.append_inj' split rfl
      cases tail
      obtain ⟨left,right⟩ := wf.once before j op' init rfl other
      exact ⟨left,by simpa using right⟩
  pending before j out' after split := by
    rcases List.eq_nil_or_concat after with rfl | ⟨init,last,rfl⟩
    · obtain ⟨rfl,tail⟩ := List.append_inj' split rfl
      cases tail
      exact ⟨op,invoked⟩
    · rw [List.concat_eq_append,← List.cons_append,← List.append_assoc] at split
      obtain ⟨rfl,_⟩ := List.append_inj' split rfl
      exact wf.pending before j out' init rfl

theorem sublist_pair_split {α : Type*} {a b : α} {list : List α} (ordered : [a,b].Sublist list) :
    ∃ before after, list = before ++ a :: after ∧ b ∈ after := by
  induction list with
  | nil => cases ordered
  | cons head rest ih =>
    cases ordered with
    | cons _ inner =>
      obtain ⟨before,after,rfl,found⟩ := ih inner
      exact ⟨head :: before,after,rfl,found⟩
    | cons_cons _ inner => exact ⟨[],rest,rfl,List.singleton_sublist.mp inner⟩

theorem split_sublist_pair {α : Type*} {a b : α} {before after : List α} (found : b ∈ after) :
    [a,b].Sublist (before ++ a :: after) :=
  ((List.singleton_sublist.mpr found).cons_cons a).trans (List.sublist_append_right _ _)

theorem sublist_pair_snoc {α : Type*} {a b last : α} {list : List α} :
    [a,b].Sublist (list ++ [last]) ↔ [a,b].Sublist list ∨ a ∈ list ∧ b = last := by
  constructor
  · intro ordered
    obtain ⟨before,after,split,found⟩ := sublist_pair_split ordered
    rcases List.eq_nil_or_concat after with rfl | ⟨init,final,rfl⟩
    · cases found
    · rw [List.concat_eq_append] at split found
      rw [← List.cons_append,← List.append_assoc] at split
      obtain ⟨same,tail⟩ := List.append_inj' split rfl
      cases tail
      rw [List.mem_append,List.mem_singleton] at found
      rcases found with inside | rfl
      · exact .inl (same ▸ split_sublist_pair inside)
      · exact .inr ⟨by simp [same],rfl⟩
  · rintro (ordered | ⟨found,rfl⟩)
    · exact ordered.trans (List.sublist_append_left _ _)
    · exact (List.singleton_sublist.mpr found).append (List.Sublist.refl [b])

theorem opOf_eq (history : History ι V) (wf : WellFormed history)
    (found : Event.inv i op ∈ history) : opOf history i = some op := by
  obtain ⟨before,after,rfl⟩ := List.append_of_mem found
  have unseen := (wf.once before i op after rfl)
  have first : before.findSome? (Event.invocation? i) = none := by
    rw [List.findSome?_eq_none_iff]
    rintro (⟨j,other⟩ | ⟨j,out⟩) member
    · by_cases same : j = i
      · subst same
        exact absurd member (unseen other).1
      · simp [Event.invocation?,same]
    · rfl
  simp [opOf,List.findSome?_append,first,Event.invocation?]

theorem opOf_mem {history : History ι V} (found : opOf history i = some op) :
    Event.inv i op ∈ history := by
  obtain ⟨event,member,read⟩ := List.exists_of_findSome?_eq_some found
  cases event with
  | inv j other =>
    by_cases same : j = i
    · simp only [Event.invocation?,same,if_true,Option.some.injEq] at read
      exact same ▸ read ▸ member
    · simp [Event.invocation?,same] at read
  | res j out => cases read

theorem replay_append (initial : V) (history : History ι V) (left right : List ι) :
    replay initial history (left ++ right) = replay (replay initial history left) history right :=
  List.foldl_append

theorem replay_reads {initial : V} {history : History ι V} {order : List ι}
    (quiet : ∀ i ∈ order, ∀ value, opOf history i ≠ some (.write value)) :
    replay initial history order = initial := by
  induction order with
  | nil => rfl
  | cons i rest ih =>
    have kept : Op.apply initial (opOf history i) = initial := by
      have silent := quiet i (List.mem_cons_self ..)
      cases found : opOf history i with
      | none => rfl
      | some op =>
        cases op with
        | read => rfl
        | write value => exact absurd found (silent value)
    have tail := ih fun j member => quiet j (List.mem_cons_of_mem _ member)
    simpa [replay,kept] using tail

theorem replay_last {initial : V} {history : History ι V} {before after : List ι}
    (writes : opOf history i = some (.write value))
    (quiet : ∀ j ∈ after, ∀ other, opOf history j ≠ some (.write other)) :
    replay initial history (before ++ i :: after) = value := by
  rw [replay_append,← List.singleton_append,replay_append,replay_reads quiet]
  simp [replay,writes,Op.apply]

-- Where a history has one write only, a read that starts after it returned
-- answers its value.
theorem Linearization.answers_write {initial : V} {history : History ι V} {order : List ι}
    (valid : Linearization initial history order) (writes : opOf history i = some (.write value))
    (only : ∀ j other, opOf history j = some (.write other) → j = i)
    (ordered : [Event.res i out,Event.inv j .read].Sublist history)
    (returns : Event.res j (some answer) ∈ history) : answer = value := by
  have first := valid.answered i out (ordered.subset (by simp))
  have second := valid.answered j (some answer) returns
  obtain ⟨before,rest,rfl,found⟩ :=
    sublist_pair_split (valid.realtime i first j second out .read ordered)
  obtain ⟨between,after,rfl⟩ := List.append_of_mem found
  have legal := valid.legal (before ++ i :: between) j after (by simp)
    (ordered.subset (by simp)) answer returns
  rw [replay_last writes] at legal
  · exact legal.symm
  · intro k inside other found
    have same := only k other found
    subst same
    have distinct := (List.nodup_append.mp valid.nodup).2.1
    exact (List.nodup_cons.mp distinct).1 (List.mem_append_left _ inside)

section Tags
variable {T : Type*} [LinearOrder T] (history : History ι V) (tag : ι → T)

def position (i : ι) : ℕ := history.findIdx fun event => (Event.invocation? i event).isSome

def isWrite (i : ι) : Bool :=
  match opOf history i with
  | some (.write _) => true
  | _ => false

-- Tag first, then the write of a tag before the reads of it, then the order of
-- invocation.
def key (i : ι) : T ×ₗ ℕ ×ₗ ℕ :=
  toLex (tag i,toLex (if isWrite history i then 0 else 1,position history i))

variable {history tag}

theorem isWrite_iff : isWrite history i = true ↔ ∃ value, opOf history i = some (.write value) := by
  unfold isWrite
  split
  · rename_i value found
    simp [found]
  · rename_i silent
    simpa using fun value found => silent value found

theorem position_lt {i j : ι} (wf : WellFormed history)
    (ordered : [Event.res i out,Event.inv j op].Sublist history) :
    position history i < position history j := by
  obtain ⟨before,after,split,found⟩ := sublist_pair_split ordered
  obtain ⟨own,invoked⟩ := wf.pending before i out after split
  have early : position history i < before.length := by
    unfold position
    rw [split,List.findIdx_append,if_pos]
    all_goals exact List.findIdx_lt_length_of_exists ⟨_,invoked,by simp [Event.invocation?]⟩
  have late : before.length ≤ position history j := by
    obtain ⟨left,right,rfl⟩ := List.append_of_mem found
    have unseen := wf.once (before ++ Event.res i out :: left) j op right (by simp [split])
    unfold position
    rw [split,List.findIdx_append,if_neg]
    · omega
    · rw [List.findIdx_lt_length]
      rintro ⟨event,member,named⟩
      cases event with
      | inv k other =>
        by_cases same : k = j
        · subst same
          exact (unseen other).1 (List.mem_append_left _ member)
        · simp [Event.invocation?,same] at named
      | res k other => simp [Event.invocation?] at named
  omega

theorem key_lt_of_tag {i j : ι} (less : tag i < tag j) : key history tag i < key history tag j :=
  Prod.Lex.toLex_lt_toLex.mpr (.inl less)

theorem tag_le_of_key {i j : ι} (below : key history tag i ≤ key history tag j) : tag i ≤ tag j := by
  by_contra above
  exact absurd below (not_le.mpr (key_lt_of_tag (not_le.mp above)))

theorem key_write_lt {i j : ι} (same : tag i = tag j) (writes : isWrite history i = true)
    (reads : isWrite history j = false) : key history tag i < key history tag j := by
  refine Prod.Lex.toLex_lt_toLex.mpr (.inr ⟨same,Prod.Lex.toLex_lt_toLex.mpr (.inl ?_)⟩)
  simp [writes,reads]

theorem key_position_lt {i j : ι} (same : tag i = tag j) (reads : isWrite history i = false)
    (other : isWrite history j = false) (less : position history i < position history j) :
    key history tag i < key history tag j := by
  refine Prod.Lex.toLex_lt_toLex.mpr (.inr ⟨same,Prod.Lex.toLex_lt_toLex.mpr (.inr ⟨?_,less⟩)⟩)
  simp [reads,other]

omit [DecidableEq ι] in
theorem sorted_pair {rank : ι → T} {order : List ι} (sorted : order.Pairwise (rank · ≤ rank ·))
    (first : i ∈ order) (second : j ∈ order) (less : rank i < rank j) : [i,j].Sublist order := by
  obtain ⟨before,after,rfl⟩ := List.append_of_mem first
  rw [List.mem_append,List.mem_cons] at second
  rcases second with early | rfl | late
  · have back := (List.pairwise_append.mp sorted).2.2 j early i (List.mem_cons_self ..)
    exact absurd less (not_lt.mpr back)
  · exact absurd less (lt_irrefl _)
  · exact split_sublist_pair late

-- Tags that follow real time, name each write once and give every answered
-- read the write of its own tag: such a history is linearizable.
structure Tagged (initial : V) (bottom : T) (history : History ι V) (tag : ι → T)
    (effective : List ι) : Prop where
  nodup : effective.Nodup
  answered : ∀ i out, Event.res i out ∈ history → i ∈ effective
  invoked : ∀ i ∈ effective, ∃ op, Event.inv i op ∈ history
  realtime : ∀ i ∈ effective, ∀ j ∈ effective, ∀ out op,
    [Event.res i out,Event.inv j op].Sublist history →
      tag i ≤ tag j ∧ (op ≠ .read → tag i < tag j)
  apart : ∀ i ∈ effective, ∀ j ∈ effective, isWrite history i = true →
    isWrite history j = true → tag i = tag j → i = j
  above : ∀ i ∈ effective, isWrite history i = true → bottom < tag i
  source : ∀ i value, Event.inv i .read ∈ history → Event.res i (some value) ∈ history →
    tag i = bottom ∧ value = initial ∨
      ∃ j ∈ effective, opOf history j = some (.write value) ∧ tag j = tag i

theorem isWrite_read (wf : WellFormed history) (reads : Event.inv i .read ∈ history) :
    isWrite history i = false := by
  simp [isWrite,opOf_eq history wf reads]

theorem legal_place {initial : V} {bottom : T} {effective order before after : List ι}
    (wf : WellFormed history) (tagged : Tagged initial bottom history tag effective)
    (same : order.Perm effective) (sorted : order.Pairwise (key history tag · ≤ key history tag ·))
    (split : order = before ++ i :: after) (reads : Event.inv i .read ∈ history)
    (returns : Event.res i (some value) ∈ history) : replay initial history before = value := by
  subst split
  have nodup := same.nodup_iff.mpr tagged.nodup
  have ordered := List.pairwise_append.mp sorted
  have earlier : ∀ j ∈ before, tag j ≤ tag i := fun j member =>
    tag_le_of_key (ordered.2.2 j member i (List.mem_cons_self ..))
  have inside : ∀ j ∈ before, j ∈ effective := fun j member =>
    same.mem_iff.mp (List.mem_append_left _ member)
  rcases tagged.source i value reads returns with ⟨lowest,rfl⟩ | ⟨j,member,writes,equal⟩
  · apply replay_reads
    intro j member other found
    have high := tagged.above j (inside j member) (isWrite_iff.mpr ⟨other,found⟩)
    exact absurd (earlier j member) (not_le.mpr (lowest ▸ high))
  · have writer : isWrite history j = true := isWrite_iff.mpr ⟨value,writes⟩
    have less := key_write_lt equal writer (isWrite_read wf reads)
    have placed : j ∈ before := by
      have found := same.mem_iff.mpr member
      rw [List.mem_append,List.mem_cons] at found
      rcases found with here | rfl | late
      · exact here
      · exact absurd less (lt_irrefl _)
      · exact absurd less (not_lt.mpr ((List.pairwise_cons.mp ordered.2.1).1 j late))
    obtain ⟨left,right,rfl⟩ := List.append_of_mem placed
    apply replay_last writes
    intro m late other found
    -- A later write below the read would carry the tag of `j` itself.
    have low : tag j ≤ tag m := tag_le_of_key
      ((List.pairwise_cons.mp (List.pairwise_append.mp ordered.1).2.1).1 m late)
    have high : tag m ≤ tag i := earlier m (by simp [late])
    have clash := tagged.apart j member m (inside m (by simp [late])) writer
      (isWrite_iff.mpr ⟨other,found⟩) (le_antisymm low (high.trans equal.ge))
    subst clash
    have distinct := (List.nodup_append.mp (List.nodup_append.mp nodup).1).2.1
    exact (List.nodup_cons.mp distinct).1 late

theorem linearizable_of_tags {initial : V} {bottom : T} {effective : List ι}
    (wf : WellFormed history) (tagged : Tagged initial bottom history tag effective) :
    Linearizable initial history := by
  let order := effective.insertionSort (key history tag · ≤ key history tag ·)
  have same : order.Perm effective := List.perm_insertionSort _ _
  have total : Std.Total fun i j : ι => key history tag i ≤ key history tag j :=
    ⟨fun i j => le_total _ _⟩
  have chain : IsTrans ι fun i j => key history tag i ≤ key history tag j :=
    ⟨fun i j k => le_trans⟩
  have sorted : order.Pairwise (key history tag · ≤ key history tag ·) :=
    List.pairwise_insertionSort _ _
  refine ⟨order,same.nodup_iff.mpr tagged.nodup,?_,?_,?_,?_⟩
  · exact fun i out found => same.mem_iff.mpr (tagged.answered i out found)
  · exact fun i found => tagged.invoked i (same.mem_iff.mp found)
  · intro i first j second out op precedes
    refine sorted_pair sorted first second ?_
    obtain ⟨below,strict⟩ := tagged.realtime i (same.mem_iff.mp first) j (same.mem_iff.mp second)
      out op precedes
    rcases below.lt_or_eq with less | equal
    · exact key_lt_of_tag less
    · have reads : op = .read := by
        by_contra other
        exact absurd equal (strict other).ne
      subst reads
      have later : Event.inv j .read ∈ history := precedes.subset (by simp)
      cases kind : isWrite history i with
      | true => exact key_write_lt equal kind (isWrite_read wf later)
      | false => exact key_position_lt equal kind (isWrite_read wf later) (position_lt wf precedes)
  · exact fun before i after split reads value returns =>
      legal_place wf tagged same sorted split reads returns

end Tags

end KompicsBenches.Histories
