import KompicsBenches.Histories

namespace KompicsBenches.Histories

-- Histories in which every operation is invoked once and answered once. The
-- first operation of a linearization is one that no response precedes, and the
-- rest is a linearization of the history without it.
variable {ι V : Type*}

def Event.who : Event ι V → ι
  | .inv i _ => i
  | .res i _ => i

def Event.isInv : Event ι V → Bool
  | .inv _ _ => true
  | .res _ _ => false

@[simp] theorem Event.who_inv (i : ι) (op : Op V) : (Event.inv i op).who = i := rfl
@[simp] theorem Event.who_res (i : ι) (out : Option V) : (Event.res i out).who = i := rfl
@[simp] theorem Event.isInv_inv (i : ι) (op : Op V) : (Event.inv i op).isInv = true := rfl
@[simp] theorem Event.isInv_res (i : ι) (out : Option V) : (Event.res i out).isInv = false := rfl

variable [DecidableEq ι]

def without (i : ι) (history : History ι V) : History ι V :=
  history.filter (fun event => event.who ≠ i)

def minimal (history : History ι V) : History ι V := history.takeWhile Event.isInv

def Complete (history : History ι V) : Prop :=
  ∀ event ∈ history, ∃ op out, (op = .read → out.isSome = true) ∧
    history.filter (fun other => other.who = event.who) =
      [Event.inv event.who op,Event.res event.who out]

theorem mem_without {event : Event ι V} {history : History ι V} :
    event ∈ without i history ↔ event ∈ history ∧ event.who ≠ i := by
  simp [without]

theorem opOf_filter {p : Event ι V → Bool} (keeps : ∀ op, p (.inv i op) = true)
    (history : History ι V) : opOf (history.filter p) i = opOf history i := by
  induction history with
  | nil => rfl
  | cons event rest ih =>
    unfold opOf at ih ⊢
    by_cases kept : p event = true
    · rw [List.filter_cons_of_pos kept,List.findSome?_cons,List.findSome?_cons,ih]
    · rw [List.filter_cons_of_neg kept,List.findSome?_cons,ih]
      cases event with
      | res j out => rfl
      | inv j op =>
        have apart : j ≠ i := by
          intro same
          exact kept (same ▸ keeps op)
        simp [Event.invocation?,apart]

theorem replay_without {history : History ι V} {order : List ι} (fresh : i ∉ order) (initial : V) :
    replay initial (without i history) order = replay initial history order := by
  induction order generalizing initial with
  | nil => rfl
  | cons j rest ih =>
    obtain ⟨apart,later⟩ := not_or.mp (fun found => fresh (List.mem_cons.mpr found))
    have same : opOf (without i history) j = opOf history j :=
      opOf_filter (fun op => decide_eq_true (Ne.symm apart)) history
    simp only [replay,List.foldl_cons,same] at ih ⊢
    exact ih later _

omit [DecidableEq ι] in
theorem sublist_pair_tail {order : List ι} (ordered : [i,j].Sublist (k :: order)) (apart : i ≠ k) :
    [i,j].Sublist order := by
  cases ordered with
  | cons _ inner => exact inner
  | cons_cons _ inner => exact absurd rfl apart

omit [DecidableEq ι] in
theorem nodup_pair_head {order : List ι} (nodup : (i :: order).Nodup)
    (ordered : [j,i].Sublist (i :: order)) : False := by
  obtain ⟨unseen,-⟩ := List.nodup_cons.mp nodup
  have later : i ∈ order := by
    cases ordered with
    | cons _ inner => exact inner.subset (by simp)
    | cons_cons _ inner => exact inner.subset (by simp)
  exact unseen later

omit [DecidableEq ι] in
theorem nodup_swap {order : List ι} (nodup : order.Nodup) (forth : [i,j].Sublist order)
    (back : [j,i].Sublist order) : False := by
  induction order with
  | nil => cases forth
  | cons head rest ih =>
    cases forth with
    | cons _ forth =>
      cases back with
      | cons _ back => exact ih (List.nodup_cons.mp nodup).2 forth back
      | cons_cons _ back => exact nodup_pair_head nodup (forth.cons _)
    | cons_cons _ forth => exact nodup_pair_head nodup back

section Complete
variable {history : History ι V} (complete : Complete history)
include complete

theorem Complete.events (member : event ∈ history) (own : event.who = i) :
    ∃ op out, (op = .read → out.isSome = true) ∧
      history.filter (fun other => other.who = i) = [Event.inv i op,Event.res i out] ∧
      (event = Event.inv i op ∨ event = Event.res i out) := by
  subst own
  obtain ⟨op,out,answers,events⟩ := complete event member
  refine ⟨op,out,answers,events,?_⟩
  have kept : event ∈ history.filter (fun other => other.who = event.who) :=
    List.mem_filter.mpr ⟨member,by simp⟩
  rw [events] at kept
  simpa using kept

theorem Complete.opOf_eq (invoked : Event.inv i op ∈ history) : opOf history i = some op := by
  obtain ⟨op',out,-,events,same | other⟩ := complete.events invoked (Event.who_inv i op)
  · cases same
    rw [← opOf_filter (p := fun event => event.who = i) (by simp),events]
    simp [opOf,Event.invocation?]
  · cases other

theorem Complete.response (invoked : Event.inv i op ∈ history) :
    ∃ out, (op = .read → out.isSome = true) ∧ Event.res i out ∈ history := by
  obtain ⟨op',out,answers,events,same | other⟩ := complete.events invoked (Event.who_inv i op)
  · cases same
    refine ⟨out,answers,List.mem_of_mem_filter (p := fun other => other.who = i) ?_⟩
    simp [events]
  · cases other

theorem Complete.response_unique (first : Event.res i out ∈ history)
    (second : Event.res i other ∈ history) : out = other := by
  obtain ⟨op,only,-,events,left | left⟩ := complete.events first (Event.who_res i out)
  · cases left
  · cases left
    have kept : Event.res i other ∈ history.filter (fun event => event.who = i) :=
      List.mem_filter.mpr ⟨second,by simp⟩
    rw [events] at kept
    have same : other = out := by simpa using kept
    exact same.symm

-- An operation has no second invocation.
theorem Complete.invoked_once (twice : [Event.inv i op,Event.inv i op'].Sublist history) : False := by
  obtain ⟨_,out,-,events,-⟩ := complete.events (twice.subset (by simp)) (Event.who_inv i op)
  have kept := twice.filter (fun other => decide (other.who = i))
  rw [events] at kept
  have found : Event.inv i op' ∈ [Event.res i out] := by
    simp only [Event.who_inv,decide_true,List.filter_cons_of_pos,List.filter_nil] at kept
    cases kept with
    | cons _ inner => exact absurd inner.length_le (by simp)
    | cons_cons _ inner => exact List.singleton_sublist.mp inner
  simp at found

theorem Complete.response_last (reversed : [Event.res i out,Event.inv i op].Sublist history) : False := by
  obtain ⟨op',out',-,events,-⟩ := complete.events (reversed.subset (by simp)) (Event.who_inv i op)
  have kept := reversed.filter (fun other => decide (other.who = i))
  rw [events] at kept
  simp only [Event.who_inv,Event.who_res,decide_true,List.filter_cons_of_pos,List.filter_nil] at kept
  cases kept with
  | cons _ inner => exact absurd inner.length_le (by simp)

theorem Complete.wellFormed : WellFormed history where
  once before i op after split other := by
    subst split
    constructor
    · intro earlier
      obtain ⟨first,rest,rfl⟩ := List.append_of_mem earlier
      have later : Event.inv i op ∈ rest ++ Event.inv i op :: after := by simp
      have twice : [Event.inv i other,Event.inv i op].Sublist
          (first ++ Event.inv i other :: (rest ++ Event.inv i op :: after)) := split_sublist_pair later
      rw [← List.cons_append,← List.append_assoc] at twice
      exact complete.invoked_once twice
    · intro later
      exact complete.invoked_once (split_sublist_pair later)
  pending before i out after split := by
    subst split
    have here : Event.res i out ∈ before ++ Event.res i out :: after := by simp
    obtain ⟨op,only,-,events,-⟩ := complete.events here (Event.who_res i out)
    rw [List.filter_append,List.filter_cons_of_pos (by simp)] at events
    cases own : before.filter (fun other => other.who = i) with
    | nil =>
      rw [own] at events
      cases events
    | cons first others =>
      rw [own] at events
      obtain ⟨rfl,-⟩ := List.cons.inj events
      have there : Event.inv i op ∈ before.filter (fun other => other.who = i) := by
        rw [own]
        exact List.mem_cons_self
      exact ⟨op,List.mem_of_mem_filter there⟩

-- A read that ends before the only writer begins has seen the initial value.
theorem Complete.read_initial {initial : V} (valid : Linearization initial history order)
    (reads : Event.inv i .read ∈ history)
    (ordered : [Event.res i (some value),Event.inv j op].Sublist history)
    (only : ∀ writer written, Event.inv writer (.write written) ∈ history → writer = j) : initial = value := by
  have answered : Event.res i (some value) ∈ history := ordered.subset (by simp)
  have invoked : Event.inv j op ∈ history := ordered.subset (by simp)
  obtain ⟨_,-,returned⟩ := complete.response invoked
  have between := valid.realtime i (valid.answered i _ answered) j (valid.answered j _ returned) _ _ ordered
  obtain ⟨before,after,split,behind⟩ := sublist_pair_split between
  have nodup := valid.nodup
  rw [split] at nodup
  have quiet : ∀ other ∈ before, ∀ written, opOf history other ≠ some (.write written) := by
    intro other early written found
    rw [only other written (opOf_mem found)] at early
    exact (List.nodup_append.mp nodup).2.2 j early j (List.mem_cons_of_mem _ behind) rfl
  have legal := valid.legal before i after split reads value answered
  rw [replay_reads quiet] at legal
  exact legal

theorem Complete.without (i : ι) : Complete (without i history) := by
  intro event member
  obtain ⟨inside,apart⟩ := mem_without.mp member
  obtain ⟨op,out,answers,events⟩ := complete event inside
  refine ⟨op,out,answers,?_⟩
  rw [← events,Histories.without,List.filter_filter]
  apply List.filter_congr
  intro other _
  by_cases same : other.who = event.who
  · simp [same,apart]
  · simp [same]

theorem Complete.minimal_first (first : Event.inv i op ∈ minimal history)
    (ordered : [Event.res j out,Event.inv i op'].Sublist history) : False := by
  obtain ⟨before,after,rfl,found⟩ := sublist_pair_split ordered
  have early : Event.inv i op ∈ before := by
    rw [minimal,List.takeWhile_append] at first
    split at first
    · simpa using first
    · exact (List.takeWhile_sublist _).subset first
  have later : Event.inv i op' ∈ Event.res j out :: after := List.mem_cons_of_mem _ found
  exact complete.invoked_once
    ((List.singleton_sublist.mpr early).append (List.singleton_sublist.mpr later))

omit complete in
theorem Linearization.head_minimal {initial : V} {rest : List ι}
    (valid : Linearization initial history (i :: rest)) (invoked : Event.inv i op ∈ history) :
    Event.inv i op ∈ minimal history := by
  obtain ⟨before,after,split⟩ := List.append_of_mem invoked
  have ahead : ∀ event ∈ before, event.isInv = true := by
    intro event member
    cases event with
    | inv j other => rfl
    | res j out =>
      have ordered : [Event.res j out,Event.inv i op].Sublist history := by
        rw [split]
        exact (List.singleton_sublist.mpr member).append (List.singleton_sublist.mpr (by simp))
      have found := valid.answered j out (ordered.subset (by simp))
      exact (nodup_pair_head valid.nodup
        (valid.realtime j found i (by simp) out op ordered)).elim
  rw [split,minimal,List.takeWhile_append_of_pos ahead,
    List.takeWhile_cons_of_pos (Event.isInv_inv i op)]
  simp

theorem Complete.tail_linearization {initial : V} {rest : List ι}
    (valid : Linearization initial history (i :: rest)) (invoked : Event.inv i op ∈ history) :
    Linearization (Op.apply initial (some op)) (Histories.without i history) rest where
  nodup := (List.nodup_cons.mp valid.nodup).2
  answered j out found := by
    obtain ⟨inside,apart⟩ := mem_without.mp found
    have member := valid.answered j out inside
    exact (List.mem_cons.mp member).resolve_left apart
  invoked j member := by
    obtain ⟨op',found⟩ := valid.invoked j (List.mem_cons_of_mem _ member)
    have apart : j ≠ i := by
      rintro rfl
      exact (List.nodup_cons.mp valid.nodup).1 member
    exact ⟨op',mem_without.mpr ⟨found,apart⟩⟩
  realtime j first k second out op' ordered := by
    have whole := ordered.trans List.filter_sublist
    have apart := (mem_without.mp (ordered.subset (by simp : Event.res j out ∈ _))).2
    exact sublist_pair_tail (valid.realtime j (List.mem_cons_of_mem _ first) k
      (List.mem_cons_of_mem _ second) out op' whole) apart
  legal before j after split reads value returns := by
    have fresh : i ∉ before := by
      intro member
      exact (List.nodup_cons.mp valid.nodup).1 (split ▸ List.mem_append_left _ member)
    have answer := valid.legal (i :: before) j after (by rw [split]; rfl) (mem_without.mp reads).1 value
      (mem_without.mp returns).1
    rw [replay_without fresh]
    simpa [replay,complete.opOf_eq invoked] using answer

theorem Complete.cons_linearization {initial : V} {rest : List ι}
    (first : Event.inv i op ∈ minimal history) (reads : op = .read → Event.res i (some initial) ∈ history)
    (valid : Linearization (Op.apply initial (some op)) (Histories.without i history) rest) :
    Linearization initial history (i :: rest) := by
  have invoked : Event.inv i op ∈ history := (List.takeWhile_sublist _).subset first
  have fresh : i ∉ rest := by
    intro member
    obtain ⟨op',found⟩ := valid.invoked i member
    exact (mem_without.mp found).2 rfl
  refine ⟨List.nodup_cons.mpr ⟨fresh,valid.nodup⟩,?_,?_,?_,?_⟩
  · intro j out found
    by_cases same : j = i
    · simp [same]
    · exact List.mem_cons_of_mem _ (valid.answered j out (mem_without.mpr ⟨found,same⟩))
  · intro j member
    rcases List.mem_cons.mp member with rfl | later
    · exact ⟨op,invoked⟩
    · obtain ⟨op',found⟩ := valid.invoked j later
      exact ⟨op',(mem_without.mp found).1⟩
  · intro j left k right out op' ordered
    rcases List.mem_cons.mp right with rfl | later
    · exact (complete.minimal_first first ordered).elim
    · rcases List.mem_cons.mp left with rfl | earlier
      · exact (List.singleton_sublist.mpr later).cons_cons _
      · have kept := ordered.filter (fun event => decide (event.who ≠ i))
        have apart : j ≠ i ∧ k ≠ i := by
          constructor <;> rintro rfl
          · exact fresh earlier
          · exact fresh later
        simp only [Event.who_inv,Event.who_res,ne_eq,apart.1,apart.2,not_false_eq_true,decide_true,
          List.filter_cons_of_pos,List.filter_nil] at kept
        exact (valid.realtime j earlier k later out op' kept).cons _
  · intro before j after split isRead value returns
    cases before with
    | nil =>
      obtain ⟨rfl,rfl⟩ := List.cons.inj split
      have same : op = .read := by
        have once := complete.opOf_eq invoked
        rw [complete.opOf_eq isRead] at once
        exact (Option.some.inj once).symm
      have unique := complete.response_unique (reads same) returns
      exact Option.some.inj unique
    | cons head before =>
      obtain ⟨rfl,rfl⟩ := List.cons.inj split
      have apart : j ≠ i := by
        rintro rfl
        exact fresh (by simp)
      have answer := valid.legal before j after rfl (mem_without.mpr ⟨isRead,apart⟩) value
        (mem_without.mpr ⟨returns,apart⟩)
      rw [replay_without (fun member => fresh (List.mem_append_left _ member))] at answer
      simpa [replay,complete.opOf_eq invoked] using answer

-- A linearization reads a complete history through its events and the order of
-- response before invocation only.
theorem Complete.transfer {other : History ι V} (complete' : Complete other)
    (same : ∀ event, event ∈ other ↔ event ∈ history)
    (earlier : ∀ i out j op, [Event.res i out,Event.inv j op].Sublist other →
      [Event.res i out,Event.inv j op].Sublist history)
    {initial : V} {order : List ι} (valid : Linearization initial history order) :
    Linearization initial other order := by
  have ops : opOf other = opOf history := by
    funext i
    cases found : opOf history i with
    | some op => exact complete'.opOf_eq ((same _).mpr (opOf_mem found))
    | none =>
      cases invoked : opOf other i with
      | none => rfl
      | some op =>
        rw [complete.opOf_eq ((same _).mp (opOf_mem invoked))] at found
        cases found
  refine ⟨valid.nodup,?_,?_,?_,?_⟩
  · intro i out found
    exact valid.answered i out ((same _).mp found)
  · intro i member
    obtain ⟨op,found⟩ := valid.invoked i member
    exact ⟨op,(same _).mpr found⟩
  · intro i first j second out op ordered
    exact valid.realtime i first j second out op (earlier i out j op ordered)
  · intro before i after split reads value returns
    have answer := valid.legal before i after split ((same _).mp reads) value ((same _).mp returns)
    unfold replay at answer ⊢
    rw [ops]
    exact answer

theorem Complete.linearizable_step {initial : V} (some_event : history ≠ []) :
    Linearizable initial history ↔ ∃ i op, Event.inv i op ∈ minimal history ∧
      (op = .read → Event.res i (some initial) ∈ history) ∧
      Linearizable (Op.apply initial (some op)) (Histories.without i history) := by
  constructor
  · rintro ⟨order,valid⟩
    cases order with
    | nil =>
      obtain ⟨event,member⟩ := List.exists_mem_of_ne_nil history some_event
      have answered : ∃ i out, Event.res i out ∈ history := by
        cases event with
        | inv i op =>
          obtain ⟨out,-,found⟩ := complete.response member
          exact ⟨i,out,found⟩
        | res i out => exact ⟨i,out,member⟩
      obtain ⟨i,out,found⟩ := answered
      cases valid.answered i out found
    | cons i rest =>
      obtain ⟨op,invoked⟩ := valid.invoked i (by simp)
      refine ⟨i,op,valid.head_minimal invoked,?_,rest,complete.tail_linearization valid invoked⟩
      rintro rfl
      obtain ⟨out,answers,returns⟩ := complete.response invoked
      obtain ⟨value,rfl⟩ := Option.isSome_iff_exists.mp (answers rfl)
      rw [show initial = value from valid.legal [] i rest rfl invoked value returns]
      exact returns
  · rintro ⟨i,op,first,reads,rest,valid⟩
    exact ⟨i :: rest,complete.cons_linearization first reads valid⟩

end Complete

theorem linearizable_nil (initial : V) : Linearizable initial ([] : History ι V) := by
  refine ⟨[],List.nodup_nil,?_,?_,?_,?_⟩ <;> simp

end KompicsBenches.Histories
