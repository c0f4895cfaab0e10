import KompicsBenches.MinimalOps

namespace KompicsBenches.LinearCheck

open Histories

inductive KVOperation where
  | readInvokation
  | readResponse
  | writeInvokation
  | writeResponse
  deriving DecidableEq, Repr

structure KVTimestamp (ι V : Type) where
  key : ℕ
  operation : KVOperation
  value : Option V
  time : ℤ
  sender : ι
  deriving DecidableEq, Repr

abbrev Trace (ι V : Type) := List (KVTimestamp ι V)

variable {ι V : Type} [DecidableEq ι]

def KVOperation.isInvokation : KVOperation → Bool
  | .readInvokation | .writeInvokation => true
  | _ => false

def getMinimalOps (trace : Trace ι V) : Trace ι V :=
  trace.takeWhile (fun entry => entry.operation.isInvokation)

def getResponseValue (invokation : KVTimestamp ι V) (trace : Trace ι V) : Option V :=
  match invokation.operation with
  | .readInvokation =>
    match trace.find? (fun x => x.operation = .readResponse ∧ x.sender = invokation.sender) with
    | some ts => ts.value
    | none => none
  | _ => invokation.value

def removeOperation (entry : KVTimestamp ι V) (trace : Trace ι V) : Trace ι V :=
  trace.filter (fun x => x.sender ≠ entry.sender)

-- The assertion of the Rust version.
def removeOp (entry : KVTimestamp ι V) (trace : Trace ι V) : Option (Trace ι V) :=
  let cloned := removeOperation entry trace
  if cloned.length < trace.length then some cloned else none

section Checkers
variable [DecidableEq V]

section Search
variable (remove : KVTimestamp ι V → Trace ι V → Option (Trace ι V))

-- One stack for all branches: the last element is the current value, a failed
-- branch pops what it pushed. `none` is a panic (an exception in Scala), or
-- fuel used up.
def tryOps (check : Trace ι V → List V → Option (Bool × List V)) (h : Trace ι V) :
    Trace ι V → List V → Option (Bool × List V)
  | [], s => some (false,s)
  | op :: ops, s => do
    let responseVal ← getResponseValue op h
    match op.operation with
    | .writeInvokation | .writeResponse =>
      let removedOpTrace ← remove op h
      let (done,s) ← check removedOpTrace (s ++ [responseVal])
      if done then some (true,s) else tryOps check h ops s.dropLast
    | .readInvokation | .readResponse =>
      let removedOpTrace ← remove op h
      let last ← s.getLast?
      if last = responseVal then
        let (done,s) ← check removedOpTrace s
        if done then some (true,s) else tryOps check h ops s
      else tryOps check h ops s

def search : ℕ → Trace ι V → List V → Option (Bool × List V)
  | 0, _, _ => none
  | fuel + 1, h, s =>
    if h.isEmpty then some (true,s) else tryOps remove (search fuel) h (getMinimalOps h) s

end Search

def isLinearizable (fuel : ℕ) (h : Trace ι V) (s : List V) : Option (Bool × List V) :=
  search removeOp fuel h s

namespace Scala

def isLinearizable (fuel : ℕ) (h : Trace ι V) (s : List V) : Option (Bool × List V) :=
  search (fun op trace => some (removeOperation op trace)) fuel h s

end Scala

-- The tuples of the Erlang version carry no key, the atom `none` is a value,
-- and the stack is passed down, latest first.
namespace Erlang

def getReadValue (sender : ι) : Trace ι V → Option V
  | [] => none
  | h :: t => if h.operation = .readResponse ∧ h.sender = sender then h.value else getReadValue sender t

def getResponseValue (operation : KVTimestamp ι V) (trace : Trace ι V) : Option V :=
  match operation.operation with
  | .readInvokation => getReadValue operation.sender trace
  | _ => operation.value

def removeOp (op : KVTimestamp ι V) (trace : Trace ι V) : Trace ι V :=
  let removedInvoke := trace.eraseP (fun x => x.sender = op.sender)
  removedInvoke.eraseP (fun x => x.sender = op.sender)

-- No clause for a trace that ends before its first response.
def findMinimalOps : Trace ι V → Trace ι V → Option (Trace ι V)
  | [], _ => none
  | h :: t, minimalOps =>
    match h.operation with
    | .readResponse | .writeResponse => some minimalOps
    | _ => findMinimalOps t (h :: minimalOps)

def wingGongLoop (wingGong : Trace ι V → List (Option V) → Option Bool) (fullOpsHist : Trace ι V) :
    Trace ι V → List (Option V) → Option Bool
  | [], _ => some false
  | _ :: _, [] => none
  | h :: t, latest :: s =>
    match h.operation with
    | .readResponse | .readInvokation =>
      if latest = getResponseValue h fullOpsHist then do
        if ← wingGong (removeOp h fullOpsHist) (latest :: s) then some true
        else wingGongLoop wingGong fullOpsHist t (latest :: s)
      else wingGongLoop wingGong fullOpsHist t (latest :: s)
    | .writeResponse | .writeInvokation => do
      if ← wingGong (removeOp h fullOpsHist) (h.value :: latest :: s) then some true
      else wingGongLoop wingGong fullOpsHist t (latest :: s)

def wingGong : ℕ → Trace ι V → List (Option V) → Option Bool
  | 0, _, _ => none
  | _ + 1, [], _ => some true
  | fuel + 1, opsHist, s => do
    let minimalOps ← findMinimalOps opsHist []
    wingGongLoop (wingGong fuel) opsHist minimalOps s

end Erlang

end Checkers

-- One operation for each sender, answered later in the trace. A read has its
-- value on the response, a write on the invocation.
def isOperation : Trace ι V → Bool
  | [call,answer] =>
    match call.operation,answer.operation with
    | .readInvokation,.readResponse => answer.value.isSome
    | .writeInvokation,.writeResponse => call.value.isSome
    | _,_ => false
  | _ => false

def Complete (h : Trace ι V) : Prop :=
  ∀ entry ∈ h, isOperation (h.filter (fun x => x.sender = entry.sender)) = true

-- The two entries of each sender, in either order.
def Paired (h : Trace ι V) : Prop :=
  ∀ entry ∈ h, isOperation (h.filter (fun x => x.sender = entry.sender)) = true ∨
    isOperation (h.filter (fun x => x.sender = entry.sender)).reverse = true

instance (h : Trace ι V) : Decidable (Complete h) :=
  inferInstanceAs (Decidable (∀ entry ∈ h, isOperation (h.filter (fun x => x.sender = entry.sender)) = true))

def KVTimestamp.event (entry : KVTimestamp ι V) : Event ι (Option V) :=
  match entry.operation with
  | .readInvokation => .inv entry.sender .read
  | .writeInvokation => .inv entry.sender (.write entry.value)
  | .readResponse => .res entry.sender (some entry.value)
  | .writeResponse => .res entry.sender none

def history (h : Trace ι V) : History ι (Option V) := h.map KVTimestamp.event

omit [DecidableEq ι] in
theorem isOperation_cases {own : Trace ι V} (operation : isOperation own = true) :
    ∃ call answer, own = [call,answer] ∧
      (call.operation = .readInvokation ∧ answer.operation = .readResponse ∧
          answer.value.isSome = true ∨
        call.operation = .writeInvokation ∧ answer.operation = .writeResponse ∧
          call.value.isSome = true) := by
  unfold isOperation at operation
  split at operation
  · rename_i call answer
    refine ⟨call,answer,rfl,?_⟩
    split at operation
    · rename_i reads returns
      exact .inl ⟨reads,returns,operation⟩
    · rename_i writes acks
      exact .inr ⟨writes,acks,operation⟩
    · cases operation
  · cases operation

theorem sender_of_own {h own : Trace ι V} (events : h.filter (fun x => x.sender = i) = own)
    (member : x ∈ own) : x ∈ h ∧ x.sender = i := by
  subst events
  simpa using member

theorem Complete.operation {h : Trace ι V} (complete : Complete h) (member : entry ∈ h) :
    ∃ call answer, h.filter (fun x => x.sender = entry.sender) = [call,answer] ∧
      call.sender = entry.sender ∧ answer.sender = entry.sender ∧
      (call.operation = .readInvokation ∧ answer.operation = .readResponse ∧
          answer.value.isSome = true ∨
        call.operation = .writeInvokation ∧ answer.operation = .writeResponse ∧
          call.value.isSome = true) := by
  obtain ⟨call,answer,events,kind⟩ := isOperation_cases (complete entry member)
  exact ⟨call,answer,events,(sender_of_own events (by simp)).2,(sender_of_own events (by simp)).2,kind⟩

omit [DecidableEq ι] in
@[simp] theorem KVTimestamp.who_event (entry : KVTimestamp ι V) : entry.event.who = entry.sender := by
  unfold KVTimestamp.event
  split <;> rfl

omit [DecidableEq ι] in
theorem KVTimestamp.isInv_event (entry : KVTimestamp ι V) :
    entry.event.isInv = entry.operation.isInvokation := by
  unfold KVTimestamp.event
  split <;> simp_all [KVOperation.isInvokation]

theorem without_history (entry : KVTimestamp ι V) (h : Trace ι V) :
    without entry.sender (history h) = history (removeOperation entry h) := by
  simp [without,history,removeOperation,List.filter_map,Function.comp_def]

omit [DecidableEq ι] in
theorem minimal_history (h : Trace ι V) : minimal (history h) = history (getMinimalOps h) := by
  simp [minimal,history,getMinimalOps,List.takeWhile_map,Function.comp_def,KVTimestamp.isInv_event]

theorem Complete.history {h : Trace ι V} (complete : Complete h) :
    Histories.Complete (history h) := by
  intro event member
  obtain ⟨entry,inside,rfl⟩ := List.mem_map.mp member
  obtain ⟨call,answer,events,caller,answerer,kind⟩ := complete.operation inside
  have own : (LinearCheck.history h).filter (fun other => other.who = entry.event.who) =
      [call.event,answer.event] := by
    rw [LinearCheck.history,List.filter_map]
    simp only [Function.comp_def,KVTimestamp.who_event,events,List.map_cons,List.map_nil]
  rw [own,KVTimestamp.who_event]
  rcases kind with ⟨reads,returns,_⟩ | ⟨writes,acks,_⟩
  · exact ⟨.read,some answer.value,by simp,by simp [KVTimestamp.event,reads,returns,caller,answerer]⟩
  · exact ⟨.write call.value,none,by simp,by simp [KVTimestamp.event,writes,acks,caller,answerer]⟩

theorem own_removeOperation {h : Trace ι V} {op : KVTimestamp ι V} (apart : i ≠ op.sender) :
    (removeOperation op h).filter (fun x => x.sender = i) = h.filter (fun x => x.sender = i) := by
  rw [removeOperation,List.filter_filter]
  apply List.filter_congr
  intro other _
  by_cases same : other.sender = i
  · simp [same,apart]
  · simp [same]

theorem mem_removeOperation {h : Trace ι V} {op : KVTimestamp ι V} :
    entry ∈ removeOperation op h ↔ entry ∈ h ∧ entry.sender ≠ op.sender := by
  simp [removeOperation]

theorem Complete.removeOperation {h : Trace ι V} (complete : Complete h) (op : KVTimestamp ι V) :
    Complete (removeOperation op h) := by
  intro entry member
  obtain ⟨inside,apart⟩ := mem_removeOperation.mp member
  rw [own_removeOperation apart]
  exact complete entry inside

theorem Paired.removeOperation {h : Trace ι V} (paired : Paired h) (op : KVTimestamp ι V) :
    Paired (removeOperation op h) := by
  intro entry member
  obtain ⟨inside,apart⟩ := mem_removeOperation.mp member
  rw [own_removeOperation apart]
  exact paired entry inside

theorem Complete.paired {h : Trace ι V} (complete : Complete h) : Paired h :=
  fun entry member => .inl (complete entry member)

theorem removeOperation_shorter {h : Trace ι V} (member : op ∈ h) :
    (removeOperation op h).length < h.length := by
  apply List.length_filter_lt_length_iff_exists.mpr
  exact ⟨op,member,by simp⟩

theorem Paired.answer {h : Trace ι V} (paired : Paired h) (member : op ∈ h)
    (called : op.operation.isInvokation = true) :
    ∃ answer ∈ h, answer.sender = op.sender ∧
      (op.operation = .readInvokation ∧ answer.operation = .readResponse ∧
          (∃ value, answer.value = some value ∧ getResponseValue op h = some value) ∨
        op.operation = .writeInvokation ∧ answer.operation = .writeResponse ∧
          ∃ value, op.value = some value) := by
  -- The two orders differ in nothing that the lookup of the response sees.
  have both : ∃ call answer, (∀ x, x ∈ h.filter (fun x => x.sender = op.sender) ↔ x ∈ [call,answer]) ∧
      isOperation [call,answer] = true ∧
      (call.operation = .readInvokation → answer.operation = .readResponse →
        (h.filter (fun x => x.sender = op.sender)).filter (fun x => x.operation = .readResponse) =
          [answer]) := by
    rcases paired op member with straight | reversed
    · obtain ⟨call,answer,events,-⟩ := isOperation_cases straight
      rw [events] at straight ⊢
      exact ⟨call,answer,by simp,straight,fun reads returns => by simp [reads,returns]⟩
    · obtain ⟨call,answer,events,-⟩ := isOperation_cases reversed
      rw [events] at reversed
      have back := congrArg List.reverse events
      rw [List.reverse_reverse] at back
      rw [back]
      exact ⟨call,answer,by simp [or_comm],reversed,fun reads returns => by simp [reads,returns]⟩
  obtain ⟨call,answer,members,operation,lookup⟩ := both
  obtain ⟨_,_,same,kind⟩ := isOperation_cases operation
  cases same
  have here := (members op).mp (List.mem_filter.mpr ⟨member,by simp⟩)
  obtain ⟨inside,answerer⟩ := List.mem_filter.mp ((members answer).mpr (by simp))
  have first : op = call := by
    rcases List.mem_cons.mp here with same | later
    · exact same
    · cases List.mem_singleton.mp later
      rcases kind with ⟨-,returns,-⟩ | ⟨-,acks,-⟩
      · simp [returns,KVOperation.isInvokation] at called
      · simp [acks,KVOperation.isInvokation] at called
  subst first
  refine ⟨answer,inside,by simpa using answerer,?_⟩
  rcases kind with ⟨reads,returns,filled⟩ | ⟨writes,acks,filled⟩
  · obtain ⟨value,carried⟩ := Option.isSome_iff_exists.mp filled
    refine .inl ⟨reads,returns,value,carried,?_⟩
    have narrowed := lookup reads returns
    rw [List.filter_filter] at narrowed
    have found : h.find? (fun x => x.operation = .readResponse ∧ x.sender = op.sender) = some answer := by
      rw [← List.head?_filter]
      simp only [Bool.decide_and] at narrowed ⊢
      rw [narrowed]
      rfl
    simp only [getResponseValue,reads,found,carried]
  · exact .inr ⟨writes,acks,Option.isSome_iff_exists.mp filled⟩

theorem Complete.read_answer {h : Trace ι V} (complete : Complete h) (member : op ∈ h)
    (reads : op.operation = .readInvokation) :
    ∃ value, getResponseValue op h = some value ∧
      ∀ out, Event.res op.sender (some out) ∈ LinearCheck.history h ↔ some value = out := by
  obtain ⟨answer,inside,answerer,kind⟩ :=
    complete.paired.answer member (by simp [reads,KVOperation.isInvokation])
  rcases kind with ⟨-,returns,value,carried,read⟩ | ⟨writes,-⟩
  · have placed : Event.res op.sender (some (some value)) ∈ LinearCheck.history h := by
      refine List.mem_map.mpr ⟨answer,inside,?_⟩
      simp [KVTimestamp.event,returns,answerer,carried]
    refine ⟨value,read,?_⟩
    intro out
    constructor
    · intro present
      exact Option.some.inj (complete.history.response_unique placed present)
    · rintro rfl
      exact placed
  · simp [reads] at writes

def Explained (current : Option V) (h : Trace ι V) : Prop := Linearizable current (history h)

-- The operation can go first, and what is left is accepted after it.
def Starts (accepts : Option V → Trace ι V → Prop) (current : Option V) (h : Trace ι V)
    (op : KVTimestamp ι V) : Prop :=
  (op.operation = .readInvokation → getResponseValue op h = current) ∧
    accepts (if op.operation = .writeInvokation then op.value else current) (removeOperation op h)

omit [DecidableEq ι] in
theorem mem_minimal {h : Trace ι V} :
    Event.inv i act ∈ minimal (history h) ↔ ∃ op ∈ getMinimalOps h, op.event = Event.inv i act := by
  rw [minimal_history,history,List.mem_map]

theorem Complete.starts {h : Trace ι V} (complete : Complete h) (some_entry : h ≠ []) :
    Explained current h ↔ ∃ op ∈ getMinimalOps h, Starts Explained current h op := by
  rw [Explained,complete.history.linearizable_step (by simpa [LinearCheck.history] using some_entry)]
  constructor
  · rintro ⟨i,act,first,answers,rest⟩
    obtain ⟨op,member,shape⟩ := mem_minimal.mp first
    have inside : op ∈ h := (List.takeWhile_sublist _).subset member
    refine ⟨op,member,?_⟩
    have named : op.sender = i := by rw [← op.who_event,shape,Event.who_inv]
    subst named
    rw [without_history] at rest
    unfold KVTimestamp.event at shape
    split at shape
    · rename_i reads
      cases shape
      obtain ⟨value,read,only⟩ := complete.read_answer inside reads
      refine ⟨fun _ => ?_,by simpa [Explained,reads,Op.apply] using rest⟩
      rw [read]
      exact (only current).mp (answers rfl)
    · rename_i writes
      cases shape
      exact ⟨by simp [writes],by simpa [Explained,writes,Op.apply] using rest⟩
    · cases shape
    · cases shape
  · rintro ⟨op,member,answers,rest⟩
    have inside : op ∈ h := (List.takeWhile_sublist _).subset member
    have called := List.mem_takeWhile_imp member
    obtain ⟨answer,-,-,⟨reads,-⟩ | ⟨writes,-⟩⟩ := complete.paired.answer inside called
    · obtain ⟨value,read,only⟩ := complete.read_answer inside reads
      refine ⟨op.sender,.read,mem_minimal.mpr ⟨op,member,by simp [KVTimestamp.event,reads]⟩,?_,?_⟩
      · intro _
        rw [only,← read]
        exact answers reads
      · rw [without_history]
        simpa [Explained,reads,Op.apply] using rest
    · refine ⟨op.sender,.write op.value,mem_minimal.mpr ⟨op,member,by
        simp [KVTimestamp.event,writes]⟩,by simp,?_⟩
      rw [without_history]
      simpa [Explained,writes,Op.apply] using rest

section Verdicts
variable [DecidableEq V]

-- A verdict, and the stack as it was when the verdict is no.
def Decides (outcome : Option (Bool × List V)) (s : List V) (holds : Prop) : Prop :=
  ∃ verdict after, outcome = some (verdict,after) ∧ (verdict = true ↔ holds) ∧
    (verdict = false → after = s)

omit [DecidableEq V] in
theorem Decides.congr {outcome : Option (Bool × List V)} (decides : Decides outcome s left)
    (same : left ↔ right) : Decides outcome s right := by
  obtain ⟨verdict,after,run,correct,kept⟩ := decides
  exact ⟨verdict,after,run,correct.trans same,kept⟩

-- The invocation has its value in the trace.
def Answered (h : Trace ι V) (op : KVTimestamp ι V) : Prop :=
  op.operation = .readInvokation ∧ (∃ value, getResponseValue op h = some value) ∨
    op.operation = .writeInvokation ∧ ∃ value, op.value = some value

omit [DecidableEq V] in
theorem Paired.answered {h : Trace ι V} (paired : Paired h) (member : op ∈ getMinimalOps h) :
    op ∈ h ∧ Answered h op := by
  have inside : op ∈ h := (List.takeWhile_sublist _).subset member
  refine ⟨inside,?_⟩
  have called := List.mem_takeWhile_imp member
  obtain ⟨answer,-,-,⟨reads,-,value,-,read⟩ | ⟨writes,-,filled⟩⟩ := paired.answer inside called
  · exact .inl ⟨reads,value,read⟩
  · exact .inr ⟨writes,filled⟩

theorem tryOps_decides {remove : KVTimestamp ι V → Trace ι V → Option (Trace ι V)}
    {check : Trace ι V → List V → Option (Bool × List V)} {accepts : Option V → Trace ι V → Prop}
    {h : Trace ι V} (last : s.getLast? = some v) (ops : Trace ι V)
    (removes : ∀ op ∈ ops, remove op h = some (removeOperation op h))
    (answered : ∀ op ∈ ops, Answered h op)
    (checks : ∀ op ∈ ops, ∀ s v, s.getLast? = some v →
      Decides (check (removeOperation op h) s) s (accepts (some v) (removeOperation op h))) :
    Decides (tryOps remove check h ops s) s (∃ op ∈ ops, Starts accepts (some v) h op) := by
  induction ops with
  | nil => exact ⟨false,s,rfl,by simp,fun _ => rfl⟩
  | cons op ops ih =>
    obtain ⟨removed,removes⟩ := List.forall_mem_cons.mp removes
    obtain ⟨kind,answered⟩ := List.forall_mem_cons.mp answered
    obtain ⟨checked,checks⟩ := List.forall_mem_cons.mp checks
    obtain ⟨verdict,after,later,correct,kept⟩ := ih removes answered checks
    -- This operation first, or the ones after it.
    have choose : ∀ taken final, (taken = true ↔ Starts accepts (some v) h op) →
        tryOps remove check h (op :: ops) s =
          (if taken = true then some (true,final) else tryOps remove check h ops s) →
        Decides (tryOps remove check h (op :: ops) s) s (∃ x ∈ op :: ops, Starts accepts (some v) h x) := by
      intro taken final starts run
      cases taken with
      | true => exact ⟨true,final,run,by simp [starts.mp rfl],by simp⟩
      | false =>
        have fails : ¬ Starts accepts (some v) h op := fun does => by simpa using starts.mpr does
        exact ⟨verdict,after,run.trans later,by simpa [fails] using correct,kept⟩
    rcases kind with ⟨reads,value,read⟩ | ⟨writes,value,carried⟩
    · by_cases equal : v = value
      · subst equal
        obtain ⟨taken,final,run,right,restored⟩ := checked s v last
        apply choose taken final
        · simpa [Starts,reads,read] using right
        · rw [tryOps]
          simp only [read,reads,removed,last,run,Option.bind_eq_bind,Option.bind_some,if_true]
          cases taken with
          | true => rfl
          | false => rw [restored rfl]
      · apply choose false s
        · simp [Starts,reads,read,Ne.symm equal]
        · rw [tryOps]
          simp [read,reads,removed,last,equal]
    · obtain ⟨taken,final,run,right,restored⟩ := checked (s ++ [value]) value (by simp)
      have answer : getResponseValue op h = some value := by simp [getResponseValue,writes,carried]
      apply choose taken final
      · simpa [Starts,writes,carried] using right
      · rw [tryOps]
        simp only [answer,writes,removed,run,Option.bind_eq_bind,Option.bind_some]
        cases taken with
        | true => rfl
        | false => rw [restored rfl,List.dropLast_concat]

theorem search_decides {remove : KVTimestamp ι V → Trace ι V → Option (Trace ι V)}
    (removes : ∀ h : Trace ι V, ∀ op ∈ h, remove op h = some (removeOperation op h)) (fuel : ℕ)
    {h : Trace ι V} (complete : Complete h) (enough : h.length < fuel) (last : s.getLast? = some v) :
    Decides (search remove fuel h s) s (Explained (some v) h) := by
  induction fuel generalizing h s v with
  | zero => omega
  | succ fuel ih =>
    by_cases done : h = []
    · subst done
      exact ⟨true,s,rfl,by simp [Explained,history,linearizable_nil],by simp⟩
    · rw [search,if_neg (by simpa using done)]
      refine (tryOps_decides last (getMinimalOps h) ?_ ?_ ?_).congr (complete.starts done).symm
      · intro op member
        exact removes h op (complete.paired.answered member).1
      · intro op member
        exact (complete.paired.answered member).2
      · intro op member s v last
        have shorter := removeOperation_shorter (complete.paired.answered member).1
        exact ih (complete.removeOperation op) (by omega) last

omit [DecidableEq V] in
theorem minimal_not_reversed {h : Trace ι V} (member : op ∈ getMinimalOps h)
    (reversed : isOperation (h.filter (fun x => x.sender = op.sender)).reverse = true) : False := by
  obtain ⟨call,answer,events,kind⟩ := isOperation_cases reversed
  have back := congrArg List.reverse events
  rw [List.reverse_reverse,← List.takeWhile_append_dropWhile (p := fun x => x.operation.isInvokation) (l := h),
    List.filter_append] at back
  -- The first entry of the sender is then one of the invocations ahead.
  have own : op ∈ (getMinimalOps h).filter (fun x => x.sender = op.sender) :=
    List.mem_filter.mpr ⟨member,by simp⟩
  cases ahead : (getMinimalOps h).filter (fun x => x.sender = op.sender) with
  | nil => simp [ahead] at own
  | cons first rest =>
    rw [getMinimalOps] at ahead
    rw [ahead] at back
    obtain ⟨same,-⟩ := List.cons.inj back
    have inside : first ∈ h.takeWhile (fun x => x.operation.isInvokation) :=
      List.mem_of_mem_filter (ahead ▸ List.mem_cons_self)
    have called := List.mem_takeWhile_imp inside
    rcases kind with ⟨-,returns,-⟩ | ⟨-,acks,-⟩
    · simp [same,returns,KVOperation.isInvokation] at called
    · simp [same,acks,KVOperation.isInvokation] at called

theorem search_reversed {remove : KVTimestamp ι V → Trace ι V → Option (Trace ι V)}
    (removes : ∀ h : Trace ι V, ∀ op ∈ h, remove op h = some (removeOperation op h)) (fuel : ℕ)
    {h : Trace ι V} (paired : Paired h) (member : entry ∈ h)
    (reversed : isOperation (h.filter (fun x => x.sender = entry.sender)).reverse = true)
    (enough : h.length < fuel) (last : s.getLast? = some v) :
    Decides (search remove fuel h s) s False := by
  induction fuel generalizing h s v with
  | zero => omega
  | succ fuel ih =>
    have some_entry : h ≠ [] := List.ne_nil_of_mem member
    rw [search,if_neg (by simpa using some_entry)]
    have loop : Decides (tryOps remove (search remove fuel) h (getMinimalOps h) s) s
        (∃ op ∈ getMinimalOps h, Starts (fun _ _ => False) (some v) h op) := by
      refine tryOps_decides last (getMinimalOps h) ?_ ?_ ?_
      · intro op first
        exact removes h op (paired.answered first).1
      · intro op first
        exact (paired.answered first).2
      · intro op first s v last
        have apart : entry.sender ≠ op.sender := by
          intro same
          rw [same] at reversed
          exact minimal_not_reversed first reversed
        have shorter := removeOperation_shorter (paired.answered first).1
        refine ih (paired.removeOperation op) (mem_removeOperation.mpr ⟨member,apart⟩) ?_ (by omega) last
        rwa [own_removeOperation apart]
    exact loop.congr (by simp [Starts])

theorem search_paired {remove : KVTimestamp ι V → Trace ι V → Option (Trace ι V)}
    (removes : ∀ h : Trace ι V, ∀ op ∈ h, remove op h = some (removeOperation op h)) (fuel : ℕ)
    {h : Trace ι V} (paired : Paired h) (enough : h.length < fuel) (last : s.getLast? = some v) :
    Decides (search remove fuel h s) s (Complete h ∧ Explained (some v) h) := by
  by_cases complete : Complete h
  · exact (search_decides removes fuel complete enough last).congr (by simp [complete])
  · refine Decides.congr ?_ (iff_of_false id fun both => complete both.1)
    obtain ⟨entry,member,wrong⟩ : ∃ entry ∈ h,
        isOperation (h.filter (fun x => x.sender = entry.sender)) ≠ true := by
      simpa [Complete] using complete
    have reversed := (paired entry member).resolve_left wrong
    exact search_reversed removes fuel paired member reversed enough last

theorem eraseP_of_one {α : Type*} {a : α} {p : α → Bool} {list : List α} (one : list.filter p = [a]) :
    list.eraseP p = list.filter (fun x => !p x) := by
  induction list with
  | nil => cases one
  | cons x rest ih =>
    by_cases holds : p x = true
    · rw [List.filter_cons_of_pos holds] at one
      obtain ⟨-,none_left⟩ := List.cons.inj one
      rw [List.eraseP_cons_of_pos holds,List.filter_cons_of_neg (by simp [holds])]
      symm
      apply List.filter_eq_self.mpr
      intro y member
      simpa using List.filter_eq_nil_iff.mp none_left y member
    · rw [List.filter_cons_of_neg holds] at one
      rw [List.eraseP_cons_of_neg holds,List.filter_cons_of_pos (by simpa using holds),ih one]

theorem eraseP_of_two {α : Type*} {a b : α} {p : α → Bool} {list : List α} (two : list.filter p = [a,b]) :
    (list.eraseP p).eraseP p = list.filter (fun x => !p x) := by
  induction list with
  | nil => cases two
  | cons x rest ih =>
    by_cases holds : p x = true
    · rw [List.filter_cons_of_pos holds] at two
      obtain ⟨-,one⟩ := List.cons.inj two
      rw [List.eraseP_cons_of_pos holds,List.filter_cons_of_neg (by simp [holds]),eraseP_of_one one]
    · rw [List.filter_cons_of_neg holds] at two
      rw [List.eraseP_cons_of_neg holds,List.eraseP_cons_of_neg holds,
        List.filter_cons_of_pos (by simpa using holds),ih two]

namespace Erlang

omit [DecidableEq V] in
theorem removeOp_eq {h : Trace ι V} (complete : Complete h) (member : op ∈ h) :
    removeOp op h = removeOperation op h := by
  obtain ⟨call,answer,events,-⟩ := complete.operation member
  simp [removeOp,removeOperation,eraseP_of_two events]

omit [DecidableEq V] in
theorem getResponseValue_eq (op : KVTimestamp ι V) (h : Trace ι V) :
    getResponseValue op h = LinearCheck.getResponseValue op h := by
  have read : getReadValue op.sender h =
      match h.find? (fun x => x.operation = .readResponse ∧ x.sender = op.sender) with
      | some ts => ts.value
      | none => none := by
    induction h with
    | nil => rfl
    | cons entry rest ih =>
      rw [getReadValue,List.find?_cons]
      by_cases found : entry.operation = .readResponse ∧ entry.sender = op.sender
      · simp [found]
      · simp only [found,if_false,decide_false,ih]
  unfold getResponseValue LinearCheck.getResponseValue
  rw [read]

omit [DecidableEq ι] [DecidableEq V] in
theorem findMinimalOps_eq {h : Trace ι V} (answered : ∃ entry ∈ h, entry.operation.isInvokation = false)
    (acc : Trace ι V) : findMinimalOps h acc = some ((getMinimalOps h).reverse ++ acc) := by
  induction h generalizing acc with
  | nil => simp at answered
  | cons entry rest ih =>
    rw [findMinimalOps]
    cases kind : entry.operation with
    | readResponse => simp [getMinimalOps,kind,KVOperation.isInvokation]
    | writeResponse => simp [getMinimalOps,kind,KVOperation.isInvokation]
    | _ =>
      rw [ih (by simpa [kind,KVOperation.isInvokation] using answered)]
      simp [getMinimalOps,kind,KVOperation.isInvokation]

omit [DecidableEq V] in
theorem findMinimalOps_complete {h : Trace ι V} (complete : Complete h) (some_entry : h ≠ []) :
    findMinimalOps h [] = some (getMinimalOps h).reverse := by
  obtain ⟨entry,member⟩ := List.exists_mem_of_ne_nil h some_entry
  obtain ⟨call,answer,events,-,-,kind⟩ := complete.operation member
  have inside : answer ∈ h := by
    refine List.mem_of_mem_filter (p := fun x => x.sender = entry.sender) ?_
    simp [events]
  rw [findMinimalOps_eq ⟨answer,inside,?_⟩,List.append_nil]
  rcases kind with ⟨-,returns,-⟩ | ⟨-,acks,-⟩
  · simp [returns,KVOperation.isInvokation]
  · simp [acks,KVOperation.isInvokation]

theorem wingGongLoop_decides {check : Trace ι V → List (Option V) → Option Bool} {h : Trace ι V}
    (complete : Complete h)
    (checks : ∀ op ∈ h, ∀ latest s, ∃ verdict, check (removeOperation op h) (latest :: s) = some verdict ∧
      (verdict = true ↔ Explained latest (removeOperation op h)))
    (latest : Option V) (s : List (Option V)) (ops : Trace ι V) (first : ∀ op ∈ ops, op ∈ getMinimalOps h) :
    ∃ verdict, wingGongLoop check h ops (latest :: s) = some verdict ∧
      (verdict = true ↔ ∃ op ∈ ops, Starts Explained latest h op) := by
  induction ops with
  | nil => exact ⟨false,rfl,by simp⟩
  | cons op ops ih =>
    obtain ⟨inside,kind⟩ := complete.paired.answered (first op (by simp))
    obtain ⟨verdict,later,correct⟩ := ih (fun other member => first other (by simp [member]))
    have choose : ∀ taken, (taken = true ↔ Starts Explained latest h op) →
        wingGongLoop check h (op :: ops) (latest :: s) =
          (if taken = true then some true else wingGongLoop check h ops (latest :: s)) →
        ∃ verdict, wingGongLoop check h (op :: ops) (latest :: s) = some verdict ∧
          (verdict = true ↔ ∃ x ∈ op :: ops, Starts Explained latest h x) := by
      intro taken starts run
      cases taken with
      | true => exact ⟨true,run,by simp [starts.mp rfl]⟩
      | false =>
        have fails : ¬ Starts Explained latest h op := fun does => by simpa using starts.mpr does
        exact ⟨verdict,run.trans later,by simpa [fails] using correct⟩
    rcases kind with ⟨reads,-⟩ | ⟨writes,value,carried⟩
    · by_cases equal : latest = LinearCheck.getResponseValue op h
      · obtain ⟨taken,run,right⟩ := checks op inside latest s
        apply choose taken
        · simpa [Starts,reads,equal.symm] using right
        · rw [wingGongLoop]
          simp only [reads,getResponseValue_eq,equal.symm,if_true,removeOp_eq complete inside,run,
            Option.bind_eq_bind,Option.bind_some]
      · apply choose false
        · simp [Starts,reads,Ne.symm equal]
        · rw [wingGongLoop]
          simp [reads,getResponseValue_eq,equal]
    · obtain ⟨taken,run,right⟩ := checks op inside op.value (latest :: s)
      apply choose taken
      · simpa [Starts,writes] using right
      · rw [wingGongLoop]
        simp only [writes,removeOp_eq complete inside,run,Option.bind_eq_bind,Option.bind_some]

theorem wingGong_decides (fuel : ℕ) {h : Trace ι V} (complete : Complete h) (enough : h.length < fuel)
    (latest : Option V) (s : List (Option V)) :
    ∃ verdict, wingGong fuel h (latest :: s) = some verdict ∧
      (verdict = true ↔ Explained latest h) := by
  induction fuel generalizing h latest s with
  | zero => omega
  | succ fuel ih =>
    cases h with
    | nil => exact ⟨true,rfl,by simp [Explained,history,linearizable_nil]⟩
    | cons entry rest =>
      have some_entry : entry :: rest ≠ [] := by simp
      rw [wingGong,findMinimalOps_complete complete some_entry,complete.starts some_entry]
      · have checks : ∀ op ∈ entry :: rest, ∀ latest s,
            ∃ verdict, wingGong fuel (removeOperation op (entry :: rest)) (latest :: s) = some verdict ∧
              (verdict = true ↔ Explained latest (removeOperation op (entry :: rest))) := by
          intro op inside latest s
          have shorter := removeOperation_shorter inside
          exact ih (complete.removeOperation op) (by omega) latest s
        obtain ⟨verdict,run,correct⟩ := wingGongLoop_decides complete checks latest s
          (getMinimalOps (entry :: rest)).reverse (by simp)
        exact ⟨verdict,run,by simpa using correct⟩
      · simp

end Erlang

omit [DecidableEq V] in
theorem removeOp_member (h : Trace ι V) : ∀ op ∈ h, removeOp op h = some (removeOperation op h) := by
  intro op member
  rw [removeOp,if_pos (removeOperation_shorter member)]

theorem checkers_sound_complete (h : Trace ι V) (complete : Complete h) (enough : h.length < fuel)
    (initial : V) :
    Decides (isLinearizable fuel h [initial]) [initial] (Linearizable (some initial) (history h)) ∧
    Decides (Scala.isLinearizable fuel h [initial]) [initial]
      (Linearizable (some initial) (history h)) ∧
    ∃ verdict, Erlang.wingGong fuel h [some initial] = some verdict ∧
      (verdict = true ↔ Linearizable (some initial) (history h)) := by
  refine ⟨?_,?_,?_⟩
  · exact search_decides removeOp_member fuel complete enough rfl
  · exact search_decides (fun _ _ _ => rfl) fuel complete enough rfl
  · exact Erlang.wingGong_decides fuel complete enough (some initial) []

end Verdicts

-- The read returns the value of a write it overlaps.
def overlapping : Trace ℕ ℕ :=
  [⟨0,.readInvokation,none,10,2⟩,⟨0,.writeInvokation,some 7,10,1⟩,⟨0,.readResponse,some 7,11,2⟩,
    ⟨0,.writeResponse,none,12,1⟩]

theorem overlapping_linearizable : Complete overlapping ∧
    isLinearizable 5 overlapping [0] = some (true,[0,7]) ∧
    Linearizable (some 0) (history overlapping) := by
  have complete : Complete overlapping := by decide
  refine ⟨complete,by decide,?_⟩
  obtain ⟨⟨verdict,after,run,correct,-⟩,-⟩ :=
    checkers_sound_complete overlapping complete (by decide : overlapping.length < 5) 0
  apply correct.mp
  have known : isLinearizable 5 overlapping [0] = some (true,[0,7]) := by decide
  rw [known] at run
  cases run
  rfl

end KompicsBenches.LinearCheck
