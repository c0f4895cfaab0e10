import KompicsBenches.RegisterOrder

namespace KompicsBenches.RegisterPorts
open RegisterNode RegisterFootprint RegisterReplies RegisterOrder

-- Messages of the current run for one key. `src` stands for the address that a
-- port uses as the key of its readlist.
inductive Input where
  | value (src : ℕ) (v : Value)
  | write (w : Write)
  | ack (a : Ack)
  deriving DecidableEq, Repr

inductive Output where
  | write (w : Write)
  | ack (a : Ack)
  | readResponse (value : ℕ)
  | writeResponse
  deriving DecidableEq, Repr

-- Where the ports differ: when a number of replies or acknowledgements is a
-- quorum of `n`, which of the replies is taken as the greatest, and what is left
-- of the register at the imposing step. `keep` gets the register as it was
-- before the last reply, as it is after it, and the reply taken.
structure Port where
  enough : ℕ → ℕ → Bool
  greatest : List Triple → Option Triple
  keep : AtomicRegisterState → AtomicRegisterState → Triple → AtomicRegisterState

section Handle
variable (port : Port) (n rank : ℕ) (order : List Triple → List Triple)

-- The replies of the quorum are met in the iteration order of a hash map.
def handleValue (reg : AtomicRegisterState) (list : Readlist) (src : ℕ) (v : Value) :
    (AtomicRegisterState × Readlist) × List Output :=
  if v.rid = reg.rid then
    let noted := noteReply reg list v
    let list := insertReply list src v.triple
    if port.enough n list.length then
      if noted.reading && noted.skipImpose then
        (({noted with value := noted.readval},[]),[.readResponse noted.readval])
      else
        match port.greatest (order (list.map Prod.snd)) with
        | none => ((noted,list),[])
        | some best =>
          let kept := port.keep reg noted best
          ((kept,[]),[.write (imposedWrite rank kept v best)])
    else ((noted,list),[])
  else ((reg,list),[])

def handleAck (reg : AtomicRegisterState) (list : Readlist) (a : Ack) :
    (AtomicRegisterState × Readlist) × List Output :=
  if a.rid = reg.rid then
    if port.enough n (reg.acks + 1) then
      if reg.reading then (({reg with acks := 0},list),[.readResponse reg.readval])
      else (({reg with acks := 0},list),[.writeResponse])
    else (({reg with acks := reg.acks + 1},list),[])
  else ((reg,list),[])

def handle (s : AtomicRegisterState × Readlist) :
    Input → (AtomicRegisterState × Readlist) × List Output
  | .value src v => handleValue port n rank order s.1 s.2 src v
  | .write w => ((store s.1 w,s.2),[.ack {runId := w.runId,key := w.key,rid := w.rid}])
  | .ack a => handleAck port n s.1 s.2 a

def run (s : AtomicRegisterState × Readlist) :
    List Input → (AtomicRegisterState × Readlist) × List Output
  | [] => (s,[])
  | x :: rest =>
    let (s,out) := handle port n rank order s x
    let (s,more) := run s rest
    (s,out ++ more)

end Handle

-- `maxBy(_._1)`: the first element with the greatest timestamp.
def maxByTs : List Triple → Option Triple
  | [] => none
  | first :: rest => some (rest.foldl (fun best t => if best.1 < t.1 then t else best) first)

-- The loop of `getMaxTuple` starts at the first element and meets it again.
def getMaxTuple (values : List Triple) : Option Triple :=
  values.head?.map fun first =>
    values.foldl (fun maxtuple t => if maxtuple.1 < t.1 then t else maxtuple) first

def half (n size : ℕ) : Bool := n / 2 < size

-- The chosen value is broadcast and stored nowhere.
def kompicsScala : Port where
  enough := half
  greatest := maxByTs
  keep := fun _ noted _ => noted

def akka : Port where
  enough := half
  greatest := maxByTs
  keep := fun _ noted best => {noted with readval := best.2.2}

def kompicsJava : Port where
  enough := half
  greatest := getMaxTuple
  keep := fun _ noted best => {noted with readval := best.2.2}

-- `/` divides without rounding. The new register is built from the one before
-- the last reply, with the chosen value in the field `value`.
def erlang : Port where
  enough := fun n size => n < 2 * size
  greatest := List.max?
  keep := fun before _ best => {before with value := best.2.2}

def valueOf : Input → Option (ℕ × Value)
  | .value src v => some (src,v)
  | _ => none

def values (inputs : List Input) : List (ℕ × Value) := inputs.filterMap valueOf

def replies (inputs : List Input) : List Triple := (values inputs).map fun x => x.2.triple

-- The replies to the operation up to the one that makes a quorum on which the
-- operation imposes. Writes of other nodes may arrive in between.
structure Ends (n : ℕ) (reg : AtomicRegisterState) (before : List Input) (src : ℕ) (v : Value) :
    Prop where
  current : ∀ x ∈ values before ++ [(src,v)], x.2.rid = reg.rid
  distinct : ((values before ++ [(src,v)]).map Prod.fst).Nodup
  unacked : ∀ a, .ack a ∉ before
  few : (values before).length ≤ n / 2
  many : n / 2 < (values before).length + 1
  split : reg.reading = true → ∃ x ∈ replies before, ∃ y ∈ replies before ++ [v.triple], x.1 ≠ y.1

-- What the imposing step has to broadcast.
def Carries (reg : AtomicRegisterState) (rank : ℕ) (replies : List Triple) (w : Write) : Prop :=
  ∃ best ∈ replies, (∀ x ∈ replies, tripleTag x ≤ tripleTag best) ∧
    if reg.reading then w.ts = best.1 ∧ w.wr = best.2.1 ∧ w.value = best.2.2
    else w.ts = best.1 + 1 ∧ w.wr = rank ∧ w.value = reg.writeval

def Completes (port : Port) (n rank : ℕ) (order : List Triple → List Triple)
    (s : AtomicRegisterState × Readlist) (more : List Input) (out : ℕ) : Prop :=
  (∀ x ∈ more, valueOf x = none) ∧ .readResponse out ∈ (run port n rank order s more).2

-- The step as the Kompact register has it, whatever the iteration order is.
def Imposes (port : Port) (n rank : ℕ) (reg : AtomicRegisterState) (inputs : List Input) : Prop :=
  ∀ order : List Triple → List Triple, (∀ list, (order list).Perm list) →
    ∃ w, .write w ∈ (run port n rank order (reg,[]) inputs).2 ∧
      Carries reg rank (replies inputs) w ∧
      ∀ more out, Completes port n rank order (run port n rank order (reg,[]) inputs).1 more out →
        out = w.value

theorem greatest_fold (rest : List Triple) (first : Triple) :
    let best := rest.foldl (fun best t => if best.1 < t.1 then t else best) first
    best ∈ first :: rest ∧ ∀ x ∈ first :: rest, x.1 ≤ best.1 := by
  induction rest generalizing first with
  | nil => simp
  | cons t rest ih =>
    rw [List.foldl_cons]
    obtain ⟨member,top⟩ := ih (if first.1 < t.1 then t else first)
    refine ⟨?_,fun x inside => ?_⟩
    · rcases List.mem_cons.mp member with same | later
      · rw [same]
        split <;> simp
      · exact List.mem_cons_of_mem _ (List.mem_cons_of_mem _ later)
    · have bound := top _ (List.mem_cons_self ..)
      rcases List.mem_cons.mp inside with rfl | inside
      · refine le_trans ?_ bound
        split
        · rename_i less
          exact less.le
        · exact le_rfl
      · rcases List.mem_cons.mp inside with rfl | later
        · refine le_trans ?_ bound
          split
          · exact le_rfl
          · rename_i above
            exact not_lt.mp above
        · exact top x (List.mem_cons_of_mem _ later)

theorem first_fold {rest : List Triple} {first : Triple} (top : ∀ x ∈ rest, x.1 ≤ first.1) :
    rest.foldl (fun best t => if best.1 < t.1 then t else best) first = first := by
  induction rest with
  | nil => rfl
  | cons t rest ih =>
    rw [List.foldl_cons,if_neg (not_lt.mpr (top t (List.mem_cons_self ..)))]
    exact ih fun x inside => top x (List.mem_cons_of_mem _ inside)

theorem getMaxTuple_eq (list : List Triple) : getMaxTuple list = maxByTs list := by
  cases list with
  | nil => rfl
  | cons first rest => simp [getMaxTuple,maxByTs]

-- A reply with the greatest timestamp of all.
def Top (replies : List Triple) (best : Triple) : Prop :=
  best ∈ replies ∧ ∀ x ∈ replies, x.1 ≤ best.1

theorem top_perm {list other : List Triple} (same : list.Perm other) : Top list best ↔ Top other best := by
  simp only [Top,same.mem_iff]

theorem maxByTs_top {list : List Triple} (found : maxByTs list = some best) : Top list best := by
  cases list with
  | nil => cases found
  | cons first rest =>
    cases found
    exact greatest_fold rest first

-- Some iteration order meets a given element first.
def ahead (best : Triple) (list : List Triple) : List Triple :=
  if best ∈ list then best :: list.erase best else list

theorem ahead_perm (best : Triple) (list : List Triple) : (ahead best list).Perm list := by
  unfold ahead
  split
  · rename_i inside
    exact (List.perm_cons_erase inside).symm
  · exact .refl _

theorem maxByTs_ahead {list : List Triple} (top : Top list best) :
    maxByTs (ahead best list) = some best := by
  unfold ahead
  rw [if_pos top.1]
  exact congrArg some (first_fold fun x inside => top.2 x (List.mem_of_mem_erase inside))

-- What the four ports have in common.
structure Sound (port : Port) : Prop where
  enough : ∀ n size, port.enough n size = decide (n / 2 < size)
  total : ∀ list, list ≠ [] → ∃ best, port.greatest list = some best
  top : ∀ list best, port.greatest list = some best → Top list best
  keep : ∀ before list v best, ∃ value readval skip first,
    port.keep before (noteReply before list v) best = {before with
      value := value,readval := readval,skipImpose := skip,firstReceivedTs := first}

theorem noteReply_eq (reg : AtomicRegisterState) (list : Readlist) (v : Value) :
    ∃ readval skip first, noteReply reg list v =
      {reg with readval := readval,skipImpose := skip,firstReceivedTs := first} := by
  unfold noteReply
  split
  · split
    · exact ⟨_,_,_,rfl⟩
    · split
      · exact ⟨_,_,_,rfl⟩
      · exact ⟨_,_,_,rfl⟩
  · exact ⟨_,_,_,rfl⟩

theorem maxByTs_total (list : List Triple) (some' : list ≠ []) : ∃ best, maxByTs list = some best := by
  cases list with
  | nil => exact absurd rfl some'
  | cons first rest => exact ⟨_,rfl⟩

theorem kompicsScala_sound : Sound kompicsScala where
  enough _ _ := rfl
  total := maxByTs_total
  top _ _ := maxByTs_top
  keep before list v best := by
    obtain ⟨readval,skip,first,same⟩ := noteReply_eq before list v
    exact ⟨before.value,readval,skip,first,same⟩

theorem akka_sound : Sound akka where
  enough _ _ := rfl
  total := maxByTs_total
  top _ _ := maxByTs_top
  keep before list v best := by
    obtain ⟨readval,skip,first,same⟩ := noteReply_eq before list v
    exact ⟨before.value,best.2.2,skip,first,by simp [akka,same]⟩

theorem kompicsJava_sound : Sound kompicsJava where
  enough _ _ := rfl
  total list some' := by
    rw [show kompicsJava.greatest list = maxByTs list from getMaxTuple_eq list]
    exact maxByTs_total list some'
  top list best found := by
    rw [show kompicsJava.greatest list = maxByTs list from getMaxTuple_eq list] at found
    exact maxByTs_top found
  keep before list v best := by
    obtain ⟨readval,skip,first,same⟩ := noteReply_eq before list v
    exact ⟨before.value,best.2.2,skip,first,by simp [kompicsJava,same]⟩

theorem triple_ts {x y : Triple} (below : x ≤ y) : x.1 ≤ y.1 := by
  obtain ⟨a,b⟩ := x
  obtain ⟨a',b'⟩ := y
  rcases Prod.Lex.toLex_le_toLex.mp below with less | ⟨same,_⟩
  · exact less.le
  · exact same.le

theorem erlang_sound : Sound erlang where
  enough n size := decide_eq_decide.mpr Quorum.half_lt.symm
  total list some' := by
    cases list with
    | nil => exact absurd rfl some'
    | cons first rest => exact ⟨_,rfl⟩
  top list best found := by
    obtain ⟨member,above⟩ := List.max?_eq_some_iff.mp found
    exact ⟨member,fun x inside => triple_ts (above x inside)⟩
  keep before list v best := ⟨best.2.2,before.readval,before.skipImpose,before.firstReceivedTs,rfl⟩

section Run
variable {port : Port} {n rank : ℕ} {order : List Triple → List Triple}
  {reg : AtomicRegisterState} {s : AtomicRegisterState × Readlist} {before inputs : List Input}

theorem run_append (s : AtomicRegisterState × Readlist) (first second : List Input) :
    run port n rank order s (first ++ second) =
      ((run port n rank order (run port n rank order s first).1 second).1,
        (run port n rank order s first).2 ++
          (run port n rank order (run port n rank order s first).1 second).2) := by
  induction first generalizing s with
  | nil => rfl
  | cons x rest ih => simp [run,ih]

theorem run_one (s : AtomicRegisterState × Readlist) (x : Input) :
    run port n rank order s [x] = handle port n rank order s x := by
  simp [run]

@[simp] theorem values_append (first second : List Input) :
    values (first ++ second) = values first ++ values second :=
  List.filterMap_append

-- The register and the readlist before the quorum. The first reply gives
-- `readval`, and `skip_impose` says that no other timestamp has been seen.
structure Collected (reg : AtomicRegisterState) (s : AtomicRegisterState × Readlist)
    (inputs : List Input) : Prop where
  list : s.2 = (values inputs).reverse.map fun x => (x.1,x.2.triple)
  rid : s.1.rid = reg.rid
  reading : s.1.reading = reg.reading
  writeval : s.1.writeval = reg.writeval
  acks : s.1.acks = reg.acks
  first : reg.reading = true → ∀ x rest, values inputs = x :: rest →
    s.1.readval = x.2.value ∧ s.1.firstReceivedTs = x.2.ts ∧
      (s.1.skipImpose = true ↔ ∀ y ∈ rest, y.2.ts = x.2.ts)
  start : values inputs = [] → s.1.skipImpose = true

theorem collected_start (fresh : reg.skipImpose = true) : Collected reg (reg,[]) [] :=
  ⟨rfl,rfl,rfl,rfl,rfl,by simp [values],fun _ => fresh⟩

theorem store_eq (reg : AtomicRegisterState) (w : Write) :
    ∃ ts wr value, store reg w = {reg with ts := ts,wr := wr,value := value} := by
  unfold store
  split
  · exact ⟨_,_,_,rfl⟩
  · exact ⟨_,_,_,rfl⟩

theorem collected_write (valid : Collected reg s before) (w : Write) :
    Collected reg (store s.1 w,s.2) (before ++ [.write w]) := by
  have same : values (before ++ [.write w]) = values before := by simp [values,valueOf]
  obtain ⟨ts,wr,value,stored⟩ := store_eq s.1 w
  rw [stored]
  exact ⟨by rw [same]; exact valid.list,valid.rid,valid.reading,valid.writeval,valid.acks,
    by rw [same]; exact valid.first,by rw [same]; exact valid.start⟩

theorem collected_fresh (valid : Collected reg s before)
    (distinct : ((values before ++ [(src,v)]).map Prod.fst).Nodup) :
    insertReply s.2 src v.triple = (src,v.triple) :: s.2 := by
  refine insertReply_fresh ?_ _
  rw [valid.list,List.map_map]
  rw [List.map_append,List.nodup_append] at distinct
  intro member
  obtain ⟨x,inside,same⟩ := List.mem_map.mp member
  exact distinct.2.2 x.1 (List.mem_map_of_mem (List.mem_reverse.mp inside)) src (by simp) same

theorem noted_first (valid : Collected reg s before) (reading : reg.reading = true)
    (whole : values before ++ [(src,v)] = x :: rest) :
    (noteReply s.1 s.2 v).readval = x.2.value ∧ (noteReply s.1 s.2 v).firstReceivedTs = x.2.ts ∧
      ((noteReply s.1 s.2 v).skipImpose = true ↔ ∀ y ∈ rest, y.2.ts = x.2.ts) := by
  have flag : s.1.reading = true := valid.reading.trans reading
  unfold noteReply
  rw [if_pos flag]
  cases earlier : values before with
  | nil =>
    rw [earlier] at whole
    cases whole
    have empty : s.2 = [] := by rw [valid.list,earlier]; rfl
    rw [empty,List.isEmpty_nil,if_pos rfl]
    refine ⟨rfl,rfl,?_⟩
    simpa using valid.start earlier
  | cons x' rest' =>
    rw [earlier,List.cons_append] at whole
    obtain ⟨same,tail⟩ := List.cons.inj whole
    subst same tail
    have full : s.2.isEmpty = false := by simp [valid.list,earlier]
    obtain ⟨readval,stamp,skip⟩ := valid.first reading x' rest' earlier
    rw [full,if_neg Bool.false_ne_true]
    by_cases other : (s.1.skipImpose && s.1.firstReceivedTs != v.ts) = true
    · rw [if_pos other]
      refine ⟨readval,stamp,?_⟩
      rw [Bool.and_eq_true,bne_iff_ne,stamp] at other
      simp only [Bool.false_eq_true,List.mem_append,List.mem_singleton,false_iff]
      exact fun all => other.2 (all (src,v) (.inr rfl)).symm
    · rw [if_neg other]
      refine ⟨readval,stamp,?_⟩
      rw [Bool.and_eq_true,bne_iff_ne,stamp,not_and_not_right] at other
      rw [skip]
      constructor
      · intro all y inside
        rcases List.mem_append.mp inside with old | new
        · exact all y old
        · rw [List.mem_singleton.mp new]
          exact (other (skip.mpr all)).symm
      · exact fun all y inside => all y (List.mem_append_left _ inside)

theorem collected_value (rank : ℕ) (order : List Triple → List Triple) (sound : Sound port)
    (valid : Collected reg s before)
    (current : v.rid = reg.rid) (distinct : ((values before ++ [(src,v)]).map Prod.fst).Nodup)
    (few : (values before).length + 1 ≤ n / 2) :
    Collected reg (handle port n rank order s (.value src v)).1 (before ++ [Input.value src v]) ∧
      (handle port n rank order s (.value src v)).2 = [] := by
  have size : ((src,v.triple) :: s.2).length = (values before).length + 1 := by
    rw [valid.list]
    simp
  have waits : handle port n rank order s (.value src v) =
      ((noteReply s.1 s.2 v,(src,v.triple) :: s.2),[]) := by
    unfold handle handleValue
    dsimp only
    rw [if_pos (current.trans valid.rid.symm),collected_fresh valid distinct,sound.enough,
      if_neg (by rw [decide_eq_true_iff,size]; omega)]
  have more : values (before ++ [Input.value src v]) = values before ++ [(src,v)] := by
    simp [values,valueOf]
  rw [waits]
  obtain ⟨readval,skip,first,noted⟩ := noteReply_eq s.1 s.2 v
  refine ⟨⟨?_,?_,?_,?_,?_,?_,?_⟩,rfl⟩
  · rw [more,valid.list]
    simp
  · rw [noted]; exact valid.rid
  · rw [noted]; exact valid.reading
  · rw [noted]; exact valid.writeval
  · rw [noted]; exact valid.acks
  · intro reading x rest whole
    exact noted_first valid reading (more ▸ whole)
  · simp [more]

theorem collects (rank : ℕ) (order : List Triple → List Triple) (sound : Sound port)
    (fresh : reg.skipImpose = true)
    (current : ∀ x ∈ values inputs, x.2.rid = reg.rid)
    (distinct : ((values inputs).map Prod.fst).Nodup) (unacked : ∀ a, .ack a ∉ inputs)
    (few : (values inputs).length ≤ n / 2) :
    Collected reg (run port n rank order (reg,[]) inputs).1 inputs ∧
      ∀ w, .write w ∉ (run port n rank order (reg,[]) inputs).2 := by
  induction inputs using List.reverseRecOn with
  | nil => exact ⟨collected_start fresh,by simp [run]⟩
  | append_singleton before x ih =>
    rw [values_append] at current distinct few
    obtain ⟨valid,silent⟩ := ih (fun y inside => current y (List.mem_append_left _ inside))
      (distinct.sublist ((List.sublist_append_left _ _).map _))
      (fun a inside => unacked a (List.mem_append_left _ inside))
      (le_trans (by simp) few)
    rw [run_append,run_one]
    cases x with
    | value src v =>
      have one : values [.value src v] = [(src,v)] := rfl
      rw [one] at current distinct few
      obtain ⟨next,none⟩ := collected_value rank order sound valid
        (current (src,v) (by simp)) distinct (by simpa using few)
      exact ⟨next,by simpa [none] using silent⟩
    | write w => exact ⟨collected_write valid w,by simpa [handle] using silent⟩
    | ack a => exact absurd (by simp) (unacked a)

-- The replies as the readlist holds them, the last one first.
def met (before : List Input) (v : Value) : List Triple := v.triple :: (replies before).reverse

theorem met_perm (before : List Input) (src : ℕ) (v : Value) :
    (met before v).Perm (replies (before ++ [Input.value src v])) := by
  have whole : replies (before ++ [Input.value src v]) = replies before ++ [v.triple] := by
    simp [replies,values,valueOf]
  rw [whole]
  exact ((List.reverse_perm _).cons _).trans (List.perm_append_singleton _ _).symm

theorem imposing_run (rank : ℕ) (sound : Sound port) (fresh : reg.skipImpose = true)
    (ends : Ends n reg before src v) (perm : ∀ list, (order list).Perm list) :
    ∃ s best, Collected reg s before ∧ port.greatest (order (met before v)) = some best ∧
      (run port n rank order (reg,[]) (before ++ [Input.value src v])).1 =
        (port.keep s.1 (noteReply s.1 s.2 v) best,[]) ∧
      ∀ w, .write w ∈ (run port n rank order (reg,[]) (before ++ [Input.value src v])).2 ↔
        w = imposedWrite rank (port.keep s.1 (noteReply s.1 s.2 v) best) v best := by
  obtain ⟨valid,silent⟩ := collects rank order sound fresh
    (fun x inside => ends.current x (List.mem_append_left _ inside))
    (ends.distinct.sublist ((List.sublist_append_left _ _).map _)) ends.unacked ends.few
  rw [run_append,run_one]
  generalize (run port n rank order (reg,[]) before).1 = s at valid ⊢
  have list : ((src,v.triple) :: s.2).map Prod.snd = met before v := by
    rw [valid.list]
    simp [met,replies]
  obtain ⟨best,found⟩ := sound.total (order (met before v)) (by
    intro empty
    have size := (perm (met before v)).length_eq
    rw [empty] at size
    simp [met] at size)
  refine ⟨s,best,valid,found,?_⟩
  -- The operation does not answer at once: a reading one has seen two timestamps.
  have slow : ¬((noteReply s.1 s.2 v).reading && (noteReply s.1 s.2 v).skipImpose) = true := by
    rw [Bool.and_eq_true,noteReply_reading,valid.reading]
    rintro ⟨reading,skip⟩
    obtain ⟨x,inside,y,member,other⟩ := ends.split reading
    have whole : replies before ++ [v.triple] = (values before ++ [(src,v)]).map fun z => z.2.triple := by
      simp [replies]
    cases split : values before ++ [(src,v)] with
    | nil => simp at split
    | cons first rest =>
      have same := (noted_first valid reading split).2.2.mp skip
      have stamp : ∀ z ∈ replies before ++ [v.triple], z.1 = first.2.ts := by
        rw [whole,split]
        intro z found
        obtain ⟨z',inside,rfl⟩ := List.mem_map.mp found
        rcases List.mem_cons.mp inside with rfl | later
        · rfl
        · exact same z' later
      exact other ((stamp x (List.mem_append_left _ inside)).trans (stamp y member).symm)
  have size : ((src,v.triple) :: s.2).length = (values before).length + 1 := by
    rw [valid.list]
    simp
  have handled : handle port n rank order s (.value src v) =
      ((port.keep s.1 (noteReply s.1 s.2 v) best,[]),
        [.write (imposedWrite rank (port.keep s.1 (noteReply s.1 s.2 v) best) v best)]) := by
    unfold handle handleValue
    dsimp only
    rw [if_pos ((ends.current (src,v) (by simp)).trans valid.rid.symm),
      collected_fresh valid ends.distinct,sound.enough,
      if_pos (by rw [decide_eq_true_iff,size]; exact ends.many),if_neg slow,list,found]
  rw [handled]
  refine ⟨rfl,fun w => ?_⟩
  rw [List.mem_append]
  simp [silent]

-- Only a Value could still change what a pending read returns.
theorem handle_quiet (port : Port) (n rank : ℕ) (order : List Triple → List Triple)
    (s : AtomicRegisterState × Readlist) (quiet : valueOf x = none) :
    (handle port n rank order s x).1.1.reading = s.1.reading ∧
      (handle port n rank order s x).1.1.readval = s.1.readval ∧
      ∀ out, .readResponse out ∈ (handle port n rank order s x).2 →
        s.1.reading = true ∧ out = s.1.readval := by
  cases x with
  | value src v => cases quiet
  | write w =>
    obtain ⟨ts,wr,value,stored⟩ := store_eq s.1 w
    change (store s.1 w).reading = _ ∧ (store s.1 w).readval = _ ∧ _
    rw [stored]
    exact ⟨rfl,rfl,by simp [handle]⟩
  | ack a =>
    unfold handle handleAck
    dsimp only
    split
    · split
      · split
        · rename_i reading
          exact ⟨rfl,rfl,by simp [reading]⟩
        · exact ⟨rfl,rfl,by simp⟩
      · exact ⟨rfl,rfl,by simp⟩
    · exact ⟨rfl,rfl,by simp⟩

theorem completes_value (quiet : ∀ x ∈ inputs, valueOf x = none)
    (answered : .readResponse out ∈ (run port n rank order s inputs).2) :
    s.1.reading = true ∧ out = s.1.readval := by
  induction inputs generalizing s with
  | nil => cases answered
  | cons x rest ih =>
    obtain ⟨reading,readval,now⟩ := handle_quiet port n rank order s (quiet x (List.mem_cons_self ..))
    unfold run at answered
    rcases List.mem_append.mp answered with here | after
    · exact now out here
    · rw [← reading,← readval]
      exact ih (fun y inside => quiet y (List.mem_cons_of_mem _ inside)) after

theorem completes_exists (rank : ℕ) (order : List Triple → List Triple) (sound : Sound port)
    (reading : s.1.reading = true) (count : ℕ)
    (rest : s.1.acks + count = n / 2) : Completes port n rank order s
      (List.replicate (count + 1) (.ack ⟨0,0,s.1.rid⟩)) s.1.readval := by
  refine ⟨fun x inside => by rw [List.eq_of_mem_replicate inside]; rfl,?_⟩
  induction count generalizing s with
  | zero =>
    have last : n / 2 < s.1.acks + 1 := by omega
    simp [run,handle,handleAck,sound.enough,last,reading]
  | succ count ih =>
    have more : ¬n / 2 < s.1.acks + 1 := by omega
    have next := ih (s := ({s.1 with acks := s.1.acks + 1},s.2)) reading (by dsimp only; omega)
    rw [List.replicate_succ]
    unfold run
    refine List.mem_append_right _ ?_
    have counted : handle port n rank order s (.ack ⟨0,0,s.1.rid⟩) =
        (({s.1 with acks := s.1.acks + 1},s.2),[]) := by
      simp [handle,handleAck,sound.enough,more]
    rw [counted]
    exact next

theorem tag_ts {x y : Triple} (below : tripleTag x ≤ tripleTag y) : x.1 ≤ y.1 := by
  rcases Prod.Lex.toLex_le_toLex.mp below with less | ⟨same,_⟩
  · exact less.le
  · exact same.le

theorem tag_greatest {list : List Triple} (some' : list ≠ []) :
    ∃ best ∈ list, ∀ x ∈ list, tripleTag x ≤ tripleTag best := by
  obtain ⟨best,found⟩ := Option.isSome_iff_exists.mp (List.isSome_max?_of_ne_nil some')
  obtain ⟨member,above⟩ := List.max?_eq_some_iff.mp found
  exact ⟨best,member,fun x inside => tripleTag_mono (above x inside)⟩

-- The imposing step of a sound port, in terms of the reply it takes and of the
-- value it is left with.
theorem imposes_iff (sound : Sound port) (fresh : reg.skipImpose = true) (unacked : reg.acks = 0)
    (ends : Ends n reg before src v) (left : Triple → ℕ)
    (readback : ∀ s best, Collected reg s before → reg.reading = true →
      (port.keep s.1 (noteReply s.1 s.2 v) best).readval = left best) :
    Imposes port n rank reg (before ++ [Input.value src v]) ↔ (reg.reading = true →
      ∀ order : List Triple → List Triple, (∀ list, (order list).Perm list) → ∀ best,
        port.greatest (order (met before v)) = some best →
          (∀ x ∈ replies (before ++ [Input.value src v]), tripleTag x ≤ tripleTag best) ∧
            left best = best.2.2) := by
  have kept (s : AtomicRegisterState × Readlist) (best : Triple) (valid : Collected reg s before) :
      (port.keep s.1 (noteReply s.1 s.2 v) best).reading = reg.reading ∧
        (port.keep s.1 (noteReply s.1 s.2 v) best).writeval = reg.writeval ∧
        (port.keep s.1 (noteReply s.1 s.2 v) best).acks = 0 := by
    obtain ⟨value,readval,skip,first,same⟩ := sound.keep s.1 s.2 v best
    rw [same]
    exact ⟨valid.reading,valid.writeval,valid.acks.trans unacked⟩
  constructor
  · intro imposes reading order perm best found
    obtain ⟨w,sent,⟨top,member,above,carried⟩,returns⟩ := imposes order perm
    obtain ⟨s,best',valid,found',state,writes⟩ := imposing_run rank sound fresh ends perm
    cases found.symm.trans found'
    obtain ⟨flag,_,acks⟩ := kept s best valid
    rw [writes] at sent
    rw [if_pos reading] at carried
    have same : best = top := by
      obtain ⟨tag,value⟩ := imposed_read rank (flag.trans reading) v best
      rw [← sent] at tag value
      have stamp : w.ts = best.1 := congrArg (fun t => (ofLex t).1) tag
      have wrote : w.wr = best.2.1 := congrArg (fun t => (ofLex t).2) tag
      exact Prod.ext (stamp.symm.trans carried.1) (Prod.ext (wrote.symm.trans carried.2.1)
        (value.symm.trans carried.2.2))
    subst same
    refine ⟨above,?_⟩
    rw [state] at returns
    have done := returns _ _ (completes_exists rank order sound
      (flag.trans reading) (n / 2) (by dsimp only; omega))
    rw [← readback s best valid reading,← carried.2.2]
    exact done
  · intro condition order perm
    obtain ⟨s,best,valid,found,state,writes⟩ := imposing_run rank sound fresh ends perm
    obtain ⟨flag,writeval,acks⟩ := kept s best valid
    refine ⟨_,(writes _).mpr rfl,?_,?_⟩
    · have top : Top (replies (before ++ [Input.value src v])) best :=
        (top_perm ((perm _).trans (met_perm before src v))).mp (sound.top _ _ found)
      cases reading : reg.reading with
      | true =>
        obtain ⟨tag,value⟩ := imposed_read rank (flag.trans reading) v best
        refine ⟨best,top.1,(condition reading order perm best found).1,?_⟩
        rw [reading,if_pos rfl]
        exact ⟨congrArg (fun t => (ofLex t).1) tag,congrArg (fun t => (ofLex t).2) tag,value⟩
      | false =>
        obtain ⟨greatest,member,above⟩ := tag_greatest (List.ne_nil_of_mem top.1)
        have stamp : greatest.1 = best.1 :=
          le_antisymm (top.2 greatest member) (tag_ts (above best top.1))
        refine ⟨greatest,member,above,?_⟩
        rw [reading,if_neg Bool.false_ne_true,stamp,← writeval]
        simp [imposedWrite,flag,reading]
    · intro more out completes
      obtain ⟨quiet,answered⟩ := completes
      rw [state] at answered
      obtain ⟨pending,same⟩ := completes_value quiet answered
      have reading : reg.reading = true := flag.symm.trans pending
      rw [(imposed_read rank pending v best).2,same]
      exact (readback s best valid reading).trans (condition reading order perm best found).2

-- Replies with the greatest timestamp come from one writer.
def OneWriter (replies : List Triple) : Prop :=
  ∀ x y, Top replies x → Top replies y → x.2.1 = y.2.1

theorem oneWriter_iff {all : List Triple} :
    OneWriter all ↔ ∀ best, Top all best → ∀ x ∈ all, tripleTag x ≤ tripleTag best := by
  constructor
  · intro one best top x inside
    refine Prod.Lex.toLex_le_toLex.mpr ?_
    rcases (top.2 x inside).lt_or_eq with less | same
    · exact .inl less
    · have equal : Top all x := ⟨inside,fun y member => (top.2 y member).trans same.ge⟩
      exact .inr ⟨same,(one x best equal top).le⟩
  · intro above x y top top'
    have same := le_antisymm (above y top' x top.1) (above x top y top'.1)
    exact congrArg (fun t => (ofLex t).2) same

theorem maxByTs_orders {all list : List Triple} (same : list.Perm all) (P : Triple → Prop) :
    (∀ order : List Triple → List Triple, (∀ l, (order l).Perm l) → ∀ best,
      maxByTs (order list) = some best → P best) ↔ ∀ best, Top all best → P best := by
  constructor
  · intro orders best top
    exact orders (ahead best) (ahead_perm best) best (maxByTs_ahead ((top_perm same).mpr top))
  · intro tops order perm best found
    exact tops best ((top_perm ((perm list).trans same)).mp (maxByTs_top found))

theorem max_orders {all list : List Triple} (same : list.Perm all) (P : Triple → Prop) :
    (∀ order : List Triple → List Triple, (∀ l, (order l).Perm l) → ∀ best,
      (order list).max? = some best → P best) ↔ ∀ best, all.max? = some best → P best := by
  have stable (other : List Triple) (perm : other.Perm all) : other.max? = all.max? := by
    ext best
    simp only [List.max?_eq_some_iff,perm.mem_iff]
  constructor
  · intro orders best found
    exact orders id (fun l => .refl _) best ((stable list same).trans found)
  · intro greatest order perm best found
    exact greatest best ((stable _ ((perm list).trans same)).symm.trans found)

theorem first_reply (whole : values before ++ [(src,v)] = x :: rest) :
    (replies (before ++ [Input.value src v])).head? = some x.2.triple := by
  have one : values [.value src v] = [(src,v)] := rfl
  rw [replies,values_append,one,whole]
  rfl

theorem maxByTs_imposes (sound : Sound port) (picks : port.greatest = maxByTs)
    (fresh : reg.skipImpose = true) (unacked : reg.acks = 0) (ends : Ends n reg before src v)
    (keeps : ∀ before noted best, (port.keep before noted best).readval = best.2.2) :
    Imposes port n rank reg (before ++ [Input.value src v]) ↔
      (reg.reading = true → OneWriter (replies (before ++ [Input.value src v]))) := by
  rw [imposes_iff sound fresh unacked ends (fun best => best.2.2) fun _ _ _ _ => keeps _ _ _]
  refine imp_congr_right fun reading => ?_
  rw [picks]
  refine (maxByTs_orders (met_perm before src v) _).trans ?_
  rw [oneWriter_iff]
  simp only [and_true]

theorem kompicsScala_imposes (rank : ℕ) (fresh : reg.skipImpose = true) (unacked : reg.acks = 0)
    (ends : Ends n reg before src v) :
    Imposes kompicsScala n rank reg (before ++ [Input.value src v]) ↔ (reg.reading = true →
      OneWriter (replies (before ++ [Input.value src v])) ∧
        ∀ best, Top (replies (before ++ [Input.value src v])) best →
          ∀ first ∈ (replies (before ++ [Input.value src v])).head?, first.2.2 = best.2.2) := by
  obtain ⟨x,rest,whole⟩ := List.exists_cons_of_ne_nil
    (List.append_ne_nil_of_right_ne_nil (values before) (List.cons_ne_nil (src,v) []))
  rw [imposes_iff kompicsScala_sound fresh unacked ends (fun _ => x.2.value)
    fun s best valid reading => (noted_first valid reading whole).1]
  refine imp_congr_right fun reading => ?_
  refine (maxByTs_orders (met_perm before src v) _).trans ?_
  rw [oneWriter_iff,first_reply whole]
  constructor
  · intro all
    refine ⟨fun best top => (all best top).1,fun best top first same => ?_⟩
    cases same
    exact (all best top).2
  · intro both best top
    exact ⟨both.1 best top,both.2 best top _ rfl⟩

theorem erlang_imposes (rank : ℕ) (fresh : reg.skipImpose = true) (unacked : reg.acks = 0)
    (ends : Ends n reg before src v) :
    Imposes erlang n rank reg (before ++ [Input.value src v]) ↔ (reg.reading = true →
      ∀ best ∈ (replies (before ++ [Input.value src v])).max?,
        ∀ first ∈ (replies (before ++ [Input.value src v])).head?, first.2.2 = best.2.2) := by
  obtain ⟨x,rest,whole⟩ := List.exists_cons_of_ne_nil
    (List.append_ne_nil_of_right_ne_nil (values before) (List.cons_ne_nil (src,v) []))
  -- A reading operation that imposes has had its first reply before the last.
  have readback (s : AtomicRegisterState × Readlist) (best : Triple)
      (valid : Collected reg s before) (reading : reg.reading = true) :
      (erlang.keep s.1 (noteReply s.1 s.2 v) best).readval = x.2.value := by
    obtain ⟨y,inside,_⟩ := ends.split reading
    cases earlier : values before with
    | nil => simp [replies,earlier] at inside
    | cons x' rest' =>
      rw [earlier,List.cons_append] at whole
      obtain ⟨same,_⟩ := List.cons.inj whole
      exact same ▸ (valid.first reading x' rest' earlier).1
  rw [imposes_iff erlang_sound fresh unacked ends (fun _ => x.2.value) readback]
  refine imp_congr_right fun reading => ?_
  refine (max_orders (met_perm before src v) _).trans ?_
  rw [first_reply whole]
  constructor
  · intro all best found first same
    cases same
    exact (all best found).2
  · intro same best found
    refine ⟨fun y inside => tripleTag_mono ?_,same best found _ rfl⟩
    exact (List.max?_eq_some_iff.mp found).2 y inside

-- When the four ports impose as the Kompact register does. A write always does.
theorem ports_impose (rank : ℕ) (fresh : reg.skipImpose = true) (unacked : reg.acks = 0)
    (ends : Ends n reg before src v) :
    (Imposes kompicsScala n rank reg (before ++ [Input.value src v]) ↔ (reg.reading = true →
      OneWriter (replies (before ++ [Input.value src v])) ∧
        ∀ best, Top (replies (before ++ [Input.value src v])) best →
          ∀ first ∈ (replies (before ++ [Input.value src v])).head?, first.2.2 = best.2.2)) ∧
    (Imposes akka n rank reg (before ++ [Input.value src v]) ↔ (reg.reading = true →
      OneWriter (replies (before ++ [Input.value src v])))) ∧
    (Imposes kompicsJava n rank reg (before ++ [Input.value src v]) ↔ (reg.reading = true →
      OneWriter (replies (before ++ [Input.value src v])))) ∧
    (Imposes erlang n rank reg (before ++ [Input.value src v]) ↔ (reg.reading = true →
      ∀ best ∈ (replies (before ++ [Input.value src v])).max?,
        ∀ first ∈ (replies (before ++ [Input.value src v])).head?, first.2.2 = best.2.2)) :=
  ⟨kompicsScala_imposes rank fresh unacked ends,
    maxByTs_imposes akka_sound rfl fresh unacked ends fun _ _ _ => rfl,
    maxByTs_imposes kompicsJava_sound (funext getMaxTuple_eq) fresh unacked ends fun _ _ _ => rfl,
    erlang_imposes rank fresh unacked ends⟩

end Run

def reply (ts wr value : ℕ) : Value := ⟨1,0,1,ts,wr,value,0⟩

def pending : AtomicRegisterState := beginRead .new

theorem two_end : Ends 3 pending [Input.value 1 (reply 1 1 1)] 2 (reply 0 0 0) where
  current := by decide
  distinct := by decide
  unacked a := by simp
  few := by decide
  many := by decide
  split _ := ⟨_,List.mem_singleton_self _,_,by simp [replies,values]; exact .inr rfl,by decide⟩

-- The first reply is the greatest.
theorem ordered_replies_impose :
    Imposes kompicsScala 3 2 pending ([Input.value 1 (reply 1 1 1)] ++ [Input.value 2 (reply 0 0 0)]) ∧
    Imposes akka 3 2 pending ([Input.value 1 (reply 1 1 1)] ++ [Input.value 2 (reply 0 0 0)]) ∧
    Imposes kompicsJava 3 2 pending ([Input.value 1 (reply 1 1 1)] ++ [Input.value 2 (reply 0 0 0)]) ∧
    Imposes erlang 3 2 pending ([Input.value 1 (reply 1 1 1)] ++ [Input.value 2 (reply 0 0 0)]) := by
  obtain ⟨scala,akka,java,erlang⟩ := ports_impose 2 rfl rfl two_end
  have only (best : Triple)
      (top : Top (replies ([Input.value 1 (reply 1 1 1)] ++ [Input.value 2 (reply 0 0 0)])) best) :
      best = (reply 1 1 1).triple := by
    obtain ⟨member,above⟩ := top
    rcases List.mem_cons.mp member with rfl | later
    · rfl
    · rw [List.mem_singleton.mp later] at above
      exact absurd (above (reply 1 1 1).triple (by decide)) (by decide)
  have one : OneWriter (replies ([Input.value 1 (reply 1 1 1)] ++ [Input.value 2 (reply 0 0 0)])) := by
    intro x y top top'
    rw [only x top,only y top']
  refine ⟨scala.mpr fun _ => ⟨one,?_⟩,akka.mpr fun _ => one,java.mpr fun _ => one,
    erlang.mpr fun _ => by decide⟩
  intro best top first same
  cases same
  rw [only best top]

-- Two writers at the greatest timestamp, met after an older reply.
def tied : List Input := [Input.value 1 (reply 0 0 0),.value 2 (reply 1 1 1)]

theorem tied_end : Ends 5 pending tied 3 (reply 1 2 2) where
  current := by decide
  distinct := by decide
  unacked a := by simp [tied]
  few := by decide
  many := by decide
  split _ := ⟨(reply 0 0 0).triple,by decide,(reply 1 1 1).triple,by decide,by decide⟩

theorem tied_replies_differ : Ends 5 pending tied 3 (reply 1 2 2) ∧
    ¬Imposes kompicsScala 5 4 pending (tied ++ [Input.value 3 (reply 1 2 2)]) ∧
    ¬Imposes akka 5 4 pending (tied ++ [Input.value 3 (reply 1 2 2)]) ∧
    ¬Imposes kompicsJava 5 4 pending (tied ++ [Input.value 3 (reply 1 2 2)]) ∧
    ¬Imposes erlang 5 4 pending (tied ++ [Input.value 3 (reply 1 2 2)]) := by
  have two : ¬OneWriter (replies (tied ++ [Input.value 3 (reply 1 2 2)])) := by
    intro one
    have same := one (reply 1 1 1).triple (reply 1 2 2).triple
      ⟨by decide,by decide⟩ ⟨by decide,by decide⟩
    exact absurd same (by decide)
  refine ⟨tied_end,?_,?_,?_,?_⟩
  · rw [kompicsScala_imposes 4 rfl rfl tied_end]
    exact fun all => two (all rfl).1
  · rw [maxByTs_imposes akka_sound rfl rfl rfl tied_end fun _ _ _ => rfl]
    exact fun all => two (all rfl)
  · rw [maxByTs_imposes kompicsJava_sound (funext getMaxTuple_eq) rfl rfl tied_end fun _ _ _ => rfl]
    exact fun all => two (all rfl)
  · rw [erlang_imposes 4 rfl rfl tied_end]
    intro all
    exact absurd (all rfl) (by decide)

end KompicsBenches.RegisterPorts
