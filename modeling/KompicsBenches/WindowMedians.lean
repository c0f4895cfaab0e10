import KompicsBenches.StreamingWindows

namespace KompicsBenches.WindowMedians
open StreamingWindows (Params SourceMsg)

inductive WindowerMsg where
  | start
  | stop
  | event (ts partitionId : ℕ) (value : Int64)
  | flush
  deriving DecidableEq, Repr

-- The median is the exact value of the double.
structure WindowAggregate where
  sink : ℕ
  ts : ℕ
  partitionId : ℕ
  value : ℚ
  deriving DecidableEq, Repr

-- The windower of the streaming windows, with the values of its window.
structure Windower where
  downstream : Option ℕ
  currentWindow : List Int64
  windowStartTs : ℕ
  receivedSinceReady : ℕ
  running : Bool
  deriving DecidableEq, Repr

def Windower.new : Windower := ⟨none,[],0,0,false⟩

def checkedAdd (a b : Int64) : Option Int64 :=
  if -2 ^ 63 ≤ a.toInt + b.toInt ∧ a.toInt + b.toInt < 2 ^ 63 then some (a + b) else none

def sortUnstable (values : List Int64) : List Int64 := values.mergeSort fun a b => decide (a ≤ b)

-- The median as `trigger_window` takes it from the sorted window; `none` is an index out of range.
def middle (sorted : List Int64) : Option ℚ :=
  if sorted.length % 2 = 0 then do
    let upperMiddle := sorted.length / 2
    let lowerMiddle := upperMiddle - 1
    let um ← sorted[upperMiddle]?
    let lm ← sorted[lowerMiddle]?
    match checkedAdd lm um with
    | some sum => some ((sum.toInt : ℚ) / 2)
    | none =>
      let umDouble : ℚ := um.toInt / 2
      let lmDouble : ℚ := lm.toInt / 2
      some (lmDouble + umDouble)
  else (sorted[sorted.length / 2]?).map fun value => (value.toInt : ℚ)

section Components
variable (p : Params)

def Windower.windowEnd (w : Windower) : ℕ := w.windowStartTs + p.windowSizeMs

def Windower.triggerWindow (w : Windower) (partitionId : ℕ) : Option (Windower × List WindowAggregate) :=
  if w.currentWindow.isEmpty then some (w,[])
  else do
    let median ← middle (sortUnstable w.currentWindow)
    let sink ← w.downstream
    some ({w with currentWindow := []},[⟨sink,w.windowStartTs,partitionId,median⟩])

def Windower.manageReady (w : Windower) : Windower × List SourceMsg :=
  let received := w.receivedSinceReady + 1
  if p.readyMark < received then ({w with receivedSinceReady := 0},[.ready received])
  else ({w with receivedSinceReady := received},[])

def Windower.closeWindow (w : Windower) (ts partitionId : ℕ) : Option (Windower × List WindowAggregate) :=
  if w.windowEnd p ≤ ts then do
    let (w,aggregates) ← w.triggerWindow partitionId
    some ({w with windowStartTs := ts},aggregates)
  else some (w,[])

def Windower.receive (w : Windower) (sender : Option ℕ) :
    WindowerMsg → Option (Windower × List SourceMsg × List WindowAggregate)
  | .start =>
    if w.running then none
    else some ({w with downstream := sender,running := true,receivedSinceReady := 0},[.ready p.batchSize],[])
  | .stop =>
    if w.running then
      some ({w with running := false,currentWindow := [],downstream := none,windowStartTs := 0},[],[])
    else none
  | .event ts partitionId value =>
    if w.running then do
      let (w,aggregates) ← w.closeWindow p ts partitionId
      let values := w.currentWindow ++ List.replicate p.amplification value
      let (w,readies) := ({w with currentWindow := values}).manageReady p
      some (w,readies,aggregates)
    else some (w,[],[])
  | .flush => some (w,[.flushed],[])

-- One message after the other, and what the sinks get.
def Windower.run (w : Windower) : List (Option ℕ × WindowerMsg) → Option (Windower × List WindowAggregate)
  | [] => some (w,[])
  | m :: messages => do
    let (w,_,sent) ← w.receive p m.1 m.2
    let (w,more) ← w.run messages
    some (w,sent ++ more)

end Components

-- What the streaming windows keep of a windower and of its letters.
def Windower.counts (w : Windower) : StreamingWindows.Windower :=
  ⟨w.downstream,w.currentWindow.length,w.windowStartTs,w.receivedSinceReady,w.running⟩

def WindowerMsg.counts : WindowerMsg → StreamingWindows.WindowerMsg
  | .start => .start
  | .stop => .stop
  | .event ts _ _ => .event ts
  | .flush => .flush

def WindowAggregate.counts (m : WindowAggregate) : StreamingWindows.Aggregate := ⟨m.sink,m.ts⟩

-- The events of a source, with consecutive timestamps.
def feed (source : Option ℕ) (events : List (ℕ × Int64)) : List (Option ℕ × WindowerMsg) :=
  events.zipIdx.map fun e => (source,.event e.2 e.1.1 e.1.2)

def valueAt (sorted : List ℤ) (i : ℕ) : ℚ := (sorted[i]?.getD 0 : ℤ)

def middleOf (sorted : List ℤ) : ℚ :=
  if sorted.length % 2 = 0 then (valueAt sorted (sorted.length / 2 - 1) + valueAt sorted (sorted.length / 2)) / 2
  else valueAt sorted (sorted.length / 2)

-- The median of some numbers, whatever their order.
def median (numbers : List ℤ) : ℚ := middleOf ((numbers : Multiset ℤ).sort (· ≤ ·))

def sortInts (numbers : List ℤ) : List ℤ := (numbers : Multiset ℤ).sort (· ≤ ·)

theorem median_sortInts (numbers : List ℤ) : median numbers = middleOf (sortInts numbers) := rfl

theorem sortInts_perm (numbers : List ℤ) : (sortInts numbers).Perm numbers :=
  Multiset.coe_eq_coe.mp (Multiset.sort_eq _ _)

theorem sortInts_sorted (numbers : List ℤ) : (sortInts numbers).Pairwise (· ≤ ·) := Multiset.pairwise_sort _ _

theorem sortInts_nonempty {numbers : List ℤ} (some_ : numbers ≠ []) : sortInts numbers ≠ [] := by
  intro none
  have perm := sortInts_perm numbers
  rw [none] at perm
  exact some_ perm.symm.eq_nil

theorem sortInts_unique {numbers sorted : List ℤ} (perm : numbers.Perm sorted)
    (ordered : sorted.Pairwise (· ≤ ·)) : sortInts numbers = sorted :=
  ((sortInts_perm numbers).trans perm).eq_of_pairwise (fun _ _ _ _ => Int.le_antisymm)
    (sortInts_sorted numbers) ordered

theorem sortInts_length (numbers : List ℤ) : (sortInts numbers).length = numbers.length :=
  (sortInts_perm numbers).length_eq

theorem sortInts_same {numbers other : List ℤ} (perm : other.Perm numbers) : sortInts other = sortInts numbers :=
  sortInts_unique (perm.trans (sortInts_perm numbers).symm) (sortInts_sorted numbers)

theorem median_of_sorted {numbers sorted : List ℤ} (perm : numbers.Perm sorted)
    (ordered : sorted.Pairwise (· ≤ ·)) : median numbers = middleOf sorted := by
  rw [median_sortInts,sortInts_unique perm ordered]

-- The values of the window with some number.
def windowValues (size : ℕ) (events : List (ℕ × Int64)) (i : ℕ) : List ℤ :=
  ((events.drop (i * size)).take size).map fun e => e.2.toInt

section Amplified
variable {α : Type*} {a i : ℕ} {xs ys : List α}

def amplify (a : ℕ) (xs : List α) : List α := xs.flatMap (List.replicate a)

@[simp] theorem amplify_nil (a : ℕ) : amplify a ([] : List α) = [] := rfl

@[simp] theorem amplify_length (a : ℕ) (xs : List α) : (amplify a xs).length = a * xs.length := by
  induction xs with
  | nil => rfl
  | cons x xs ih =>
    simp only [amplify,List.flatMap_cons,List.length_append,List.length_replicate,List.length_cons] at ih ⊢
    rw [ih,Nat.mul_succ,Nat.add_comm]

theorem amplify_snoc (a : ℕ) (xs : List α) (x : α) :
    amplify a (xs ++ [x]) = amplify a xs ++ List.replicate a x := by
  simp [amplify]

theorem amplify_get (positive : 0 < a) (xs : List α) (i : ℕ) : (amplify a xs)[i]? = xs[i / a]? := by
  induction xs generalizing i with
  | nil => simp
  | cons x xs ih =>
    have split : amplify a (x :: xs) = List.replicate a x ++ amplify a xs := rfl
    rw [split]
    by_cases first : i < a
    · rw [List.getElem?_append_left (by simpa using first),Nat.div_eq_of_lt first]
      simp [first]
    · have later : i / a = (i - a) / a + 1 := by
        rw [← Nat.add_div_right _ positive,Nat.sub_add_cancel (Nat.le_of_not_lt first)]
      rw [List.getElem?_append_right (by simpa using Nat.le_of_not_lt first),List.length_replicate,ih,later]
      rfl

theorem amplify_map (f : α → β) (a : ℕ) (xs : List α) : (amplify a xs).map f = amplify a (xs.map f) := by
  simp [amplify,List.map_flatMap,List.flatMap_map]

theorem amplify_perm (a : ℕ) (perm : xs.Perm ys) : (amplify a xs).Perm (amplify a ys) :=
  perm.flatMap_right _

theorem amplify_sorted [Preorder α] (a : ℕ) (sorted : xs.Pairwise (· ≤ ·)) :
    (amplify a xs).Pairwise (· ≤ ·) := by
  apply List.pairwise_flatMap.mpr
  refine ⟨?_,sorted.imp ?_⟩
  · intro x _
    exact List.pairwise_replicate.mpr (.inr (le_refl x))
  · intro x y order b left c right
    rw [List.eq_of_mem_replicate left,List.eq_of_mem_replicate right]
    exact order

end Amplified

section Medians
variable {a : ℕ} {values : List Int64}

-- Equal values cannot be told apart, the sort need not be stable.
theorem sortUnstable_ints (values : List Int64) :
    (sortUnstable values).map Int64.toInt = sortInts (values.map Int64.toInt) := by
  have ordered : (sortUnstable values).Pairwise fun a b => decide (a ≤ b) = true := by
    apply List.pairwise_mergeSort
    · intro a b c left right
      exact decide_eq_true (Int64.le_trans (of_decide_eq_true left) (of_decide_eq_true right))
    · intro a b
      simpa using Int64.le_total a b
  have perm : (values.map Int64.toInt).Perm ((sortUnstable values).map Int64.toInt) :=
    (List.mergeSort_perm _ _).symm.map _
  refine (sortInts_unique perm (List.pairwise_map.mpr (ordered.imp ?_))).symm
  intro a b below
  exact Int64.le_iff_toInt_le.mp (of_decide_eq_true below)

theorem sortInts_amplify (a : ℕ) (numbers : List ℤ) :
    sortInts (amplify a numbers) = amplify a (sortInts numbers) :=
  sortInts_unique (amplify_perm a (sortInts_perm numbers).symm) (amplify_sorted a (sortInts_sorted numbers))

theorem checkedAdd_exact {x y sum : Int64} (added : checkedAdd x y = some sum) :
    sum.toInt = x.toInt + y.toInt := by
  unfold checkedAdd at added
  split at added
  · rename_i fits
    cases added
    rw [Int64.toInt_add]
    apply Int.bmod_eq_of_le <;> omega
  · cases added

theorem valueAt_map {sorted : List Int64} {i : ℕ} (bound : i < sorted.length) :
    valueAt (sorted.map Int64.toInt) i = sorted[i].toInt := by
  simp [valueAt,bound]

-- Whether or not the sum of the two middle values fits into 64 bits.
theorem middle_exact {sorted : List Int64} (some_ : sorted ≠ []) :
    middle sorted = some (middleOf (sorted.map Int64.toInt)) := by
  have positive := List.length_pos_iff.mpr some_
  have upper : sorted.length / 2 < sorted.length := by omega
  have lower : sorted.length / 2 - 1 < sorted.length := by omega
  unfold middle middleOf
  rw [List.length_map,valueAt_map upper,valueAt_map lower]
  simp only [List.getElem?_eq_getElem upper,List.getElem?_eq_getElem lower,Option.map_some,
    Option.bind_eq_bind,Option.bind_some]
  split
  · cases added : checkedAdd sorted[sorted.length / 2 - 1] sorted[sorted.length / 2] with
    | none => simp only [add_div]
    | some sum => simp only [checkedAdd_exact added,Int.cast_add]
  · rfl

theorem valueAt_amplify (positive : 0 < a) (sorted : List ℤ) (i : ℕ) :
    valueAt (amplify a sorted) i = valueAt sorted (i / a) := by
  rw [valueAt,amplify_get positive,valueAt]

theorem place_of_copy {q r : ℕ} (inside : r < a) : (a * q + r) / a = q := by
  rw [Nat.mul_add_div (by omega),Nat.div_eq_of_lt inside,Nat.add_zero]

-- Repeating every value moves each middle to a copy of a middle value: when the number of
-- values is odd, both are copies of the same.
theorem middleOf_amplify (positive : 0 < a) {sorted : List ℤ} (some_ : sorted ≠ []) :
    middleOf (amplify a sorted) = middleOf sorted := by
  have length := List.length_pos_iff.mpr some_
  unfold middleOf
  rw [amplify_length,valueAt_amplify positive,valueAt_amplify positive]
  obtain ⟨m,even | odd⟩ := Nat.even_or_odd' sorted.length
  · obtain ⟨h,rfl⟩ : ∃ h, m = h + 1 := Nat.exists_eq_add_one.mpr (by omega)
    have copies : a * (2 * (h + 1)) = 2 * (a * h + a) := by ring
    have upper : (a * h + a) / a = h + 1 := by rw [← Nat.mul_succ,Nat.mul_div_cancel_left _ positive]
    have lower : (a * h + a - 1) / a = h := by rw [Nat.add_sub_assoc positive,place_of_copy (by omega)]
    rw [even,copies,Nat.mul_mod_right,Nat.mul_mod_right,Nat.mul_div_cancel_left _ (by decide),upper,lower,
      Nat.mul_div_cancel_left _ (by decide)]
    rfl
  · have copies : a * (2 * m + 1) = 2 * (a * m) + a := by ring
    have half : (2 * (a * m) + a) / 2 = a * m + a / 2 := by omega
    have upper : (a * m + a / 2) / a = m := place_of_copy (by omega)
    rw [odd,copies,half,upper,if_neg (by omega : ¬(2 * m + 1) % 2 = 0),show (2 * m + 1) / 2 = m by omega]
    split
    · have lower : (a * m + a / 2 - 1) / a = m := by
        rw [Nat.add_sub_assoc (by omega),place_of_copy (by omega)]
      rw [lower,add_self_div_two]
    · rfl

theorem middle_sorted (some_ : values ≠ []) :
    middle (sortUnstable values) = some (median (values.map Int64.toInt)) := by
  have sorted : sortUnstable values ≠ [] := by
    apply List.ne_nil_of_length_pos
    rw [sortUnstable,List.length_mergeSort]
    exact List.length_pos_iff.mpr some_
  rw [middle_exact sorted,sortUnstable_ints]
  rfl

theorem median_amplify (positive : 0 < a) {numbers : List ℤ} (some_ : numbers ≠ []) :
    median (amplify a numbers) = median numbers := by
  rw [median_sortInts,sortInts_amplify,middleOf_amplify positive (sortInts_nonempty some_),median_sortInts]

-- The window of a connected windower goes out as its median.
theorem triggerWindow_median {w : Windower} {sink : ℕ} (some_ : w.currentWindow ≠ [])
    (downstream : w.downstream = some sink) (partitionId : ℕ) : w.triggerWindow partitionId =
      some ({w with currentWindow := []},
        [⟨sink,w.windowStartTs,partitionId,median (w.currentWindow.map Int64.toInt)⟩]) := by
  rw [Windower.triggerWindow,if_neg (by simpa using some_),middle_sorted some_,downstream]
  rfl

end Medians

section Counts
variable {p : Params}

theorem manageReady_counts (w : Windower) :
    ((w.manageReady p).1.counts,(w.manageReady p).2) = w.counts.manageReady p := by
  unfold Windower.manageReady StreamingWindows.Windower.manageReady
  dsimp only [Windower.counts]
  split <;> rfl

theorem triggerWindow_counts (w : Windower) (partitionId : ℕ) :
    (w.triggerWindow partitionId).map (fun r => (r.1.counts,r.2.map WindowAggregate.counts)) =
      w.counts.triggerWindow := by
  unfold Windower.triggerWindow StreamingWindows.Windower.triggerWindow
  cases window : w.currentWindow with
  | nil => simp [Windower.counts,window]
  | cons x xs =>
    have some_ : sortUnstable (x :: xs) ≠ [] := List.ne_nil_of_length_pos (by simp [sortUnstable])
    rw [middle_exact some_]
    cases downstream : w.downstream with
    | none => simp [Windower.counts,window,downstream]
    | some sink => simp [Windower.counts,WindowAggregate.counts,window,downstream]

theorem closeWindow_counts (w : Windower) (ts partitionId : ℕ) :
    (w.closeWindow p ts partitionId).map (fun r => (r.1.counts,r.2.map WindowAggregate.counts)) =
      w.counts.closeWindow p ts := by
  unfold Windower.closeWindow StreamingWindows.Windower.closeWindow
  rw [← triggerWindow_counts w partitionId]
  show _ = if w.windowEnd p ≤ ts then _ else _
  split
  · cases w.triggerWindow partitionId <;> rfl
  · rfl

-- The windower of the streaming windows is this one without its values.
theorem receive_counts (w : Windower) (sender : Option ℕ) (msg : WindowerMsg) :
    (w.receive p sender msg).map (fun r => (r.1.counts,r.2.1,r.2.2.map WindowAggregate.counts)) =
      w.counts.receive p sender msg.counts := by
  cases msg with
  | start =>
    show Option.map _ (if w.running then _ else _) = if w.running then _ else _
    split <;> rfl
  | stop =>
    show Option.map _ (if w.running then _ else _) = if w.running then _ else _
    split <;> rfl
  | event ts partitionId value =>
    show Option.map _ (if w.running then _ else _) = if w.running then _ else _
    split
    · rw [← closeWindow_counts w ts partitionId]
      cases w.closeWindow p ts partitionId with
      | none => rfl
      | some closed =>
        let full : Windower :=
          {closed.1 with currentWindow := closed.1.currentWindow ++ List.replicate p.amplification value}
        have counted : full.counts =
            {closed.1.counts with currentWindow := closed.1.counts.currentWindow + p.amplification} := by
          simp [full,Windower.counts]
        have managed := manageReady_counts (p := p) full
        rw [counted] at managed
        show some ((full.manageReady p).1.counts,(full.manageReady p).2,_) =
          some ((StreamingWindows.Windower.manageReady p _).1,(StreamingWindows.Windower.manageReady p _).2,_)
        rw [← managed]
    · rfl
  | flush => rfl

end Counts

section Runs
variable {p : Params} {w idle : Windower} {sink : ℕ} {source : Option ℕ} {events : List (ℕ × Int64)}
  {sent : List WindowAggregate}

theorem run_append (w : Windower) (xs ys : List (Option ℕ × WindowerMsg)) : w.run p (xs ++ ys) =
    (w.run p xs).bind fun left => (left.1.run p ys).map fun right => (right.1,left.2 ++ right.2) := by
  induction xs generalizing w with
  | nil => simp [Windower.run]
  | cons m xs ih =>
    simp only [List.cons_append,Windower.run,Option.bind_eq_bind]
    cases w.receive p m.1 m.2 with
    | none => rfl
    | some got =>
      simp only [Option.bind_some,ih]
      cases got.1.run p xs with
      | none => rfl
      | some left =>
        cases rest : left.1.run p ys with
        | none => simp [rest]
        | some right => simp [rest]

theorem feed_snoc (source : Option ℕ) (events : List (ℕ × Int64)) (e : ℕ × Int64) :
    feed source (events ++ [e]) = feed source events ++ [(source,.event events.length e.1 e.2)] := by
  simp [feed,List.zipIdx_append]

theorem windowValues_append {i : ℕ} (closed : (i + 1) * p.windowSizeMs ≤ events.length)
    (more : List (ℕ × Int64)) :
    windowValues p.windowSizeMs (events ++ more) i = windowValues p.windowSizeMs events i := by
  rw [Nat.succ_mul] at closed
  unfold windowValues
  rw [List.drop_append_of_le_length (by omega),List.take_append_of_le_length (by rw [List.length_drop]; omega)]

-- A windower that has run and is not running has nothing of its last iteration.
def Idle (w : Windower) : Prop := w.running = false → w.currentWindow = [] ∧ w.windowStartTs = 0

-- A running windower after some events: the windows but the last are reported.
structure Filled (p : Params) (sink : ℕ) (events : List (ℕ × Int64)) (w : Windower)
    (sent : List WindowAggregate) : Prop where
  running : w.running = true
  downstream : w.downstream = some sink
  start : w.windowStartTs = (events.length - 1) / p.windowSizeMs * p.windowSizeMs
  window : w.currentWindow = amplify p.amplification ((events.drop w.windowStartTs).map Prod.snd)
  sent : sent.map (fun m => (m.ts,m.value)) = (List.range ((events.length - 1) / p.windowSizeMs)).map
    fun i => (i * p.windowSizeMs,median (windowValues p.windowSizeMs events i))

theorem manageReady_filled (filled : Filled p sink events w sent) :
    Filled p sink events (w.manageReady p).1 sent := by
  unfold Windower.manageReady
  dsimp only
  split
  · exact ⟨filled.running,filled.downstream,filled.start,filled.window,filled.sent⟩
  · exact ⟨filled.running,filled.downstream,filled.start,filled.window,filled.sent⟩

section Events
variable (size : 0 < p.windowSizeMs) (amplified : 0 < p.amplification) (filled : Filled p sink events w sent)
include size filled

-- The window is due with the first event that lies behind it.
theorem due_length (due : w.windowEnd p ≤ events.length) :
    events.length = ((events.length - 1) / p.windowSizeMs + 1) * p.windowSizeMs := by
  have last := Nat.lt_div_mul_add (a := events.length - 1) size
  rw [Windower.windowEnd,filled.start] at due
  rw [Nat.add_one_mul]
  omega

include amplified in
theorem closeWindow_due (due : w.windowEnd p ≤ events.length) (partitionId : ℕ) :
    w.closeWindow p events.length partitionId =
      some ({w with currentWindow := [],windowStartTs := events.length},
        [⟨sink,(events.length - 1) / p.windowSizeMs * p.windowSizeMs,partitionId,
          median (windowValues p.windowSizeMs events ((events.length - 1) / p.windowSizeMs))⟩]) := by
  have whole := due_length size filled due
  have start := filled.start
  have length : (events.drop w.windowStartTs).length = p.windowSizeMs := by
    rw [Nat.add_one_mul] at whole
    rw [List.length_drop,start]
    omega
  have values : windowValues p.windowSizeMs events ((events.length - 1) / p.windowSizeMs) =
      ((events.drop w.windowStartTs).map Prod.snd).map Int64.toInt := by
    rw [windowValues,← start,List.take_of_length_le length.le,List.map_map]
    rfl
  have some_ : (events.drop w.windowStartTs).map Prod.snd ≠ [] := by
    apply List.ne_nil_of_length_pos
    rwa [List.length_map,length]
  have window : w.currentWindow ≠ [] := by
    rw [filled.window]
    apply List.ne_nil_of_length_pos
    rw [amplify_length]
    exact Nat.mul_pos amplified (List.length_pos_iff.mpr some_)
  have triggered := triggerWindow_median window filled.downstream partitionId
  rw [filled.window,amplify_map,median_amplify amplified (by simpa using some_),← values,start] at triggered
  rw [Windower.closeWindow,if_pos due,triggered]
  rfl

omit size in
-- The 64-bit sum of start and size does not overflow while the events and one window more
-- have timestamps.
theorem windowEnd_bound : w.windowEnd p ≤ events.length + p.windowSizeMs := by
  rw [Windower.windowEnd,filled.start]
  have below := Nat.div_mul_le_self (events.length - 1) p.windowSizeMs
  omega

-- Until then the window is not full.
theorem early_windows (early : ¬w.windowEnd p ≤ events.length) :
    events.length / p.windowSizeMs = (events.length - 1) / p.windowSizeMs := by
  rw [Windower.windowEnd,filled.start,← Nat.add_one_mul] at early
  apply Nat.le_antisymm
  · exact Nat.lt_succ_iff.mp ((Nat.div_lt_iff_lt_mul size).mpr (Nat.lt_of_not_le early))
  · exact Nat.div_le_div_right (Nat.sub_le _ _)

include amplified in
theorem filled_close (partitionId : ℕ) : ∃ closed more,
    w.closeWindow p events.length partitionId = some (closed,more) ∧ closed.running = true ∧
      closed.downstream = some sink ∧ closed.windowStartTs = events.length / p.windowSizeMs * p.windowSizeMs ∧
      closed.currentWindow = amplify p.amplification ((events.drop closed.windowStartTs).map Prod.snd) ∧
      (sent ++ more).map (fun m => (m.ts,m.value)) = (List.range (events.length / p.windowSizeMs)).map
        fun i => (i * p.windowSizeMs,median (windowValues p.windowSizeMs events i)) := by
  by_cases due : w.windowEnd p ≤ events.length
  · have whole := due_length size filled due
    have next : events.length / p.windowSizeMs = (events.length - 1) / p.windowSizeMs + 1 :=
      Nat.div_eq_of_eq_mul_left size whole
    refine ⟨_,_,closeWindow_due size amplified filled due partitionId,filled.running,filled.downstream,?_,?_,?_⟩
    · rw [next,← whole]
    · simp
    · rw [List.map_append,filled.sent,next,List.range_succ,List.map_append]
      rfl
  · have same := early_windows size filled due
    refine ⟨w,[],by rw [Windower.closeWindow,if_neg due],filled.running,filled.downstream,?_,filled.window,?_⟩
    · rw [same,filled.start]
    · rw [List.append_nil,filled.sent,same]

include amplified in
theorem filled_event (source : Option ℕ) (partitionId : ℕ) (value : Int64) : ∃ next readies more,
    w.receive p source (.event events.length partitionId value) = some (next,readies,more) ∧
      Filled p sink (events ++ [(partitionId,value)]) next (sent ++ more) := by
  obtain ⟨closed,more,closes,running,downstream,start,window,windows⟩ :=
    filled_close size amplified filled partitionId
  have length : (events ++ [(partitionId,value)]).length - 1 = events.length := by simp
  have below : closed.windowStartTs ≤ events.length := by
    rw [start]
    exact Nat.div_mul_le_self _ _
  let full : Windower :=
    {closed with currentWindow := closed.currentWindow ++ List.replicate p.amplification value}
  have pushed : Filled p sink (events ++ [(partitionId,value)]) full (sent ++ more) := by
    refine ⟨running,downstream,?_,?_,?_⟩
    · rw [length]
      exact start
    · show closed.currentWindow ++ _ = amplify _ ((List.drop closed.windowStartTs _).map _)
      rw [window,List.drop_append_of_le_length below,List.map_append,List.map_singleton,amplify_snoc]
    · rw [length,windows]
      apply List.map_congr_left
      intro i member
      have earlier : (i + 1) * p.windowSizeMs ≤ events.length :=
        (Nat.le_div_iff_mul_le size).mp (List.mem_range.mp member)
      rw [windowValues_append earlier]
  refine ⟨(full.manageReady p).1,(full.manageReady p).2,more,?_,manageReady_filled pushed⟩
  rw [Windower.receive,if_pos filled.running,closes]
  rfl

end Events

-- Every event finds the windower running, with a window that starts at the last multiple of
-- the window size.
theorem filled_feed (size : 0 < p.windowSizeMs) (amplified : 0 < p.amplification)
    (filled : Filled p sink [] w []) (source : Option ℕ) (events : List (ℕ × Int64)) :
    ∃ next sent, w.run p (feed source events) = some (next,sent) ∧ Filled p sink events next sent := by
  induction events using List.reverseRecOn with
  | nil => exact ⟨w,[],rfl,filled⟩
  | append_singleton events e ih =>
    obtain ⟨middle,sent,ran,before⟩ := ih
    obtain ⟨next,readies,more,received,after⟩ := filled_event size amplified before source e.1 e.2
    refine ⟨next,sent ++ more,?_,after⟩
    rw [feed_snoc,run_append,ran]
    simp [Windower.run,received]

theorem closeWindow_running {ts partitionId : ℕ} {closed : Windower} {more : List WindowAggregate}
    (closes : w.closeWindow p ts partitionId = some (closed,more)) : closed.running = w.running := by
  unfold Windower.closeWindow at closes
  split at closes
  · obtain ⟨⟨cleared,aggregates⟩,triggered,rest⟩ := Option.bind_eq_some_iff.mp closes
    cases rest
    unfold Windower.triggerWindow at triggered
    split at triggered
    · cases triggered
      rfl
    · obtain ⟨_,_,triggered⟩ := Option.bind_eq_some_iff.mp triggered
      obtain ⟨_,_,triggered⟩ := Option.bind_eq_some_iff.mp triggered
      cases triggered
      rfl
  · cases closes
    rfl

theorem manageReady_running (w : Windower) : (w.manageReady p).1.running = w.running := by
  unfold Windower.manageReady
  dsimp only
  split <;> rfl

theorem receive_idle {sender : Option ℕ} {msg : WindowerMsg} {next : Windower} {readies : List SourceMsg}
    {more : List WindowAggregate} (idle : Idle w) (received : w.receive p sender msg = some (next,readies,more)) :
    Idle next := by
  cases msg with
  | start =>
    simp only [Windower.receive] at received
    split at received
    · cases received
    · cases received
      intro stopped
      cases stopped
  | stop =>
    simp only [Windower.receive] at received
    split at received
    · cases received
      exact fun _ => ⟨rfl,rfl⟩
    · cases received
  | event ts partitionId value =>
    simp only [Windower.receive] at received
    split at received
    · rename_i running
      obtain ⟨⟨closed,aggregates⟩,closes,rest⟩ := Option.bind_eq_some_iff.mp received
      cases rest
      intro stopped
      rw [manageReady_running] at stopped
      have stays : closed.running = true := (closeWindow_running closes).trans running
      cases stays.symm.trans stopped
    · cases received
      exact idle
  | flush =>
    cases received
    exact idle

theorem run_idle {messages : List (Option ℕ × WindowerMsg)} {next : Windower} (idle : Idle w)
    (ran : w.run p messages = some (next,sent)) : Idle next := by
  induction messages generalizing w sent with
  | nil =>
    cases ran
    exact idle
  | cons m messages ih =>
    obtain ⟨⟨middle,readies,more⟩,received,rest⟩ := Option.bind_eq_some_iff.mp ran
    obtain ⟨⟨last,later⟩,continued,final⟩ := Option.bind_eq_some_iff.mp rest
    cases final
    exact ih (receive_idle idle received) continued

-- Whatever the windower has received before: from its `Start` on, one aggregate for each
-- full window, with the median of its values, however often each value is repeated.
theorem window_medians (size : 0 < p.windowSizeMs) (amplified : 0 < p.amplification)
    {before : List (Option ℕ × WindowerMsg)} {earlier : List WindowAggregate}
    (ran : Windower.new.run p before = some (idle,earlier)) (stopped : idle.running = false)
    (sink : ℕ) (source : Option ℕ) (events : List (ℕ × Int64)) :
    ∃ w sent, idle.run p ((some sink,.start) :: feed source events) = some (w,sent) ∧
      sent.map (fun m => (m.ts,m.value)) = (List.range ((events.length - 1) / p.windowSizeMs)).map
        fun i => (i * p.windowSizeMs,median (windowValues p.windowSizeMs events i)) := by
  obtain ⟨window,start⟩ := run_idle (fun _ => ⟨rfl,rfl⟩) ran stopped
  have filled : Filled p sink [] {idle with downstream := some sink,running := true,receivedSinceReady := 0} [] := by
    refine ⟨rfl,rfl,?_,?_,?_⟩
    · simpa using start
    · simpa using window
    · simp
  obtain ⟨w,sent,fed,after⟩ := filled_feed size amplified filled source events
  refine ⟨w,sent,?_,after.sent⟩
  have started : idle.receive p (some sink) .start =
      some ({idle with downstream := some sink,running := true,receivedSinceReady := 0},[.ready p.batchSize],[]) := by
    rw [Windower.receive,if_neg (by rw [stopped]; decide)]
  rw [Windower.run,started]
  simp [fed]

end Runs

-- The third window is not full. The middle of the first has no sum in 64 bits.
theorem window_medians_two : ∃ w sent,
    Windower.new.run ⟨4,2,3,1⟩ ((some 7,.start) :: feed none
      [(0,9223372036854775807),(0,9223372036854775805),(0,3),(0,-4),(0,1)]) = some (w,sent) ∧
    sent.map (fun m => (m.ts,m.value)) = [(0,9223372036854775806),(2,-1/2)] := by
  obtain ⟨w,sent,ran,windows⟩ := window_medians (by decide) (by decide)
    (show Windower.new.run ⟨4,2,3,1⟩ [] = some (Windower.new,[]) from rfl) rfl 7 none
    [(0,9223372036854775807),(0,9223372036854775805),(0,3),(0,-4),(0,1)]
  refine ⟨w,sent,ran,windows.trans ?_⟩
  have first : median [9223372036854775807,9223372036854775805] = 9223372036854775806 := by
    rw [median_of_sorted (List.Perm.swap _ _ _) (by decide)]
    decide +kernel
  have second : median [3,-4] = -1/2 := by
    rw [median_of_sorted (List.Perm.swap _ _ _) (by decide)]
    decide +kernel
  exact congrArg₂ (fun x y => [((0 : ℕ),x),(2,y)]) first second

end KompicsBenches.WindowMedians
