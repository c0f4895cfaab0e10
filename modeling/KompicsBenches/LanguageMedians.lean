import KompicsBenches.WindowMedians

namespace KompicsBenches.LanguageMedians
open WindowMedians

namespace Scala

inductive Failure where
  | illegalArgument (message : String)
  | indexOutOfBounds (index : ℕ)
  deriving DecidableEq, Repr

def apply (buf : List Int64) (index : ℕ) : Except Failure Int64 :=
  match buf[index]? with
  | some value => .ok value
  | none => .error (.indexOutOfBounds index)

-- The doubles are exact, the sum of two longs wraps around.
def medianFromUnsorted (buf : List Int64) : Except Failure ℚ :=
  if buf.isEmpty then .error (.illegalArgument "requirement failed: No medians in empty collection!")
  else
    let sortedBuf := buf.mergeSort fun a b => decide (a ≤ b)
    let len := sortedBuf.length
    if len % 2 = 0 then do
      let upperMiddle := len / 2
      let lowerMiddle := upperMiddle - 1
      let sum := (← apply sortedBuf lowerMiddle) + (← apply sortedBuf upperMiddle)
      return (sum.toInt : ℚ) / 2
    else do
      let middle := len / 2
      let value ← apply sortedBuf middle
      return (value.toInt : ℚ)

end Scala

namespace Erlang

inductive Median where
  | empty
  | ok (median : ℚ)
  deriving DecidableEq, Repr

-- The positions of a list start at one; `none` is a function clause error.
def nth (n : ℕ) (list : List ℤ) : Option ℤ := if n = 0 then none else list[n - 1]?

def median : List ℤ → Option Median
  | [] => some .empty
  | unsorted =>
    let sorted := unsorted.mergeSort fun a b => decide (a ≤ b)
    let length := sorted.length
    if length % 2 = 0 then do
      let lowerMiddle := length / 2
      let upperMiddle := lowerMiddle + 1
      let lowerValue ← nth lowerMiddle sorted
      let upperValue ← nth upperMiddle sorted
      return .ok (((lowerValue + upperValue : ℤ) : ℚ) / 2)
    else do
      let middle := length / 2 + 1
      let median ← nth middle sorted
      return .ok (median : ℚ)

end Erlang

section Middles
variable {numbers other : List ℤ}

def lowerMiddle (numbers : List ℤ) : ℤ := (sortInts numbers)[numbers.length / 2 - 1]?.getD 0

def upperMiddle (numbers : List ℤ) : ℤ := (sortInts numbers)[numbers.length / 2]?.getD 0

def middleSum (numbers : List ℤ) : ℤ := lowerMiddle numbers + upperMiddle numbers

def Fits (sum : ℤ) : Prop := -2 ^ 63 ≤ sum ∧ sum < 2 ^ 63

theorem median_middles (numbers : List ℤ) : median numbers =
    if numbers.length % 2 = 0 then (middleSum numbers : ℚ) / 2 else upperMiddle numbers := by
  rw [median_sortInts,middleOf,sortInts_length,middleSum,Int.cast_add]
  rfl

theorem median_perm (perm : other.Perm numbers) : median other = median numbers := by
  rw [median_sortInts,sortInts_same perm,median_sortInts]

theorem middleSum_perm (perm : other.Perm numbers) : middleSum other = middleSum numbers := by
  unfold middleSum lowerMiddle upperMiddle
  rw [sortInts_same perm,perm.length_eq]

-- A sum that does not fit is off by 2 ^ 64.
theorem wrapped_exact {sum : ℤ} : Int.bmod sum (2 ^ 64) = sum ↔ Fits sum := by
  constructor
  · intro exact
    have lower := Int.le_bmod (x := sum) (m := 2 ^ 64) (by decide)
    have upper := Int.bmod_lt (x := sum) (m := 2 ^ 64) (by decide)
    rw [exact] at lower upper
    exact ⟨lower,upper⟩
  · intro fits
    exact Int.bmod_eq_of_le fits.1 fits.2

end Middles

section Medians
variable {values : List Int64} {numbers sorted : List ℤ}

theorem middle_places (nonempty : sorted ≠ []) :
    sorted.length / 2 < sorted.length ∧ sorted.length / 2 - 1 < sorted.length := by
  have positive := List.length_pos_iff.mpr nonempty
  omega

namespace Erlang

theorem sort_ints (numbers : List ℤ) :
    numbers.mergeSort (fun a b => decide (a ≤ b)) = sortInts numbers := by
  refine (sortInts_unique (List.mergeSort_perm _ _).symm ?_).symm
  refine List.Pairwise.imp of_decide_eq_true (List.pairwise_mergeSort ?_ ?_ numbers)
  · intro a b c left right
    exact decide_eq_true (Int.le_trans (of_decide_eq_true left) (of_decide_eq_true right))
  · intro a b
    simpa using Int.le_total a b

theorem nth_succ {i : ℕ} (bound : i < sorted.length) : nth (i + 1) sorted = some (sorted[i]?.getD 0) := by
  rw [nth,if_neg (Nat.succ_ne_zero i),Nat.add_sub_cancel,List.getElem?_eq_getElem bound]
  rfl

-- The sum of two integers does not wrap around.
theorem median_exact (nonempty : numbers ≠ []) : median numbers = some (.ok (WindowMedians.median numbers)) := by
  obtain ⟨upper,lower⟩ := middle_places (sortInts_nonempty nonempty)
  have length := List.length_pos_iff.mpr nonempty
  rw [median_middles]
  unfold median
  split
  · cases nonempty rfl
  · have upperValue := nth_succ upper
    have lowerValue := nth_succ lower
    rw [sortInts_length] at upperValue lowerValue
    simp only [sort_ints,sortInts_length]
    split
    · rename_i even
      rw [Nat.sub_add_cancel (by omega)] at lowerValue
      rw [lowerValue,upperValue]
      rfl
    · rw [upperValue]
      rfl

end Erlang

namespace Scala

theorem apply_place {i : ℕ} (bound : i < values.length) : ∃ value, apply (sortUnstable values) i = .ok value ∧
    value.toInt = (sortInts (values.map Int64.toInt))[i]?.getD 0 := by
  have place : i < (sortUnstable values).length := by rwa [sortUnstable,List.length_mergeSort]
  refine ⟨(sortUnstable values)[i],?_,?_⟩
  · rw [apply,List.getElem?_eq_getElem place]
  · rw [← sortUnstable_ints,List.getElem?_map,List.getElem?_eq_getElem place]
    rfl

-- The sum of the two middle values wraps around.
theorem medianFromUnsorted_run (nonempty : values ≠ []) : medianFromUnsorted values =
    .ok (if values.length % 2 = 0 then (Int.bmod (middleSum (values.map Int64.toInt)) (2 ^ 64) : ℚ) / 2
      else upperMiddle (values.map Int64.toInt)) := by
  have length := List.length_pos_iff.mpr nonempty
  obtain ⟨upper,upperFound,upperValue⟩ := apply_place (show values.length / 2 < values.length by omega)
  obtain ⟨lower,lowerFound,lowerValue⟩ := apply_place (show values.length / 2 - 1 < values.length by omega)
  unfold medianFromUnsorted
  rw [if_neg (by simpa using nonempty)]
  unfold sortUnstable at upperFound lowerFound
  simp only [List.length_mergeSort,upperFound,lowerFound]
  split
  · have sum : (lower + upper).toInt = Int.bmod (middleSum (values.map Int64.toInt)) (2 ^ 64) := by
      rw [Int64.toInt_add,lowerValue,upperValue,middleSum,lowerMiddle,upperMiddle,List.length_map]
    rw [← sum]
    rfl
  · rw [upperMiddle,List.length_map,← upperValue]
    rfl

end Scala

-- The median that all three give for a window.
structure Gives (values : List Int64) (m : ℚ) : Prop where
  scala : Scala.medianFromUnsorted values = .ok m
  erlang : Erlang.median (values.map Int64.toInt) = some (.ok m)
  rust : ∀ (w : Windower) (sink partitionId : ℕ), w.currentWindow = values → w.downstream = some sink →
    w.triggerWindow partitionId =
      some ({w with currentWindow := []},[⟨sink,w.windowStartTs,partitionId,m⟩])

theorem gives_median (nonempty : values ≠ [])
    (fits : values.length % 2 = 0 → Fits (middleSum (values.map Int64.toInt))) :
    Gives values (median (values.map Int64.toInt)) := by
  refine ⟨?_,Erlang.median_exact (by simpa using nonempty),?_⟩
  · rw [Scala.medianFromUnsorted_run nonempty,median_middles,List.length_map]
    split
    · rename_i even
      rw [wrapped_exact.mpr (fits even)]
    · rfl
  · intro w sink partitionId window downstream
    subst window
    exact triggerWindow_median nonempty downstream partitionId

theorem gives_fits {m : ℚ} (nonempty : values ≠ []) (gives : Gives values m) (even : values.length % 2 = 0) :
    Fits (middleSum (values.map Int64.toInt)) := by
  have scala := gives.scala
  rw [Scala.medianFromUnsorted_run nonempty,if_pos even] at scala
  have erlang := gives.erlang
  rw [Erlang.median_exact (by simpa using nonempty),median_middles,List.length_map,if_pos even] at erlang
  have same : (Int.bmod (middleSum (values.map Int64.toInt)) (2 ^ 64) : ℚ) / 2 =
      (middleSum (values.map Int64.toInt) : ℚ) / 2 := by
    rw [Except.ok.inj scala]
    exact (Erlang.Median.ok.inj (Option.some.inj erlang)).symm
  exact wrapped_exact.mp (Int.cast_inj.mp ((div_left_inj' two_ne_zero).mp same))

-- In Scala the sum of the two middle values is not guarded.
theorem medians_same_iff (nonempty : values ≠ []) :
    (∀ other : List Int64, other.Perm values → Gives other (median (values.map Int64.toInt))) ↔
      (values.length % 2 = 0 → Fits (middleSum (values.map Int64.toInt))) := by
  constructor
  · intro gives
    exact gives_fits nonempty (gives values (.refl _))
  · intro fits other perm
    have ints := perm.map Int64.toInt
    rw [← median_perm ints]
    refine gives_median ?_ ?_
    · intro none
      rw [none] at perm
      exact nonempty perm.symm.eq_nil
    · rw [middleSum_perm ints,perm.length_eq]
      exact fits

end Medians

-- The largest sum that fits.
theorem medians_same_iff_largest :
    Gives [9223372036854775806,1] (9223372036854775807 / 2) ∧
      Gives [1,9223372036854775806] (9223372036854775807 / 2) := by
  have sorted : sortInts (([9223372036854775806,1] : List Int64).map Int64.toInt) = [1,9223372036854775806] :=
    sortInts_unique (List.Perm.swap _ _ _) (by decide)
  have fits : Fits (middleSum (([9223372036854775806,1] : List Int64).map Int64.toInt)) := by
    rw [middleSum,lowerMiddle,upperMiddle,sorted]
    exact ⟨by decide,by decide⟩
  have gives := (medians_same_iff (by decide : ([9223372036854775806,1] : List Int64) ≠ [])).mpr fun _ => fits
  have value : median (([9223372036854775806,1] : List Int64).map Int64.toInt) = 9223372036854775807 / 2 := by
    rw [median_sortInts,sorted]
    decide +kernel
  rw [value] at gives
  exact ⟨gives _ (.refl _),gives _ (.swap _ _ _)⟩

-- The smallest sum that does not fit is negative in Scala.
theorem middle_sum_wraps :
    Scala.medianFromUnsorted [4611686018427387904,4611686018427387904] = .ok (-4611686018427387904) ∧
      ¬∃ m, Gives [4611686018427387904,4611686018427387904] m := by
  have nonempty : ([4611686018427387904,4611686018427387904] : List Int64) ≠ [] := by decide
  have sum : middleSum (([4611686018427387904,4611686018427387904] : List Int64).map Int64.toInt) =
      9223372036854775808 := by
    rw [middleSum,lowerMiddle,upperMiddle,sortInts_unique (.refl _) (by decide)]
    decide
  constructor
  · rw [Scala.medianFromUnsorted_run nonempty,sum]
    decide +kernel
  · rintro ⟨m,gives⟩
    have fits := gives_fits nonempty gives rfl
    rw [sum] at fits
    exact absurd fits.2 (by decide)

end KompicsBenches.LanguageMedians
