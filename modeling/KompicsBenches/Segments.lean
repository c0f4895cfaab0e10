import Mathlib

namespace KompicsBenches.Segments
variable {α : Type*}

-- Entries written one after the other into a buffer of fixed length. `none` is
-- an index out of bounds.
def overwrite : List α → ℕ → List α → Option (List α)
  | buffer,_,[] => some buffer
  | buffer,start,entry :: rest =>
    if start < buffer.length then overwrite (buffer.set start entry) (start + 1) rest else none

-- A range of a sequence, `none` when it is not within bounds.
def slice (target : List α) (start stop : ℕ) : Option (List α) :=
  if start ≤ stop ∧ stop ≤ target.length then some ((target.take stop).drop start) else none

-- A buffer holds what the target holds in a range.
def Agree (buffer target : List α) (start stop : ℕ) : Prop :=
  ∀ i, start ≤ i → i < stop → buffer[i]? = target[i]?

variable {buffer target entries out : List α} {start stop i : ℕ}

theorem overwrite_length (done : overwrite buffer start entries = some out) :
    out.length = buffer.length := by
  induction entries generalizing buffer start with
  | nil =>
    cases done
    rfl
  | cons entry rest ih =>
    unfold overwrite at done
    split at done
    · rw [ih done,List.length_set]
    · cases done

theorem overwrite_outside (done : overwrite buffer start entries = some out)
    (outside : i < start ∨ start + entries.length ≤ i) : out[i]? = buffer[i]? := by
  induction entries generalizing buffer start with
  | nil =>
    cases done
    rfl
  | cons entry rest ih =>
    unfold overwrite at done
    rw [List.length_cons] at outside
    split at done
    · rw [ih done (by omega),List.getElem?_set_ne (by omega)]
    · cases done

theorem overwrite_inside (done : overwrite buffer start entries = some out)
    (inside : i < entries.length) : out[start + i]? = entries[i]? := by
  induction entries generalizing buffer start i with
  | nil => simp at inside
  | cons entry rest ih =>
    unfold overwrite at done
    split at done
    · rename_i fits
      cases i with
      | zero =>
        rw [overwrite_outside done (by omega)]
        simp [fits]
      | succ i =>
        have shifted := ih done (Nat.lt_of_succ_lt_succ (by simpa using inside))
        rw [List.getElem?_cons_succ,← shifted]
        congr 1
        omega
    · cases done

-- A write that went through stayed within the buffer.
theorem overwrite_fits (done : overwrite buffer start entries = some out) (some : entries ≠ []) :
    start + entries.length ≤ buffer.length := by
  induction entries generalizing buffer start with
  | nil => exact (some rfl).elim
  | cons entry rest ih =>
    unfold overwrite at done
    split at done
    · rename_i fits
      by_cases last : rest = []
      · subst last
        exact fits
      · have := ih done last
        rw [List.length_set] at this
        rw [List.length_cons]
        omega
    · cases done

theorem slice_spec (cut : slice target start stop = some entries) :
    start ≤ stop ∧ stop ≤ target.length ∧ entries.length = stop - start ∧
      ∀ i, i < stop - start → entries[i]? = target[start + i]? := by
  unfold slice at cut
  split at cut
  · rename_i bounds
    cases cut
    refine ⟨bounds.1,bounds.2,?_,?_⟩
    · simp only [List.length_drop,List.length_take]
      omega
    · intro i inside
      rw [List.getElem?_drop,List.getElem?_take,if_pos (by omega)]
  · cases cut

theorem Agree.written (cut : slice target start stop = some entries)
    (done : overwrite buffer start entries = some out) : Agree out target start stop := by
  intro i above below
  obtain ⟨_,_,size,same⟩ := slice_spec cut
  obtain ⟨j,rfl⟩ := Nat.exists_eq_add_of_le above
  rw [overwrite_inside done (by omega),same j (by omega)]

-- Writing a range of the target keeps what agreed before, also where they overlap.
theorem Agree.kept {low high : ℕ} (agree : Agree buffer target low high)
    (cut : slice target start stop = some entries)
    (done : overwrite buffer start entries = some out) : Agree out target low high := by
  intro i above below
  obtain ⟨_,_,size,_⟩ := slice_spec cut
  by_cases inside : start ≤ i ∧ i < stop
  · exact Agree.written cut done i inside.1 inside.2
  · rw [overwrite_outside done (by omega)]
    exact agree i above below

-- Segments of equal size that agree one by one and leave no remainder.
theorem tiled (count size : ℕ) (segments : ∀ k, k < count → Agree buffer target (k * size) (k * size + size))
    (exact : count * size = target.length) (same : buffer.length = target.length) :
    buffer = target := by
  refine List.ext_getElem? fun i => ?_
  by_cases inside : i < target.length
  · have positive : 0 < size := by
      by_contra zero
      have : size = 0 := by omega
      subst this
      omega
    have segment : i / size < count := by
      rw [Nat.div_lt_iff_lt_mul positive]
      omega
    refine segments (i / size) segment i (Nat.div_mul_le_self i size) ?_
    exact Nat.lt_div_mul_add positive
  · rw [List.getElem?_eq_none (by omega),List.getElem?_eq_none (by omega)]

-- Ranges of a sequence of which no two share an index and which leave none out.
structure Tiles (ranges : List (ℕ × ℕ)) (total : ℕ) : Prop where
  apart : ranges.Pairwise fun left right => Disjoint (Set.Ico left.1 left.2) (Set.Ico right.1 right.2)
  whole : ⋃ range ∈ ranges, Set.Ico range.1 range.2 = Set.Ico 0 total

def equalRanges (count size : ℕ) : List (ℕ × ℕ) :=
  (List.range count).map fun k => (k * size,k * size + size)

theorem equalRanges_apart (count size : ℕ) : (equalRanges count size).Pairwise fun left right =>
    Disjoint (Set.Ico left.1 left.2) (Set.Ico right.1 right.2) := by
  refine List.pairwise_map.mpr (List.pairwise_lt_range.imp ?_)
  intro left right before
  have next : left * size + size ≤ right * size := by
    rw [← Nat.succ_mul]
    exact Nat.mul_le_mul_right size before
  rw [Set.disjoint_left]
  intro i first second
  have below := first.2
  have above := second.1
  omega

theorem equalRanges_union (count size : ℕ) :
    ⋃ range ∈ equalRanges count size, Set.Ico range.1 range.2 = Set.Ico 0 (count * size) := by
  ext i
  simp only [equalRanges,List.mem_map,List.mem_range,Set.mem_iUnion,Set.mem_Ico,exists_prop]
  constructor
  · rintro ⟨_,⟨k,inside,rfl⟩,_,below⟩
    have last : k * size + size ≤ count * size := by
      rw [← Nat.succ_mul]
      exact Nat.mul_le_mul_right size inside
    omega
  · rintro ⟨_,below⟩
    have positive : 0 < size := Nat.pos_of_ne_zero fun zero => by simp [zero] at below
    refine ⟨_,⟨i / size,(Nat.div_lt_iff_lt_mul positive).mpr below,rfl⟩,Nat.div_mul_le_self i size,?_⟩
    exact Nat.lt_div_mul_add positive

theorem equalRanges_tiles_iff : Tiles (equalRanges count size) total ↔ count * size = total := by
  constructor
  · intro tiles
    have same := (equalRanges_union count size).symm.trans tiles.whole
    apply le_antisymm
    · by_contra beyond
      have inside : total ∈ Set.Ico 0 (count * size) := ⟨Nat.zero_le _,not_le.mp beyond⟩
      rw [same] at inside
      exact lt_irrefl _ inside.2
    · by_contra beyond
      have inside : count * size ∈ Set.Ico 0 total := ⟨Nat.zero_le _,not_le.mp beyond⟩
      rw [← same] at inside
      exact lt_irrefl _ inside.2
  · rintro rfl
    exact ⟨equalRanges_apart count size,equalRanges_union count size⟩

-- With the quotient as their size they leave out the remainder.
theorem divided_tiles_iff : Tiles (equalRanges count (total / count)) total ↔ count ∣ total :=
  equalRanges_tiles_iff.trans Nat.mul_div_eq_iff_dvd

end KompicsBenches.Segments
