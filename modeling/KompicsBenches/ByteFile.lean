import KompicsBenches.Segments

namespace KompicsBenches.ByteFile
open Segments
variable {α : Type*} {file bytes more : List α} {pos start stop : ℕ}

-- A write at the cursor of a file. It replaces what is there, and the file grows
-- when the write reaches past its end.
def write (file : List α) (pos : ℕ) (bytes : List α) : List α :=
  file.take pos ++ (bytes ++ file.drop (pos + bytes.length))

-- A file holds these bytes from a position on.
def Holds (file : List α) (pos : ℕ) (bytes : List α) : Prop :=
  slice file pos (pos + bytes.length) = some bytes

theorem length_write (fits : pos + bytes.length ≤ file.length) :
    (write file pos bytes).length = file.length := by
  simp only [write,List.length_append,List.length_take,List.length_drop]
  omega

theorem write_nil (file : List α) (pos : ℕ) : write file pos [] = file := by
  rw [write,List.nil_append,List.length_nil,Nat.add_zero,List.take_append_drop]

-- A write that starts within the file may go on behind its end.
theorem write_getElem? (inside : pos ≤ file.length) (i : ℕ) :
    (write file pos bytes)[i]? =
      if pos ≤ i ∧ i < pos + bytes.length then bytes[i - pos]? else file[i]? := by
  have front : (file.take pos).length = pos := by
    rw [List.length_take]
    omega
  unfold write
  by_cases before : i < pos
  · rw [List.getElem?_append_left (by omega),List.getElem?_take,if_pos before,if_neg (by omega)]
  · rw [List.getElem?_append_right (by omega),front]
    by_cases inside : i < pos + bytes.length
    · rw [List.getElem?_append_left (by omega),if_pos (by omega)]
    · rw [List.getElem?_append_right (by omega),List.getElem?_drop,if_neg (by omega)]
      congr 1
      omega

-- Within its bounds a map is written as the file is.
theorem overwrite_write (fits : start + bytes.length ≤ file.length) :
    overwrite file start bytes = some (write file start bytes) := by
  obtain ⟨out,done⟩ : ∃ out, overwrite file start bytes = some out := by
    induction bytes generalizing file start with
    | nil => exact ⟨file,rfl⟩
    | cons byte bytes ih =>
      rw [List.length_cons] at fits
      rw [overwrite,if_pos (by omega)]
      apply ih
      rw [List.length_set]
      omega
  rw [done]
  congr 1
  apply List.ext_getElem?
  intro i
  rw [write_getElem? (by omega)]
  split
  · rename_i inside
    obtain ⟨j,rfl⟩ := Nat.exists_eq_add_of_le inside.1
    rw [overwrite_inside done (by omega),Nat.add_sub_cancel_left]
  · exact overwrite_outside done (by omega)

theorem slice_congr {file other : List α} (length : file.length = other.length)
    (same : ∀ i, start ≤ i → i < stop → file[i]? = other[i]?) :
    slice file start stop = slice other start stop := by
  unfold slice
  rw [length]
  split
  · congr 1
    apply List.ext_getElem?
    intro i
    rw [List.getElem?_drop,List.getElem?_drop,List.getElem?_take,List.getElem?_take]
    split
    · exact same _ (by omega) (by omega)
    · rfl
  · rfl

theorem slice_apart (fits : pos + bytes.length ≤ file.length)
    (apart : stop ≤ pos ∨ pos + bytes.length ≤ start) :
    slice (write file pos bytes) start stop = slice file start stop := by
  apply slice_congr (length_write fits)
  intro i above below
  rw [write_getElem? (by omega),if_neg (by omega)]

theorem holds_iff : Holds file pos bytes ↔
    pos + bytes.length ≤ file.length ∧ (file.drop pos).take bytes.length = bytes := by
  unfold Holds slice
  constructor
  · intro held
    split at held
    · rename_i bounds
      rw [List.drop_take,Nat.add_sub_cancel_left] at held
      exact ⟨bounds.2,Option.some.inj held⟩
    · cases held
  · intro held
    rw [if_pos ⟨Nat.le_add_right _ _,held.1⟩,List.drop_take,Nat.add_sub_cancel_left,held.2]

theorem holds_append : Holds file pos (bytes ++ more) ↔
    Holds file pos bytes ∧ Holds file (pos + bytes.length) more := by
  simp only [holds_iff,List.length_append,List.take_add,List.drop_drop]
  constructor
  · intro held
    have lengths : ((file.drop pos).take bytes.length).length = bytes.length := by
      rw [List.length_take,List.length_drop]
      omega
    have parts := List.append_inj held.2 lengths
    exact ⟨⟨by omega,parts.1⟩,⟨by omega,parts.2⟩⟩
  · intro held
    exact ⟨by omega,by rw [held.1.2,held.2.2]⟩

theorem holds_write (inside : pos ≤ file.length) : Holds (write file pos bytes) pos bytes := by
  have front : (file.take pos).length = pos := by
    rw [List.length_take]
    omega
  rw [holds_iff]
  refine ⟨?_,?_⟩
  · rw [write,List.length_append,List.length_append,front]
    omega
  · rw [write,List.drop_left' front,List.take_left]

theorem Holds.bound (held : Holds file pos bytes) : pos + bytes.length ≤ file.length :=
  (slice_spec held).2.1

theorem length_le_write : file.length ≤ (write file pos bytes).length := by
  simp only [write,List.length_append,List.length_take,List.length_drop]
  omega

theorem Holds.apart (held : Holds file start more) (inside : pos ≤ file.length)
    (apart : start + more.length ≤ pos ∨ pos + bytes.length ≤ start) :
    Holds (write file pos bytes) start more := by
  rw [holds_iff] at held ⊢
  refine ⟨Nat.le_trans held.1 length_le_write,?_⟩
  rw [← held.2]
  apply List.ext_getElem?
  intro i
  rw [List.getElem?_take,List.getElem?_take,held.2]
  split
  · rw [List.getElem?_drop,List.getElem?_drop,write_getElem? inside,if_neg (by omega)]
  · rfl

-- Two writes, the second right behind the first.
theorem write_append (inside : pos ≤ file.length) :
    write (write file pos bytes) (pos + bytes.length) more = write file pos (bytes ++ more) := by
  have length := (holds_write (α := α) inside : Holds (write file pos bytes) pos bytes).bound
  apply List.ext_getElem?
  intro i
  rw [write_getElem? length,write_getElem? inside,write_getElem? inside,List.length_append]
  by_cases second : pos + bytes.length ≤ i ∧ i < pos + bytes.length + more.length
  · rw [if_pos second,if_pos (by omega),List.getElem?_append_right (by omega)]
    congr 1
    omega
  · rw [if_neg second]
    by_cases first : pos ≤ i ∧ i < pos + bytes.length
    · rw [if_pos first,if_pos (by omega),List.getElem?_append_left (by omega)]
    · rw [if_neg first,if_neg (by omega)]

-- A write that covers an earlier one leaves nothing of it.
theorem write_again (inside : pos ≤ file.length) (covers : bytes.length ≤ more.length) :
    write (write file pos bytes) pos more = write file pos more := by
  have length := (holds_write (α := α) inside : Holds (write file pos bytes) pos bytes).bound
  apply List.ext_getElem?
  intro i
  rw [write_getElem? (by omega),write_getElem? inside,write_getElem? inside]
  by_cases covered : pos ≤ i ∧ i < pos + more.length
  · rw [if_pos covered,if_pos covered]
  · rw [if_neg covered,if_neg covered,if_neg (by omega)]

end KompicsBenches.ByteFile
