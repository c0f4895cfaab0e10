import Mathlib

namespace KompicsBenches.Custody

-- Messages in flight that carry something from a commutative monoid: tokens that
-- must not get lost, or numbers that are added up in the end.
variable {α M : Type*} [AddCommMonoid M] {load : α → M} {flight : Multiset α} {x : α}

def carried (load : α → M) (flight : Multiset α) : M := (flight.map load).sum

@[simp] theorem carried_zero : carried load 0 = 0 := by
  simp [carried]

@[simp] theorem carried_singleton (x : α) : carried load {x} = load x := by
  simp [carried]

@[simp] theorem carried_cons (x : α) (flight : Multiset α) :
    carried load (x ::ₘ flight) = load x + carried load flight := by
  simp [carried]

@[simp] theorem carried_add (flight sent : Multiset α) :
    carried load (flight + sent) = carried load flight + carried load sent := by
  simp [carried]

@[simp] theorem carried_coe (sent : List α) : carried load (sent : Multiset α) = (sent.map load).sum := by
  simp [carried]

theorem carried_eq_zero (empty : ∀ x ∈ flight, load x = 0) : carried load flight = 0 := by
  apply Multiset.sum_eq_zero
  intro value member
  obtain ⟨x,present,rfl⟩ := Multiset.mem_map.mp member
  exact empty x present

theorem mem_carried {β : Type*} {load : α → Multiset β} {token : β} :
    token ∈ carried load flight ↔ ∃ x ∈ flight, token ∈ load x :=
  Multiset.mem_bind

-- No message carries anything, when nothing is carried in all.
theorem carries_none {β : Type*} {load : α → Multiset β} (none_left : carried load flight = 0) (present : x ∈ flight) :
    load x = 0 := by
  apply Multiset.eq_zero_of_forall_notMem
  intro token inside
  have found : token ∈ carried load flight := mem_carried.mpr ⟨x,present,inside⟩
  rw [none_left] at found
  exact Multiset.notMem_zero token found

theorem load_le_carried {load : α → ℕ} (present : x ∈ flight) : load x ≤ carried load flight :=
  Multiset.single_le_sum (fun _ _ => Nat.zero_le _) _ (Multiset.mem_map_of_mem load present)

theorem carried_mono {load : α → ℕ} {more : Multiset α} (fewer : flight ≤ more) :
    carried load flight ≤ carried load more := by
  obtain ⟨rest,rfl⟩ := Multiset.le_iff_exists_add.mp fewer
  rw [carried_add]
  exact Nat.le_add_right _ _

section Erase
variable [DecidableEq α]

theorem carried_erase (load : α → M) (present : x ∈ flight) : load x + carried load (flight.erase x) = carried load flight := by
  rw [← carried_cons,Multiset.cons_erase present]

-- What is left after a message was handled, with what its handler sent.
theorem carried_handled (load : α → M) (sent : Multiset α) (present : x ∈ flight) :
    load x + carried load (flight.erase x + sent) = carried load flight + carried load sent := by
  rw [carried_add,← add_assoc,carried_erase load present]

end Erase

-- A holder takes a message over and sends others on. What both hold together stays
-- the same if the holder settles for them.
section Exchange
variable [DecidableEq α] {N : Type*} [AddCancelCommMonoid N] {before after : N}

theorem carried_exchanged {load : α → N} (sent : Multiset α) (present : x ∈ flight)
    (fair : after + carried load sent = before + load x) :
    after + carried load (flight.erase x + sent) = before + carried load flight := by
  apply add_right_cancel (b := load x)
  calc after + carried load (flight.erase x + sent) + load x
      = after + (load x + carried load (flight.erase x + sent)) := by ac_rfl
    _ = after + (carried load flight + carried load sent) := by rw [carried_handled load sent present]
    _ = after + carried load sent + carried load flight := by ac_rfl
    _ = before + load x + carried load flight := by rw [fair]
    _ = before + carried load flight + load x := by ac_rfl

theorem carried_taken {load : α → N} (present : x ∈ flight) (fair : after = before + load x) :
    after + carried load (flight.erase x) = before + carried load flight := by
  have taken := carried_exchanged (0 : Multiset α) present (show after + carried load 0 = before + load x by simpa using fair)
  simpa using taken

end Exchange

end KompicsBenches.Custody
