import Mathlib

namespace KompicsBenches.Flight
variable {α τ : Type*} [DecidableEq α] [DecidableEq τ]

-- Messages in flight, each handled at most once and in any order. A reply keeps
-- the token of the request it answers, so distinct tokens of the requests bound
-- the replies as well.
def outstanding (token : α → τ) (flight : Multiset α) : Multiset τ := flight.map token

variable {token : α → τ} {flight : Multiset α} {x y : α}

omit [DecidableEq α] [DecidableEq τ] in
theorem token_mem (present : x ∈ flight) : token x ∈ outstanding token flight :=
  Multiset.mem_map_of_mem token present

omit [DecidableEq τ] in
theorem replied (present : x ∈ flight) (same : token y = token x) :
    outstanding token (flight.erase x + {y}) = outstanding token flight := by
  unfold outstanding
  rw [Multiset.map_add,Multiset.map_singleton,same,← Multiset.map_singleton token x,
    ← Multiset.map_add,add_comm,Multiset.singleton_add,Multiset.cons_erase present]

theorem consumed (present : x ∈ flight) :
    outstanding token (flight.erase x) = (outstanding token flight).erase (token x) :=
  Multiset.map_erase_of_mem token flight present

theorem consumed_nodup (nodup : (outstanding token flight).Nodup) (present : x ∈ flight) :
    (outstanding token (flight.erase x)).Nodup := by
  rw [consumed present]
  exact nodup.erase _

theorem mem_consumed (nodup : (outstanding token flight).Nodup) (present : x ∈ flight) {t : τ} :
    t ∈ outstanding token (flight.erase x) ↔ t ≠ token x ∧ t ∈ outstanding token flight := by
  rw [consumed present]
  exact nodup.mem_erase_iff

end KompicsBenches.Flight
