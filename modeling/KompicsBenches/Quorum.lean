import Mathlib.Data.Fintype.Card

namespace KompicsBenches.Quorum
variable {ι : Type*} [Fintype ι]

-- Strictly more than half of the processes, for an even or an odd number.
def Majority (quorum : Finset ι) : Prop := Fintype.card ι < 2 * quorum.card

theorem half_lt {count size : ℕ} : count / 2 < size ↔ count < 2 * size := by omega

theorem larger {small large : Finset ι} (inside : small ⊆ large) (most : Majority small) :
    Majority large := by
  have bound := Finset.card_le_card inside
  unfold Majority at most ⊢
  omega

variable [DecidableEq ι]

theorem disjoint_minor {left right : Finset ι} (apart : Disjoint left right)
    (most : Majority left) : ¬Majority right := by
  intro other
  have total : (left ∪ right).card ≤ Fintype.card ι := Finset.card_le_univ _
  rw [Finset.card_union_of_disjoint apart] at total
  unfold Majority at most other
  omega

theorem intersect {left right : Finset ι} (most : Majority left) (other : Majority right) :
    ∃ i, i ∈ left ∧ i ∈ right := by
  by_contra apart
  push Not at apart
  exact disjoint_minor (Finset.disjoint_left.mpr apart) most other

end KompicsBenches.Quorum
