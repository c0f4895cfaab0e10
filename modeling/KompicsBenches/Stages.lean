import Mathlib.Algebra.BigOperators.Group.Finset.Basic
import Mathlib.Algebra.BigOperators.Fin
import Mathlib.Data.Fintype.BigOperators

namespace KompicsBenches.Stages

-- Parties that each go through stages of their own. What is in flight between them
-- belongs to the stages, and so does every number that counts them.
variable {ι σ L : Type*} [Fintype ι] [DecidableEq ι]

def inFlight (letters : ι → σ → Multiset L) (stage : ι → σ) : Multiset L := ∑ p, letters p (stage p)

def counted {M : Type*} [AddCommMonoid M] (weight : ι → σ → M) (stage : ι → σ) : M := ∑ p, weight p (stage p)

def number (reached : σ → Prop) [DecidablePred reached] (stage : ι → σ) : ℕ :=
  counted (fun _ at_stage => if reached at_stage then 1 else 0) stage

section Moves
variable {letters : ι → σ → Multiset L} {stage : ι → σ} {p : ι} {x : L} {new : σ}

omit [DecidableEq ι] in
theorem mem_inFlight : x ∈ inFlight letters stage ↔ ∃ p, x ∈ letters p (stage p) := by
  simp [inFlight,Multiset.mem_sum]

theorem counted_update {M : Type*} [AddCommMonoid M] (weight : ι → σ → M) (stage : ι → σ) (p : ι) (new : σ) :
    counted weight (Function.update stage p new) + weight p (stage p) = counted weight stage + weight p new := by
  have others : ∑ q ∈ Finset.univ.erase p, weight q (Function.update stage p new q) =
      ∑ q ∈ Finset.univ.erase p, weight q (stage q) := by
    apply Finset.sum_congr rfl
    intro q inside
    rw [Function.update_of_ne (Finset.ne_of_mem_erase inside)]
  unfold counted
  rw [← Finset.add_sum_erase _ _ (Finset.mem_univ p),others,← Finset.add_sum_erase _ (fun q => weight q (stage q))
    (Finset.mem_univ p),Function.update_self]
  ac_rfl

theorem counted_raise {weight : ι → σ → ℕ} (raise : ℕ) (raised : weight p new = weight p (stage p) + raise) :
    counted weight (Function.update stage p new) = counted weight stage + raise := by
  have moved := counted_update weight stage p new
  omega

-- A party that takes one of its letters leaves the others, and those of its new stage.
theorem inFlight_trade [DecidableEq L] {sent rest : Multiset L} (before : letters p (stage p) = x ::ₘ rest)
    (after : letters p new = sent + rest) :
    (inFlight letters stage).erase x + sent = inFlight letters (Function.update stage p new) := by
  have moved := counted_update letters stage p new
  rw [before,after] at moved
  have present : x ∈ inFlight letters stage := mem_inFlight.mpr ⟨p,before ▸ Multiset.mem_cons_self x rest⟩
  apply add_right_cancel (b := x ::ₘ rest)
  calc (inFlight letters stage).erase x + sent + (x ::ₘ rest)
      = (x ::ₘ (inFlight letters stage).erase x) + (sent + rest) := by
        rw [Multiset.add_cons,Multiset.cons_add,add_assoc]
    _ = inFlight letters stage + (sent + rest) := by rw [Multiset.cons_erase present]
    _ = inFlight letters (Function.update stage p new) + (x ::ₘ rest) := moved.symm

-- A party that takes its only letter leaves those of its new stage.
theorem inFlight_move [DecidableEq L] (new : σ) (only : letters p (stage p) = {x}) :
    (inFlight letters stage).erase x + letters p new = inFlight letters (Function.update stage p new) :=
  inFlight_trade only (add_zero _).symm

theorem inFlight_start (new : σ) (none_yet : letters p (stage p) = 0) :
    inFlight letters stage + letters p new = inFlight letters (Function.update stage p new) := by
  have moved := counted_update letters stage p new
  rw [none_yet,add_zero] at moved
  exact moved.symm

omit [DecidableEq ι] in
theorem inFlight_zero (silent : ∀ p, letters p (stage p) = 0) : inFlight letters stage = 0 :=
  Finset.sum_eq_zero fun p _ => silent p

variable {reached : σ → Prop} [DecidablePred reached]

omit [DecidableEq ι] in
theorem number_card : number reached stage = (Finset.univ.filter fun p => reached (stage p)).card := by
  exact (Finset.card_filter _ _).symm

omit [DecidableEq ι] in
theorem number_le : number reached stage ≤ Fintype.card ι := by
  rw [number_card]
  exact Finset.card_le_univ _

omit [DecidableEq ι] in
theorem number_all : number reached stage = Fintype.card ι ↔ ∀ p, reached (stage p) := by
  rw [number_card,Finset.card_eq_iff_eq_univ,Finset.filter_eq_self]
  simp

omit [DecidableEq ι] in
theorem number_none (nobody : ∀ p, ¬reached (stage p)) : number reached stage = 0 := by
  rw [number_card,Finset.card_eq_zero,Finset.filter_eq_empty_iff]
  exact fun p _ => nobody p

theorem number_up (before : ¬reached (stage p)) (after : reached new) :
    number reached (Function.update stage p new) = number reached stage + 1 := by
  have moved := counted_update (fun _ at_stage => if reached at_stage then 1 else 0) stage p new
  simp only [if_neg before,if_pos after,add_zero] at moved
  exact moved

theorem number_same (same : reached new ↔ reached (stage p)) :
    number reached (Function.update stage p new) = number reached stage := by
  have moved := counted_update (fun _ at_stage => if reached at_stage then 1 else 0) stage p new
  simp only [same] at moved
  exact Nat.add_right_cancel moved

end Moves

end KompicsBenches.Stages
