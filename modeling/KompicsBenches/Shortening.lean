import Mathlib

namespace KompicsBenches.Shortening

-- Distances between nodes, shortened by the paths through one node after the other.
-- Nothing but the order of the weights and a zero that adds nothing is used.
variable {W : Type*} [LinearOrder W] [AddMonoid W] {f g : ℕ → ℕ → W} {k i j a b : ℕ} {v : W}

-- All paths through one node at once.
def shorten (k : ℕ) (f : ℕ → ℕ → W) (a b : ℕ) : W :=
  if f a k + f k b < f a b then f a k + f k b else f a b

def write (f : ℕ → ℕ → W) (i j : ℕ) (v : W) (a b : ℕ) : W := if a = i ∧ b = j then v else f a b

-- One entry in place, if that is shorter.
def tighten (f : ℕ → ℕ → W) (i j : ℕ) (v : W) : ℕ → ℕ → W := if v < f i j then write f i j v else f

-- Some entries are shortened already.
def blend (k : ℕ) (f : ℕ → ℕ → W) (seen : List (ℕ × ℕ)) (a b : ℕ) : W :=
  if (a,b) ∈ seen then shorten k f a b else f a b

-- The distances after the nodes below `m`.
def through (f : ℕ → ℕ → W) : ℕ → ℕ → ℕ → W
  | 0 => f
  | m + 1 => shorten m (through f m)

structure Distances (f : ℕ → ℕ → W) : Prop where
  nonneg : ∀ a b, 0 ≤ f a b
  diagonal : ∀ a, f a a = 0

section Rows
variable (distances : Distances f)
include distances

-- Paths from or to a node do not get shorter through it.
theorem shorten_row (k b : ℕ) : shorten k f k b = f k b := by
  rw [shorten,distances.diagonal,zero_add,if_neg (lt_irrefl _)]

theorem shorten_col (k a : ℕ) : shorten k f a k = f a k := by
  rw [shorten,distances.diagonal,add_zero,if_neg (lt_irrefl _)]

theorem blend_row (k b : ℕ) (seen : List (ℕ × ℕ)) : blend k f seen k b = f k b := by
  unfold blend
  split
  · exact shorten_row distances k b
  · rfl

theorem blend_col (k a : ℕ) (seen : List (ℕ × ℕ)) : blend k f seen a k = f a k := by
  unfold blend
  split
  · exact shorten_col distances k a
  · rfl

end Rows

theorem shorten_le (k a b : ℕ) : ¬f a k + f k b < shorten k f a b := by
  unfold shorten
  split
  · exact lt_irrefl _
  · assumption

theorem blend_nil (k : ℕ) (f : ℕ → ℕ → W) : blend k f [] = f := by
  funext a b
  exact if_neg List.not_mem_nil

-- An entry that is tightened by the path through `k` is shortened, whether or not it
-- was before.
theorem tighten_blend (k i j : ℕ) (f : ℕ → ℕ → W) (seen : List (ℕ × ℕ)) :
    tighten (blend k f seen) i j (f i k + f k j) = blend k f ((i,j) :: seen) := by
  funext a b
  by_cases here : a = i ∧ b = j
  · obtain ⟨rfl,rfl⟩ := here
    have after : blend k f ((a,b) :: seen) a b = shorten k f a b := if_pos List.mem_cons_self
    rw [after,tighten]
    by_cases before : (a,b) ∈ seen
    · have same : blend k f seen a b = shorten k f a b := if_pos before
      rw [same,if_neg (shorten_le k a b),same]
    · have same : blend k f seen a b = f a b := if_neg before
      rw [same,shorten]
      split
      · exact if_pos ⟨rfl,rfl⟩
      · exact same
  · have other : (a,b) ≠ (i,j) := by
      intro equal
      exact here (Prod.mk.inj equal)
    have same : tighten (blend k f seen) i j (f i k + f k j) a b = blend k f seen a b := by
      unfold tighten
      split
      · exact if_neg here
      · rfl
    rw [same]
    simp [blend,other]

theorem shorten_distances [AddLeftMono W] (distances : Distances f) (k : ℕ) : Distances (shorten k f) := by
  refine ⟨?_,?_⟩
  · intro a b
    unfold shorten
    split
    · exact add_nonneg (distances.nonneg a k) (distances.nonneg k b)
    · exact distances.nonneg a b
  · intro a
    rw [shorten,distances.diagonal,if_neg]
    exact not_lt.mpr (add_nonneg (distances.nonneg a k) (distances.nonneg k a))

theorem through_distances [AddLeftMono W] (distances : Distances f) (m : ℕ) : Distances (through f m) := by
  induction m with
  | zero => exact distances
  | succ m ih => exact shorten_distances ih m

theorem shorten_le_old (k a b : ℕ) : shorten k f a b ≤ f a b := by
  by_cases shorter : f a k + f k b < f a b
  · rw [shorten,if_pos shorter]
    exact shorter.le
  · rw [shorten,if_neg shorter]

theorem shorten_le_new (k a b : ℕ) : shorten k f a b ≤ f a k + f k b := not_lt.mp (shorten_le k a b)

theorem shorten_old_or_new (f : ℕ → ℕ → W) (k a b : ℕ) :
    shorten k f a b = f a b ∨ shorten k f a b = f a k + f k b := by
  unfold shorten
  split
  · exact .inr rfl
  · exact .inl rfl

theorem through_le (f : ℕ → ℕ → W) (m a b : ℕ) : through f m a b ≤ f a b := by
  induction m with
  | zero => exact le_refl _
  | succ m ih => exact (shorten_le_old m a b).trans ih

-- No way over one of the nodes below `m` is shorter.
def Closed (m : ℕ) (f : ℕ → ℕ → W) : Prop := ∀ k < m, ∀ a b, f a b ≤ f a k + f k b

section Triangle
variable [AddLeftMono W] [AddRightMono W]

-- A way over an earlier node is closed still: each of its halves is the old one or leads
-- over the new node, and what both halves do twice can be left out.
theorem shorten_closed (distances : Distances f) (closed : Closed k f) : Closed (k + 1) (shorten k f) := by
  intro node below a b
  rcases Nat.lt_succ_iff_lt_or_eq.mp below with earlier | rfl
  · have first := closed node earlier a k
    have second := closed node earlier k b
    rcases shorten_old_or_new f k a node with left | left
      <;> rcases shorten_old_or_new f k node b with right | right
      <;> rw [left,right]
    · exact (shorten_le_old k a b).trans (closed node earlier a b)
    · calc shorten k f a b ≤ f a k + f k b := shorten_le_new k a b
        _ ≤ f a node + f node k + f k b := by gcongr
        _ = f a node + (f node k + f k b) := add_assoc ..
    · calc shorten k f a b ≤ f a k + f k b := shorten_le_new k a b
        _ ≤ f a k + (f k node + f node b) := by gcongr
        _ = f a k + f k node + f node b := (add_assoc ..).symm
    · calc shorten k f a b ≤ f a k + f k b := shorten_le_new k a b
        _ ≤ f a k + (f k node + f node k) + f k b := by
            gcongr
            exact le_add_of_nonneg_right (add_nonneg (distances.nonneg k node) (distances.nonneg node k))
        _ = f a k + f k node + (f node k + f k b) := by simp only [add_assoc]
  · rw [shorten_col distances,shorten_row distances]
    exact shorten_le_new node a b

theorem through_closed (distances : Distances f) (m : ℕ) : Closed m (through f m) := by
  induction m with
  | zero =>
    intro k below
    cases below
  | succ m ih => exact shorten_closed (through_distances distances m) ih

end Triangle

end KompicsBenches.Shortening
