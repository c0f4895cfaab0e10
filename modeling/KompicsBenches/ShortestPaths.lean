import KompicsBenches.Graphs

namespace KompicsBenches.ShortestPaths
open Shortening Graphs

variable {V : Type*} [LinearOrder V] [AddCommMonoid V]

-- A path follows entries that are not infinite, and weighs what they add up to.
inductive Path (g : Graph (WithTop V)) : ℕ → ℕ → V → Prop where
  | here {i : ℕ} (inside : i < g.numNodes) : Path g i i 0
  | edge {i j k : ℕ} {v w : V} (first : g.get i k = some ↑w) (rest : Path g k j v) : Path g i j (w + v)

-- The least weight of a path, infinity if there is none.
structure Shortest (g : Graph (WithTop V)) (i j : ℕ) (d : WithTop V) : Prop where
  infinite : d = ⊤ ↔ ∀ v, ¬Path g i j v
  least : ∀ v : V, d = v → IsLeast {w | Path g i j w} v

section Paths
variable {g : Graph (WithTop V)} {i j k n : ℕ} {f : ℕ → ℕ → WithTop V} {v w : V}

omit [LinearOrder V] in
theorem Path.append (left : Path g i k v) (right : Path g k j w) : Path g i j (v + w) := by
  induction left with
  | here inside => rwa [zero_add]
  | edge first rest ih =>
    rw [add_assoc]
    exact .edge first (ih right)

-- A finite distance is that of a path: through a further node, of two paths one after the
-- other.
theorem through_path (v : V) {m : ℕ} (below : m ≤ n) (row : i < n) (col : j < n)
    (finite : through f m i j = v) : Path (tabulate n f) i j v := by
  induction m generalizing i j v with
  | zero =>
    have first : (tabulate n f).get i j = some ↑v := by rw [tabulate_get row col,← finite]; rfl
    have last : Path (tabulate n f) j j 0 := .here (by rwa [Graph.numNodes,tabulate_length])
    rw [← add_zero v]
    exact .edge first last
  | succ m ih =>
    rcases shorten_old_or_new (through f m) m i j with old | new
    · exact ih v (by omega) row col (old.symm.trans finite)
    · obtain ⟨a,b,left,right,sum⟩ := WithTop.add_eq_coe.mp (new.symm.trans finite)
      rw [← sum]
      exact (ih a (by omega) row (by omega) left.symm).append (ih b (by omega) (by omega) col right.symm)

-- No path is shorter: each of its edges is one the closed matrix does not beat.
theorem path_bound [IsOrderedAddMonoid V] (distances : Distances f) (path : Path (tabulate n f) i j v) :
    through f n i j ≤ v := by
  induction path with
  | here inside => exact (through_distances distances n).diagonal _ |>.le
  | @edge i j k v w first rest ih =>
    obtain ⟨_,inside,entry⟩ := tabulate_inside first
    calc through f n i j ≤ through f n i k + through f n k j := through_closed distances n k inside i j
      _ ≤ f i k + v := add_le_add (through_le f n i k) ih
      _ = ↑(w + v) := by rw [entry,WithTop.coe_add]

theorem through_shortest [IsOrderedAddMonoid V] (distances : Distances f) (row : i < n) (col : j < n) :
    Shortest (tabulate n f) i j (through f n i j) := by
  refine ⟨⟨?_,?_⟩,?_⟩
  · intro infinite v path
    have bound := path_bound distances path
    rw [infinite] at bound
    exact WithTop.coe_ne_top (top_le_iff.mp bound)
  · intro none
    by_contra finite
    obtain ⟨v,value⟩ := WithTop.ne_top_iff_exists.mp finite
    exact none v (through_path v (Nat.le_refl n) row col value.symm)
  · intro v value
    refine ⟨through_path v (Nat.le_refl n) row col value,?_⟩
    intro w path
    have bound := path_bound distances path
    rw [value] at bound
    exact WithTop.coe_le_coe.mp bound

theorem floydWarshall_shortest [IsOrderedAddMonoid V] (square : Square n g)
    (nonneg : ∀ i j v, g.get i j = some v → 0 ≤ v) (diagonal : ∀ i v, g.get i i = some v → v = 0) :
    ∃ r, g.computeFloydWarshall = some r ∧ Square n r ∧
      ∀ i j, i < n → j < n → ∃ d, r.get i j = some d ∧ Shortest g i j d := by
  obtain ⟨f,rfl,distances⟩ := square_parts square nonneg diagonal
  refine ⟨_,floydWarshall_run distances,tabulate_square n _,?_⟩
  intro i j row col
  exact ⟨_,tabulate_get row col,through_shortest distances row col⟩

end Paths

def detour : Graph (WithTop ℕ) := ⟨[[0,7,1],[⊤,0,⊤],[⊤,4,0]]⟩

theorem detour_diagonal (i : ℕ) (v : WithTop ℕ) (found : detour.get i i = some v) : v = 0 := by
  have bound : i < 3 := by
    by_contra outside
    have missing : detour.data[i]? = none := List.getElem?_eq_none (Nat.le_of_not_lt outside)
    rw [Graph.get,missing] at found
    cases found
  interval_cases i
  all_goals exact (Option.some.inj found).symm

theorem detour_square : Square 3 detour := ⟨rfl,by decide⟩

theorem floydWarshall_shortest_detour : IsLeast {w | Path detour 0 1 w} 5 ∧ ∀ v, ¬Path detour 1 0 v := by
  obtain ⟨r,ran,_,entries⟩ := floydWarshall_shortest detour_square (fun _ _ _ _ => zero_le)
    detour_diagonal
  cases (show detour.computeFloydWarshall = some ⟨[[0,5,1],[⊤,0,⊤],[⊤,4,0]]⟩ by decide +kernel).symm.trans ran
  obtain ⟨short,shortFound,shortest⟩ := entries 0 1 (by decide) (by decide)
  obtain ⟨far,farFound,farthest⟩ := entries 1 0 (by decide) (by decide)
  exact ⟨shortest.least 5 (Option.some.inj shortFound).symm,
    farthest.infinite.mp (Option.some.inj farFound).symm⟩

section Phases
variable {W : Type*} [Add W] [LT W] [DecidableLT W]

-- The loops of the test `graph_block_floyd_warshall`: neighbours are looked up in a copy of
-- the blocks from before the phase.
def lookup (oldBlocks : List (List (Block W))) (blockId : ℕ) : Option (Block W) :=
  oldBlocks[blockId / oldBlocks.length]?.bind fun row => row[blockId % oldBlocks.length]?

def blockPhase (blocks : List (List (Block W))) (k : ℕ) : Option (List (List (Block W))) :=
  blocks.mapM fun row => row.mapM fun block => block.computeFloydWarshallInner (lookup blocks) k

def blockFloydWarshall (g : Graph W) (blockSize : ℕ) : Option (Graph W) := do
  let blocks ← g.breakIntoBlocks blockSize
  Graph.assembleFromBlocks (← (List.range g.numNodes).foldlM blockPhase blocks)

end Phases

section Blocked
variable {W : Type*} [LinearOrder W] [AddMonoid W] {nb bs id k n : ℕ} {f : ℕ → ℕ → W}

def grid (nb bs : ℕ) (f : ℕ → ℕ → W) : List (List (Block W)) :=
  table nb fun i j => blockOf nb bs f (i * nb + j)

omit [LinearOrder W] [AddMonoid W] in
theorem lookup_run (bound : id < nb * nb) : lookup (grid nb bs f) id = some (blockOf nb bs f id) := by
  have row : id / nb < nb := Nat.div_lt_of_lt_mul bound
  have col : id % nb < nb := Nat.mod_lt id (Nat.zero_lt_of_lt row)
  simp [lookup,grid,table,row,col,Nat.div_add_mod']

theorem blockPhase_run (distances : Distances f) (phase : k < nb * bs) :
    blockPhase (grid nb bs f) k = some (grid nb bs (shorten k f)) := by
  have size : 0 < bs := Nat.pos_of_mul_pos_left (Nat.zero_lt_of_lt phase)
  have place : k / bs < nb := Nat.div_lt_of_lt_mul (by rwa [Nat.mul_comm])
  apply mapM_table
  intro i j rowBlock colBlock
  apply block_phase distances (id_bound rowBlock colBlock) phase
  · rw [place_part colBlock]
    intro _
    exact lookup_run (id_bound rowBlock place)
  · rw [place_within colBlock]
    intro _
    exact lookup_run (id_bound place colBlock)

theorem blockPhases_run [AddLeftMono W] (distances : Distances f) {m : ℕ} (below : m ≤ nb * bs) :
    (List.range m).foldlM blockPhase (grid nb bs f) = some (grid nb bs (through f m)) := by
  induction m with
  | zero => rfl
  | succ m ih =>
    have phase := blockPhase_run (through_distances distances m) (show m < nb * bs by omega)
    rw [List.range_succ,List.foldlM_append,ih (by omega),Option.bind_eq_bind,Option.bind_some,
      List.foldlM_cons,phase]
    rfl

-- One block or many: every phase of the blocks is the phase of the whole matrix.
theorem blockFloydWarshall_same [AddLeftMono W] {g : Graph W} (built : Graph.with g.data = some g)
    (square : Square n g) (nonneg : ∀ i j v, g.get i j = some v → 0 ≤ v)
    (diagonal : ∀ i v, g.get i i = some v → v = 0) (size : 0 < bs) (divides : bs ∣ n) :
    ∃ r, blockFloydWarshall g bs = some r ∧ g.computeFloydWarshall = some r := by
  have rows : n ≠ 0 := by
    intro none
    rw [← square.1,List.length_eq_zero_iff] at none
    rw [none] at built
    cases built
  obtain ⟨f,rfl,distances⟩ := square_parts square nonneg diagonal
  obtain ⟨nb,rfl⟩ := divides
  have some_ : 0 < nb := Nat.pos_of_ne_zero fun none => rows (by rw [none,Nat.mul_zero])
  refine ⟨_,?_,floydWarshall_run distances⟩
  rw [Nat.mul_comm bs nb] at *
  unfold blockFloydWarshall
  rw [breakIntoBlocks_run size,Graph.numNodes,tabulate_length]
  have phases := blockPhases_run distances (Nat.le_refl (nb * bs))
  rw [grid] at phases
  simp only [Option.bind_eq_bind,Option.bind_some,phases]
  exact assembleFromBlocks_run size some_

end Blocked

theorem blockFloydWarshall_same_detour : ∃ r, blockFloydWarshall detour 1 = some r ∧
    blockFloydWarshall detour 3 = some r ∧ detour.computeFloydWarshall = some r := by
  obtain ⟨r,ones,plain⟩ : ∃ r, blockFloydWarshall detour 1 = some r ∧ detour.computeFloydWarshall = some r :=
    blockFloydWarshall_same rfl detour_square (fun _ _ _ _ => zero_le) detour_diagonal (by decide) (by decide)
  obtain ⟨_,whole,again⟩ : ∃ r, blockFloydWarshall detour 3 = some r ∧ detour.computeFloydWarshall = some r :=
    blockFloydWarshall_same rfl detour_square (fun _ _ _ _ => zero_le) detour_diagonal (by decide) (by decide)
  cases plain.symm.trans again
  exact ⟨r,ones,whole,plain⟩

end KompicsBenches.ShortestPaths
