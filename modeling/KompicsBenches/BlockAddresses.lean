import KompicsBenches.Graphs

namespace KompicsBenches.BlockAddresses
open Graphs

section Addresses
variable {W : Type*} {n nb bs i j : ℕ} {f : ℕ → ℕ → W} {g : Graph W} {b : Block W} {blocks : List (List (Block W))}

def blockAt (blocks : List (List (Block W))) (i j : ℕ) : Option (Block W) :=
  blocks[i]?.bind fun row => row[j]?

-- A lookup of the blocks by their ids. For any other id it may panic.
def Lookup (blocks : List (List (Block W))) (neighbours : ℕ → Option (Block W)) : Prop :=
  ∀ i j b, blockAt blocks i j = some b → neighbours b.blockId = some b

-- The blocks of an `n` times `n` graph, `nb` in each dimension.
structure Addressed (n nb : ℕ) (g : Graph W) (blocks : List (List (Block W))) : Prop where
  filled : ∀ i j, i < nb → j < nb → ∃ b, blockAt blocks i j = some b
  within : ∀ i j b, blockAt blocks i j = some b → i < nb ∧ j < nb
  position : ∀ i j b, blockAt blocks i j = some b → b.blockPosition = (i,j)
  distinct : ∀ i j b k l c, blockAt blocks i j = some b → blockAt blocks k l = some c →
    b.blockId = c.blockId → (i,j) = (k,l)
  bounded : ∀ i j b, blockAt blocks i j = some b → b.blockId < nb ^ 2
  element : ∀ i j b neighbours row col, blockAt blocks i j = some b → Lookup blocks neighbours →
    row < n → col < n → ∃ v, g.get row col = some v ∧ b.elementAt row col neighbours = some v
  asked : ∀ i j b (neighbours : ℕ → Option (Block W)) row col, blockAt blocks i j = some b → row < n → col < n →
    b.elementAt row col (fun id => if id < nb ^ 2 then neighbours id else none) = b.elementAt row col neighbours

def blocksOf (nb bs : ℕ) (f : ℕ → ℕ → W) : List (List (Block W)) :=
  table nb fun i j => blockOf nb bs f (i * nb + j)

theorem blocksOf_at (rowBlock : i < nb) (colBlock : j < nb) :
    blockAt (blocksOf nb bs f) i j = some (blockOf nb bs f (i * nb + j)) := by
  simp [blockAt,blocksOf,table,rowBlock,colBlock]

theorem blocksOf_inside (found : blockAt (blocksOf nb bs f) i j = some b) :
    i < nb ∧ j < nb ∧ b = blockOf nb bs f (i * nb + j) := by
  obtain ⟨rowBlock,colBlock,same⟩ := table_inside found
  exact ⟨rowBlock,colBlock,same.symm⟩

-- Rows come first, in the id as in its parts.
theorem blockOf_position (colBlock : j < nb) : (blockOf nb bs f (i * nb + j)).blockPosition = (i,j) :=
  Prod.ext (place_part colBlock) (place_within colBlock)

theorem blocksOf_position (found : blockAt (blocksOf nb bs f) i j = some b) : b.blockPosition = (i,j) := by
  obtain ⟨_,colBlock,rfl⟩ := blocksOf_inside found
  exact blockOf_position colBlock

theorem entry_block {row col : ℕ} (rowBound : row < nb * bs) (colBound : col < nb * bs) :
    row / bs < nb ∧ col / bs < nb :=
  ⟨Nat.div_lt_of_lt_mul (by rwa [Nat.mul_comm]),Nat.div_lt_of_lt_mul (by rwa [Nat.mul_comm])⟩

theorem elementAt_asked {id row col : ℕ} (neighbours : ℕ → Option (Block W)) (rowBound : row < nb * bs)
    (colBound : col < nb * bs) :
    (blockOf nb bs f id).elementAt row col (fun id => if id < nb ^ 2 then neighbours id else none) =
      (blockOf nb bs f id).elementAt row col neighbours := by
  obtain ⟨rowBlock,colBlock⟩ := entry_block rowBound colBound
  have inside : row / bs * nb + col / bs < nb ^ 2 := by
    rw [Nat.pow_two]
    exact id_bound rowBlock colBlock
  show (if _ then _ else (if row / bs * nb + col / bs < nb ^ 2 then _ else none).bind _) = _
  rw [if_pos inside]
  rfl

theorem blocksOf_addressed (nb bs : ℕ) (f : ℕ → ℕ → W) :
    Addressed (nb * bs) nb (tabulate (nb * bs) f) (blocksOf nb bs f) := by
  refine ⟨?_,?_,?_,?_,?_,?_,?_⟩
  · intro i j rowBlock colBlock
    exact ⟨_,blocksOf_at rowBlock colBlock⟩
  · intro i j b found
    exact ⟨(blocksOf_inside found).1,(blocksOf_inside found).2.1⟩
  · intro i j b found
    exact blocksOf_position found
  · intro i j b k l c left right same
    have sameDim : b.numBlocksPerDim = c.numBlocksPerDim := by
      rw [(blocksOf_inside left).2.2,(blocksOf_inside right).2.2]
      rfl
    rw [← blocksOf_position left,← blocksOf_position right,Block.blockPosition,Block.blockPosition,same,sameDim]
  · intro i j b found
    obtain ⟨rowBlock,colBlock,rfl⟩ := blocksOf_inside found
    rw [Nat.pow_two]
    exact id_bound rowBlock colBlock
  · intro i j b neighbours row col found lookup rowBound colBound
    obtain ⟨_,_,rfl⟩ := blocksOf_inside found
    obtain ⟨rowBlock,colBlock⟩ := entry_block rowBound colBound
    have known := lookup _ _ _ (blocksOf_at rowBlock colBlock)
    exact ⟨f row col,tabulate_get rowBound colBound,elementAt_run rowBound colBound rfl fun _ => known⟩
  · intro i j b neighbours row col found rowBound colBound
    obtain ⟨_,_,rfl⟩ := blocksOf_inside found
    exact elementAt_asked neighbours rowBound colBound

theorem square_entries (positive : 0 < n) (square : Square n g) : ∃ f, g = tabulate n f := by
  obtain ⟨row,inRows⟩ := List.exists_mem_of_length_pos (square.1.symm ▸ positive)
  obtain ⟨v,_⟩ := List.exists_mem_of_length_pos ((square.2 row inRows).symm ▸ positive)
  have : Zero W := ⟨v⟩
  exact ⟨_,square_tabulate square⟩

theorem block_addressing {blockSize : ℕ} (positive : 1 ≤ n) (divides : blockSize ∣ n) (square : Square n g) :
    ∃ blocks, g.breakIntoBlocks blockSize = some blocks ∧ Graph.assembleFromBlocks blocks = some g ∧
      Addressed n (n / blockSize) g blocks := by
  obtain ⟨nb,rfl⟩ := divides
  have size : 0 < blockSize := Nat.pos_of_mul_pos_right positive
  obtain ⟨f,rfl⟩ := square_entries positive square
  rw [Nat.mul_div_cancel_left nb size,Nat.mul_comm]
  exact ⟨blocksOf nb blockSize f,breakIntoBlocks_run size,
    assembleFromBlocks_run size (Nat.pos_of_mul_pos_left positive),blocksOf_addressed nb blockSize f⟩

end Addresses

def four : Graph ℕ := ⟨[[0,1,2,3],[4,5,6,7],[8,9,10,11],[12,13,14,15]]⟩

theorem block_addressing_four : ∃ blocks, four.breakIntoBlocks 2 = some blocks ∧
    Graph.assembleFromBlocks blocks = some four ∧ Addressed 4 (4 / 2) four blocks :=
  block_addressing (by decide) (by decide) ⟨rfl,by decide⟩

end KompicsBenches.BlockAddresses
