import KompicsBenches.Shortening

namespace KompicsBenches.Graphs
open Shortening
variable {W : Type*}

-- `none` is a panic: an index out of range, a failed assertion, a missing block. The
-- formatter of a graph is left out.
structure Graph (W : Type*) where
  data : List (List W)
  deriving DecidableEq, Repr

structure Block (W : Type*) where
  blockId : ℕ
  numBlocksPerDim : ℕ
  rowOffset : ℕ
  colOffset : ℕ
  blockSize : ℕ
  graph : Graph W
  deriving DecidableEq, Repr

-- Two nested loops, in the order in which they run.
def indexPairs (n : ℕ) : List (ℕ × ℕ) :=
  (List.range n).flatMap fun i => (List.range n).map fun j => (i,j)

def setEntry (rows : List (List α)) (i j : ℕ) (v : α) : Option (List (List α)) :=
  rows[i]?.bind fun row => if j < row.length then some (rows.set i (row.set j v)) else none

-- Rows that are filled by two nested loops.
def collect (n : ℕ) (entry : ℕ → ℕ → Option α) : Option (List (List α)) :=
  (List.range n).mapM fun i => (List.range n).mapM fun j => entry i j

def Graph.with (data : List (List W)) : Option (Graph W) :=
  match data with
  | [] => none
  | row :: _ => if data.length = row.length then some ⟨data⟩ else none

namespace Graph

def numNodes (g : Graph W) : ℕ := g.data.length

def get (g : Graph W) (i j : ℕ) : Option W := g.data[i]?.bind fun row => row[j]?

def set (g : Graph W) (i j : ℕ) (v : W) : Option (Graph W) := (setEntry g.data i j v).map Graph.mk

end Graph

def Block.with (blockId numBlocksPerDim rowOffset colOffset : ℕ) (data : List (List W)) : Option (Block W) :=
  (Graph.with data).map fun graph =>
    ⟨blockId,numBlocksPerDim,rowOffset,colOffset,data.length,graph⟩

namespace Block

def blockPosition (b : Block W) : ℕ × ℕ := (b.blockId / b.numBlocksPerDim,b.blockId % b.numBlocksPerDim)

def get (b : Block W) (i j : ℕ) : Option W := b.graph.get i j

def set (b : Block W) (i j : ℕ) (v : W) : Option (Block W) :=
  (b.graph.set i j v).map fun graph => {b with graph := graph}

-- The block itself may have changed since its neighbours were looked up.
def elementAt (b : Block W) (row col : ℕ) (neighbours : ℕ → Option (Block W)) : Option W :=
  let destBlockId := row / b.blockSize * b.numBlocksPerDim + col / b.blockSize
  let localRow := row % b.blockSize
  let localCol := col % b.blockSize
  if destBlockId = b.blockId then b.get localRow localCol
  else (neighbours destBlockId).bind fun block => block.get localRow localCol

end Block

namespace Graph

def getBlock (g : Graph W) (blockId blockSize : ℕ) : Option (Block W) :=
  if blockSize = 0 ∨ g.data.length / blockSize = 0 then none
  else
    let numBlocksPerDim := g.data.length / blockSize
    let globalStartRow := blockId / numBlocksPerDim * blockSize
    let globalStartCol := blockId % numBlocksPerDim * blockSize
    (collect blockSize fun i j => g.get (globalStartRow + i) (globalStartCol + j)).bind
      (Block.with blockId numBlocksPerDim globalStartRow globalStartCol)

def breakIntoBlocks (g : Graph W) (blockSize : ℕ) : Option (List (List (Block W))) :=
  if blockSize = 0 ∨ g.data.length % blockSize ≠ 0 then none
  else
    let numBlocksPerDim := g.data.length / blockSize
    collect numBlocksPerDim fun i j => g.getBlock (i * numBlocksPerDim + j) blockSize

def assembleFromBlocks (blocks : List (List (Block W))) : Option (Graph W) :=
  (blocks[0]?).bind fun row =>
    if blocks.length ≠ row.length then none
    else
      (row[0]?).bind fun block =>
        let blockSize := block.blockSize
        let totalSize := blocks.length * blockSize
        (collect totalSize fun i j =>
          (blocks[i / blockSize]?).bind fun row =>
            (row[j / blockSize]?).bind fun block => block.get (i % blockSize) (j % blockSize)).bind
          Graph.with

variable [Add W] [LT W] [DecidableLT W]

-- The body of the loops.
def relax (k : ℕ) (g : Graph W) (p : ℕ × ℕ) : Option (Graph W) := do
  let newValue := (← g.get p.1 k) + (← g.get k p.2)
  let value ← g.get p.1 p.2
  if newValue < value then g.set p.1 p.2 newValue else return g

def computeFloydWarshall (g : Graph W) : Option (Graph W) :=
  (List.range g.data.length).foldlM (fun g k => (indexPairs g.data.length).foldlM (relax k) g) g

end Graph

namespace Block
variable [Add W] [LT W] [DecidableLT W]

def relax (neighbours : ℕ → Option (Block W)) (k : ℕ) (b : Block W) (p : ℕ × ℕ) : Option (Block W) := do
  let globalI := b.rowOffset + p.1
  let globalJ := b.colOffset + p.2
  let newValue := (← b.elementAt globalI k neighbours) + (← b.elementAt k globalJ neighbours)
  let value ← b.get p.1 p.2
  if newValue < value then b.set p.1 p.2 newValue else return b

def computeFloydWarshallInner (b : Block W) (neighbours : ℕ → Option (Block W)) (k : ℕ) :
    Option (Block W) :=
  (indexPairs b.graph.data.length).foldlM (relax neighbours k) b

end Block

section Tables
variable {n i j k : ℕ} {f : ℕ → ℕ → W} {v : W}

def table (n : ℕ) (f : ℕ → ℕ → α) : List (List α) :=
  (List.range n).map fun i => (List.range n).map fun j => f i j

-- A square graph as a table of its entries.
def tabulate (n : ℕ) (f : ℕ → ℕ → W) : Graph W := ⟨table n f⟩

def Square (n : ℕ) (g : Graph W) : Prop := g.data.length = n ∧ ∀ row ∈ g.data, row.length = n

theorem table_congr {f g : ℕ → ℕ → α} (same : ∀ i j, i < n → j < n → f i j = g i j) :
    table n f = table n g := by
  apply List.map_congr_left
  intro i inRows
  apply List.map_congr_left
  intro j inRow
  exact same i j (List.mem_range.mp inRows) (List.mem_range.mp inRow)

theorem table_set {f : ℕ → ℕ → α} {v : α} (rowBound : i < n) (colBound : j < n) :
    setEntry (table n f) i j v = some (table n fun a b => if a = i ∧ b = j then v else f a b) := by
  have row : (table n f)[i]? = some ((List.range n).map fun j => f i j) := by
    simp [table,rowBound]
  rw [setEntry,row,Option.bind_some,if_pos (by simpa using colBound)]
  congr 1
  apply List.ext_getElem (by simp [table])
  intro a inRows _
  have aBound : a < n := by simpa [table] using inRows
  apply List.ext_getElem (by simp [table,List.getElem_set]; split <;> simp)
  intro b inRow _
  by_cases rowHere : i = a
  · by_cases colHere : j = b
    · simp [table,rowHere,colHere]
    · simp [table,rowHere,colHere,Ne.symm colHere]
  · simp [table,rowHere,Ne.symm rowHere]

theorem tabulate_length (n : ℕ) (f : ℕ → ℕ → W) : (tabulate n f).data.length = n := by
  simp [tabulate,table]

theorem tabulate_congr {g : ℕ → ℕ → W} (same : ∀ i j, i < n → j < n → f i j = g i j) :
    tabulate n f = tabulate n g := congrArg Graph.mk (table_congr same)

theorem tabulate_get (rowBound : i < n) (colBound : j < n) : (tabulate n f).get i j = some (f i j) := by
  simp [tabulate,table,Graph.get,rowBound,colBound]

theorem table_inside {f : ℕ → ℕ → α} {v : α} (found : ((table n f)[i]?.bind fun row => row[j]?) = some v) :
    i < n ∧ j < n ∧ f i j = v := by
  obtain ⟨row,rowFound,entry⟩ := Option.bind_eq_some_iff.mp found
  obtain ⟨rowBound,rfl⟩ := List.getElem?_eq_some_iff.mp rowFound
  obtain ⟨colBound,equal⟩ := List.getElem?_eq_some_iff.mp entry
  simp only [table,List.getElem_map,List.getElem_range,List.length_map,List.length_range]
    at rowBound colBound equal
  exact ⟨rowBound,colBound,equal⟩

theorem tabulate_inside (found : (tabulate n f).get i j = some v) : i < n ∧ j < n ∧ f i j = v :=
  table_inside found

theorem tabulate_square (n : ℕ) (f : ℕ → ℕ → W) : Square n (tabulate n f) := by
  refine ⟨tabulate_length n f,?_⟩
  intro row member
  obtain ⟨i,_,rfl⟩ := List.mem_map.mp member
  simp

theorem tabulate_set (rowBound : i < n) (colBound : j < n) :
    (tabulate n f).set i j v = some (tabulate n (write f i j v)) := by
  rw [Graph.set,tabulate,table_set rowBound colBound]
  rfl

theorem tabulate_with (positive : 0 < n) : Graph.with (tabulate n f).data = some (tabulate n f) := by
  obtain ⟨m,rfl⟩ := Nat.exists_eq_add_of_lt positive
  have parts : ∃ row rows, (tabulate (0 + m + 1) f).data = row :: rows ∧ row.length = 0 + m + 1 := by
    refine ⟨_,_,by rw [tabulate,table,List.range_succ_eq_map,List.map_cons],?_⟩
    simp
  obtain ⟨row,rows,whole,size⟩ := parts
  have length := tabulate_length (0 + m + 1) f
  rw [whole] at length
  rw [whole,Graph.with,if_pos (length.trans size.symm),← whole]

theorem square_tabulate [Zero W] {g : Graph W} (square : Square n g) :
    g = tabulate n fun i j => (g.get i j).getD 0 := by
  obtain ⟨data⟩ := g
  obtain ⟨length,widths⟩ := square
  apply congrArg Graph.mk
  apply List.ext_getElem (by simpa [table] using length)
  intro a inRows _
  have width := widths _ (List.getElem_mem inRows)
  apply List.ext_getElem (by simpa [table] using width)
  intro b inRow _
  have inRows : a < data.length := inRows
  simp [table,Graph.get,inRows,inRow]

theorem mapM_run {ask : α → Option β} {answer : α → β} {xs : List α}
    (answers : ∀ x ∈ xs, ask x = some (answer x)) : xs.mapM ask = some (xs.map answer) := by
  induction xs with
  | nil => rfl
  | cons x xs ih =>
    rw [List.forall_mem_cons] at answers
    rw [List.mapM_cons,answers.1,ih answers.2]
    rfl

theorem collect_run {entry : ℕ → ℕ → Option α} (value : ℕ → ℕ → α)
    (found : ∀ i j, i < n → j < n → entry i j = some (value i j)) :
    collect n entry = some (table n value) := by
  apply mapM_run
  intro i inRows
  apply mapM_run
  intro j inRow
  exact found i j (List.mem_range.mp inRows) (List.mem_range.mp inRow)

theorem mapM_table {ask : α → Option β} {f : ℕ → ℕ → α} (answer : ℕ → ℕ → β)
    (answers : ∀ i j, i < n → j < n → ask (f i j) = some (answer i j)) :
    (table n f).mapM (fun row => row.mapM ask) = some (table n answer) := by
  rw [table,List.mapM_map]
  apply mapM_run
  intro i inRows
  show ((List.range n).map fun j => f i j).mapM ask = _
  rw [List.mapM_map]
  apply mapM_run
  intro j inRow
  exact answers i j (List.mem_range.mp inRows) (List.mem_range.mp inRow)

theorem mem_indexPairs {p : ℕ × ℕ} : p ∈ indexPairs n ↔ p.1 < n ∧ p.2 < n := by
  obtain ⟨i,j⟩ := p
  simp [indexPairs]

-- A loop that marks one pair after the other.
theorem loop_run (state : List (ℕ × ℕ) → α) {body : α → ℕ × ℕ → Option α} {pairs : List (ℕ × ℕ)}
    (seen : List (ℕ × ℕ)) (each : ∀ p ∈ pairs, ∀ seen, body (state seen) p = some (state (p :: seen))) :
    pairs.foldlM body (state seen) = some (state (pairs.reverse ++ seen)) := by
  induction pairs generalizing seen with
  | nil => rfl
  | cons p pairs ih =>
    rw [List.forall_mem_cons] at each
    rw [List.foldlM_cons,each.1 seen]
    have rest := ih (p :: seen) each.2
    rw [List.reverse_cons,List.append_assoc]
    exact rest

end Tables

section Whole
variable [LinearOrder W] [AddMonoid W] {n i j k : ℕ} {f g : ℕ → ℕ → W} {v : W}

omit [AddMonoid W] in
theorem tabulate_tighten (rowBound : i < n) (colBound : j < n) :
    (if v < g i j then (tabulate n g).set i j v else some (tabulate n g)) =
      some (tabulate n (tighten g i j v)) := by
  unfold tighten
  split
  · exact tabulate_set rowBound colBound
  · rfl

theorem floydWarshall_phase (distances : Distances f) (bound : k < n) :
    (indexPairs n).foldlM (Graph.relax k) (tabulate n f) = some (tabulate n (shorten k f)) := by
  have each : ∀ p ∈ indexPairs n, ∀ seen, Graph.relax k (tabulate n (blend k f seen)) p =
      some (tabulate n (blend k f (p :: seen))) := by
    intro p member seen
    obtain ⟨rowBound,colBound⟩ := mem_indexPairs.mp member
    unfold Graph.relax
    rw [tabulate_get rowBound bound,tabulate_get bound colBound,tabulate_get rowBound colBound,
      blend_col distances,blend_row distances]
    have tightened := tabulate_tighten (g := blend k f seen) (v := f p.1 k + f k p.2) rowBound colBound
    rw [tighten_blend] at tightened
    exact tightened
  have marked := loop_run (fun seen => tabulate n (blend k f seen)) [] each
  rw [blend_nil,List.append_nil] at marked
  rw [marked]
  congr 1
  apply tabulate_congr
  intro i j rowBound colBound
  exact if_pos (List.mem_reverse.mpr (mem_indexPairs.mpr ⟨rowBound,colBound⟩))

theorem floydWarshall_run [AddLeftMono W] (distances : Distances f) :
    (tabulate n f).computeFloydWarshall = some (tabulate n (through f n)) := by
  unfold Graph.computeFloydWarshall
  rw [tabulate_length]
  -- The first phases, up to any number of them.
  have phases : ∀ m, m ≤ n → (List.range m).foldlM
      (fun g k => (indexPairs g.data.length).foldlM (Graph.relax k) g) (tabulate n f) =
        some (tabulate n (through f m)) := by
    intro m
    induction m with
    | zero =>
      intro _
      rfl
    | succ m ih =>
      intro below
      have phase := floydWarshall_phase (through_distances distances m) (show m < n by omega)
      rw [List.range_succ,List.foldlM_append,ih (by omega),Option.bind_eq_bind,Option.bind_some,
        List.foldlM_cons,tabulate_length,phase]
      rfl
  exact phases n (Nat.le_refl n)

theorem square_parts {g : Graph W} (square : Square n g)
    (nonneg : ∀ i j v, g.get i j = some v → 0 ≤ v) (diagonal : ∀ i v, g.get i i = some v → v = 0) :
    ∃ f, g = tabulate n f ∧ Distances f := by
  refine ⟨_,square_tabulate square,?_,?_⟩
  · intro i j
    cases entry : g.get i j with
    | none => exact le_refl 0
    | some v => exact nonneg i j v entry
  · intro i
    cases entry : g.get i i with
    | none => rfl
    | some v => exact diagonal i v entry

end Whole

section Blocks
variable {nb bs id row col i j k n : ℕ} {f g : ℕ → ℕ → W} {v : W}

def cut (f : ℕ → ℕ → W) (rowOffset colOffset : ℕ) (i j : ℕ) : W := f (rowOffset + i) (colOffset + j)

-- The block with some id of a graph of `nb` times `nb` blocks.
def blockOf (nb bs : ℕ) (f : ℕ → ℕ → W) (id : ℕ) : Block W :=
  ⟨id,nb,id / nb * bs,id % nb * bs,bs,tabulate bs (cut f (id / nb * bs) (id % nb * bs))⟩

-- An index is its place among the parts and its place within the part.
theorem place_part {q r size : ℕ} (inside : r < size) : (q * size + r) / size = q := by
  rw [Nat.mul_comm,Nat.mul_add_div (Nat.zero_lt_of_lt inside),Nat.div_eq_of_lt inside,Nat.add_zero]

theorem place_within {q r size : ℕ} (inside : r < size) : (q * size + r) % size = r := by
  rw [Nat.mul_comm,Nat.mul_add_mod,Nat.mod_eq_of_lt inside]

theorem offset_bound {q r : ℕ} (block : q < nb) (inside : r < bs) : q * bs + r < nb * bs := by
  have : (q + 1) * bs ≤ nb * bs := Nat.mul_le_mul_right bs block
  rw [Nat.add_mul,Nat.one_mul] at this
  omega

theorem getBlock_run (size : 0 < bs) (bound : id < nb * nb) :
    (tabulate (nb * bs) f).getBlock id bs = some (blockOf nb bs f id) := by
  have positive : 0 < nb := Nat.pos_of_mul_pos_right (Nat.zero_lt_of_lt bound)
  have count : nb * bs / bs = nb := Nat.mul_div_cancel nb size
  unfold Graph.getBlock
  rw [tabulate_length,count,if_neg (by omega)]
  dsimp only
  rw [collect_run (cut f (id / nb * bs) (id % nb * bs))]
  · have whole : Graph.with (tabulate bs (cut f (id / nb * bs) (id % nb * bs))).data =
        some (tabulate bs (cut f (id / nb * bs) (id % nb * bs))) := tabulate_with size
    have length : (tabulate bs (cut f (id / nb * bs) (id % nb * bs))).data.length = bs := tabulate_length _ _
    show (Block.with id nb (id / nb * bs) (id % nb * bs)
      (tabulate bs (cut f (id / nb * bs) (id % nb * bs))).data) = _
    rw [Block.with,whole,Option.map_some,length]
    rfl
  · intro i j rowBound colBound
    apply tabulate_get
    · exact offset_bound (Nat.div_lt_of_lt_mul bound) rowBound
    · exact offset_bound (Nat.mod_lt _ positive) colBound

theorem id_bound (rowBlock : i < nb) (colBlock : j < nb) : i * nb + j < nb * nb :=
  offset_bound rowBlock colBlock

theorem breakIntoBlocks_run (size : 0 < bs) : (tabulate (nb * bs) f).breakIntoBlocks bs =
    some (table nb fun i j => blockOf nb bs f (i * nb + j)) := by
  have count : nb * bs / bs = nb := Nat.mul_div_cancel nb size
  have even : nb * bs % bs = 0 := Nat.mul_mod_left nb bs
  unfold Graph.breakIntoBlocks
  rw [tabulate_length,count,if_neg (by omega)]
  apply collect_run
  intro i j rowBlock colBlock
  exact getBlock_run size (id_bound rowBlock colBlock)

-- The block of an entry, and the entry in it.
theorem blockOf_entry (rowBound : row < nb * bs) (colBound : col < nb * bs) :
    (blockOf nb bs f (row / bs * nb + col / bs)).get (row % bs) (col % bs) = some (f row col) := by
  have size : 0 < bs := Nat.pos_of_mul_pos_left (Nat.zero_lt_of_lt rowBound)
  have colBlock : col / bs < nb := Nat.div_lt_of_lt_mul (by rwa [Nat.mul_comm])
  show (tabulate bs (cut f _ _)).get _ _ = _
  rw [tabulate_get (Nat.mod_lt _ size) (Nat.mod_lt _ size),place_part colBlock,
    place_within colBlock,cut,Nat.div_add_mod',Nat.div_add_mod']

theorem assembleFromBlocks_run (size : 0 < bs) (some_ : 0 < nb) :
    Graph.assembleFromBlocks (table nb fun i j => blockOf nb bs f (i * nb + j)) =
      some (tabulate (nb * bs) f) := by
  unfold Graph.assembleFromBlocks
  have row (i : ℕ) (inRows : i < nb) : (table nb fun i j => blockOf nb bs f (i * nb + j))[i]? =
      some ((List.range nb).map fun j => blockOf nb bs f (i * nb + j)) := by
    simp [table,inRows]
  have entry (i j : ℕ) (inRow : j < nb) : ((List.range nb).map fun j => blockOf nb bs f (i * nb + j))[j]? =
      some (blockOf nb bs f (i * nb + j)) := by
    simp [inRow]
  rw [row 0 some_,Option.bind_some,if_neg (by simp [table]),entry 0 0 some_,Option.bind_some]
  have length : (table nb fun i j => blockOf nb bs f (i * nb + j)).length = nb := by simp [table]
  dsimp only
  rw [length]
  show (collect (nb * bs) _).bind _ = _
  rw [collect_run f]
  · exact tabulate_with (Nat.mul_pos some_ size)
  · intro i j rowBound colBound
    have rowBlock : i / bs < nb := Nat.div_lt_of_lt_mul (by rwa [Nat.mul_comm])
    have colBlock : j / bs < nb := Nat.div_lt_of_lt_mul (by rwa [Nat.mul_comm])
    show ((_ : List _)[i / bs]?).bind _ = _
    rw [row (i / bs) rowBlock,Option.bind_some]
    show ((_ : List _)[j / bs]?).bind _ = _
    rw [entry (i / bs) (j / bs) colBlock,Option.bind_some]
    exact blockOf_entry rowBound colBound

theorem cut_write (r c i j : ℕ) : cut (write f (r + i) (c + j) v) r c = write (cut f r c) i j v := by
  funext a b
  simp [cut,write]

variable [LinearOrder W]

theorem cut_tighten (r c i j : ℕ) : cut (tighten f (r + i) (c + j) v) r c = tighten (cut f r c) i j v := by
  unfold tighten
  show cut (if v < cut f r c i j then _ else _) r c = _
  split
  · exact cut_write r c i j
  · rfl

omit [LinearOrder W] in
-- An entry in the block that is being changed is read from there, others are read
-- from the blocks as they were.
theorem elementAt_run {neighbours : ℕ → Option (Block W)} (rowBound : row < nb * bs)
    (colBound : col < nb * bs) (same : g row col = f row col)
    (known : row / bs * nb + col / bs ≠ id → neighbours (row / bs * nb + col / bs) =
      some (blockOf nb bs f (row / bs * nb + col / bs))) :
    (blockOf nb bs g id).elementAt row col neighbours = some (f row col) := by
  show (if row / bs * nb + col / bs = id then (blockOf nb bs g id).get (row % bs) (col % bs) else _) = _
  split
  · rename_i here
    rw [← here,blockOf_entry rowBound colBound,same]
  · rename_i other
    show (neighbours (row / bs * nb + col / bs)).bind (fun block => block.get (row % bs) (col % bs)) = _
    rw [known other,Option.bind_some]
    exact blockOf_entry rowBound colBound

variable [AddMonoid W]

theorem block_relax {neighbours : ℕ → Option (Block W)} {p : ℕ × ℕ} (distances : Distances f)
    (bound : id < nb * nb) (phase : k < nb * bs) (rowBound : p.1 < bs) (colBound : p.2 < bs)
    (rowKnown : id / nb * nb + k / bs ≠ id → neighbours (id / nb * nb + k / bs) =
      some (blockOf nb bs f (id / nb * nb + k / bs)))
    (colKnown : k / bs * nb + id % nb ≠ id → neighbours (k / bs * nb + id % nb) =
      some (blockOf nb bs f (k / bs * nb + id % nb)))
    (seen : List (ℕ × ℕ)) :
    Block.relax neighbours k (blockOf nb bs (blend k f seen) id) p = some (blockOf nb bs
      (blend k f ((id / nb * bs + p.1,id % nb * bs + p.2) :: seen)) id) := by
  have positive : 0 < nb := Nat.pos_of_mul_pos_right (Nat.zero_lt_of_lt bound)
  have size : 0 < bs := Nat.zero_lt_of_lt rowBound
  have globalI := offset_bound (Nat.div_lt_of_lt_mul bound) rowBound
  have globalJ := offset_bound (Nat.mod_lt id positive) colBound
  have dist1 : (blockOf nb bs (blend k f seen) id).elementAt (id / nb * bs + p.1) k neighbours =
      some (f (id / nb * bs + p.1) k) :=
    elementAt_run globalI phase (blend_col distances k _ seen) (by rwa [place_part rowBound])
  have dist2 : (blockOf nb bs (blend k f seen) id).elementAt k (id % nb * bs + p.2) neighbours =
      some (f k (id % nb * bs + p.2)) :=
    elementAt_run phase globalJ (blend_row distances k _ seen) (by rwa [place_part colBound])
  have value : (blockOf nb bs (blend k f seen) id).get p.1 p.2 =
      some (cut (blend k f seen) (id / nb * bs) (id % nb * bs) p.1 p.2) := tabulate_get rowBound colBound
  have tightened := tabulate_tighten (g := cut (blend k f seen) (id / nb * bs) (id % nb * bs))
    (v := f (id / nb * bs + p.1) k + f k (id % nb * bs + p.2)) rowBound colBound
  rw [← cut_tighten,tighten_blend] at tightened
  unfold Block.relax
  dsimp only [blockOf] at dist1 dist2 value ⊢
  rw [dist1,dist2,value]
  show (if _ then Option.map _ (Graph.set _ _ _ _) else _) = _
  split at tightened
  · rename_i shorter
    rw [if_pos shorter,tightened]
    rfl
  · rename_i longer
    rw [if_neg longer,← Option.some.inj tightened]
    rfl

-- One phase of a block: all its paths through `k` at once.
theorem block_phase {neighbours : ℕ → Option (Block W)} (distances : Distances f)
    (bound : id < nb * nb) (phase : k < nb * bs)
    (rowKnown : id / nb * nb + k / bs ≠ id → neighbours (id / nb * nb + k / bs) =
      some (blockOf nb bs f (id / nb * nb + k / bs)))
    (colKnown : k / bs * nb + id % nb ≠ id → neighbours (k / bs * nb + id % nb) =
      some (blockOf nb bs f (k / bs * nb + id % nb))) :
    (blockOf nb bs f id).computeFloydWarshallInner neighbours k =
      some (blockOf nb bs (shorten k f) id) := by
  have each : ∀ p ∈ indexPairs bs, ∀ seen : List (ℕ × ℕ),
      Block.relax neighbours k (blockOf nb bs (blend k f
        (seen.map fun p => (id / nb * bs + p.1,id % nb * bs + p.2))) id) p =
      some (blockOf nb bs (blend k f
        ((p :: seen).map fun p => (id / nb * bs + p.1,id % nb * bs + p.2))) id) := by
    intro p member seen
    obtain ⟨rowBound,colBound⟩ := mem_indexPairs.mp member
    exact block_relax distances bound phase rowBound colBound rowKnown colKnown _
  have marked := loop_run (fun seen => blockOf nb bs (blend k f
    (seen.map fun p => (id / nb * bs + p.1,id % nb * bs + p.2))) id) [] each
  have count : (blockOf nb bs f id).graph.data.length = bs := tabulate_length _ _
  rw [List.map_nil,blend_nil,List.append_nil] at marked
  rw [Block.computeFloydWarshallInner,count,marked]
  unfold blockOf
  congr 2
  apply tabulate_congr
  intro i j rowBound colBound
  apply if_pos
  exact List.mem_map.mpr ⟨(i,j),List.mem_reverse.mpr (mem_indexPairs.mpr ⟨rowBound,colBound⟩),rfl⟩

end Blocks

end KompicsBenches.Graphs
