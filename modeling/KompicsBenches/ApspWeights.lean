import KompicsBenches.ApspActors

namespace KompicsBenches.ApspWeights
open Graphs ApspActors
variable {W V : Type*} {i j n : ℕ}

-- The actors without the weights of the graph. What they do, and whether they panic,
-- is the same whatever the weights are.
section Tables
variable (φ : W → V)

theorem setEntry_map (rows : List (List W)) (v : W) :
    setEntry (rows.map (List.map φ)) i j (φ v) = (setEntry rows i j v).map (List.map (List.map φ)) := by
  unfold setEntry
  rw [List.getElem?_map]
  cases rows[i]? with
  | none => rfl
  | some row =>
    simp only [Option.map_some,Option.bind_some,List.length_map]
    split
    · rw [Option.map_some,List.map_set,List.map_set]
    · rfl

-- A step of a computation that may panic.
theorem bind_map {β γ δ : Type*} {ψ : α → β} {χ : γ → δ} {other : β → Option δ} {rest : α → Option γ}
    (each : ∀ a, other (ψ a) = (rest a).map χ) (x : Option α) :
    (x.map ψ).bind other = (x.bind rest).map χ := by
  cases x with
  | none => rfl
  | some a => exact each a

theorem mapM_map (ask : α → Option W) (xs : List α) :
    xs.mapM (fun x => (ask x).map φ) = (xs.mapM ask).map (List.map φ) := by
  induction xs with
  | nil => rfl
  | cons x xs ih =>
    rw [List.mapM_cons,List.mapM_cons,ih]
    cases ask x with
    | none => rfl
    | some v =>
      cases xs.mapM ask with
      | none => rfl
      | some vs => rfl

theorem collect_map (entry : ℕ → ℕ → Option W) :
    collect n (fun i j => (entry i j).map φ) = (collect n entry).map (List.map (List.map φ)) := by
  unfold collect
  rw [← mapM_map]
  congr 1
  funext i
  exact mapM_map φ (entry i) (List.range n)

-- A loop that does the same to what is left of its state.
theorem loop_map {β γ : Type*} {ψ : α → β} {body : α → γ → Option α} {other : β → γ → Option β}
    (each : ∀ a x, (body a x).map ψ = other (ψ a) x) (xs : List γ) (a : α) :
    (xs.foldlM body a).map ψ = xs.foldlM other (ψ a) := by
  induction xs generalizing a with
  | nil => rfl
  | cons x xs ih =>
    rw [List.foldlM_cons,List.foldlM_cons,← each a x]
    cases body a x with
    | none => rfl
    | some next => exact ih next

end Tables

section Blocks
variable (φ : W → V)

def mapGraph (g : Graph W) : Graph V := ⟨g.data.map (List.map φ)⟩

def mapBlock (b : Block W) : Block V :=
  ⟨b.blockId,b.numBlocksPerDim,b.rowOffset,b.colOffset,b.blockSize,mapGraph φ b.graph⟩

theorem mapGraph_length (g : Graph W) : (mapGraph φ g).data.length = g.data.length := List.length_map _

theorem get_map (g : Graph W) : (mapGraph φ g).get i j = (g.get i j).map φ := by
  unfold Graph.get mapGraph
  rw [List.getElem?_map]
  cases g.data[i]? with
  | none => rfl
  | some row => exact List.getElem?_map

theorem with_map (data : List (List W)) :
    Graph.with (data.map (List.map φ)) = (Graph.with data).map (mapGraph φ) := by
  cases data with
  | nil => rfl
  | cons row rows =>
    unfold Graph.with
    simp only [List.map_cons,List.length_cons,List.length_map]
    split
    · rfl
    · rfl

theorem blockWith_map (blockId num row col : ℕ) (data : List (List W)) :
    Block.with blockId num row col (data.map (List.map φ)) =
      (Block.with blockId num row col data).map (mapBlock φ) := by
  unfold Block.with
  rw [with_map,List.length_map]
  cases Graph.with data with
  | none => rfl
  | some g => rfl

theorem getBlock_map (g : Graph W) (blockId blockSize : ℕ) :
    (mapGraph φ g).getBlock blockId blockSize = (g.getBlock blockId blockSize).map (mapBlock φ) := by
  unfold Graph.getBlock
  rw [mapGraph_length]
  split
  · rfl
  · dsimp only
    simp only [get_map,collect_map]
    exact bind_map (blockWith_map φ _ _ _ _) _

theorem breakIntoBlocks_map (g : Graph W) (blockSize : ℕ) :
    (mapGraph φ g).breakIntoBlocks blockSize =
      (g.breakIntoBlocks blockSize).map (List.map (List.map (mapBlock φ))) := by
  unfold Graph.breakIntoBlocks
  rw [mapGraph_length]
  split
  · rfl
  · simp only [getBlock_map,collect_map]

theorem assembleFromBlocks_map (blocks : List (List (Block W))) :
    Graph.assembleFromBlocks (blocks.map (List.map (mapBlock φ))) =
      (Graph.assembleFromBlocks blocks).map (mapGraph φ) := by
  unfold Graph.assembleFromBlocks
  rw [List.getElem?_map]
  apply bind_map
  intro row
  simp only [List.length_map,List.getElem?_map]
  split
  · rfl
  · apply bind_map
    intro block
    have entry (i j : ℕ) : (((blocks[i / block.blockSize]?).map (List.map (mapBlock φ))).bind fun row =>
        ((row[j / block.blockSize]?).bind fun other =>
          other.get (i % block.blockSize) (j % block.blockSize))) =
        ((blocks[i / block.blockSize]?).bind fun row => (row[j / block.blockSize]?).bind fun other =>
          other.get (i % block.blockSize) (j % block.blockSize)).map φ := by
      apply bind_map
      intro row
      rw [List.getElem?_map]
      apply bind_map
      intro other
      exact get_map φ other.graph
    show Option.bind (collect (blocks.length * block.blockSize) fun i j =>
      ((blocks[i / block.blockSize]?).map (List.map (mapBlock φ))).bind fun row =>
        ((row[j / block.blockSize]?).bind fun other =>
          other.get (i % block.blockSize) (j % block.blockSize))) Graph.with = _
    simp only [entry,collect_map]
    exact bind_map (with_map φ) _

theorem elementAt_map (b : Block W) (row col : ℕ) (neighbours : ℕ → Option (Block W)) :
    (mapBlock φ b).elementAt row col (fun id => (neighbours id).map (mapBlock φ)) =
      (b.elementAt row col neighbours).map φ := by
  show (if row / b.blockSize * b.numBlocksPerDim + col / b.blockSize = b.blockId then
    (mapGraph φ b.graph).get (row % b.blockSize) (col % b.blockSize) else
    ((neighbours (row / b.blockSize * b.numBlocksPerDim + col / b.blockSize)).map (mapBlock φ)).bind
      fun block => block.get (row % b.blockSize) (col % b.blockSize)) = _
  unfold Block.elementAt
  dsimp only
  split
  · exact get_map φ b.graph
  · apply bind_map
    intro block
    exact get_map φ block.graph

end Blocks

section Bare

def bare (b : Block W) : Block Unit := mapBlock (fun _ => ()) b

-- Without its weights an entry that is changed is the same as before.
theorem set_bare {b : Block W} {v : W} (found : b.get i j = some v) (w : W) :
    (b.set i j w).map bare = some (bare b) := by
  have entry : (b.graph.data[i]?).bind (fun row => row[j]?) = some v := found
  obtain ⟨row,rowFound,inRow⟩ := Option.bind_eq_some_iff.mp entry
  obtain ⟨inside,_⟩ := List.getElem?_eq_some_iff.mp inRow
  obtain ⟨bound,here⟩ := List.getElem?_eq_some_iff.mp rowFound
  have same : (b.graph.data.set i (row.set j w)).map (List.map fun _ => ()) =
      b.graph.data.map (List.map fun _ => ()) := by
    apply List.ext_getElem (by simp)
    intro place _ _
    by_cases changed : i = place
    · subst changed
      simp [here]
    · simp [changed]
  have entered : setEntry b.graph.data i j w = some (b.graph.data.set i (row.set j w)) := by
    rw [setEntry,rowFound,Option.bind_some,if_pos inside]
  rw [Block.set,Graph.set,entered]
  show some (bare {b with graph := ⟨b.graph.data.set i (row.set j w)⟩}) = _
  unfold bare mapBlock mapGraph
  dsimp only
  rw [same]

variable [Add W] [LT W] [DecidableLT W]

theorem relax_bare (neighbours : ℕ → Option (Block W)) (k : ℕ) (b : Block W) (p : ℕ × ℕ) :
    (Block.relax neighbours k b p).map bare =
      Block.relax (fun id => (neighbours id).map bare) k (bare b) p := by
  have row : (bare b).elementAt (b.rowOffset + p.1) k (fun id => (neighbours id).map bare) =
      (b.elementAt (b.rowOffset + p.1) k neighbours).map fun _ => () := elementAt_map _ b _ _ _
  have column : (bare b).elementAt k (b.colOffset + p.2) (fun id => (neighbours id).map bare) =
      (b.elementAt k (b.colOffset + p.2) neighbours).map fun _ => () := elementAt_map _ b _ _ _
  have value : (bare b).get p.1 p.2 = (b.get p.1 p.2).map fun _ => () := get_map _ b.graph
  unfold Block.relax
  show Option.map bare (Option.bind (b.elementAt (b.rowOffset + p.1) k neighbours) fun x =>
      Option.bind (b.elementAt k (b.colOffset + p.2) neighbours) fun y =>
        Option.bind (b.get p.1 p.2) fun value =>
          if x + y < value then b.set p.1 p.2 (x + y) else some b) =
    Option.bind ((bare b).elementAt (b.rowOffset + p.1) k fun id => (neighbours id).map bare) fun x =>
      Option.bind ((bare b).elementAt k (b.colOffset + p.2) fun id => (neighbours id).map bare) fun y =>
        Option.bind ((bare b).get p.1 p.2) fun value =>
          if x + y < value then (bare b).set p.1 p.2 (x + y) else some (bare b)
  rw [row,column,value]
  symm
  apply bind_map
  intro x
  apply bind_map
  intro y
  cases found : b.get p.1 p.2 with
  | none => rfl
  | some value =>
    show (if (() : Unit) + () < () then (bare b).set p.1 p.2 (() + ()) else some (bare b)) =
      Option.map bare (if x + y < value then b.set p.1 p.2 (x + y) else some b)
    rw [if_neg (lt_irrefl _)]
    split
    · exact (set_bare found (x + y)).symm
    · rfl

theorem inner_bare (neighbours : ℕ → Option (Block W)) (k : ℕ) (b : Block W) :
    (b.computeFloydWarshallInner neighbours k).map bare =
      (bare b).computeFloydWarshallInner (fun id => (neighbours id).map bare) k := by
  have count : (bare b).graph.data.length = b.graph.data.length := mapGraph_length _ b.graph
  unfold Block.computeFloydWarshallInner
  rw [count]
  exact loop_map (relax_bare neighbours k) _ b

end Bare

section Maps

def bareMap (data : BlockMap W) : BlockMap Unit :=
  ⟨data.entries.map fun x => ⟨x.1,bare x.2⟩,data.nodupKeys.map₂ (fun _ => bare) data.entries⟩

theorem bareMap_length (data : BlockMap W) : (bareMap data).keys.length = data.keys.length := by
  simp [bareMap,AList.keys,List.keys]

theorem bareMap_lookup (data : BlockMap W) (id : ℕ) :
    (bareMap data).lookup id = (data.lookup id).map bare :=
  List.dlookup_map₂ (γ := fun _ => Block W) (δ := fun _ => Block Unit) (f := fun _ => bare) id

theorem bareMap_insert (data : BlockMap W) (id : ℕ) (block : Block W) :
    bareMap (data.insert id block) = (bareMap data).insert id (bare block) := by
  apply AList.ext
  have erased : (data.entries.map fun x => (⟨x.1,bare x.2⟩ : Σ _ : ℕ, Block Unit)).kerase id =
      (data.entries.kerase id).map fun x => ⟨x.1,bare x.2⟩ := List.eraseP_map
  exact congrArg (List.cons (⟨id,bare block⟩ : Σ _ : ℕ, Block Unit)) erased.symm

end Maps

section Actors

def bareActor (b : BlockActor W) : BlockActor Unit where
  numNodes := b.numNodes
  ready := b.ready
  neighbours := b.neighbours
  k := b.k
  neighbourData := bareMap b.neighbourData
  nextNeighbourData := bareMap b.nextNeighbourData
  currentData := bare b.currentData
  done := b.done

def bareMsg : BlockMsg W → BlockMsg Unit
  | .neighbours nodes => .neighbours nodes
  | .phaseResult k data => .phaseResult k (bare data)

def bareLetter : Letter W → Letter Unit
  | .toBlock id msg => .toBlock id (bareMsg msg)
  | .toManager (.computeFW graph) => .toManager (.computeFW (mapGraph (fun _ => ()) graph))
  | .toManager (.blockResult block) => .toManager (.blockResult (bare block))

def bareResult (result : BlockActor W × List (Letter W)) : BlockActor Unit × List (Letter Unit) :=
  (bareActor result.1,result.2.map bareLetter)

theorem notify_bare (b : BlockActor W) :
    (bareActor b).notifyNeighbours = b.notifyNeighbours.map (List.map bareLetter) := by
  show (if b.ready then some _ else none) = _
  unfold BlockActor.notifyNeighbours
  split
  · rw [Option.map_some,List.map_map]
    rfl
  · rfl

variable [Add W] [LT W] [DecidableLT W]

theorem performComputation_bare (b : BlockActor W) :
    (bareActor b).performComputation = b.performComputation.map bareActor := by
  show b.k.k.bind _ = _
  unfold BlockActor.performComputation
  cases b.k.k with
  | none => rfl
  | some k =>
    have known : (bareMap b.neighbourData).lookup = fun id => (b.neighbourData.lookup id).map bare :=
      funext (bareMap_lookup b.neighbourData)
    show Option.map _ ((bare b.currentData).computeFloydWarshallInner (bareMap b.neighbourData).lookup k) =
      Option.map bareActor (Option.map _ _)
    rw [known,← inner_bare,Option.map_map,Option.map_map]
    rfl

theorem turn_bare (b : BlockActor W) : (bareActor b).turn = b.turn.map bareResult := by
  have performed := performComputation_bare {b with k := b.k.inc}
  unfold BlockActor.turn
  show Option.bind (BlockActor.performComputation (bareActor {b with k := b.k.inc})) _ = _
  rw [performed]
  apply bind_map
  intro b
  rw [notify_bare,Option.map_map,Option.map_map]
  rfl

theorem advance_bare (fuel : ℕ) (b : BlockActor W) :
    (bareActor b).advance fuel = (b.advance fuel).map bareResult := by
  induction fuel generalizing b with
  | zero => rfl
  | succ fuel ih =>
    unfold BlockActor.advance
    show (if (bareMap b.neighbourData).keys.length = b.neighbours.length then _ else _) = _
    rw [bareMap_length]
    split
    · rw [turn_bare]
      apply bind_map
      intro result
      show (if result.1.k = .normal (result.1.numNodes - 1) then _ else _) = _
      split
      · rw [Option.map_some]
        simp only [bareResult,List.map_append,List.map_cons,List.map_nil]
        rfl
      · show Option.map _ (BlockActor.advance fuel (bareActor result.1)) = _
        rw [ih,Option.map_map,Option.map_map]
        congr 1
        funext rest
        simp only [bareResult,Function.comp_apply,List.map_append]
    · rfl

theorem receiveLocal_bare (b : BlockActor W) (self : ℕ) (msg : BlockMsg W) :
    (bareActor b).receiveLocal self (bareMsg msg) = (b.receiveLocal self msg).map bareResult := by
  cases msg with
  | neighbours nodes =>
    show Option.map (bareActor {b with neighbours := nodes, ready := true},·)
        (BlockActor.notifyNeighbours (bareActor {b with neighbours := nodes, ready := true})) =
      Option.map bareResult (Option.map ({b with neighbours := nodes, ready := true},·)
        (BlockActor.notifyNeighbours {b with neighbours := nodes, ready := true}))
    rw [notify_bare,Option.map_map,Option.map_map]
    rfl
  | phaseResult k data =>
    show (if ¬b.ready then some _ else if b.done then some _ else if k = b.k then _ else
      if k = b.k.incremented then some _ else none) = Option.map bareResult (if ¬b.ready then some _ else
        if b.done then some _ else if k = b.k then _ else if k = b.k.incremented then some _ else none)
    split
    · rfl
    · split
      · rfl
      · split
        · have inserted := bareMap_insert b.neighbourData data.blockId data
          have advanced := advance_bare (b.numNodes + 1)
            {b with neighbourData := b.neighbourData.insert data.blockId data}
          rw [← advanced]
          unfold bareActor
          dsimp only
          rw [inserted]
          rfl
        · split
          · have inserted := bareMap_insert b.nextNeighbourData data.blockId data
            simp only [Option.map_some,bareResult,bareActor,inserted]
            rfl
          · rfl

end Actors

section Systems

def bareSystem (s : System W) : System Unit where
  manager :=
    { blockSize := s.manager.blockSize
      blockWorkers := s.manager.blockWorkers
      latch := s.manager.latch
      assembly := s.manager.assembly.map (List.map (List.map bare))
      missingBlocks := s.manager.missingBlocks }
  actors := s.actors.map bareActor
  net := s.net.map bareLetter
  reports := s.reports
  results := s.results.map (mapGraph fun _ => ())

theorem distributeGraph_bare (s : System W) (graph : Graph W) :
    (bareSystem s).distributeGraph (mapGraph (fun _ => ()) graph) =
      (s.distributeGraph graph).map bareSystem := by
  unfold System.distributeGraph
  show Option.map _ ((mapGraph (fun _ => ()) graph).breakIntoBlocks s.manager.blockSize) = _
  rw [breakIntoBlocks_map,Option.map_map,Option.map_map]
  congr 1
  funext blocks
  have nodes : (mapGraph (fun _ => ()) graph).numNodes = graph.numNodes := mapGraph_length _ graph
  simp only [Function.comp_apply,nodes]
  unfold bareSystem
  simp only [List.length_map,List.map_append,List.map_map,Option.map_some,← List.map_flatten]
  rfl

theorem finish_bare (s : System W) (blocks : List (List (Block W))) :
    (bareSystem s).finish (blocks.map (List.map bare)) = (s.finish blocks).map bareSystem := by
  unfold System.finish
  rw [show blocks.map (List.map bare) = blocks.map (List.map (mapBlock fun _ => ())) from rfl,
    assembleFromBlocks_map]
  apply bind_map
  intro result
  show (if s.manager.latch then some _ else none) = _
  split
  · unfold bareSystem
    simp only [Option.map_some,List.map_append,List.map_cons,List.map_nil]
    rfl
  · rfl

theorem blockResult_bare (s : System W) (block : Block W) :
    (bareSystem s).blockResult (bare block) = (s.blockResult block).map bareSystem := by
  unfold System.blockResult
  cases missing : s.manager.missingBlocks with
  | none =>
    have none : (bareSystem s).manager.missingBlocks = Option.none := missing
    rw [none]
    rfl
  | some count =>
    have counted : (bareSystem s).manager.missingBlocks = some count := missing
    rw [counted]
    cases assembly : s.manager.assembly with
    | none =>
      have none : (bareSystem s).manager.assembly = Option.none := by
        show Option.map _ s.manager.assembly = _
        rw [assembly]
        rfl
      rw [none]
      rfl
    | some blocks =>
      have kept : (bareSystem s).manager.assembly = some (blocks.map (List.map bare)) := by
        show Option.map _ s.manager.assembly = _
        rw [assembly]
        rfl
      rw [kept]
      show (setEntry (blocks.map (List.map bare)) block.blockPosition.1 block.blockPosition.2 (bare block)).bind
        _ = _
      rw [setEntry_map]
      apply bind_map
      intro blocks
      cases count with
      | zero => rfl
      | succ count =>
        cases count with
        | zero => exact finish_bare {s with reports := s.reports ++ [block.blockId]} blocks
        | succ count => rfl

variable [Add W] [LT W] [DecidableLT W]

theorem receive_bare (s : System W) (letter : Letter W) :
    (bareSystem s).receive (bareLetter letter) = (s.receive letter).map bareSystem := by
  cases letter with
  | toBlock id msg =>
    show ((s.actors.map bareActor)[id]?).bind _ = _
    rw [List.getElem?_map]
    unfold System.receive
    apply bind_map
    intro b
    rw [receiveLocal_bare,Option.map_map,Option.map_map]
    congr 1
    funext result
    unfold System.put bareSystem bareResult
    simp only [Function.comp_apply,List.map_set,List.map_append]
  | toManager msg =>
    cases msg with
    | computeFW graph =>
      show Option.map _ ((bareSystem s).distributeGraph (mapGraph (fun _ => ()) graph)) =
        Option.map bareSystem (Option.map _ _)
      rw [distributeGraph_bare,Option.map_map,Option.map_map]
      rfl
    | blockResult block => exact blockResult_bare s block

-- Step by step the system does the same without the weights, and panics in the same
-- places.
theorem step_bare (s : System W) (i : ℕ) : (bareSystem s).step i = (s.step i).map bareSystem := by
  unfold System.step
  show ((s.net.map bareLetter)[i]?).bind _ = _
  rw [List.getElem?_map]
  apply bind_map
  intro letter
  rw [← receive_bare]
  congr 1
  unfold bareSystem
  simp only [List.eraseIdx_map]

theorem reached_bare {blockSize : ℕ} {graph : Graph W} {s : System W} (run : Reached blockSize graph s) :
    Reached blockSize (mapGraph (fun _ => ()) graph) (bareSystem s) := by
  induction run with
  | start => exact .start
  | @step s next i _ done ih =>
    apply ih.step (i := i)
    rw [step_bare,done]
    rfl

end Systems

end KompicsBenches.ApspWeights
