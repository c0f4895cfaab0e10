import KompicsBenches.Graphs

namespace KompicsBenches.ApspActors
open Graphs

inductive Phase where
  | initial
  | normal (k : ℕ)
  deriving DecidableEq, Repr

namespace Phase

-- Not implemented for the initial phase.
def k : Phase → Option ℕ
  | initial => none
  | normal k => some k

def inc : Phase → Phase
  | initial => normal 0
  | normal k => normal (k + 1)

def incremented : Phase → Phase
  | initial => normal 0
  | normal k => normal (k + 1)

end Phase

-- A reference to a block actor is the id of its block.
inductive BlockMsg (W : Type*) where
  | neighbours (nodes : List ℕ)
  | phaseResult (k : Phase) (data : Block W)
  deriving Repr

inductive ManagerMsg (W : Type*) where
  | computeFW (graph : Graph W)
  | blockResult (block : Block W)
  deriving Repr

inductive Letter (W : Type*) where
  | toBlock (id : ℕ) (msg : BlockMsg W)
  | toManager (msg : ManagerMsg W)
  deriving Repr

abbrev BlockMap (W : Type*) := AList fun _ : ℕ => Block W

structure BlockActor (W : Type*) where
  numNodes : ℕ
  ready : Bool
  neighbours : List ℕ
  k : Phase
  neighbourData : BlockMap W
  nextNeighbourData : BlockMap W
  currentData : Block W
  done : Bool

variable {W : Type*}

def BlockActor.with (initialBlock : Block W) (numNodes : ℕ) : BlockActor W where
  numNodes := numNodes
  ready := false
  neighbours := []
  k := .initial
  neighbourData := ∅
  nextNeighbourData := ∅
  currentData := initialBlock
  done := false

namespace BlockActor

def notifyNeighbours (b : BlockActor W) : Option (List (Letter W)) :=
  if b.ready then
    some (b.neighbours.map fun neighbour => .toBlock neighbour (.phaseResult b.k b.currentData))
  else none

variable [Add W] [LT W] [DecidableLT W]

-- The data that was sent to others does not change with the block, whether or not it
-- is still in use.
def performComputation (b : BlockActor W) : Option (BlockActor W) :=
  b.k.k.bind fun k =>
    (b.currentData.computeFloydWarshallInner b.neighbourData.lookup k).map fun currentData =>
      {b with neighbourData := ∅, currentData := currentData}

-- One turn of the loop, up to the check for the last phase.
def turn (b : BlockActor W) : Option (BlockActor W × List (Letter W)) :=
  (performComputation {b with k := b.k.inc}).bind fun b =>
    b.notifyNeighbours.map fun sent =>
      ({b with neighbourData := b.nextNeighbourData, nextNeighbourData := b.neighbourData},sent)

-- The loop that goes on as long as the data of all neighbours is there. The number
-- of nodes bounds its turns.
def advance : ℕ → BlockActor W → Option (BlockActor W × List (Letter W))
  | 0,_ => none
  | fuel + 1,b =>
    if b.neighbourData.keys.length = b.neighbours.length then
      b.turn.bind fun result =>
        if result.1.k = .normal (result.1.numNodes - 1) then
          some ({result.1 with done := true},
            result.2 ++ [.toManager (.blockResult result.1.currentData)])
        else (advance fuel result.1).map fun rest => (rest.1,result.2 ++ rest.2)
    else some (b,[])

-- A result that comes before the neighbours is put back into the queue. Any other
-- phase than the own and the next one is not implemented.
def receiveLocal (b : BlockActor W) (self : ℕ) : BlockMsg W → Option (BlockActor W × List (Letter W))
  | .neighbours nodes =>
    let b := {b with neighbours := nodes, ready := true}
    b.notifyNeighbours.map (b,·)
  | .phaseResult otherK data =>
    if ¬b.ready then some (b,[.toBlock self (.phaseResult otherK data)])
    else if b.done then some (b,[])
    else if otherK = b.k then
      advance (b.numNodes + 1) {b with neighbourData := b.neighbourData.insert data.blockId data}
    else if otherK = b.k.incremented then
      some ({b with nextNeighbourData := b.nextNeighbourData.insert data.blockId data},[])
    else none

end BlockActor

structure ManagerActor (W : Type*) where
  blockSize : ℕ
  blockWorkers : List ℕ
  latch : Bool
  assembly : Option (List (List (Block W)))
  missingBlocks : Option ℕ

def ManagerActor.with (blockSize : ℕ) : ManagerActor W := ⟨blockSize,[],false,none,none⟩

-- The blocks in the same row or column of blocks.
def neighboursOf (numBlocks bi bj : ℕ) : List ℕ :=
  ((List.range numBlocks).filter (· ≠ bi)).map (fun r => r * numBlocks + bj) ++
    ((List.range numBlocks).filter (· ≠ bj)).map fun c => bi * numBlocks + c

-- `reports` lists the blocks whose result the manager has handled, and `results` the
-- graphs it has put together.
structure System (W : Type*) where
  manager : ManagerActor W
  actors : List (BlockActor W)
  net : List (Letter W)
  reports : List ℕ
  results : List (Graph W)

def System.initial (blockSize : ℕ) (graph : Graph W) : System W where
  manager := .with blockSize
  actors := []
  net := [.toManager (.computeFW graph)]
  reports := []
  results := []

namespace System
variable (s : System W)

def distributeGraph (graph : Graph W) : Option (System W) :=
  (graph.breakIntoBlocks s.manager.blockSize).map fun blocks =>
    let actors := blocks.flatten.map fun block => BlockActor.with block graph.numNodes
    {s with
      actors := actors
      net := s.net ++ (indexPairs blocks.length).map fun p =>
        .toBlock (p.1 * blocks.length + p.2) (.neighbours (neighboursOf blocks.length p.1 p.2))
      manager := {s.manager with
        blockWorkers := List.range actors.length
        missingBlocks := some actors.length
        assembly := some blocks}}

def computeFW (graph : Graph W) : Option (System W) :=
  (s.distributeGraph graph).map fun s => {s with manager := {s.manager with latch := true}}

-- The last block that was missing: the graph is put together and the latch opened.
def finish (blocks : List (List (Block W))) : Option (System W) :=
  (Graph.assembleFromBlocks blocks).bind fun result =>
    if s.manager.latch then
      some {s with
        results := s.results ++ [result]
        manager := {s.manager with
          latch := false, blockWorkers := [], missingBlocks := none, assembly := none}}
    else none

def blockResult (block : Block W) : Option (System W) :=
  match s.manager.missingBlocks,s.manager.assembly with
  | some missingBlocks,some blocks =>
    (setEntry blocks block.blockPosition.1 block.blockPosition.2 block).bind fun blocks =>
      let s := {s with reports := s.reports ++ [block.blockId]}
      match missingBlocks with
      | 0 => none
      | 1 => s.finish blocks
      | missing + 2 => some {s with manager := {s.manager with
          missingBlocks := some (missing + 1), assembly := some blocks}}
  | _,_ => none

def put (id : ℕ) (result : BlockActor W × List (Letter W)) : System W :=
  {s with actors := s.actors.set id result.1, net := s.net ++ result.2}

variable [Add W] [LT W] [DecidableLT W]

def receive : Letter W → Option (System W)
  | .toManager (.computeFW graph) => s.computeFW graph
  | .toManager (.blockResult block) => s.blockResult block
  | .toBlock id msg => (s.actors[id]?).bind fun b => (b.receiveLocal id msg).map (s.put id)

-- Any message on its way may be the next to arrive, each arrives once. `none` is a
-- panic.
def step (i : ℕ) : Option (System W) :=
  (s.net[i]?).bind fun letter => receive {s with net := s.net.eraseIdx i} letter

end System

inductive Reached [Add W] [LT W] [DecidableLT W] (blockSize : ℕ) (graph : Graph W) : System W → Prop where
  | start : Reached blockSize graph (.initial blockSize graph)
  | step {s next : System W} {i : ℕ} (run : Reached blockSize graph s) (done : s.step i = some next) :
      Reached blockSize graph next

end KompicsBenches.ApspActors
