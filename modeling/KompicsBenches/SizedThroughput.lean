import KompicsBenches.GuardedRuns

namespace KompicsBenches.SizedThroughput

open GuardedRuns

structure Params where
  batchSize : ℕ
  numberOfBatches : ℕ

-- A latch is the number of the run that it was made for.
inductive SourceMsg where
  | run (latch : Option ℕ)
  | ack
  deriving DecidableEq, Repr

structure SizedThroughputSource where
  latch : Option ℕ
  sentBatches : ℕ
  ackedBatches : ℕ
  deriving DecidableEq, Repr

structure SizedThroughputSink where
  received : ℕ
  deriving DecidableEq, Repr

section Components
variable (p : Params)

-- The messages of a batch are all the same. In the model they have its number,
-- which nothing reads.
def SizedThroughputSource.send (source : SizedThroughputSource) : SizedThroughputSource × List ℕ :=
  ({ source with sentBatches := source.sentBatches + 1 },List.replicate p.batchSize source.sentBatches)

-- What is sent, and the latch that is decremented. `none` stands for a panic.
def SizedThroughputSource.receive (source : SizedThroughputSource) :
    SourceMsg → Option (SizedThroughputSource × List ℕ × Option ℕ)
  | .ack =>
    let source := { source with ackedBatches := source.ackedBatches + 1 }
    if source.sentBatches < p.numberOfBatches then
      let (source,batch) := source.send p
      some (source,batch,none)
    else if source.ackedBatches = p.numberOfBatches then
      source.latch.map fun latch => ({ source with latch := none },[],some latch)
    else some (source,[],none)
  | .run latch =>
    let source : SizedThroughputSource := ⟨latch,0,0⟩
    let (source,first) := source.send p
    let (source,second) := source.send p
    some (source,first ++ second,none)

-- Whether the batch is acknowledged. Every message counts one.
def SizedThroughputSink.receive (sink : SizedThroughputSink) : SizedThroughputSink × Bool :=
  let received := sink.received + 1
  if received = p.batchSize then (⟨0⟩,true) else (⟨received⟩,false)

end Components

-- The run and the batch.
abbrev Label := ℕ × ℕ

-- `down` and `up` are first in, first out. `sent`, `counted` and `released` say what
-- was sent, which acknowledgement was handled in which run, and which latches fell.
structure System where
  source : SizedThroughputSource
  sink : SizedThroughputSink
  runs : ℕ
  handled : ℕ
  commands : List ℕ
  down : List Label
  up : List Label
  sent : List Label
  counted : List (ℕ × Label)
  released : List ℕ
  deriving DecidableEq, Repr

def System.start : System where
  source := ⟨none,0,0⟩
  sink := ⟨0⟩
  runs := 0
  handled := 0
  commands := []
  down := []
  up := []
  sent := []
  counted := []
  released := []

inductive Event where
  | run
  | command
  | message
  | ack
  deriving DecidableEq, Repr

section Steps
variable (p : Params)

-- The master waits for the latch of a run before it asks for the next one.
def run (s : System) : Option System :=
  if s.released.length = s.runs then
    some { s with runs := s.runs + 1, commands := s.commands ++ [s.runs + 1] }
  else none

def System.sends (s : System) (batches : List ℕ) : System :=
  let labels := batches.map fun batch => (s.handled,batch)
  { s with down := s.down ++ labels, sent := s.sent ++ labels }

def command (s : System) : Option System :=
  match s.commands with
  | [] => none
  | latch :: commands => do
    let (source,batches,_) ← s.source.receive p (.run (some latch))
    some (System.sends { s with source := source, handled := s.handled + 1, commands := commands } batches)

def message (s : System) : Option System :=
  match s.down with
  | [] => none
  | label :: down =>
    let (sink,full) := s.sink.receive p
    some { s with sink := sink, down := down, up := if full then s.up ++ [label] else s.up }

def ack (s : System) : Option System :=
  match s.up with
  | [] => none
  | label :: up => do
    let (source,batches,latch) ← s.source.receive p .ack
    some (System.sends { s with
      source := source
      up := up
      counted := s.counted ++ [(s.handled,label)]
      released := s.released ++ latch.toList } batches)

def step (s : System) : Event → Option System
  | .run => run s
  | .command => command p s
  | .message => message p s
  | .ack => ack p s

end Steps

-- What one run has to send.
def batches (p : Params) (number : ℕ) : List ℕ := (List.range number).flatMap (List.replicate p.batchSize)

def labels (p : Params) (r number : ℕ) : List Label := (batches p number).map fun batch => (r,batch)

-- Every run sends its batches and no more, its latch falls once and behind all of
-- its own acknowledgements, and no run is left behind.
structure Exact (p : Params) (s : System) : Prop where
  sends : ∀ r, ∃ number ≤ p.numberOfBatches, s.sent.filter (fun label => label.1 = r) = labels p r number
  all : ∀ r ∈ s.released, s.sent.filter (fun label => label.1 = r) = labels p r p.numberOfBatches
  acked : ∀ r ∈ s.released, s.counted.filter (fun entry => entry.1 = r) =
    (List.range p.numberOfBatches).map fun batch => (r,(r,batch))
  own : ∀ entry ∈ s.counted, entry.2.1 = entry.1
  once : s.released.Nodup ∧ ∀ r ∈ s.released, 1 ≤ r ∧ r ≤ s.runs
  ends : s.commands = [] → s.down = [] → s.up = [] → ∀ r, 1 ≤ r → r ≤ s.runs → r ∈ s.released
  answers : (s.commands ≠ [] → (command p s).isSome) ∧ (s.up ≠ [] → (ack p s).isSome)

end KompicsBenches.SizedThroughput
