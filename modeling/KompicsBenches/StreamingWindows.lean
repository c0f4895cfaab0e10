import KompicsBenches.GuardedRuns

namespace KompicsBenches.StreamingWindows

open GuardedRuns

structure Params where
  batchSize : ℕ
  windowSizeMs : ℕ
  amplification : ℕ
  numberOfWindows : ℕ

inductive WindowerMsg where
  | start
  | stop
  | event (ts : ℕ)
  | flush
  deriving DecidableEq, Repr

inductive SourceMsg where
  | reset
  | next
  | ready (batchSize : ℕ)
  | flushed
  deriving DecidableEq, Repr

-- A sink lives for one iteration and has its number.
structure Aggregate where
  sink : ℕ
  ts : ℕ
  deriving DecidableEq, Repr

-- Of the window only its length is kept: the values go into the median alone.
structure Windower where
  downstream : Option ℕ
  currentWindow : ℕ
  windowStartTs : ℕ
  receivedSinceReady : ℕ
  running : Bool
  deriving DecidableEq, Repr

-- The path of the windower, when the source knows it.
structure StreamSource where
  downstream : Bool
  remaining : ℕ
  currentTs : ℕ
  flushing : Bool
  replyOnFlushed : Bool
  deriving DecidableEq, Repr

structure StreamSink where
  windowCount : ℕ
  latched : Bool
  stopSent : Bool
  deriving DecidableEq, Repr

section Components
variable (p : Params)

def Params.readyMark : ℕ := p.batchSize / 2

def Windower.windowEnd (w : Windower) : ℕ := w.windowStartTs + p.windowSizeMs

-- An empty window is not reported. `none` stands for a panic, here and below.
def Windower.triggerWindow (w : Windower) : Option (Windower × List Aggregate) :=
  if w.currentWindow = 0 then some (w,[])
  else w.downstream.map fun sink => ({ w with currentWindow := 0 },[⟨sink,w.windowStartTs⟩])

def Windower.manageReady (w : Windower) : Windower × List SourceMsg :=
  let received := w.receivedSinceReady + 1
  if p.readyMark < received then ({ w with receivedSinceReady := 0 },[.ready received])
  else ({ w with receivedSinceReady := received },[])

def Windower.closeWindow (w : Windower) (ts : ℕ) : Option (Windower × List Aggregate) :=
  if w.windowEnd p ≤ ts then do
    let (w,aggregates) ← w.triggerWindow
    some ({ w with windowStartTs := ts },aggregates)
  else some (w,[])

def Windower.receive (w : Windower) (sender : Option ℕ) :
    WindowerMsg → Option (Windower × List SourceMsg × List Aggregate)
  | .start =>
    if w.running then none
    else some ({ w with downstream := sender, running := true, receivedSinceReady := 0 },[.ready p.batchSize],[])
  | .stop =>
    if w.running then
      some ({ w with running := false, currentWindow := 0, downstream := none, windowStartTs := 0 },[],[])
    else none
  | .event ts =>
    if w.running then do
      let (w,aggregates) ← w.closeWindow p ts
      let (w,readies) := ({ w with currentWindow := w.currentWindow + p.amplification }).manageReady p
      some (w,readies,aggregates)
    else some (w,[],[])
  | .flush => some (w,[.flushed],[])

-- What goes to the windower, and to the own mailbox.
def StreamSource.send (source : StreamSource) : Option (StreamSource × List WindowerMsg × List SourceMsg) :=
  if 0 < source.remaining then
    if source.downstream then
      let left := source.remaining - 1
      some ({ source with currentTs := source.currentTs + 1, remaining := left },[.event source.currentTs],
        if 0 < left then [.next] else [])
    else none
  else some (source,[],[])

def StreamSource.receive (source : StreamSource) :
    SourceMsg → Option (StreamSource × List WindowerMsg × List SourceMsg)
  | .ready batchSize =>
    if source.flushing then some (source,[],[])
    else ({ source with remaining := source.remaining + batchSize, downstream := true }).send
  | .next => if source.flushing then some (source,[],[]) else source.send
  | .reset =>
    if source.flushing then none
    else if source.downstream then
      some ({ source with flushing := true, replyOnFlushed := true, downstream := false, currentTs := 0, remaining := 0 },
        [.flush],[])
    else none
  | .flushed =>
    if source.flushing && source.replyOnFlushed then
      some ({ source with replyOnFlushed := false, flushing := false },[],[])
    else none

-- The latch falls before the `Stop` is sent.
def StreamSink.receive (sink : StreamSink) : StreamSink :=
  let count := sink.windowCount + 1
  { sink with windowCount := count, latched := sink.latched || count = p.numberOfWindows }

end Components

-- The connections are first in, first out: `control` from the sinks, `data` from
-- the source, `upstream` to it. What the source tells itself and what the master
-- asks of it go straight to its mailbox. `active` is true from a `Start` until
-- the next `Stop` or `Reset`; nothing reads it.
structure System where
  source : StreamSource
  windower : Windower
  sink : StreamSink
  iteration : ℕ
  control : List (ℕ × WindowerMsg)
  data : List WindowerMsg
  upstream : List SourceMsg
  mailbox : List SourceMsg
  aggregates : List Aggregate
  resetSent : Bool
  replied : Bool
  active : Bool
  deriving DecidableEq, Repr

def System.start : System where
  source := ⟨false,0,0,false,false⟩
  windower := ⟨none,0,0,0,false⟩
  sink := ⟨0,false,true⟩
  iteration := 0
  control := []
  data := []
  upstream := []
  mailbox := []
  aggregates := []
  resetSent := true
  replied := true
  active := false

inductive Event where
  | runIteration
  | control
  | data
  | arrive
  | source
  | aggregate
  | stop
  | reset
  deriving DecidableEq, Repr

section Steps
variable (p : Params)

-- The next iteration has a new sink, when the old one is gone and the source has
-- answered its `Reset`.
def runIteration (s : System) : Option System :=
  if s.replied && s.sink.stopSent then
    let iteration := s.iteration + 1
    some { s with
      sink := ⟨0,false,false⟩
      iteration := iteration
      control := s.control ++ [(iteration,.start)]
      resetSent := false
      replied := false }
  else none

def System.windows (s : System) (sender : Option ℕ) (msg : WindowerMsg) : Option System := do
  let (windower,readies,aggregates) ← s.windower.receive p sender msg
  some { s with
    windower := windower
    upstream := s.upstream ++ readies
    aggregates := s.aggregates ++ aggregates
    active := msg = .start || (s.active && msg ≠ .stop) }

def control (s : System) : Option System :=
  match s.control with
  | [] => none
  | (sender,msg) :: rest => ({ s with control := rest }).windows p (some sender) msg

def data (s : System) : Option System :=
  match s.data with
  | [] => none
  | msg :: rest => ({ s with data := rest }).windows p none msg

def arrive (s : System) : Option System :=
  match s.upstream with
  | [] => none
  | msg :: rest => some { s with upstream := rest, mailbox := s.mailbox ++ [msg] }

def source (s : System) : Option System :=
  match s.mailbox with
  | [] => none
  | msg :: rest => do
    let (source,events,nexts) ← s.source.receive msg
    some { s with
      source := source
      data := s.data ++ events
      mailbox := rest ++ nexts
      replied := s.replied || msg = .flushed
      active := s.active && msg ≠ .reset }

-- A message to a sink of an earlier iteration has no receiver.
def aggregate (s : System) : Option System :=
  match s.aggregates with
  | [] => none
  | message :: rest =>
    if message.sink = s.iteration then some { s with sink := s.sink.receive p, aggregates := rest }
    else some { s with aggregates := rest }

def stop (s : System) : Option System :=
  if s.sink.latched && !s.sink.stopSent then
    some { s with sink := { s.sink with stopSent := true }, control := s.control ++ [(s.iteration,.stop)] }
  else none

def reset (s : System) : Option System :=
  if s.sink.latched && !s.resetSent then some { s with mailbox := s.mailbox ++ [.reset], resetSent := true }
  else none

def step (s : System) : Event → Option System
  | .runIteration => runIteration s
  | .control => control p s
  | .data => data p s
  | .arrive => arrive s
  | .source => source s
  | .aggregate => aggregate p s
  | .stop => stop s
  | .reset => reset s

end Steps

def SourceMsg.credit : SourceMsg → ℕ
  | .ready batchSize => batchSize
  | _ => 0

def SourceMsg.isReady : SourceMsg → Bool
  | .ready _ => true
  | _ => false

def WindowerMsg.isEvent : WindowerMsg → Bool
  | .event _ => true
  | _ => false

def System.eventsInFlight (s : System) : ℕ := s.data.countP WindowerMsg.isEvent
def System.readiesInFlight (s : System) : ℕ := s.mailbox.countP SourceMsg.isReady + s.upstream.countP SourceMsg.isReady
def System.creditInFlight (s : System) : ℕ :=
  (s.mailbox.map SourceMsg.credit).sum + (s.upstream.map SourceMsg.credit).sum
def System.pendingNexts (s : System) : ℕ := s.mailbox.count .next

end KompicsBenches.StreamingWindows
