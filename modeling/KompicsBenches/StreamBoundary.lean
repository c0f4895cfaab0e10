import KompicsBenches.BenchHelpers
import KompicsBenches.Mailboxes
import Mathlib.Data.List.FinRange
import Mathlib.Data.Fintype.Basic

namespace KompicsBenches.StreamBoundary

open BenchHelpers

structure Params where
  batchSize : ℕ
  windowSizeMs : ℕ
  amplification : ℕ
  numWindows : ℕ

inductive SourceMsg where
  | ready (batchSize : ℕ)
  | next
  | reset
  | flushed
  | stop
  deriving DecidableEq, Repr

-- A sink lives for one iteration and has its number.
inductive WindowerMsg where
  | start (downstream : ℕ)
  | wstop
  | event (ts : ℕ)
  | flush
  deriving DecidableEq, Repr

inductive SinkMsg where
  | start
  | window (ts : ℕ)
  deriving DecidableEq, Repr

inductive Token where
  | ok
  | flushed
  deriving DecidableEq, Repr

inductive Proc (σ : Type*) where
  | absent
  | alive (state : σ)
  | exited
  | crashed
  deriving DecidableEq, Repr

-- The pid of the windower, when the source knows it.
structure Source where
  downstream : Bool
  remaining : ℕ
  currentTs : ℕ
  flushing : Bool
  replyOnFlushed : Bool
  deriving DecidableEq, Repr

-- Of the window only its length is kept: the values go into the median alone.
structure Windower where
  downstream : Option ℕ
  currentWindow : ℕ
  windowStartTs : ℕ
  receivedSinceReady : ℕ
  running : Bool
  deriving DecidableEq, Repr

structure Window where
  downstream : ℕ
  ts : ℕ
  deriving DecidableEq, Repr

-- What a source sends: to the windower, to itself, to the master.
structure Sent where
  events : List WindowerMsg := []
  nexts : ℕ := 0
  replies : List Token := []

-- `none` stands for a crash, here and below; to send to `undefined` is one.
def sourceSend (source : Source) : Option (Source × Sent) :=
  if 0 < source.remaining then
    if source.downstream then
      let remaining := source.remaining - 1
      some ({ source with currentTs := source.currentTs + 1, remaining := remaining },
        { events := [.event source.currentTs], nexts := if 0 < remaining then 1 else 0 })
    else none
  else some (source,{})

def sourceHandle (source : Source) : SourceMsg → Option (Source × Sent)
  | .ready batchSize =>
    if source.flushing then some (source,{})
    else sourceSend { source with remaining := source.remaining + batchSize, downstream := true }
  | .next => if source.flushing then some (source,{}) else sourceSend source
  | .reset =>
    if source.flushing then none
    else if source.downstream then
      some ({ flushing := true, replyOnFlushed := true, currentTs := 0, remaining := 0, downstream := false },
        { events := [.flush] })
    else none
  | .flushed =>
    if source.flushing then
      if source.replyOnFlushed then
        some ({ source with flushing := false, replyOnFlushed := false },{ replies := [.flushed] })
      else none
    else none
  | .stop => none

def sourceIter (source : Source) : SourceMsg → Proc Source × Sent
  | .stop => (.exited,{})
  | msg =>
    match sourceHandle source msg with
    | some (source,sent) => (.alive source,sent)
    | none => (.crashed,{})

section Handlers
variable (p : Params)

def Params.readyMark : ℕ := p.batchSize / 2

def Windower.windowEnd (windower : Windower) : ℕ := windower.windowStartTs + p.windowSizeMs

def windowerTriggerWindow (windower : Windower) : Option (Windower × List Window) :=
  if windower.currentWindow = 0 then some (windower,[])
  else windower.downstream.map fun downstream =>
    ({ windower with currentWindow := 0 },[⟨downstream,windower.windowStartTs⟩])

def windowerManageReady (windower : Windower) : Windower × List SourceMsg :=
  let received := windower.receivedSinceReady + 1
  if p.readyMark < received then ({ windower with receivedSinceReady := 0 },[.ready received])
  else ({ windower with receivedSinceReady := received },[])

def windowerEvent (windower : Windower) (ts : ℕ) : Option (Windower × List Window) :=
  if ts < windower.windowEnd p then
    some ({ windower with currentWindow := p.amplification + windower.currentWindow },[])
  else do
    let (windower,windows) ← windowerTriggerWindow windower
    some ({ windower with currentWindow := p.amplification, windowStartTs := ts },windows)

def windowerHandle (windower : Windower) : WindowerMsg → Option (Windower × List SourceMsg × List Window)
  | .start downstream =>
    if windower.running then none
    else some ({ windower with downstream := some downstream, running := true, receivedSinceReady := 0 },
      [.ready p.batchSize],[])
  | .wstop =>
    if windower.running then
      some ({ windower with downstream := none, running := false, windowStartTs := 0, currentWindow := 0 },[],[])
    else none
  | .event ts =>
    if windower.running then do
      let (windower,windows) ← windowerEvent p windower ts
      let (windower,replies) := windowerManageReady p windower
      some (windower,replies,windows)
    else some (windower,[],[])
  | .flush => some (windower,[.flushed],[])

-- The state is the window count; what is sent goes to the windower and the master.
def sinkHandle (self count : ℕ) : SinkMsg → Proc ℕ × List WindowerMsg × List Token
  | .start => (.alive count,[.start self],[])
  | .window _ =>
    if count + 1 = p.numWindows then (.exited,[.wstop],[.ok]) else (.alive (count + 1),[],[])

end Handlers

inductive Pid (n : ℕ) where
  | source (partition : Fin n)
  | sink (partition : Fin n) (iteration : ℕ)
  deriving DecidableEq, Repr

abbrev ToMaster (n : ℕ) := Signal Token (Pid n)

-- The processes of one partition and what is on its way between them, first in,
-- first out from one to another. A message is handled when it arrives: sources,
-- windowers and sinks take whatever is first in their mailboxes. `nexts` counts what
-- the source has told itself. The sinks are numbered by their iterations.
structure Partition where
  source : Proc Source
  windower : Proc Windower
  sinks : ℕ → Proc ℕ
  toSource : List SourceMsg
  nexts : ℕ
  replies : List SourceMsg
  events : List WindowerMsg
  starts : ℕ → ℕ
  windows : ℕ → List ℕ
  orders : ℕ → List WindowerMsg

def Partition.setup : Partition where
  source := .alive ⟨false,0,0,false,false⟩
  windower := .alive ⟨none,0,0,0,false⟩
  sinks := fun _ => .absent
  toSource := []
  nexts := 0
  replies := []
  events := []
  starts := fun _ => 0
  windows := fun _ => []
  orders := fun _ => []

-- The master is linked to its sources and sinks.
def Proc.exits (proc : Proc σ) (pid : Pid n) : List (ToMaster n) :=
  match proc with
  | .absent | .alive _ => []
  | .exited | .crashed => [.exit pid]

-- From whom to whom the next message arrives.
inductive Arrival where
  | masterSource
  | sourceSource
  | windowerSource
  | sourceWindower
  | sinkWindower (iteration : ℕ)
  | masterSink (iteration : ℕ)
  | windowerSink (iteration : ℕ)
  deriving DecidableEq, Repr

section Partitions
variable (p : Params) (i : Fin n)

-- A process that is gone gets nothing.
def Partition.sourceTakes (part : Partition) (msg : SourceMsg) : Partition × List (ToMaster n) :=
  match part.source with
  | .alive source =>
    let (proc,sent) := sourceIter source msg
    ({ part with source := proc, events := part.events ++ sent.events, nexts := part.nexts + sent.nexts },
      sent.replies.map (.token · (.source i)) ++ proc.exits (.source i))
  | _ => (part,[])

def Partition.windowerTakes (part : Partition) (msg : WindowerMsg) : Partition :=
  match part.windower with
  | .alive windower =>
    match windowerHandle p windower msg with
    | some (windower,replies,windows) =>
      { part with
        windower := .alive windower
        replies := part.replies ++ replies
        windows := fun k => part.windows k ++ (windows.filter (·.downstream = k)).map (·.ts) }
    | none => { part with windower := .crashed }
  | _ => part

def Partition.sinkTakes (part : Partition) (k : ℕ) (msg : SinkMsg) : Partition × List (ToMaster n) :=
  match part.sinks k with
  | .alive count =>
    let (proc,orders,replies) := sinkHandle p k count msg
    ({ part with
        sinks := Function.update part.sinks k proc
        orders := Function.update part.orders k (part.orders k ++ orders) },
      replies.map (.token · (.sink i k)) ++ proc.exits (.sink i k))
  | _ => (part,[])

def Partition.arrive (part : Partition) : Arrival → Option (Partition × List (ToMaster n))
  | .masterSource =>
    match part.toSource with
    | [] => none
    | msg :: rest => some ({ part with toSource := rest }.sourceTakes i msg)
  | .sourceSource =>
    if part.nexts = 0 then none else some ({ part with nexts := part.nexts - 1 }.sourceTakes i .next)
  | .windowerSource =>
    match part.replies with
    | [] => none
    | msg :: rest => some ({ part with replies := rest }.sourceTakes i msg)
  | .sourceWindower =>
    match part.events with
    | [] => none
    | msg :: rest => some ({ part with events := rest }.windowerTakes p msg,[])
  | .sinkWindower k =>
    match part.orders k with
    | [] => none
    | msg :: rest => some ({ part with orders := Function.update part.orders k rest }.windowerTakes p msg,[])
  | .masterSink k =>
    if part.starts k = 0 then none
    else some ({ part with starts := Function.update part.starts k (part.starts k - 1) }.sinkTakes p i k .start)
  | .windowerSink k =>
    match part.windows k with
    | [] => none
    | ts :: rest => some ({ part with windows := Function.update part.windows k rest }.sinkTakes p i k (.window ts))

end Partitions

-- Where the master is in its loop of iterations, with the pids it still waits for.
inductive Phase (n : ℕ) where
  | idle
  | prepared
  | awaitOk (pids : List (Pid n))
  | ran
  | awaitExits (pids : List (Pid n)) (lastIteration : Bool)
  | awaitFlushed (pids : List (Pid n)) (lastIteration : Bool)
  | awaitStops (pids : List (Pid n))
  | finished
  | failed
  deriving DecidableEq, Repr

structure System (n : ℕ) where
  parts : Fin n → Partition
  inbox : Inbox (Pid n) (ToMaster n)
  phase : Phase n
  iteration : ℕ

def System.start (n : ℕ) : System n := ⟨fun _ => .setup,.empty,.idle,0⟩

def sources (n : ℕ) : List (Pid n) := (List.finRange n).map .source
def sinks (n iteration : ℕ) : List (Pid n) := (List.finRange n).map (.sink · iteration)

def Partition.spawn (part : Partition) (k : ℕ) : Partition :=
  { part with sinks := Function.update part.sinks k (.alive 0) }

def Partition.call (part : Partition) (k : ℕ) : Partition :=
  { part with starts := Function.update part.starts k (part.starts k + 1) }

def Partition.tell (part : Partition) (msg : SourceMsg) : Partition :=
  { part with toSource := part.toSource ++ [msg] }

def masterPrepareIteration (s : System n) : Option (System n) :=
  if s.phase = .idle then some { s with parts := fun i => (s.parts i).spawn s.iteration, phase := .prepared } else none

def masterRunIteration (s : System n) : Option (System n) :=
  if s.phase = .prepared then
    some { s with parts := fun i => (s.parts i).call s.iteration, phase := .awaitOk (sinks n s.iteration) }
  else none

def masterCleanupIteration (s : System n) (lastIteration : Bool) : Option (System n) :=
  if s.phase = .ran then
    some { s with
      parts := fun i => (s.parts i).tell .reset
      phase := .awaitExits (sinks n s.iteration) lastIteration }
  else none

def System.flushed (s : System n) (lastIteration : Bool) : System n :=
  if lastIteration then
    { s with parts := fun i => (s.parts i).tell .stop, phase := .awaitStops (sources n) }
  else { s with phase := .idle, iteration := s.iteration + 1 }

-- A result that is not `ok` matches nothing.
def System.await (s : System n) (received : Received Token (Pid n)) (again : List (Pid n) → Phase n)
    (done : System n) : Option (System n) :=
  match received with
  | .ok => some done
  | .waits => none
  | .error => some { s with phase := .failed }
  | .next pids signal => some { s with phase := again pids, inbox := s.inbox.take signal }

def receive (s : System n) : Option (System n) :=
  match s.phase with
  | .awaitOk pids => s.await (awaitAll pids .ok s.inbox.mailbox) .awaitOk { s with phase := .ran }
  | .awaitExits pids lastIteration =>
    s.await (awaitExitAll pids s.inbox.mailbox) (.awaitExits · lastIteration)
      { s with phase := .awaitFlushed (sources n) lastIteration }
  | .awaitFlushed pids lastIteration =>
    s.await (awaitAll pids .flushed s.inbox.mailbox) (.awaitFlushed · lastIteration) (s.flushed lastIteration)
  | .awaitStops pids => s.await (awaitExitAll pids s.inbox.mailbox) .awaitStops { s with phase := .finished }
  | _ => none

inductive Action (n : ℕ) where
  | masterPrepareIteration
  | masterRunIteration
  | masterCleanupIteration (lastIteration : Bool)
  | receive
  | deliver (pid : Pid n)
  | arrive (partition : Fin n) (arrival : Arrival)
  deriving DecidableEq, Repr

def System.moves (s : System n) (i : Fin n) (result : Partition × List (ToMaster n)) : System n :=
  { s with parts := Function.update s.parts i result.1, inbox := s.inbox.send Signal.sender result.2 }

def step (p : Params) (s : System n) : Action n → Option (System n)
  | .masterPrepareIteration => masterPrepareIteration s
  | .masterRunIteration => masterRunIteration s
  | .masterCleanupIteration lastIteration => masterCleanupIteration s lastIteration
  | .receive => receive s
  | .deliver pid => (s.inbox.deliver pid).map fun inbox => { s with inbox := inbox }
  | .arrive i arrival => ((s.parts i).arrive p i arrival).map (s.moves i)

-- The master gets no error and no source or windower is without a clause for its message.
def System.RaceFree (s : System n) : Prop :=
  s.phase ≠ .failed ∧ ∀ i, (s.parts i).source ≠ .crashed ∧ (s.parts i).windower ≠ .crashed

instance (s : System n) : Decidable s.RaceFree := inferInstanceAs (Decidable (_ ∧ _))

-- Every exit of a sink of the iteration arrives before the first `flushed`, and every
-- `wstop` of an earlier sink before the next `start`.
def Orderly (s : System n) : Action n → Prop
  | .deliver pid =>
    (s.inbox.channel pid).head?.any (Signal.carries .flushed) = true →
      ∀ i, s.inbox.channel (.sink i s.iteration) = []
  | .arrive i (.sinkWindower k) =>
    ((s.parts i).orders k).head? = some (.start k) → ∀ earlier < k, .wstop ∉ (s.parts i).orders earlier
  | _ => True

instance (s : System n) : ∀ action, Decidable (Orderly s action)
  | .deliver _ => inferInstanceAs (Decidable (_ → _))
  | .arrive _ (.sinkWindower _) => inferInstanceAs (Decidable (_ → _))
  | .arrive _ .masterSource | .arrive _ .sourceSource | .arrive _ .windowerSource | .arrive _ .sourceWindower
  | .arrive _ (.masterSink _) | .arrive _ (.windowerSink _) => inferInstanceAs (Decidable True)
  | .masterPrepareIteration | .masterRunIteration | .masterCleanupIteration _ | .receive =>
    inferInstanceAs (Decidable True)

end KompicsBenches.StreamBoundary
