import Mathlib

namespace KompicsBenches.RegisterNode

-- (ts, wr) and (ts, wr, value). Both compare as Rust tuples do. Timestamps stay
-- far below 2^32 in one run: each write of a key adds at most one.
abbrev Tag := ℕ ×ₗ ℕ
abbrev Triple := ℕ ×ₗ ℕ ×ₗ ℕ

structure AtomicRegisterState where
  ts : ℕ
  wr : ℕ
  value : ℕ
  acks : ℕ
  readval : ℕ
  writeval : ℕ
  rid : ℕ
  reading : Bool
  firstReceivedTs : ℕ
  skipImpose : Bool
  deriving DecidableEq, Repr

def AtomicRegisterState.new : AtomicRegisterState where
  reading := false
  skipImpose := true
  ts := 0
  wr := 0
  value := 0
  acks := 0
  readval := 0
  writeval := 0
  rid := 0
  firstReceivedTs := 0

def AtomicRegisterState.tag (reg : AtomicRegisterState) : Tag := toLex (reg.ts,reg.wr)

structure Read where
  runId : ℕ
  key : ℕ
  rid : ℕ
  deriving DecidableEq, Repr

structure Ack where
  runId : ℕ
  key : ℕ
  rid : ℕ
  deriving DecidableEq, Repr

structure Value where
  runId : ℕ
  key : ℕ
  rid : ℕ
  ts : ℕ
  wr : ℕ
  value : ℕ
  senderRank : ℕ
  deriving DecidableEq, Repr

structure Write where
  runId : ℕ
  key : ℕ
  rid : ℕ
  ts : ℕ
  wr : ℕ
  value : ℕ
  deriving DecidableEq, Repr

def Value.tag (v : Value) : Tag := toLex (v.ts,v.wr)
def Value.triple (v : Value) : Triple := toLex (v.ts,toLex (v.wr,v.value))
def Write.tag (w : Write) : Tag := toLex (w.ts,w.wr)

inductive AtomicRegisterMessage where
  | read (r : Read)
  | value (v : Value)
  | write (w : Write)
  | ack (a : Ack)
  deriving DecidableEq, Repr

def AtomicRegisterMessage.runId : AtomicRegisterMessage → ℕ
  | .read r => r.runId
  | .value v => v.runId
  | .write w => w.runId
  | .ack a => a.runId

def AtomicRegisterMessage.key : AtomicRegisterMessage → ℕ
  | .read r => r.key
  | .value v => v.key
  | .write w => w.key
  | .ack a => a.key

inductive KVOperation where
  | readInvokation
  | readResponse
  | writeInvokation
  | writeResponse
  deriving DecidableEq, Repr

-- The wall-clock field `time` is left out: an event's place in the trace says
-- when it happened.
structure KVTimestamp where
  key : ℕ
  operation : KVOperation
  value : Option ℕ
  sender : ℕ
  deriving DecidableEq, Repr

-- The map from sender rank to reply; `insert` replaces an earlier reply of the
-- same rank. Its iteration order is not observable below.
abbrev Readlist := List (ℕ × Triple)

def insertReply (list : Readlist) (rank : ℕ) (reply : Triple) : Readlist :=
  (rank,reply) :: list.filter fun entry => entry.1 ≠ rank

def maxReply (list : Readlist) : Option Triple := (list.map Prod.snd).max?

section Register
variable (n rank : ℕ) (reg : AtomicRegisterState) (list : Readlist)

def beginRead : AtomicRegisterState :=
  {reg with rid := reg.rid + 1,acks := 0,reading := true}

def beginWrite : AtomicRegisterState :=
  {reg with rid := reg.rid + 1,writeval := rank,acks := 0,reading := false}

-- The bookkeeping of a reading register before the reply enters the readlist.
def noteReply (v : Value) : AtomicRegisterState :=
  if reg.reading then
    if list.isEmpty then {reg with firstReceivedTs := v.ts,readval := v.value}
    else if reg.skipImpose && reg.firstReceivedTs != v.ts then {reg with skipImpose := false}
    else reg
  else reg

inductive Outcome where
  | waiting
  | answer (value : ℕ)
  | impose (w : Write)
  deriving DecidableEq, Repr

def imposedWrite (v : Value) (best : Triple) : Write :=
  let (maxts,rr,readvalue) := (best.1,best.2.1,best.2.2)
  if reg.reading then
    {ts := maxts,wr := rr,value := readvalue,runId := v.runId,key := v.key,rid := v.rid}
  else
    {ts := maxts + 1,wr := rank,value := reg.writeval,runId := v.runId,key := v.key,rid := v.rid}

-- A reply of the current operation. `none` is the panic of `unwrap`.
def collect (v : Value) : Option (AtomicRegisterState × Readlist × Outcome) :=
  let reg := noteReply reg list v
  let list := insertReply list v.senderRank v.triple
  if list.length > n / 2 then
    if reg.reading && reg.skipImpose then
      let reg := {reg with value := reg.readval}
      some (reg,[],.answer reg.readval)
    else do
      let best ← maxReply list
      let reg := {reg with readval := best.2.2}
      some (reg,[],.impose (imposedWrite rank reg v best))
  else some (reg,list,.waiting)

def store (w : Write) : AtomicRegisterState :=
  if w.tag > reg.tag then {reg with ts := w.ts,wr := w.wr,value := w.value} else reg

-- An acknowledgement of the current operation; the flag says that the quorum
-- is complete and the operation responds.
def countAck : AtomicRegisterState × Bool :=
  let reg := {reg with acks := reg.acks + 1}
  if reg.acks > n / 2 then ({reg with acks := 0},true) else (reg,false)

end Register

-- `AtomicRegisterActor` and `AtomicRegisterComp` hold the same fields and run
-- the same handlers. They differ in the way a broadcast leaves the component
-- and in what is left of `timestamps` after `send_done`.
inductive Variant where
  | actor
  | comp
  deriving DecidableEq, Repr

structure AtomicRegister where
  variant : Variant
  n : ℕ
  rank : ℕ
  numKeys : ℕ
  readCount : ℕ
  writeCount : ℕ
  currentRunId : ℕ
  registerState : ℕ → Option AtomicRegisterState
  registerReadlist : ℕ → Option Readlist
  testing : Bool
  timestamps : List KVTimestamp

def AtomicRegister.with (variant : Variant) (numKeys : ℕ) (testing : Bool) : AtomicRegister where
  variant := variant
  n := 0
  rank := 0
  numKeys := numKeys
  readCount := 0
  writeCount := 0
  currentRunId := 0
  registerState := fun _ => none
  registerReadlist := fun _ => none
  testing := testing
  timestamps := []

inductive Effect where
  | bcast (msg : AtomicRegisterMessage)
  | reply (msg : AtomicRegisterMessage)
  | stamp (event : KVTimestamp)
  | initAck (runId : ℕ)
  | done
  | testDone (timestamps : List KVTimestamp)
  deriving DecidableEq, Repr

abbrev Result := Option (AtomicRegister × List Effect)

namespace AtomicRegister
variable (s : AtomicRegister)

def newIteration (initId pid nodes : ℕ) : AtomicRegister :=
  {s with
    currentRunId := initId
    n := nodes
    rank := pid
    registerState := fun key => if key < s.numKeys then some .new else none
    registerReadlist := fun key => if key < s.numKeys then some [] else none}

-- `Init` with the rank of this node and the number of nodes. The component
-- acknowledges it later, when its broadcast component has stored the nodes.
def receiveInit (initId pid nodes : ℕ) : AtomicRegister × List Effect :=
  match s.variant with
  | .actor => (s.newIteration initId pid nodes,[.initAck initId])
  | .comp => (s.newIteration initId pid nodes,[])

def put (key : ℕ) (reg : AtomicRegisterState) (list : Readlist) : AtomicRegister :=
  {s with
    registerState := Function.update s.registerState key (some reg)
    registerReadlist := Function.update s.registerReadlist key (some list)}

def record (event : KVTimestamp) : AtomicRegister :=
  if s.testing then {s with timestamps := s.timestamps ++ [event]} else s

def invokeRead (key : ℕ) : Result := do
  let reg ← s.registerState key
  let _ ← s.registerReadlist key
  let reg := beginRead reg
  let event : KVTimestamp := ⟨key,.readInvokation,none,s.rank⟩
  some ((s.put key reg []).record event,
    [.stamp event,.bcast (.read ⟨s.currentRunId,key,reg.rid⟩)])

def invokeWrite (key : ℕ) : Result := do
  let reg ← s.registerState key
  let _ ← s.registerReadlist key
  let reg := beginWrite s.rank reg
  let event : KVTimestamp := ⟨key,.writeInvokation,some s.rank,s.rank⟩
  some ((s.put key reg []).record event,
    [.stamp event,.bcast (.read ⟨s.currentRunId,key,reg.rid⟩)])

-- `u64` subtraction of one, wrapping as in a release build.
def pred64 (count : ℕ) : ℕ := if count = 0 then 2 ^ 64 - 1 else count - 1

-- The actor takes its timestamps out, the component sends a copy of them.
def sendDone : AtomicRegister × List Effect :=
  if !s.testing then (s,[.done])
  else
    match s.variant with
    | .actor => ({s with timestamps := []},[.testDone s.timestamps])
    | .comp => (s,[.testDone s.timestamps])

def finish (event : KVTimestamp) : AtomicRegister × List Effect :=
  let s := s.record event
  if s.readCount = 0 ∧ s.writeCount = 0 then
    (s.sendDone.1,.stamp event :: s.sendDone.2)
  else (s,[.stamp event])

def readResponse (key readValue : ℕ) : AtomicRegister × List Effect :=
  let s := {s with readCount := pred64 s.readCount}
  s.finish ⟨key,.readResponse,some readValue,s.rank⟩

def writeResponse (key : ℕ) : AtomicRegister × List Effect :=
  let s := {s with writeCount := pred64 s.writeCount}
  s.finish ⟨key,.writeResponse,some s.rank,s.rank⟩

def receiveRead (read : Read) : Result :=
  if read.runId = s.currentRunId then do
    let reg ← s.registerState read.key
    some (s,[.reply (.value {
      runId := s.currentRunId,key := read.key,rid := read.rid,
      ts := reg.ts,wr := reg.wr,value := reg.value,senderRank := s.rank})])
  else some (s,[])

def receiveValue (v : Value) : Result :=
  if v.runId = s.currentRunId then do
    let reg ← s.registerState v.key
    if v.rid = reg.rid then do
      let list ← s.registerReadlist v.key
      let (reg,list,outcome) ← collect s.n s.rank reg list v
      let s := s.put v.key reg list
      match outcome with
      | .waiting => some (s,[])
      | .answer value => some (s.readResponse v.key value)
      | .impose write => some (s,[.bcast (.write write)])
    else some (s,[])
  else some (s,[])

-- A write of another run is acknowledged without being stored.
def receiveWrite (w : Write) : Result := do
  let ack : Effect := .reply (.ack {runId := w.runId,key := w.key,rid := w.rid})
  if w.runId = s.currentRunId then
    let reg ← s.registerState w.key
    let registers := Function.update s.registerState w.key (some (store reg w))
    some ({s with registerState := registers},[ack])
  else some (s,[ack])

def receiveAck (a : Ack) : Result :=
  if a.runId = s.currentRunId then do
    let reg ← s.registerState a.key
    if a.rid = reg.rid then
      let (reg,complete) := countAck s.n reg
      let s := {s with registerState := Function.update s.registerState a.key (some reg)}
      if complete then
        if reg.reading then some (s.readResponse a.key reg.readval)
        else some (s.writeResponse a.key)
      else some (s,[])
    else some (s,[])
  else some (s,[])

def receiveNetwork : AtomicRegisterMessage → Result
  | .read r => s.receiveRead r
  | .value v => s.receiveValue v
  | .write w => s.receiveWrite w
  | .ack a => s.receiveAck a

end AtomicRegister

inductive OpKind where
  | read
  | write
  deriving DecidableEq, Repr

namespace AtomicRegister
variable (s : AtomicRegister)

def invoke (op : ℕ × OpKind) : Result :=
  match op.2 with
  | .read => s.invokeRead op.1
  | .write => s.invokeWrite op.1

def invokeAll : List (ℕ × OpKind) → AtomicRegister → Result
  | [],s => some (s,[])
  | op :: rest,s => do
    let (s,effects) ← s.invoke op
    let (s,more) ← invokeAll rest s
    some (s,effects ++ more)

def isRead (op : ℕ × OpKind) : Bool := op.2 = .read
def isWrite (op : ℕ × OpKind) : Bool := op.2 = .write

-- The head of `invoke_operations`, for any assignment of operations to keys.
def beginOperations (operations : List (ℕ × OpKind)) : AtomicRegister :=
  {s with readCount := operations.countP isRead,writeCount := operations.countP isWrite}

-- The loops of `invoke_operations`. The two numbers are the source's `f32`
-- products `num_keys * read_workload` and `num_keys * write_workload`.
def operationsOf (rank numReads numWrites : ℕ) : List (ℕ × OpKind) :=
  if rank % 2 = 0 then
    (List.range numReads).map (·,.read) ++ (List.range numWrites).map (numReads + ·,.write)
  else
    (List.range numWrites).map (·,.write) ++ (List.range numReads).map (numWrites + ·,.read)

def invokeOperations (numReads numWrites : ℕ) : Result :=
  let s := {s with readCount := numReads,writeCount := numWrites}
  invokeAll (operationsOf s.rank numReads numWrites) s

end AtomicRegister

end KompicsBenches.RegisterNode
