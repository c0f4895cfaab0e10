import KompicsBenches.PaxosCodec

namespace KompicsBenches.ControlCodec
open Wire PaxosCodec
open ReconfigComp (Reconfig)

section Broadcast

structure Proposal where
  data : List UInt8
  reconfig : Option (List ℕ × List ℕ)
  deriving DecidableEq, Repr

structure ProposalResp where
  data : List UInt8
  latestLeader : ℕ
  deriving DecidableEq, Repr

inductive AtomicBroadcastMsg where
  | proposal (p : Proposal)
  | proposalResp (pr : ProposalResp)
  | firstLeader (pid : ℕ)
  | pendingReconfiguration (data : List UInt8)
  deriving DecidableEq, Repr

@[match_pattern] abbrev proposalId : ℕ := 1
@[match_pattern] abbrev proposalRespId : ℕ := 2
@[match_pattern] abbrev firstLeaderId : ℕ := 3
@[match_pattern] abbrev pendingReconfigId : ℕ := 4

def serialiseVoters : Option (List ℕ × List ℕ) → List UInt8
  | some (voters,followers) => putList putU64 voters ++ putList putU64 followers
  | none => putU32 0 ++ putU32 0

def serialiseBroadcast : AtomicBroadcastMsg → List UInt8
  | .proposal p => putU8 proposalId ++ (putBytes p.data ++ serialiseVoters p.reconfig)
  | .proposalResp pr => putU8 proposalRespId ++ (putU64 pr.latestLeader ++ putBytes pr.data)
  | .firstLeader pid => putU8 firstLeaderId ++ putU64 pid
  | .pendingReconfiguration data => putU8 pendingReconfigId ++ putBytes data

-- No voters and no followers stand for no reconfiguration.
def deserialiseBroadcast : Reader AtomicBroadcastMsg := do
  match ← getU8 with
  | proposalId =>
    let data ← getBytes
    let voters ← getList getU64
    let followers ← getList getU64
    let reconfig := if voters.length = 0 ∧ followers.length = 0 then none else some (voters,followers)
    return .proposal ⟨data,reconfig⟩
  | proposalRespId =>
    let latestLeader ← getU64
    let data ← getBytes
    return .proposalResp ⟨data,latestLeader⟩
  | firstLeaderId =>
    let pid ← getU64
    return .firstLeader pid
  | pendingReconfigId =>
    let data ← getBytes
    return .pendingReconfiguration data
  | _ => throw (.invalidType "Found unkown id but expected RaftMsg, Proposal or ProposalResp")

def VotersFit : Option (List ℕ × List ℕ) → Prop
  | some (voters,followers) => PidsFit voters ∧ PidsFit followers
  | none => True

def BroadcastFits : AtomicBroadcastMsg → Prop
  | .proposal p => p.data.length < 2 ^ 32 ∧ VotersFit p.reconfig
  | .proposalResp pr => pr.data.length < 2 ^ 32 ∧ pr.latestLeader < 2 ^ 64
  | .firstLeader pid => pid < 2 ^ 64
  | .pendingReconfiguration data => data.length < 2 ^ 32

def normaliseVoters : Option (List ℕ × List ℕ) → Option (List ℕ × List ℕ)
  | some ([],[]) => none
  | reconfig => reconfig

-- What the format cannot tell apart: an empty reconfiguration and none at all.
def normaliseBroadcast : AtomicBroadcastMsg → AtomicBroadcastMsg
  | .proposal p => .proposal {p with reconfig := normaliseVoters p.reconfig}
  | m => m

end Broadcast

section Responses

@[match_pattern] abbrev reconfigId : ℕ := 0

inductive Response where
  | normal (id : ℕ)
  | reconfiguration (config : List ℕ)
  deriving DecidableEq, Repr

def deserialiseResponse : Reader Response := do
  match ← getU64 with
  | reconfigId =>
    let config ← getList getU64
    return .reconfiguration config
  | n => return .normal n

def proposeNormal (id : ℕ) : Proposal := ⟨putU64 id,none⟩

-- The replica answers with the data that was proposed.
def normalResponse (p : Proposal) (latestLeader : ℕ) : ProposalResp := ⟨p.data,latestLeader⟩

def reconfigResponse (nodes : Reconfig) : ProposalResp :=
  ⟨putU64 reconfigId ++ (putU32 (nodes.continuedNodes.length + nodes.newNodes.length) ++
    (nodes.continuedNodes ++ nodes.newNodes).flatMap putU64),0⟩

end Responses

section Control
variable {ActorPath : Type}

inductive KVOperation where
  | readInvokation
  | readResponse
  | writeInvokation
  | writeResponse
  deriving DecidableEq, Repr

structure KVTimestamp where
  key : ℕ
  operation : KVOperation
  value : Option ℕ
  time : ℤ
  sender : ℕ
  deriving DecidableEq, Repr

structure Init (ActorPath : Type) where
  pid : ℕ
  initId : ℕ
  nodes : List ActorPath
  initData : Option (List UInt8)
  deriving DecidableEq, Repr

inductive PartitioningActorMsg (ActorPath : Type) where
  | init (i : Init ActorPath)
  | initAck (id : ℕ)
  | run
  | done
  | testDone (timestamps : List KVTimestamp)
  | stop
  | stopAck
  deriving DecidableEq, Repr

-- The codec of actor paths belongs to the actor library. It is used for any path:
-- it may not fail, and it reads back what it wrote and no further.
structure PathCodec (ActorPath : Type) where
  serialise : ActorPath → Option (List UInt8)
  deserialise : Reader ActorPath

def PathCodec.RoundTrips (codec : PathCodec ActorPath) : Prop :=
  ∀ path, ∃ bytes, codec.serialise path = some bytes ∧ Reads codec.deserialise bytes path

@[match_pattern] abbrev initMsgId : ℕ := 1
@[match_pattern] abbrev initAckId : ℕ := 2
@[match_pattern] abbrev runId : ℕ := 3
@[match_pattern] abbrev doneId : ℕ := 4
@[match_pattern] abbrev testDoneId : ℕ := 5
@[match_pattern] abbrev stopId : ℕ := 6
@[match_pattern] abbrev stopAckId : ℕ := 13

@[match_pattern] abbrev readInv : ℕ := 8
@[match_pattern] abbrev readResp : ℕ := 9
@[match_pattern] abbrev writeInv : ℕ := 10
@[match_pattern] abbrev writeResp : ℕ := 11

-- The payload of a timestamp depends on its operation, and a missing value panics.
def serialiseOperation (ts : KVTimestamp) : Option (List UInt8) :=
  match ts.operation with
  | .readInvokation => some (putU8 readInv)
  | .readResponse => ts.value.map fun value => putU8 readResp ++ putU32 value
  | .writeInvokation => ts.value.map fun value => putU8 writeInv ++ putU32 value
  | .writeResponse => ts.value.map fun value => putU8 writeResp ++ putU32 value

def serialiseTimestamp (ts : KVTimestamp) : Option (List UInt8) := do
  let operation ← serialiseOperation ts
  return putU64 ts.key ++ (operation ++ (putI64 ts.time ++ putU32 ts.sender))

def serialiseInitData : Option (List UInt8) → List UInt8
  | some data => putU64 data.length ++ data
  | none => putU64 0

def serialiseControl (codec : PathCodec ActorPath) : PartitioningActorMsg ActorPath → Option (List UInt8)
  | .init i => do
    let nodes ← putAll codec.serialise i.nodes
    return putU8 initMsgId ++ (putU32 i.pid ++ (putU32 i.initId ++ (serialiseInitData i.initData ++
      (putU32 i.nodes.length ++ nodes))))
  | .initAck id => some (putU8 initAckId ++ putU32 id)
  | .run => some (putU8 runId)
  | .done => some (putU8 doneId)
  | .testDone timestamps => do
    let all ← putAll serialiseTimestamp timestamps
    return putU8 testDoneId ++ (putU32 timestamps.length ++ all)
  | .stop => some (putU8 stopId)
  | .stopAck => some (putU8 stopAckId)

def deserialiseInitData : Reader (Option (List UInt8)) := do
  match ← getU64 with
  | 0 => return none
  | dataLen =>
    let data ← getMany getByte dataLen
    return some data

def deserialiseOperation : Reader (KVOperation × Option ℕ) := do
  match ← getU8 with
  | readInv => return (.readInvokation,none)
  | readResp =>
    let value ← getU32
    return (.readResponse,some value)
  | writeInv =>
    let value ← getU32
    return (.writeInvokation,some value)
  | writeResp =>
    let value ← getU32
    return (.writeResponse,some value)
  | _ => throw (.panicked "Found unknown KVOperation id")

def deserialiseTimestamp : Reader KVTimestamp := do
  let key ← getU64
  let operation ← deserialiseOperation
  let time ← getI64
  let sender ← getU32
  return ⟨key,operation.1,operation.2,time,sender⟩

def deserialiseControl (codec : PathCodec ActorPath) : Reader (PartitioningActorMsg ActorPath) := do
  match ← getU8 with
  | initMsgId =>
    let pid ← getU32
    let initId ← getU32
    let initData ← deserialiseInitData
    let nodes ← getList codec.deserialise
    return .init ⟨pid,initId,nodes,initData⟩
  | initAckId =>
    let initId ← getU32
    return .initAck initId
  | runId => return .run
  | doneId => return .done
  | testDoneId =>
    let timestamps ← getList deserialiseTimestamp
    return .testDone timestamps
  | stopId => return .stop
  | stopAckId => return .stopAck
  | _ => throw (.invalidType "Found unkown id, but expected PartitioningActorMsg.")

-- A value is there exactly when the operation carries one.
def TimestampFits (ts : KVTimestamp) : Prop :=
  ts.key < 2 ^ 64 ∧ (∀ value, ts.value = some value → value < 2 ^ 32) ∧
    (-2 ^ 63 ≤ ts.time ∧ ts.time < 2 ^ 63) ∧ ts.sender < 2 ^ 32 ∧
    (ts.value.isSome ↔ ts.operation ≠ .readInvokation)

def ControlFits : PartitioningActorMsg ActorPath → Prop
  | .init i =>
    i.pid < 2 ^ 32 ∧ i.initId < 2 ^ 32 ∧ i.nodes.length < 2 ^ 32 ∧
      ∀ data, i.initData = some data → data.length < 2 ^ 32
  | .initAck id => id < 2 ^ 32
  | .testDone timestamps => timestamps.length < 2 ^ 32 ∧ ∀ ts ∈ timestamps, TimestampFits ts
  | _ => True

def normaliseInitData : Option (List UInt8) → Option (List UInt8)
  | some [] => none
  | initData => initData

def normaliseControl : PartitioningActorMsg ActorPath → PartitioningActorMsg ActorPath
  | .init i => .init {i with initData := normaliseInitData i.initData}
  | m => m

end Control

section RoundTrip
variable {ActorPath : Type} {codec : PathCodec ActorPath}

theorem reads_broadcast {m : AtomicBroadcastMsg} (fits : BroadcastFits m) :
    Reads deserialiseBroadcast (serialiseBroadcast m) (normaliseBroadcast m) := by
  cases m with
  | proposal p =>
    obtain ⟨data,reconfig⟩ := p
    obtain ⟨dataFits,votersFit⟩ := fits
    apply (reads_u8 (by decide)).bind
    apply (reads_bytes dataFits).bind
    cases reconfig with
    | none =>
      have absent : PidsFit [] := ⟨by decide,by simp⟩
      apply (reads_pids absent).bind
      exact (reads_pids absent).last rfl
    | some both =>
      obtain ⟨voters,followers⟩ := both
      apply (reads_pids votersFit.1).bind
      apply (reads_pids votersFit.2).last
      cases voters with
      | nil => cases followers <;> rfl
      | cons voter voters => rfl
  | proposalResp pr =>
    apply (reads_u8 (by decide)).bind
    apply (reads_u64 fits.2).bind
    exact (reads_bytes fits.1).last rfl
  | firstLeader pid =>
    apply (reads_u8 (by decide)).bind
    exact (reads_u64 fits).last rfl
  | pendingReconfiguration data =>
    apply (reads_u8 (by decide)).bind
    exact (reads_bytes fits).last rfl

theorem reads_normal {id : ℕ} (positive : 1 ≤ id) (fits : id < 2 ^ 64) :
    Reads deserialiseResponse (putU64 id) (.normal id) := by
  apply (reads_u64 fits).last
  cases id with
  | zero => omega
  | succ id => rfl

theorem reads_reconfigResponse {nodes : Reconfig}
    (fits : PidsFit (nodes.continuedNodes ++ nodes.newNodes)) :
    Reads deserialiseResponse (reconfigResponse nodes).data
      (.reconfiguration (nodes.continuedNodes ++ nodes.newNodes)) := by
  have config := reads_pids fits
  rw [putList,List.length_append] at config
  exact (reads_u64 (by decide)).bind (config.last rfl)

theorem reads_initData {initData : Option (List UInt8)}
    (fits : ∀ data, initData = some data → data.length < 2 ^ 32) :
    Reads deserialiseInitData (serialiseInitData initData) (normaliseInitData initData) := by
  cases initData with
  | none => exact (reads_u64 (by decide)).last rfl
  | some data =>
    have short := fits data rfl
    have each : Reads (getMany getByte data.length) (data.flatMap fun byte => [byte]) data :=
      reads_many fun byte _ => reads_byte byte
    rw [List.flatMap_singleton'] at each
    apply (reads_u64 (by omega)).bind
    cases data with
    | nil => exact Reads.pure none
    | cons byte data => exact each.last rfl

theorem reads_operation {ts : KVTimestamp} (range : ∀ value, ts.value = some value → value < 2 ^ 32)
    (carried : ts.value.isSome ↔ ts.operation ≠ .readInvokation) :
    ∃ bytes, serialiseOperation ts = some bytes ∧
      Reads deserialiseOperation bytes (ts.operation,ts.value) := by
  obtain ⟨key,operation,value,time,sender⟩ := ts
  cases value with
  | none =>
    have invoked : operation = .readInvokation := by simpa using carried
    subst invoked
    exact ⟨_,rfl,(reads_u8 (by decide)).last rfl⟩
  | some value =>
    have payload := reads_u32 (range value rfl)
    cases operation with
    | readInvokation => simp at carried
    | readResponse => exact ⟨_,rfl,(reads_u8 (by decide)).bind (payload.last rfl)⟩
    | writeInvokation => exact ⟨_,rfl,(reads_u8 (by decide)).bind (payload.last rfl)⟩
    | writeResponse => exact ⟨_,rfl,(reads_u8 (by decide)).bind (payload.last rfl)⟩

theorem reads_timestamp {ts : KVTimestamp} (fits : TimestampFits ts) :
    ∃ bytes, serialiseTimestamp ts = some bytes ∧ Reads deserialiseTimestamp bytes ts := by
  obtain ⟨key,range,⟨lower,upper⟩,sender,carried⟩ := fits
  obtain ⟨bytes,written,reads⟩ := reads_operation range carried
  refine ⟨putU64 ts.key ++ (bytes ++ (putI64 ts.time ++ putU32 ts.sender)),?_,?_⟩
  · simp [serialiseTimestamp,written]
  · apply (reads_u64 key).bind
    apply reads.bind
    apply (reads_i64 lower upper).bind
    exact (reads_u32 sender).last rfl

theorem reads_control {m : PartitioningActorMsg ActorPath} (paths : codec.RoundTrips)
    (fits : ControlFits m) :
    ∃ bytes, serialiseControl codec m = some bytes ∧
      Reads (deserialiseControl codec) bytes (normaliseControl m) := by
  cases m with
  | init i =>
    obtain ⟨pid,initId,count,data⟩ := fits
    have each : ∀ path ∈ i.nodes, ∃ bytes, codec.serialise path = some bytes ∧
        Reads codec.deserialise bytes path := fun path _ => paths path
    obtain ⟨nodes,written,reads⟩ := reads_all each
    refine ⟨_,by simp only [serialiseControl,written]; rfl,?_⟩
    apply (reads_u8 (by decide)).bind
    apply (reads_u32 pid).bind
    apply (reads_u32 initId).bind
    apply (reads_initData data).bind
    exact ((reads_u32 count).bind reads).last rfl
  | initAck id => exact ⟨_,rfl,(reads_u8 (by decide)).bind ((reads_u32 fits).last rfl)⟩
  | run => exact ⟨_,rfl,(reads_u8 (by decide)).last rfl⟩
  | done => exact ⟨_,rfl,(reads_u8 (by decide)).last rfl⟩
  | testDone timestamps =>
    obtain ⟨count,each⟩ := fits
    obtain ⟨all,written,reads⟩ := reads_all (fun ts member => reads_timestamp (each ts member))
    refine ⟨_,by simp only [serialiseControl,written]; rfl,?_⟩
    apply (reads_u8 (by decide)).bind
    exact ((reads_u32 count).bind reads).last rfl
  | stop => exact ⟨_,rfl,(reads_u8 (by decide)).last rfl⟩
  | stopAck => exact ⟨_,rfl,(reads_u8 (by decide)).last rfl⟩

-- The messages of the client and of the control plane come back as they were sent,
-- but for an empty reconfiguration and for empty initial data, and the client reads
-- from a response what the replica answered.
theorem control_round_trip (paths : codec.RoundTrips) :
    (∀ m rest, BroadcastFits m →
      deserialiseBroadcast.run (serialiseBroadcast m ++ rest) = .ok (normaliseBroadcast m,rest)) ∧
    (∀ m : PartitioningActorMsg ActorPath, ControlFits m →
      ∃ bytes, serialiseControl codec m = some bytes ∧
        ∀ rest, (deserialiseControl codec).run (bytes ++ rest) = .ok (normaliseControl m,rest)) ∧
    (∀ nodes : Reconfig, PidsFit (nodes.continuedNodes ++ nodes.newNodes) →
      deserialiseResponse.run (reconfigResponse nodes).data =
        .ok (.reconfiguration (nodes.continuedNodes ++ nodes.newNodes),[])) ∧
    (∀ id latestLeader, 1 ≤ id → id < 2 ^ 64 →
      deserialiseResponse.run (normalResponse (proposeNormal id) latestLeader).data =
        .ok (.normal id,[])) := by
  refine ⟨?_,?_,?_,?_⟩
  · intro m rest fits
    exact reads_broadcast fits rest
  · intro m fits
    exact reads_control paths fits
  · intro nodes fits
    have response := reads_reconfigResponse fits []
    rwa [List.append_nil] at response
  · intro id latestLeader positive fits
    have response := reads_normal positive fits []
    rwa [List.append_nil] at response

end RoundTrip

section Sample

structure SocketPath where
  address : UInt32
  port : UInt16
  deriving DecidableEq, Repr

def socketPaths : PathCodec SocketPath where
  serialise path := some (putU32 path.address.toNat ++ putUint 2 path.port.toNat)
  deserialise := do
    let address ← getU32
    let port ← getUint 2 0
    return ⟨UInt32.ofNat address,UInt16.ofNat port⟩

theorem socketPaths_roundTrip : socketPaths.RoundTrips := by
  intro path
  refine ⟨_,rfl,?_⟩
  apply (reads_u32 path.address.toNat_lt).bind
  apply (reads_uint path.port.toNat_lt).last
  simp

def initMessage : PartitioningActorMsg SocketPath := .init ⟨1,7,[⟨2130706433,9000⟩],some []⟩

theorem initMessage_normalised :
    ∃ bytes, serialiseControl socketPaths initMessage = some bytes ∧
      ∀ rest, (deserialiseControl socketPaths).run (bytes ++ rest) =
        .ok (.init ⟨1,7,[⟨2130706433,9000⟩],none⟩,rest) := by
  apply (control_round_trip socketPaths_roundTrip).2.1
  simp [ControlFits,initMessage]

end Sample

end KompicsBenches.ControlCodec
