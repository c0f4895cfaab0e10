import KompicsBenches.LeaderComp
import KompicsBenches.Segments

namespace KompicsBenches.ReconfigComp
open LeaderComp Segments

structure StopSign where
  configId : ℕ
  nodes : List ℕ
  skipPrepareUseLeader : Option Leader
  deriving DecidableEq, Repr

inductive Entry where
  | normal (data : List UInt8)
  | stopSign (ss : StopSign)
  deriving DecidableEq, Repr

structure SequenceMetaData where
  configId : ℕ
  len : ℕ
  deriving DecidableEq, Repr

structure SequenceSegment where
  fromIdx : ℕ
  toIdx : ℕ
  entries : List Entry
  deriving DecidableEq, Repr

structure SequenceTransfer where
  configId : ℕ
  tag : ℕ
  succeeded : Bool
  metadata : SequenceMetaData
  segment : SequenceSegment
  deriving DecidableEq, Repr

structure SequenceRequest where
  configId : ℕ
  tag : ℕ
  fromIdx : ℕ
  toIdx : ℕ
  requestorPid : ℕ
  deriving DecidableEq, Repr

structure Reconfig where
  continuedNodes : List ℕ
  newNodes : List ℕ
  deriving DecidableEq, Repr

structure ReconfigInit where
  configId : ℕ
  nodes : Reconfig
  seqMetadata : SequenceMetaData
  sender : ℕ
  segment : Option SequenceSegment
  skipPrepareUseLeader : Option Leader
  deriving DecidableEq, Repr

inductive ReconfigurationMsg where
  | init (r : ReconfigInit)
  | sequenceRequest (sr : SequenceRequest)
  | sequenceTransfer (st : SequenceTransfer)
  deriving DecidableEq, Repr

structure FinalMsg where
  configId : ℕ
  nodes : Reconfig
  finalSequence : List Entry
  skipPrepareUseLeader : Option Leader
  deriving DecidableEq, Repr

inductive ReconfigurationPolicy where
  | eager
  | pull
  deriving DecidableEq, Repr

structure ConfigMeta where
  id : ℕ
  leader : ℕ
  pendingReconfig : Bool
  deriving DecidableEq, Repr

def ConfigMeta.new (id : ℕ) : ConfigMeta := ⟨id,0,false⟩

-- What a handler does besides changing the component: messages to the PaxosComp
-- of a node, to the own replica or to the client, and orders to the child
-- components. `stopPeers` goes to the BLE and the communicator of each node.
inductive Effect where
  | tell (pid : ℕ) (msg : ReconfigurationMsg)
  | localSequenceReq (requestor : ℕ) (sr : SequenceRequest) (metadata : SequenceMetaData)
  | firstLeader (pid : ℕ)
  | reconfigResponse (nodes : List ℕ)
  | setInitialState (configId : ℕ) (skipPrepareUseLeader : Option Leader)
  | startReplica (configId : ℕ)
  | stopReplicas (count : ℕ)
  | stopPeers (configId : ℕ) (peers : List ℕ)
  deriving DecidableEq, Repr

-- Replicas, BLE components and communicators are created together, so one number
-- counts each of them. A scheduled retry keeps the arguments of its closure. The
-- actor path of a node is its pid.
structure PaxosComp where
  pid : ℕ
  replicas : ℕ
  activeConfig : ConfigMeta
  prevSequences : ℕ → Option (List Entry)
  stopped : Bool
  policy : ReconfigurationPolicy
  nextConfigId : Option ℕ
  pendingSeqTransfers : List (List ℕ × List Entry)
  completeSequences : List ℕ
  activePeers : List ℕ × List ℕ
  retryTransferTimers : ℕ → Option (ℕ × ℕ)
  firstConfigId : ℕ

-- The state after the Init of the partitioning actor.
def PaxosComp.init (initial reconfiguration : List ℕ) (policy : ReconfigurationPolicy) (pid : ℕ) :
    PaxosComp where
  pid := pid
  replicas := (if pid ∈ initial then 1 else 0) + if pid ∈ reconfiguration then 1 else 0
  activeConfig := .new 0
  prevSequences := fun _ => none
  stopped := false
  policy := policy
  nextConfigId := if pid ∈ initial then some 1 else none
  pendingSeqTransfers := []
  completeSequences := []
  activePeers := ([],[])
  retryTransferTimers := fun _ => none
  firstConfigId := if pid ∈ initial then 1 else if pid ∈ reconfiguration then 2 else 0

namespace PaxosComp
variable (c : PaxosComp)

-- The index of a replica, `none` where the source finds no replica and panics.
def replicaIdx (configId : ℕ) : Option ℕ :=
  if c.firstConfigId ≤ configId ∧ configId - c.firstConfigId < c.replicas then
    some (configId - c.firstConfigId)
  else none

def setInitialReplicaStateAfterReconfig (configId : ℕ) (skipPrepareUseLeader : Option Leader) :
    Option (List Effect) :=
  (c.replicaIdx configId).map fun _ => [.setInitialState configId skipPrepareUseLeader]

def startReplica (configId : ℕ) : Option (PaxosComp × List Effect) :=
  (c.replicaIdx configId).map fun _ =>
    ({c with activeConfig := .new configId,nextConfigId := none},[.startReplica configId])

def stopComponents : Option (PaxosComp × List Effect) :=
  let c := {c with stopped := true,retryTransferTimers := fun _ => none}
  if c.replicas = 0 then none
  else if c.activeConfig.id < c.replicas then
    (c.startReplica (if c.activeConfig.id = 0 then c.firstConfigId else c.replicas)).map
      fun (c,started) => (c,.stopReplicas c.replicas :: started)
  else some (c,[.stopReplicas c.replicas])

def requestSequence (pid configId fromIdx toIdx tag : ℕ) : Effect :=
  .tell pid (.sequenceRequest ⟨configId,tag,fromIdx,toIdx,c.pid⟩)

-- One of the two loops of `pull_sequence`, over peers whose segments start at
-- number `first`.
def requestSegments (configId seqLen offset skip first : ℕ) (peers : List ℕ) : List Effect :=
  peers.zipIdx.filterMap fun (pid,i) =>
    let fromIdx := (first + i) * offset
    let toIdx := if seqLen < fromIdx + offset then seqLen else fromIdx + offset
    let tag := first + i + 1
    if tag ≠ skip then some (c.requestSequence pid configId fromIdx toIdx tag) else none

-- Tags 1 to `count`, and a placeholder for every entry.
def expectSegments (configId seqLen count : ℕ) : Option PaxosComp :=
  if 1 ≤ configId ∧ configId - 1 < c.pendingSeqTransfers.length then
    some {c with
      pendingSeqTransfers := c.pendingSeqTransfers.set (configId - 1)
        (List.range' 1 count,List.replicate seqLen (.normal []))
      retryTransferTimers := Function.update c.retryTransferTimers configId (some (seqLen,count))}
  else none

-- The division panics without continued nodes.
def pullSequence (configId seqLen : ℕ) (skipTag : Option ℕ) : Option (PaxosComp × List Effect) :=
  let numContinuedNodes := c.activePeers.1.length + c.activePeers.2.length
  if numContinuedNodes = 0 then none
  else
    let offset := seqLen / numContinuedNodes
    let skip := skipTag.getD 0
    (c.expectSegments configId seqLen numContinuedNodes).map fun c =>
      (c,c.requestSegments configId seqLen offset skip 0 c.activePeers.2 ++
        c.requestSegments configId seqLen offset skip c.activePeers.2.length c.activePeers.1)

-- The pending transfers are looked up at `config_id`, not at `config_id - 1`.
def retryRequestSequence (configId seqLen totalSegments : ℕ) : Option (PaxosComp × List Effect) :=
  match c.pendingSeqTransfers[configId]? with
  | none => some (c,[])
  | some (remSegments,_) =>
    if totalSegments = 0 then none
    else
      let offset := seqLen / totalSegments
      let requests := remSegments.filterMap fun tag =>
        (c.activePeers.1[(tag - 1) % c.activePeers.1.length]?).map fun pid =>
          c.requestSequence pid configId ((tag - 1) * offset) ((tag - 1) * offset + offset) tag
      some ({c with
        retryTransferTimers :=
          Function.update c.retryTransferTimers configId (some (seqLen,totalSegments))},requests)

def getSequenceMetadata (configId : ℕ) : SequenceMetaData :=
  ⟨configId,match c.prevSequences configId with
    | some prevSeq => prevSeq.length
    | none => 0⟩

def appendTransferredSegment (st : SequenceTransfer) : Option PaxosComp :=
  (c.pendingSeqTransfers[st.configId - 1]?).bind fun (remTransfers,sequence) =>
    (overwrite sequence st.segment.fromIdx st.segment.entries).map fun sequence =>
      {c with
        pendingSeqTransfers := c.pendingSeqTransfers.set (st.configId - 1)
          (remTransfers.filter (· ≠ st.tag),sequence)}

def getContinuedIdx (continuedNodes : List ℕ) : Option ℕ := continuedNodes.findIdx? (· = c.pid)

def createSegment (continuedNodes : List ℕ) (configId : ℕ) : Option SequenceSegment :=
  (c.getContinuedIdx continuedNodes).bind fun index =>
    (c.prevSequences configId).bind fun finalSeq =>
      let offset := finalSeq.length / continuedNodes.length
      let fromIdx := index * offset
      let toIdx := fromIdx + offset
      (slice finalSeq fromIdx toIdx).map (⟨fromIdx,toIdx,·⟩)

def createEagerSequenceTransfer (continuedNodes : List ℕ) (configId : ℕ) : Option SequenceTransfer :=
  (c.getContinuedIdx continuedNodes).bind fun index =>
    (c.createSegment continuedNodes configId).map fun segment =>
      ⟨configId,index + 1,true,c.getSequenceMetadata (configId - 1),segment⟩

def replySequence (sr : SequenceRequest) (requestor : ℕ) (metadata : SequenceMetaData)
    (succeeded : Bool) (entries : List Entry) : Effect :=
  .tell requestor (.sequenceTransfer
    ⟨sr.configId,sr.tag,succeeded,metadata,⟨sr.fromIdx,sr.toIdx,entries⟩⟩)

def handleSequenceRequest (sr : SequenceRequest) (requestor : ℕ) : Option (List Effect) :=
  let metadata := c.getSequenceMetadata (sr.configId - 1)
  if c.activeConfig.leader = sr.requestorPid then some []
  else
    match c.prevSequences sr.configId with
    | some seq => (slice seq sr.fromIdx sr.toIdx).map fun entries =>
      [replySequence sr requestor metadata true entries]
    | none =>
      if c.activeConfig.id = sr.configId then
        (c.replicaIdx c.activeConfig.id).map fun _ => [.localSequenceReq requestor sr metadata]
      else some [replySequence sr requestor metadata false []]

-- A late transfer is ignored.
def late (st : SequenceTransfer) : Bool :=
  st.configId < c.activeConfig.id || st.configId ∈ c.completeSequences ||
    c.nextConfigId.getD 0 ≤ st.configId

-- Pulls the previous sequence if it exists and has not been asked for.
def pullPrevious (metadata : SequenceMetaData) : Option (PaxosComp × List Effect) :=
  if metadata.configId ≠ 0 ∧ metadata.configId ∉ c.completeSequences then
    match c.pendingSeqTransfers[metadata.configId - 1]? with
    | some ([],_) => c.pullSequence metadata.configId metadata.len none
    | _ => some (c,[])
  else some (c,[])

-- Stores the sequence once no tag remains and starts the replica once no
-- sequence remains.
def completeTransfer (configId : ℕ) : Option (PaxosComp × List Effect) :=
  (c.pendingSeqTransfers[configId - 1]?).bind fun (remSegments,sequence) =>
    if remSegments = [] then
      let c := {c with
        completeSequences := c.completeSequences ++ [configId]
        pendingSeqTransfers := c.pendingSeqTransfers.set (configId - 1) ([],[])
        prevSequences := Function.update c.prevSequences configId (some sequence)
        retryTransferTimers := Function.update c.retryTransferTimers configId none}
      c.nextConfigId.bind fun next =>
        if c.completeSequences.length + 1 = next then
          startReplica {c with completeSequences := []} next
        else some (c,[])
    else some (c,[])

-- `rnd` is the random number that picks a ready peer after a failed transfer.
def handleSequenceTransfer (st : SequenceTransfer) (rnd : ℕ) : Option (PaxosComp × List Effect) :=
  if c.late st then some (c,[])
  else
    (c.pullPrevious st.metadata).bind fun (c,pulled) =>
      if st.succeeded then
        (c.appendTransferredSegment st).bind fun c =>
          (c.completeTransfer st.configId).map fun (c,started) => (c,pulled ++ started)
      else if c.activePeers.1 = [] then some (c,pulled)
      else
        (c.activePeers.1[rnd]?).map fun pid =>
          (c,pulled ++
            [c.requestSequence pid st.configId st.segment.fromIdx st.segment.toIdx st.tag])

-- The tag under which the segment of a ReconfigInit is accounted.
def skipTag (r : ReconfigInit) : Option (Option ℕ) :=
  match r.segment with
  | none => some none
  | some _ => (c.activePeers.1.findIdx? (· = r.sender)).map fun index =>
    some (c.activePeers.2.length + index + 1)

-- The first ReconfigInit of a configuration.
def openTransfer (r : ReconfigInit) (rnd : ℕ) : Option (PaxosComp × List Effect) :=
  let c := {c with nextConfigId := some r.configId}
  (c.setInitialReplicaStateAfterReconfig r.configId r.skipPrepareUseLeader).bind fun prepared =>
    let c := {c with
      activePeers := (c.activePeers.1 ++ r.nodes.continuedNodes.filter (· = r.sender),
        c.activePeers.2 ++ r.nodes.continuedNodes.filter (· ≠ r.sender))}
    let metadata := r.seqMetadata
    if metadata.len = 1 ∧ metadata.configId = 1 then
      -- Only the stop sign is in the final sequence.
      let c := {c with
        prevSequences := Function.update c.prevSequences metadata.configId (some [])}
      (c.startReplica r.configId).map fun (c,started) => (c,prepared ++ started)
    else
      let c := {c with pendingSeqTransfers := List.replicate r.configId ([],[])}
      (c.skipTag r).bind fun skipTag =>
        (match c.policy with
        | .pull => c.pullSequence metadata.configId metadata.len skipTag
        | .eager => (c.expectSegments metadata.configId metadata.len
          r.nodes.continuedNodes.length).map (·,[])).bind fun (c,asked) =>
            match skipTag,r.segment with
            | some tag,some segment =>
              (c.handleSequenceTransfer ⟨metadata.configId,tag,true,metadata,segment⟩ rnd).map
                fun (c,effects) => (c,prepared ++ asked ++ effects)
            | _,_ => some (c,prepared ++ asked)

def receiveInit (r : ReconfigInit) (rnd : ℕ) : Option (PaxosComp × List Effect) :=
  if c.stopped then
    some (c,[.stopPeers r.configId (r.nodes.continuedNodes ++ r.nodes.newNodes)])
  else if r.configId ≤ c.activeConfig.id then some (c,[])
  else
    match c.nextConfigId with
    | none => c.openTransfer r rnd
    | some next =>
      if next = r.configId ∧ r.sender ∈ r.nodes.continuedNodes then
        -- `retain` keeps the sender and drops the others.
        some ({c with
          activePeers := (c.activePeers.1 ++ [r.sender],c.activePeers.2.filter (· = r.sender))},[])
      else some (c,[])

def receiveNetwork (msg : ReconfigurationMsg) (sender rnd : ℕ) : Option (PaxosComp × List Effect) :=
  match msg with
  | .init r => c.receiveInit r rnd
  | .sequenceRequest sr =>
    if c.stopped then some (c,[]) else (c.handleSequenceRequest sr sender).map (c,·)
  | .sequenceTransfer st =>
    if c.stopped then some (c,[]) else c.handleSequenceTransfer st rnd

-- The Run of the partitioning actor.
def receiveRun : Option (PaxosComp × List Effect) :=
  match c.nextConfigId with
  | some configId => c.startReplica configId
  | none => some (c,[])

-- Proposals held back until there is a leader are not modelled.
def receiveLeader (configId pid : ℕ) : PaxosComp × List Effect :=
  if c.activeConfig.id = configId then
    ({c with activeConfig := {c.activeConfig with leader := pid}},
      if c.activeConfig.leader = 0 ∧ pid = c.pid then [.firstLeader pid] else [])
  else (c,[])

-- The segment that the leader sends along with its ReconfigInit.
def leaderSegment (r : FinalMsg) : Option (Option SequenceSegment) :=
  if c.activeConfig.leader = c.pid then
    (c.createSegment r.nodes.continuedNodes (r.configId - 1)).map some
  else some none

def eagerTransfers (r : FinalMsg) (prevConfigId : ℕ) : Option (List Effect) :=
  match c.policy with
  | .eager => (c.createEagerSequenceTransfer r.nodes.continuedNodes prevConfigId).map fun st =>
    r.nodes.newNodes.map (.tell · (.sequenceTransfer st))
  | .pull => some []

-- A continued node goes on with its replica of the next configuration.
def continueReplica (r : FinalMsg) (prevConfigId : ℕ) : Option (PaxosComp × List Effect) :=
  if c.pid ∈ r.nodes.continuedNodes then
    (c.eagerTransfers r prevConfigId).bind fun transfers =>
      (c.setInitialReplicaStateAfterReconfig r.configId r.skipPrepareUseLeader).bind fun prepared =>
        (c.startReplica r.configId).map fun (c,started) => (c,transfers ++ prepared ++ started)
  else some (c,[])

def receiveReconfig (r : FinalMsg) : Option (PaxosComp × List Effect) :=
  let prevConfigId := c.activeConfig.id
  let seqMetadata : SequenceMetaData := ⟨prevConfigId,r.finalSequence.length⟩
  let c := {c with
    prevSequences := Function.update c.prevSequences prevConfigId (some r.finalSequence)}
  (c.leaderSegment r).bind fun segment =>
    let rInit : ReconfigInit :=
      ⟨r.configId,r.nodes,seqMetadata,c.pid,segment,r.skipPrepareUseLeader⟩
    let response := Effect.reconfigResponse (r.nodes.continuedNodes ++ r.nodes.newNodes)
    (c.continueReplica r prevConfigId).map fun (c,effects) =>
      (c,response :: r.nodes.newNodes.map (.tell · (.init rInit)) ++ effects)

end PaxosComp

end KompicsBenches.ReconfigComp
