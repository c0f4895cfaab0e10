import KompicsBenches.Wire
import KompicsBenches.ReconfigComp

namespace KompicsBenches.PaxosCodec
open Wire
open LeaderComp (Ballot Leader)
open ReconfigComp (Entry StopSign SequenceMetaData SequenceSegment SequenceTransfer SequenceRequest
  Reconfig ReconfigInit ReconfigurationMsg)

structure Prepare where
  n : Ballot
  nAccepted : Ballot
  ld : ℕ
  sfxLen : ℕ
  deriving DecidableEq, Repr

structure Promise where
  n : Ballot
  nAccepted : Ballot
  ld : ℕ
  sfx : List Entry
  deriving DecidableEq, Repr

structure AcceptSync where
  n : Ballot
  ld : ℕ
  sync : Bool
  entries : List Entry
  deriving DecidableEq, Repr

structure FirstAccept where
  n : Ballot
  entries : List Entry
  deriving DecidableEq, Repr

structure AcceptDecide where
  n : Ballot
  ld : ℕ
  entries : List Entry
  deriving DecidableEq, Repr

structure Accepted where
  n : Ballot
  la : ℕ
  deriving DecidableEq, Repr

structure Decide where
  n : Ballot
  ld : ℕ
  deriving DecidableEq, Repr

inductive PaxosMsg where
  | prepareReq
  | prepare (p : Prepare)
  | promise (p : Promise)
  | acceptSync (accSync : AcceptSync)
  | firstAccept (f : FirstAccept)
  | acceptDecide (a : AcceptDecide)
  | accepted (acc : Accepted)
  | decided (d : Decide)
  | proposalForward (entries : List Entry)
  deriving DecidableEq, Repr

structure Message where
  sender : ℕ
  receiver : ℕ
  msg : PaxosMsg
  deriving DecidableEq, Repr

-- The constructors of the Paxos library, with the arguments in the order in which
-- the decoder hands them over. The library itself is not part of the repository.
structure LeaderPaxos where
  prepare : Ballot → ℕ → Ballot → ℕ → Prepare
  promise : Ballot → Ballot → List Entry → ℕ → Promise
  acceptSync : Ballot → List Entry → ℕ → Bool → AcceptSync
  acceptDecide : Ballot → ℕ → List Entry → AcceptDecide
  accepted : Ballot → ℕ → Accepted
  decided : ℕ → Ballot → Decide
  firstAccept : Ballot → List Entry → FirstAccept
  message : ℕ → ℕ → PaxosMsg → Message
  stopSign : ℕ → List ℕ → Option Leader → StopSign
  leader : ℕ → Ballot → Leader

-- Each constructor stores the arguments under their names.
structure LeaderPaxos.Stores (lib : LeaderPaxos) : Prop where
  prepare : ∀ n ld nAccepted sfxLen, lib.prepare n ld nAccepted sfxLen = ⟨n,nAccepted,ld,sfxLen⟩
  promise : ∀ n nAccepted sfx ld, lib.promise n nAccepted sfx ld = ⟨n,nAccepted,ld,sfx⟩
  acceptSync : ∀ n entries ld sync, lib.acceptSync n entries ld sync = ⟨n,ld,sync,entries⟩
  acceptDecide : ∀ n ld entries, lib.acceptDecide n ld entries = ⟨n,ld,entries⟩
  accepted : ∀ n la, lib.accepted n la = ⟨n,la⟩
  decided : ∀ ld n, lib.decided ld n = ⟨n,ld⟩
  firstAccept : ∀ n entries, lib.firstAccept n entries = ⟨n,entries⟩
  message : ∀ sender receiver msg, lib.message sender receiver msg = ⟨sender,receiver,msg⟩
  stopSign : ∀ configId nodes leader, lib.stopSign configId nodes leader = ⟨configId,nodes,leader⟩
  leader : ∀ pid round, lib.leader pid round = ⟨pid,round⟩

@[match_pattern] abbrev prepareId : ℕ := 1
@[match_pattern] abbrev promiseId : ℕ := 2
@[match_pattern] abbrev acceptSyncId : ℕ := 3
@[match_pattern] abbrev acceptDecideId : ℕ := 4
@[match_pattern] abbrev acceptedId : ℕ := 5
@[match_pattern] abbrev decideId : ℕ := 6
@[match_pattern] abbrev proposalForwardId : ℕ := 7
@[match_pattern] abbrev firstAcceptId : ℕ := 8
@[match_pattern] abbrev prepareReqId : ℕ := 9

@[match_pattern] abbrev normalEntryId : ℕ := 1
@[match_pattern] abbrev ssEntryId : ℕ := 2

@[match_pattern] abbrev reconfigInitId : ℕ := 1
@[match_pattern] abbrev seqReqId : ℕ := 2
@[match_pattern] abbrev seqTransferId : ℕ := 3

section Write

def serialiseBallot (ballot : Ballot) : List UInt8 := putU64 ballot.n ++ putU64 ballot.pid

def serialiseLeader : Option Leader → List UInt8
  | some l => putU8 1 ++ (putU64 l.pid ++ serialiseBallot l.round)
  | none => putU8 0

def serialiseEntry : Entry → List UInt8
  | .normal data => putU8 normalEntryId ++ putBytes data
  | .stopSign ss =>
    putU8 ssEntryId ++ (putU32 ss.configId ++ (putList putU64 ss.nodes ++
      serialiseLeader ss.skipPrepareUseLeader))

def serialiseEntries (ents : List Entry) : List UInt8 := putList serialiseEntry ents

def flag (b : Bool) : ℕ := if b then 1 else 0

def serialiseMsg : PaxosMsg → List UInt8
  | .prepareReq => putU8 prepareReqId
  | .prepare p =>
    putU8 prepareId ++ (serialiseBallot p.n ++ (serialiseBallot p.nAccepted ++
      (putU64 p.ld ++ putU64 p.sfxLen)))
  | .promise p =>
    putU8 promiseId ++ (serialiseBallot p.n ++ (serialiseBallot p.nAccepted ++
      (putU64 p.ld ++ serialiseEntries p.sfx)))
  | .acceptSync accSync =>
    putU8 acceptSyncId ++ (putU64 accSync.ld ++ (putU8 (flag accSync.sync) ++
      (serialiseBallot accSync.n ++ serialiseEntries accSync.entries)))
  | .firstAccept f => putU8 firstAcceptId ++ (serialiseBallot f.n ++ serialiseEntries f.entries)
  | .acceptDecide a =>
    putU8 acceptDecideId ++ (putU64 a.ld ++ (serialiseBallot a.n ++ serialiseEntries a.entries))
  | .accepted acc => putU8 acceptedId ++ (serialiseBallot acc.n ++ putU64 acc.la)
  | .decided d => putU8 decideId ++ (serialiseBallot d.n ++ putU64 d.ld)
  | .proposalForward entries => putU8 proposalForwardId ++ serialiseEntries entries

def serialise (m : Message) : List UInt8 := putU64 m.sender ++ (putU64 m.receiver ++ serialiseMsg m.msg)

def serialiseSegment : Option SequenceSegment → List UInt8
  | some segment =>
    putU8 1 ++ (putU64 segment.fromIdx ++ (putU64 segment.toIdx ++ serialiseEntries segment.entries))
  | none => putU8 0

def serialiseReconfig : ReconfigurationMsg → List UInt8
  | .init r =>
    putU8 reconfigInitId ++ (putU32 r.configId ++ (putU64 r.sender ++
      (putU32 r.seqMetadata.configId ++ (putU64 r.seqMetadata.len ++
      (putList putU64 r.nodes.continuedNodes ++ (putList putU64 r.nodes.newNodes ++
      (serialiseSegment r.segment ++ serialiseLeader r.skipPrepareUseLeader)))))))
  | .sequenceRequest sr =>
    putU8 seqReqId ++ (putU32 sr.configId ++ (putU32 sr.tag ++
      (putU64 sr.fromIdx ++ (putU64 sr.toIdx ++ putU64 sr.requestorPid))))
  | .sequenceTransfer st =>
    putU8 seqTransferId ++ (putU32 st.configId ++ (putU32 st.tag ++ (putU8 (flag st.succeeded) ++
      (putU64 st.segment.fromIdx ++ (putU64 st.segment.toIdx ++
      (putU32 st.metadata.configId ++ (putU64 st.metadata.len ++
      serialiseEntries st.segment.entries)))))))

end Write

section Read
variable (lib : LeaderPaxos)

def deserialiseBallot : Reader Ballot := do
  let n ← getU64
  let pid ← getU64
  return ⟨n,pid⟩

-- Any flag but 1 stands for no leader.
def deserialiseLeader : Reader (Option Leader) := do
  match ← getU8 with
  | 1 =>
    let pid ← getU64
    let ballot ← deserialiseBallot
    return some (lib.leader pid ballot)
  | _ => return none

def deserialiseEntry : Reader Entry := do
  match ← getU8 with
  | normalEntryId =>
    let data ← getBytes
    return .normal data
  | ssEntryId =>
    let configId ← getU32
    let nodes ← getList getU64
    let skipPrepareUseLeader ← deserialiseLeader lib
    return .stopSign (lib.stopSign configId nodes skipPrepareUseLeader)
  | errorId => throw (.panicked s!"Got unexpected id in deserialise_entry: {errorId}")

def deserialiseEntries : Reader (List Entry) := getList (deserialiseEntry lib)

def deserialiseSync : Reader Bool := do
  match ← getU8 with
  | 1 => return true
  | 0 => return false
  | _ => throw (.panicked "Unexpected sync flag when deserialising acceptsync")

def deserialise : Reader Message := do
  let sender ← getU64
  let receiver ← getU64
  match ← getU8 with
  | prepareReqId => return lib.message sender receiver .prepareReq
  | prepareId =>
    let n ← deserialiseBallot
    let nAccepted ← deserialiseBallot
    let ld ← getU64
    let sfxLen ← getU64
    return lib.message sender receiver (.prepare (lib.prepare n ld nAccepted sfxLen))
  | promiseId =>
    let n ← deserialiseBallot
    let nAccepted ← deserialiseBallot
    let ld ← getU64
    let sfx ← deserialiseEntries lib
    return lib.message sender receiver (.promise (lib.promise n nAccepted sfx ld))
  | acceptSyncId =>
    let ld ← getU64
    let sync ← deserialiseSync
    let n ← deserialiseBallot
    let sfx ← deserialiseEntries lib
    return lib.message sender receiver (.acceptSync (lib.acceptSync n sfx ld sync))
  | acceptDecideId =>
    let ld ← getU64
    let n ← deserialiseBallot
    let entries ← deserialiseEntries lib
    return lib.message sender receiver (.acceptDecide (lib.acceptDecide n ld entries))
  | acceptedId =>
    let n ← deserialiseBallot
    let ld ← getU64
    return lib.message sender receiver (.accepted (lib.accepted n ld))
  | decideId =>
    let n ← deserialiseBallot
    let ld ← getU64
    return lib.message sender receiver (.decided (lib.decided ld n))
  | proposalForwardId =>
    let entries ← deserialiseEntries lib
    return lib.message sender receiver (.proposalForward entries)
  | firstAcceptId =>
    let n ← deserialiseBallot
    let entries ← deserialiseEntries lib
    return lib.message sender receiver (.firstAccept (lib.firstAccept n entries))
  | _ => throw (.invalidType "Found unkown id but expected PaxosMsg")

def deserialiseSegment : Reader (Option SequenceSegment) := do
  match ← getU8 with
  | 1 =>
    let fromIdx ← getU64
    let toIdx ← getU64
    let entries ← deserialiseEntries lib
    return some ⟨fromIdx,toIdx,entries⟩
  | _ => return none

def deserialiseReconfig : Reader ReconfigurationMsg := do
  match ← getU8 with
  | reconfigInitId =>
    let configId ← getU32
    let sender ← getU64
    let seqMetadataConfigId ← getU32
    let seqMetadataLen ← getU64
    let continuedNodes ← getList getU64
    let newNodes ← getList getU64
    let segment ← deserialiseSegment lib
    let skipPrepareUseLeader ← deserialiseLeader lib
    let seqMetadata : SequenceMetaData := ⟨seqMetadataConfigId,seqMetadataLen⟩
    let nodes : Reconfig := ⟨continuedNodes,newNodes⟩
    return .init ⟨configId,nodes,seqMetadata,sender,segment,skipPrepareUseLeader⟩
  | seqReqId =>
    let configId ← getU32
    let tag ← getU32
    let fromIdx ← getU64
    let toIdx ← getU64
    let requestorPid ← getU64
    return .sequenceRequest ⟨configId,tag,fromIdx,toIdx,requestorPid⟩
  | seqTransferId =>
    let configId ← getU32
    let tag ← getU32
    let succeeded ← getU8
    let fromIdx ← getU64
    let toIdx ← getU64
    let metadataConfigId ← getU32
    let metadataSeqLen ← getU64
    let entries ← deserialiseEntries lib
    let metadata : SequenceMetaData := ⟨metadataConfigId,metadataSeqLen⟩
    let segment : SequenceSegment := ⟨fromIdx,toIdx,entries⟩
    return .sequenceTransfer ⟨configId,tag,succeeded == 1,metadata,segment⟩
  | _ => throw (.invalidType "Found unkown id but expected ReconfigurationMsg")

end Read

section Ranges

-- The ranges of the machine integers, and collections whose length fits its prefix.
def BallotFits (b : Ballot) : Prop := b.n < 2 ^ 64 ∧ b.pid < 2 ^ 64

def LeaderFits : Option Leader → Prop
  | some l => l.pid < 2 ^ 64 ∧ BallotFits l.round
  | none => True

def PidsFit (pids : List ℕ) : Prop := pids.length < 2 ^ 32 ∧ ∀ pid ∈ pids, pid < 2 ^ 64

def EntryFits : Entry → Prop
  | .normal data => data.length < 2 ^ 32
  | .stopSign ss => ss.configId < 2 ^ 32 ∧ PidsFit ss.nodes ∧ LeaderFits ss.skipPrepareUseLeader

def EntriesFit (ents : List Entry) : Prop := ents.length < 2 ^ 32 ∧ ∀ e ∈ ents, EntryFits e

def MsgFits : PaxosMsg → Prop
  | .prepareReq => True
  | .prepare p => BallotFits p.n ∧ BallotFits p.nAccepted ∧ p.ld < 2 ^ 64 ∧ p.sfxLen < 2 ^ 64
  | .promise p => BallotFits p.n ∧ BallotFits p.nAccepted ∧ p.ld < 2 ^ 64 ∧ EntriesFit p.sfx
  | .acceptSync a => BallotFits a.n ∧ a.ld < 2 ^ 64 ∧ EntriesFit a.entries
  | .firstAccept f => BallotFits f.n ∧ EntriesFit f.entries
  | .acceptDecide a => BallotFits a.n ∧ a.ld < 2 ^ 64 ∧ EntriesFit a.entries
  | .accepted acc => BallotFits acc.n ∧ acc.la < 2 ^ 64
  | .decided d => BallotFits d.n ∧ d.ld < 2 ^ 64
  | .proposalForward entries => EntriesFit entries

def MessageFits (m : Message) : Prop :=
  m.sender < 2 ^ 64 ∧ m.receiver < 2 ^ 64 ∧ MsgFits m.msg

def MetadataFits (metadata : SequenceMetaData) : Prop :=
  metadata.configId < 2 ^ 32 ∧ metadata.len < 2 ^ 64

def SegmentFits (segment : SequenceSegment) : Prop :=
  segment.fromIdx < 2 ^ 64 ∧ segment.toIdx < 2 ^ 64 ∧ EntriesFit segment.entries

def ReconfigFits : ReconfigurationMsg → Prop
  | .init r =>
    r.configId < 2 ^ 32 ∧ r.sender < 2 ^ 64 ∧ MetadataFits r.seqMetadata ∧
      PidsFit r.nodes.continuedNodes ∧ PidsFit r.nodes.newNodes ∧
      (∀ segment, r.segment = some segment → SegmentFits segment) ∧ LeaderFits r.skipPrepareUseLeader
  | .sequenceRequest sr =>
    sr.configId < 2 ^ 32 ∧ sr.tag < 2 ^ 32 ∧ sr.fromIdx < 2 ^ 64 ∧ sr.toIdx < 2 ^ 64 ∧
      sr.requestorPid < 2 ^ 64
  | .sequenceTransfer st =>
    st.configId < 2 ^ 32 ∧ st.tag < 2 ^ 32 ∧ MetadataFits st.metadata ∧ SegmentFits st.segment

end Ranges

section RoundTrip
variable {lib : LeaderPaxos}

theorem reads_ballot {b : Ballot} (fits : BallotFits b) :
    Reads deserialiseBallot (serialiseBallot b) b :=
  (reads_u64 fits.1).bind ((reads_u64 fits.2).last rfl)

theorem reads_pids {pids : List ℕ} (fits : PidsFit pids) :
    Reads (getList getU64) (putList putU64 pids) pids := by
  apply reads_list fits.1
  intro pid member
  exact reads_u64 (fits.2 pid member)

theorem reads_leader {l : Option Leader} (stores : lib.Stores) (fits : LeaderFits l) :
    Reads (deserialiseLeader lib) (serialiseLeader l) l := by
  cases l with
  | none => exact (reads_u8 (by decide)).last rfl
  | some l =>
    apply (reads_u8 (by decide)).bind
    apply (reads_u64 fits.1).bind
    apply (reads_ballot fits.2).last
    simp only [stores.leader]

theorem reads_entry {e : Entry} (stores : lib.Stores) (fits : EntryFits e) :
    Reads (deserialiseEntry lib) (serialiseEntry e) e := by
  cases e with
  | normal data =>
    apply (reads_u8 (by decide)).bind
    exact (reads_bytes fits).last rfl
  | stopSign ss =>
    obtain ⟨configId,nodes,leader⟩ := fits
    apply (reads_u8 (by decide)).bind
    apply (reads_u32 configId).bind
    apply (reads_pids nodes).bind
    apply (reads_leader stores leader).last
    simp only [stores.stopSign]

theorem reads_entries {ents : List Entry} (stores : lib.Stores) (fits : EntriesFit ents) :
    Reads (deserialiseEntries lib) (serialiseEntries ents) ents := by
  apply reads_list fits.1
  intro e member
  exact reads_entry stores (fits.2 e member)

theorem reads_sync (sync : Bool) : Reads deserialiseSync (putU8 (flag sync)) sync := by
  cases sync with
  | false => exact (reads_u8 (by decide)).last rfl
  | true => exact (reads_u8 (by decide)).last rfl

theorem reads_message {m : Message} (stores : lib.Stores) (fits : MessageFits m) :
    Reads (deserialise lib) (serialise m) m := by
  obtain ⟨sender,receiver,msg⟩ := m
  obtain ⟨senderFits,receiverFits,msgFits⟩ := fits
  apply (reads_u64 senderFits).bind
  apply (reads_u64 receiverFits).bind
  cases msg with
  | prepareReq =>
    apply (reads_u8 (by decide)).last
    simp only [stores.message]
  | prepare p =>
    obtain ⟨n,nAccepted,ld,sfxLen⟩ := msgFits
    apply (reads_u8 (by decide)).bind
    apply (reads_ballot n).bind
    apply (reads_ballot nAccepted).bind
    apply (reads_u64 ld).bind
    apply (reads_u64 sfxLen).last
    simp only [stores.message,stores.prepare]
  | promise p =>
    obtain ⟨n,nAccepted,ld,sfx⟩ := msgFits
    apply (reads_u8 (by decide)).bind
    apply (reads_ballot n).bind
    apply (reads_ballot nAccepted).bind
    apply (reads_u64 ld).bind
    apply (reads_entries stores sfx).last
    simp only [stores.message,stores.promise]
  | acceptSync a =>
    obtain ⟨n,ld,entries⟩ := msgFits
    apply (reads_u8 (by decide)).bind
    apply (reads_u64 ld).bind
    apply (reads_sync a.sync).bind
    apply (reads_ballot n).bind
    apply (reads_entries stores entries).last
    simp only [stores.message,stores.acceptSync]
  | firstAccept f =>
    obtain ⟨n,entries⟩ := msgFits
    apply (reads_u8 (by decide)).bind
    apply (reads_ballot n).bind
    apply (reads_entries stores entries).last
    simp only [stores.message,stores.firstAccept]
  | acceptDecide a =>
    obtain ⟨n,ld,entries⟩ := msgFits
    apply (reads_u8 (by decide)).bind
    apply (reads_u64 ld).bind
    apply (reads_ballot n).bind
    apply (reads_entries stores entries).last
    simp only [stores.message,stores.acceptDecide]
  | accepted acc =>
    obtain ⟨n,la⟩ := msgFits
    apply (reads_u8 (by decide)).bind
    apply (reads_ballot n).bind
    apply (reads_u64 la).last
    simp only [stores.message,stores.accepted]
  | decided d =>
    obtain ⟨n,ld⟩ := msgFits
    apply (reads_u8 (by decide)).bind
    apply (reads_ballot n).bind
    apply (reads_u64 ld).last
    simp only [stores.message,stores.decided]
  | proposalForward entries =>
    apply (reads_u8 (by decide)).bind
    apply (reads_entries stores msgFits).last
    simp only [stores.message]

theorem reads_segment {segment : Option SequenceSegment} (stores : lib.Stores)
    (fits : ∀ held, segment = some held → SegmentFits held) :
    Reads (deserialiseSegment lib) (serialiseSegment segment) segment := by
  cases segment with
  | none => exact (reads_u8 (by decide)).last rfl
  | some held =>
    obtain ⟨fromIdx,toIdx,entries⟩ := fits held rfl
    apply (reads_u8 (by decide)).bind
    apply (reads_u64 fromIdx).bind
    apply (reads_u64 toIdx).bind
    exact (reads_entries stores entries).last rfl

theorem reads_reconfiguration {m : ReconfigurationMsg} (stores : lib.Stores) (fits : ReconfigFits m) :
    Reads (deserialiseReconfig lib) (serialiseReconfig m) m := by
  cases m with
  | init r =>
    obtain ⟨configId,sender,metadata,continuedNodes,newNodes,segment,leader⟩ := fits
    apply (reads_u8 (by decide)).bind
    apply (reads_u32 configId).bind
    apply (reads_u64 sender).bind
    apply (reads_u32 metadata.1).bind
    apply (reads_u64 metadata.2).bind
    apply (reads_pids continuedNodes).bind
    apply (reads_pids newNodes).bind
    apply (reads_segment stores segment).bind
    exact (reads_leader stores leader).last rfl
  | sequenceRequest sr =>
    obtain ⟨configId,tag,fromIdx,toIdx,requestorPid⟩ := fits
    apply (reads_u8 (by decide)).bind
    apply (reads_u32 configId).bind
    apply (reads_u32 tag).bind
    apply (reads_u64 fromIdx).bind
    apply (reads_u64 toIdx).bind
    exact (reads_u64 requestorPid).last rfl
  | sequenceTransfer st =>
    obtain ⟨configId,tag,metadata,fromIdx,toIdx,entries⟩ := fits
    have flagged : flag st.succeeded < 2 ^ 8 := by
      cases st.succeeded <;> decide
    apply (reads_u8 (by decide)).bind
    apply (reads_u32 configId).bind
    apply (reads_u32 tag).bind
    apply (reads_u8 flagged).bind
    apply (reads_u64 fromIdx).bind
    apply (reads_u64 toIdx).bind
    apply (reads_u32 metadata.1).bind
    apply (reads_u64 metadata.2).bind
    apply (reads_entries stores entries).last
    have succeeded : (flag st.succeeded == 1) = st.succeeded := by
      cases st.succeeded <;> decide
    simp only [succeeded]

-- Decoding an encoded message gives it back and leaves what follows it in the
-- buffer, for the messages of the Paxos library and of the reconfiguration.
theorem paxos_round_trip (stores : lib.Stores) (rest : List UInt8) :
    (∀ m : Message, MessageFits m →
      (deserialise lib).run (serialise m ++ rest) = .ok (m,rest)) ∧
    (∀ m : ReconfigurationMsg, ReconfigFits m →
      (deserialiseReconfig lib).run (serialiseReconfig m ++ rest) = .ok (m,rest)) := by
  constructor
  · intro m fits
    exact reads_message stores fits rest
  · intro m fits
    exact reads_reconfiguration stores fits rest

end RoundTrip

section Sample

def storing : LeaderPaxos where
  prepare n ld nAccepted sfxLen := ⟨n,nAccepted,ld,sfxLen⟩
  promise n nAccepted sfx ld := ⟨n,nAccepted,ld,sfx⟩
  acceptSync n entries ld sync := ⟨n,ld,sync,entries⟩
  acceptDecide n ld entries := ⟨n,ld,entries⟩
  accepted n la := ⟨n,la⟩
  decided ld n := ⟨n,ld⟩
  firstAccept n entries := ⟨n,entries⟩
  message sender receiver msg := ⟨sender,receiver,msg⟩
  stopSign configId nodes leader := ⟨configId,nodes,leader⟩
  leader pid round := ⟨pid,round⟩

theorem storing_stores : storing.Stores := by
  constructor <;> intros <;> rfl

def syncMessage : Message :=
  ⟨1,2,.acceptSync ⟨⟨5,1⟩,3,true,[.normal [7,8],.stopSign ⟨2,[1,2,4],some ⟨1,⟨6,1⟩⟩⟩]⟩⟩

def initMessage : ReconfigurationMsg :=
  .init ⟨2,⟨[1,2],[4]⟩,⟨1,9⟩,1,some ⟨0,3,[.normal [1]]⟩,none⟩

theorem syncMessage_fits : MessageFits syncMessage := by
  simp [MessageFits,MsgFits,BallotFits,EntriesFit,EntryFits,PidsFit,LeaderFits,syncMessage]

theorem initMessage_fits : ReconfigFits initMessage := by
  simp [ReconfigFits,MetadataFits,SegmentFits,EntriesFit,EntryFits,PidsFit,LeaderFits,initMessage]

theorem samples_round_trip :
    (deserialise storing).run (serialise syncMessage ++ [255]) = .ok (syncMessage,[255]) ∧
      (deserialiseReconfig storing).run (serialiseReconfig initMessage ++ [255]) =
        .ok (initMessage,[255]) :=
  ⟨(paxos_round_trip storing_stores [255]).1 syncMessage syncMessage_fits,
    (paxos_round_trip storing_stores [255]).2 initMessage initMessage_fits⟩

end Sample

end KompicsBenches.PaxosCodec
