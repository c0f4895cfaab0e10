import KompicsBenches.StopComp
import KompicsBenches.ReconfigSystem

namespace KompicsBenches.StopSystem
open LeaderComp (BallotLeaderComp)
open ReconfigComp StopComp

section Handlers
variable {c next : PaxosComp} {effects : List Effect}

def isStop : Effect → Bool
  | .stopReplicas _ => true
  | .stopPeers .. => true
  | _ => false

-- No child is stopped, and no other node is told of a stop.
def Calm (effects : List Effect) : Prop := ∀ effect ∈ effects, isStop effect = false

theorem calm_nil : Calm [] := by
  intro effect member
  cases member

theorem calm_one {effect : Effect} (calm : isStop effect = false) : Calm [effect] := by
  intro other member
  rw [List.mem_singleton] at member
  exact member ▸ calm

theorem Calm.append {more : List Effect} (first : Calm effects) (rest : Calm more) :
    Calm (effects ++ more) := by
  intro effect member
  obtain old | new := List.mem_append.mp member
  · exact first effect old
  · exact rest effect new

theorem calm_map (tells : α → Effect) (calm : ∀ x, isStop (tells x) = false) (xs : List α) :
    Calm (xs.map tells) := by
  intro effect member
  obtain ⟨x,_,rfl⟩ := List.mem_map.mp member
  exact calm x

theorem calm_filterMap (tells : α → Option Effect)
    (calm : ∀ x effect, tells x = some effect → isStop effect = false) (xs : List α) :
    Calm (xs.filterMap tells) := by
  intro effect member
  obtain ⟨x,_,told⟩ := List.mem_filterMap.mp member
  exact calm x effect told

theorem startReplica_calm {configId : ℕ} (done : c.startReplica configId = some (next,effects)) :
    Calm effects := by
  obtain ⟨_,_,same⟩ := Option.map_eq_some_iff.mp done
  cases same
  exact calm_one rfl

theorem setInitial_calm {configId : ℕ} {skip : Option LeaderComp.Leader}
    (done : c.setInitialReplicaStateAfterReconfig configId skip = some effects) : Calm effects := by
  obtain ⟨_,_,same⟩ := Option.map_eq_some_iff.mp done
  cases same
  exact calm_one rfl

theorem requestSegments_calm (configId seqLen offset skip first : ℕ) (peers : List ℕ) :
    Calm (c.requestSegments configId seqLen offset skip first peers) := by
  apply calm_filterMap
  intro entry effect told
  dsimp only at told
  split at told
  · cases told
    rfl
  · cases told

theorem pullSequence_calm {configId seqLen : ℕ} {skipTag : Option ℕ}
    (done : c.pullSequence configId seqLen skipTag = some (next,effects)) : Calm effects := by
  unfold PaxosComp.pullSequence at done
  dsimp only at done
  split at done
  · cases done
  · obtain ⟨_,_,same⟩ := Option.map_eq_some_iff.mp done
    cases same
    exact Calm.append (requestSegments_calm _ _ _ _ _ _) (requestSegments_calm _ _ _ _ _ _)

theorem pullPrevious_calm {metadata : SequenceMetaData}
    (done : c.pullPrevious metadata = some (next,effects)) : Calm effects := by
  unfold PaxosComp.pullPrevious at done
  split at done
  · split at done
    · exact pullSequence_calm done
    · cases done
      exact calm_nil
  · cases done
    exact calm_nil

theorem completeTransfer_calm {configId : ℕ}
    (done : c.completeTransfer configId = some (next,effects)) : Calm effects := by
  obtain ⟨⟨remSegments,sequence⟩,_,done⟩ := Option.bind_eq_some_iff.mp done
  dsimp only at done
  split at done
  · obtain ⟨_,_,done⟩ := Option.bind_eq_some_iff.mp done
    split at done
    · exact startReplica_calm done
    · cases done
      exact calm_nil
  · cases done
    exact calm_nil

theorem handleSequenceTransfer_calm {st : SequenceTransfer} {rnd : ℕ}
    (done : c.handleSequenceTransfer st rnd = some (next,effects)) : Calm effects := by
  unfold PaxosComp.handleSequenceTransfer at done
  split at done
  · cases done
    exact calm_nil
  · obtain ⟨⟨middle,pulled⟩,first,done⟩ := Option.bind_eq_some_iff.mp done
    have pulled := pullPrevious_calm first
    dsimp only at done
    split at done
    · obtain ⟨appended,_,done⟩ := Option.bind_eq_some_iff.mp done
      obtain ⟨⟨last,started⟩,completed,same⟩ := Option.map_eq_some_iff.mp done
      cases same
      exact pulled.append (completeTransfer_calm completed)
    · split at done
      · cases done
        exact pulled
      · obtain ⟨pid,_,same⟩ := Option.map_eq_some_iff.mp done
        cases same
        exact pulled.append (calm_one rfl)

theorem handleSequenceRequest_calm {sr : SequenceRequest} {requestor : ℕ}
    (done : c.handleSequenceRequest sr requestor = some effects) : Calm effects := by
  unfold PaxosComp.handleSequenceRequest at done
  dsimp only at done
  split at done
  · cases done
    exact calm_nil
  · split at done
    · obtain ⟨_,_,same⟩ := Option.map_eq_some_iff.mp done
      cases same
      exact calm_one rfl
    · split at done
      · obtain ⟨_,_,same⟩ := Option.map_eq_some_iff.mp done
        cases same
        exact calm_one rfl
      · cases done
        exact calm_one rfl

theorem openTransfer_calm {r : ReconfigInit} {rnd : ℕ}
    (done : c.openTransfer r rnd = some (next,effects)) : Calm effects := by
  unfold PaxosComp.openTransfer at done
  obtain ⟨prepared,first,done⟩ := Option.bind_eq_some_iff.mp done
  have prepared := setInitial_calm first
  dsimp only at done
  split at done
  · obtain ⟨⟨last,started⟩,running,same⟩ := Option.map_eq_some_iff.mp done
    cases same
    exact prepared.append (startReplica_calm running)
  · obtain ⟨skipTag,_,done⟩ := Option.bind_eq_some_iff.mp done
    obtain ⟨⟨middle,asked⟩,asking,done⟩ := Option.bind_eq_some_iff.mp done
    have asked : Calm asked := by
      split at asking
      · exact pullSequence_calm asking
      · obtain ⟨_,_,same⟩ := Option.map_eq_some_iff.mp asking
        cases same
        exact calm_nil
    split at done
    · obtain ⟨⟨last,handled⟩,handling,same⟩ := Option.map_eq_some_iff.mp done
      cases same
      exact (prepared.append asked).append (handleSequenceTransfer_calm handling)
    · cases done
      exact prepared.append asked

theorem receiveInit_calm {r : ReconfigInit} {rnd : ℕ} (running : c.stopped = false)
    (done : c.receiveInit r rnd = some (next,effects)) : Calm effects := by
  unfold PaxosComp.receiveInit at done
  rw [if_neg (by simp [running])] at done
  split at done
  · cases done
    exact calm_nil
  · split at done
    · exact openTransfer_calm done
    · split at done
      · cases done
        exact calm_nil
      · cases done
        exact calm_nil

theorem retry_calm {configId seqLen totalSegments : ℕ}
    (done : c.retryRequestSequence configId seqLen totalSegments = some (next,effects)) :
    Calm effects := by
  unfold PaxosComp.retryRequestSequence at done
  split at done
  · cases done
    exact calm_nil
  · split at done
    · cases done
    · cases done
      apply calm_filterMap
      intro tag effect told
      obtain ⟨pid,_,same⟩ := Option.map_eq_some_iff.mp told
      cases same
      rfl

theorem receiveReconfig_calm {r : FinalMsg} (done : c.receiveReconfig r = some (next,effects)) :
    Calm effects := by
  unfold PaxosComp.receiveReconfig at done
  obtain ⟨segment,_,done⟩ := Option.bind_eq_some_iff.mp done
  obtain ⟨⟨last,went⟩,going,same⟩ := Option.map_eq_some_iff.mp done
  cases same
  have went : Calm went := by
    unfold PaxosComp.continueReplica at going
    split at going
    · obtain ⟨transfers,sending,going⟩ := Option.bind_eq_some_iff.mp going
      obtain ⟨prepared,setting,going⟩ := Option.bind_eq_some_iff.mp going
      obtain ⟨⟨_,started⟩,starting,same⟩ := Option.map_eq_some_iff.mp going
      cases same
      have transfers : Calm transfers := by
        unfold PaxosComp.eagerTransfers at sending
        split at sending
        · obtain ⟨_,_,same⟩ := Option.map_eq_some_iff.mp sending
          cases same
          exact calm_map _ (fun _ => rfl) _
        · cases sending
          exact calm_nil
      exact (transfers.append (setInitial_calm setting)).append (startReplica_calm starting)
    · cases going
      exact calm_nil
  have told : Calm (Effect.reconfigResponse (r.nodes.continuedNodes ++ r.nodes.newNodes) ::
      r.nodes.newNodes.map (Effect.tell · (.init ⟨r.configId,r.nodes,
        ⟨c.activeConfig.id,r.finalSequence.length⟩,c.pid,segment,r.skipPrepareUseLeader⟩))) :=
    (calm_one rfl).append (calm_map _ (fun _ => rfl) _)
  exact told.append went

end Handlers

-- A configuration is a set of nodes.
structure Config extends ReconfigSystem.Config where
  distinctInitial : initial.Nodup

-- A node and a configuration, the place of an election component, a replica and a
-- communicator.
abbrev Spot := ℕ × ℕ

def Config.members (cfg : Config) (configId : ℕ) : List ℕ :=
  if configId = 1 then cfg.initial else if configId = 2 then cfg.reconfiguration else []

-- The peers `create_replica` derives; there is no component at other places.
def Config.peers (cfg : Config) (spot : Spot) : List ℕ :=
  if spot.1 ∈ cfg.members spot.2 then (cfg.members spot.2).filter (· ≠ spot.1) else []

-- What is on its way and has to do with the stop: that of the client to a node, the
-- asks of a PaxosComp to its components, the `NetStopMsg::Peer` to an election
-- component or a communicator, what a replica and its communicator exchange over
-- their port, and the reply to the client.
inductive Letter where
  | clientStop (pid : ℕ)
  | bleAsk (spot : Spot)
  | replicaAsk (spot : Spot) (ackClient : Bool)
  | bleStop (spot : Spot) (pid : ℕ)
  | sendStop (spot : Spot) (ackClient : Bool)
  | commStop (spot : Spot) (pid : ℕ)
  | stopMsg (spot : Spot) (pid : ℕ)
  | clientPeer (pid : ℕ)
  deriving DecidableEq, Repr

inductive Child where
  | ble (configId : ℕ)
  | replica (configId : ℕ)
  deriving DecidableEq, Repr

-- A PaxosComp that stops its components is blocked until all of them have replied;
-- `waiting` holds those that have not.
structure System where
  base : ReconfigSystem.System
  bles : Spot → BallotLeaderComp
  replicas : Spot → PaxosReplica
  letters : List Letter
  waiting : ℕ → List Child

-- The client sends its stop to every node once.
def System.initial (cfg : Config) (hbDelay delta factor : ℕ) : System where
  base := .initial cfg.toConfig
  bles := fun spot => .with (cfg.peers spot) spot.1 hbDelay delta (spot.2 == 1) none factor
  replicas := fun spot => .with (cfg.peers spot)
  letters := (cfg.initial ∪ cfg.reconfiguration).map .clientStop
  waiting := fun _ => []

-- The components of a node, each configuration it belongs to has one of each kind.
def configIds (c : PaxosComp) (count : ℕ) : List ℕ := List.range' c.firstConfigId count

-- The last replica answers the client.
def asks (pid : ℕ) (configIds : List ℕ) : List Letter :=
  configIds.map (fun configId => .bleAsk (pid,configId)) ++
    configIds.map fun configId => .replicaAsk (pid,configId) (configIds.getLast? == some configId)

def children (configIds : List ℕ) : List Child := configIds.map .ble ++ configIds.map .replica

def lettersOf (pid : ℕ) (c : PaxosComp) : Effect → List Letter
  | .stopReplicas count => asks pid (configIds c count)
  | .stopPeers configId peers =>
    peers.map (fun peer => .bleStop (peer,configId) pid) ++
      peers.map fun peer => .commStop (peer,configId) pid
  | _ => []

def waitsFor (c : PaxosComp) : Effect → List Child
  | .stopReplicas count => children (configIds c count)
  | _ => []

-- A replica that is told who leads has its election component told, too.
def prepare (pid : ℕ) (bles : Spot → BallotLeaderComp) : Effect → Spot → BallotLeaderComp
  | .setInitialState configId (some l) =>
    Function.update bles (pid,configId) ((bles (pid,configId)).setInitialLeader l)
  | _ => bles

-- The node whose PaxosComp acts, with what it does. A replica answers a sequence
-- request by itself.
def turn (cfg : Config) (s : ReconfigSystem.System) :
    ReconfigSystem.Action → Option (ℕ × PaxosComp × List Effect)
  | .run p => (s.comps p).receiveRun.map (p,·)
  | .leader p configId pid => some (p,(s.comps p).receiveLeader configId pid)
  | .reconfig p => ((s.comps p).receiveReconfig cfg.toConfig.finalMsg).map (p,·)
  | .deliver x rnd => ((s.comps x.dst).receiveNetwork x.msg x.src rnd).map (x.dst,·)
  | .answer .. => none
  | .retry p configId =>
    ((s.comps p).retryTransferTimers configId).bind fun (seqLen,totalSegments) =>
      let fired := {s.comps p with
        retryTransferTimers := Function.update (s.comps p).retryTransferTimers configId none}
      (fired.retryRequestSequence configId seqLen totalSegments).map (p,·)
  | .stop p => (s.comps p).stopComponents.map (p,·)

namespace System
variable (s : System)

def post (letters : List Letter) : System := {s with letters := s.letters ++ letters}

-- The reply to a stop ask unblocks the PaxosComp once no other is missing.
def reply (spot : Spot) (child : Child) : System :=
  {s with waiting := Function.update s.waiting spot.1 ((s.waiting spot.1).erase child)}

-- A step of a PaxosComp that is not blocked, or of a replica that answers a request.
def perform (cfg : Config) (action : ReconfigSystem.Action) : Option System :=
  match turn cfg s.base action with
  | none => (ReconfigSystem.step cfg.toConfig s.base action).map fun base => {s with base := base}
  | some (p,c,effects) =>
    if s.waiting p ≠ [] then none
    else
      (ReconfigSystem.step cfg.toConfig s.base action).map fun base =>
        {s with
          base := base
          bles := effects.foldl (prepare p) s.bles
          letters := s.letters ++ effects.flatMap (lettersOf p c)
          waiting := Function.update s.waiting p (effects.flatMap (waitsFor c))}

-- Messages to a component that has not been started wait.
def started (spot : Spot) : Prop := spot.2 ≤ (s.base.comps spot.1).activeConfig.id

instance (spot : Spot) : Decidable (s.started spot) := Nat.decLe _ _

def bleEffect (spot : Spot) (s : System) : LeaderComp.Effect → System
  | .tellPeers (.stopPeer pid) => s.post ((s.bles spot).peers.map fun peer => .bleStop (peer,spot.2) pid)
  | .replyStop _ => s.reply spot (.ble spot.2)
  | _ => s

def bleCommit (spot : Spot) (result : BallotLeaderComp × List LeaderComp.Effect) : System :=
  result.2.foldl (bleEffect spot) {s with bles := Function.update s.bles spot result.1}

def replicaEffect (spot : Spot) (s : System) : ReplicaEffect → System
  | .sendStop ackClient => s.post [.sendStop spot ackClient]
  | .replyStop => s.reply spot (.replica spot.2)

def replicaCommit (spot : Spot) (result : PaxosReplica × List ReplicaEffect) : System :=
  result.2.foldl (replicaEffect spot) {s with replicas := Function.update s.replicas spot result.1}

-- A communicator has the same peers as its replica.
def sendStop (spot : Spot) (ackClient : Bool) : System :=
  s.post ((s.replicas spot).peers.map (fun peer => .commStop (peer,spot.2) spot.1) ++
    if ackClient then [.clientPeer spot.1] else [])

def receive (cfg : Config) : Letter → Option System
  | .clientStop p => s.perform cfg (.stop p)
  | .bleAsk spot =>
    if s.started spot then some (s.bleCommit spot ((s.bles spot).receiveLocal spot.1)) else none
  | .replicaAsk spot ackClient =>
    if s.started spot then some (s.replicaCommit spot ((s.replicas spot).receiveStop ackClient))
    else none
  | .bleStop spot pid =>
    if s.started spot then ((s.bles spot).receiveStopPeer pid).map (s.bleCommit spot) else none
  | .sendStop spot ackClient => if s.started spot then some (s.sendStop spot ackClient) else none
  | .commStop spot pid => if s.started spot then some (s.post [.stopMsg spot pid]) else none
  | .stopMsg spot pid =>
    if s.started spot then ((s.replicas spot).receiveStopMsg pid).map (s.replicaCommit spot) else none
  | .clientPeer _ => some s

end System

-- Heartbeats and timers of an election component come at any time.
inductive Action where
  | comp (action : ReconfigSystem.Action)
  | election (spot : Spot) (input : LeaderComp.Input)
  | deliver (letter : Letter)
  deriving DecidableEq

def isElection : LeaderComp.Input → Bool
  | .stop _ => false
  | .message (.stopPeer _) => false
  | _ => true

def isClientStop : ReconfigSystem.Action → Bool
  | .stop _ => true
  | _ => false

-- Each letter is delivered at most once, in any order. `none` is a step that cannot
-- happen, or a panic.
def step (cfg : Config) (s : System) : Action → Option System
  | .comp action => if isClientStop action then none else s.perform cfg action
  | .election spot input =>
    if s.started spot ∧ isElection input then ((s.bles spot).handle input).map (s.bleCommit spot)
    else none
  | .deliver letter =>
    if letter ∈ s.letters then System.receive {s with letters := s.letters.erase letter} cfg letter
    else none

-- A stopped node is sent a ReconfigInit.
def late (s : System) : Action → Bool
  | .comp (.deliver ⟨_,dst,.init _⟩ _) => (s.base.comps dst).stopped
  | _ => false

end KompicsBenches.StopSystem
