import KompicsBenches.ControlCodec

namespace KompicsBenches.ClientComp
open Wire ControlCodec

inductive ExperimentState where
  | leaderElection
  | running
  | reconfigurationElection
  | finished
  deriving DecidableEq, Repr

-- What the client sends to a node.
inductive Sent where
  | proposal (node id : ℕ)
  | reconfiguration (node : ℕ) (reconfig : List ℕ × List ℕ)
  | stop (node : ℕ)
  deriving DecidableEq, Repr

-- The places at which the component panics.
inductive Panic where
  | inflight
  | unknownLeader
  | noReconfig
  | finishedLatch
  | notPending (id : ℕ)
  | holdBack (id : ℕ)
  | neverCached
  | noLeader
  | shortData
  | unknownPid (pid : ℕ)
  | noStopAsk
  deriving DecidableEq, Repr

-- A map keyed by proposal id.
def erase (key : ℕ) (map : List (ℕ × ℕ)) : List (ℕ × ℕ) := map.filter (·.1 ≠ key)

def put (key value : ℕ) (map : List (ℕ × ℕ)) : List (ℕ × ℕ) := (key,value) :: erase key map

def insertKey (key : ℕ) (keys : List ℕ) : List ℕ := if key ∈ keys then keys else key :: keys

-- Pending proposals map to the timer that was scheduled for them; start times, and
-- with them the latencies of the responses, are left out. The timers of the
-- component are those that are armed, each with the proposal it is for.
structure Client where
  numProposals : ℕ
  numConcurrentProposals : ℕ
  nodes : List ℕ
  reconfig : Option (List ℕ × List ℕ)
  leaderElectionLatch : ℕ
  finishedLatch : ℕ
  latestProposalId : ℕ
  responses : List ℕ
  pendingProposals : List (ℕ × ℕ)
  currentLeader : ℕ
  state : ExperimentState
  currentConfig : List ℕ
  numTimedOut : ℕ
  leaderChanges : List ℕ
  firstProposalAfterReconfig : Option ℕ
  retryProposals : List ℕ
  stopAsk : Bool
  armed : List (ℕ × ℕ)
  nextTimer : ℕ
  outbox : List Sent
  deriving DecidableEq, Repr

structure Config where
  initialConfig : List ℕ
  numProposals : ℕ
  numConcurrentProposals : ℕ
  nodes : List ℕ
  reconfig : Option (List ℕ × List ℕ)
  deriving DecidableEq, Repr

def Client.with (cfg : Config) : Client where
  numProposals := cfg.numProposals
  numConcurrentProposals := cfg.numConcurrentProposals
  nodes := cfg.nodes
  reconfig := cfg.reconfig
  leaderElectionLatch := 1
  finishedLatch := 1
  latestProposalId := 0
  responses := []
  pendingProposals := []
  currentLeader := 0
  state := .leaderElection
  currentConfig := cfg.initialConfig
  numTimedOut := 0
  leaderChanges := []
  firstProposalAfterReconfig := none
  retryProposals := []
  stopAsk := false
  armed := []
  nextTimer := 0
  outbox := []

namespace Client
variable (c : Client)

def cancelTimer (timer : ℕ) : Client := {c with armed := c.armed.filter (·.1 ≠ timer)}

-- A proposal that is no longer pending, with its timer cancelled.
def withdraw (id timer : ℕ) : Client :=
  {c.cancelTimer timer with pendingProposals := erase id c.pendingProposals}

-- A proposal becomes pending under a fresh timer.
def track (id : ℕ) : Client :=
  {c with
    pendingProposals := put id c.nextTimer c.pendingProposals
    armed := c.armed ++ [(c.nextTimer,id)]
    nextTimer := c.nextTimer + 1}

def proposeNormal (leader id : ℕ) : Client :=
  track {c with outbox := c.outbox ++ [.proposal leader id]} id

def proposeAll (leader : ℕ) (ids : List ℕ) : Client :=
  ids.foldl (fun c id => c.proposeNormal leader id) c

def proposeReconfiguration : Except Panic Client :=
  if c.nodes.contains c.currentLeader then
    match c.reconfig with
    | none => .error .noReconfig
    | some reconfig => .ok {c with outbox := c.outbox ++ [.reconfiguration c.currentLeader reconfig]}
  else .ok c

def sendConcurrentProposals : Except Panic Client :=
  let numInflight := c.pendingProposals.length
  if c.numConcurrentProposals < numInflight then .error .inflight
  else
    let availableN := c.numConcurrentProposals - numInflight
    if numInflight = c.numConcurrentProposals ∨ c.currentLeader = 0 then .ok c
    else if ¬c.nodes.contains c.currentLeader then .error .unknownLeader
    else if c.retryProposals = [] then
      let start := c.latestProposalId + 1
      let stop := min (c.latestProposalId + availableN) c.numProposals
      if stop < start then .ok c
      else .ok {c.proposeAll c.currentLeader (List.range' start (stop + 1 - start)) with
        latestProposalId := stop}
    else
      let n := min c.retryProposals.length availableN
      .ok (proposeAll {c with retryProposals := c.retryProposals.drop n} c.currentLeader
        (c.retryProposals.take n))

-- The last response, or the answer to the reconfiguration, opens the latch; a latch
-- that is open already panics.
def finish : Except Panic Client :=
  match c.finishedLatch with
  | 0 => .error .finishedLatch
  | latch + 1 => .ok {c with state := .finished, finishedLatch := latch}

def handleNormalResponse (id : ℕ) : Except Panic Client :=
  let c := {c with responses := insertKey id c.responses}
  let receivedCount := c.responses.length
  if receivedCount = c.numProposals ∧ c.reconfig = none then c.finish
  else if receivedCount = c.numProposals / 2 ∧ c.reconfig ≠ none then do
    let c ← c.proposeReconfiguration
    return c.track reconfigId
  else .ok c

-- The body of a timer that fired. It returns early for an answered proposal and
-- while the client waits for the leader of the new configuration.
def proposalTimeout (id : ℕ) : Except Panic Client :=
  if c.responses.contains id ∨ c.state = .reconfigurationElection then .ok c
  else if id = reconfigId then do
    let c ← c.proposeReconfiguration
    match c.pendingProposals.lookup id with
    | none => .error (.notPending id)
    | some _ => return c.track id
  else
    match c.pendingProposals.lookup id with
    | none => .error (.notPending id)
    | some _ => do
      let c ← handleNormalResponse {c with
        numTimedOut := c.numTimedOut + 1
        pendingProposals := erase id c.pendingProposals} id
      c.sendConcurrentProposals

def holdBackProposal (c : Client) (i : ℕ) : Except Panic Client :=
  match c.pendingProposals.lookup i with
  | some timer =>
    .ok {c.withdraw i timer with retryProposals := c.retryProposals ++ [i]}
  | none => if c.responses.contains i then .ok c else .error (.holdBack i)

def holdBackProposals (start stop : ℕ) : Except Panic Client :=
  (List.range' start (stop + 1 - start)).foldlM holdBackProposal c

def changeLeader (pid : ℕ) : Client :=
  if c.currentLeader = pid then c
  else {c with currentLeader := pid, leaderChanges := c.leaderChanges ++ [pid]}

def firstLeader (pid : ℕ) : Except Panic Client :=
  if ¬c.currentConfig.contains pid then .ok c
  else
    match c.state with
    | .leaderElection => .ok {c with currentLeader := pid, leaderElectionLatch := c.leaderElectionLatch - 1}
    | .reconfigurationElection =>
      let c := {c.changeLeader pid with state := .running}
      let c := if c.retryProposals = [] then
          {c with firstProposalAfterReconfig := some c.latestProposalId}
        else c
      c.sendConcurrentProposals
    | _ => .ok c

def normalResponse (id latestLeader : ℕ) : Except Panic Client :=
  match c.pendingProposals.lookup id with
  | none => .ok c
  | some timer =>
    let c := c.withdraw id timer
    let c := if c.currentConfig.contains latestLeader ∧ c.state ≠ .reconfigurationElection then
        c.changeLeader latestLeader
      else c
    do
      let c ← c.handleNormalResponse id
      if c.state ≠ .reconfigurationElection then c.sendConcurrentProposals else return c

def reconfigurationResponse (newConfig : List ℕ) (latestLeader : ℕ) : Except Panic Client :=
  match c.pendingProposals.lookup reconfigId with
  | none => .ok c
  | some timer =>
    let c := c.withdraw reconfigId timer
    if c.responses.length = c.numProposals then c.finish
    else
      let leaderChanged := c.currentLeader ≠ latestLeader
      let c := {c with reconfig := none, currentConfig := newConfig, currentLeader := latestLeader}
      if latestLeader = 0 then .ok {c with state := .reconfigurationElection}
      else do
        let c ← sendConcurrentProposals {c with state := .running}
        return if leaderChanged then {c with leaderChanges := c.leaderChanges ++ [latestLeader]} else c

def proposalResp (pr : ProposalResp) : Except Panic Client :=
  if c.state = .finished ∨ c.state = .leaderElection then .ok c
  else
    match deserialiseResponse.run pr.data with
    | .error _ => .error .shortData
    | .ok (.normal id,_) => c.normalResponse id pr.latestLeader
    | .ok (.reconfiguration newConfig,_) => c.reconfigurationResponse newConfig pr.latestLeader

def pendingReconfiguration (data : List UInt8) : Except Panic Client :=
  match getU64.run data with
  | .error _ => .error .shortData
  | .ok (droppedProposal,_) =>
    match c.state with
    | .running =>
      if c.reconfig ≠ none then do
        let c ← c.holdBackProposals droppedProposal c.latestProposalId
        return {c with state := .reconfigurationElection}
      else
        match c.firstProposalAfterReconfig with
        | some firstId => do
          let c ← c.holdBackProposals droppedProposal firstId
          c.sendConcurrentProposals
        | none => .error .neverCached
    | .reconfigurationElection => c.holdBackProposals droppedProposal c.latestProposalId
    | _ => .ok c

def receiveNetwork : AtomicBroadcastMsg → Except Panic Client
  | .firstLeader pid => c.firstLeader pid
  | .proposalResp pr => c.proposalResp pr
  | .pendingReconfiguration data => c.pendingReconfiguration data
  | .proposal _ => .ok c

def receiveRun : Except Panic Client :=
  if c.currentLeader = 0 then .error .noLeader
  else sendConcurrentProposals {c with state := .running}

def receiveStop : Client :=
  {c with
    pendingProposals := []
    armed := c.armed.filter fun timer => ¬(c.pendingProposals.map Prod.snd).contains timer.1
    outbox := c.outbox ++ c.nodes.map .stop
    stopAsk := true}

-- The last node that stops makes the client reply and hand over its responses.
def receivePeerStop (pid : ℕ) : Except Panic Client :=
  if ¬c.nodes.contains pid then .error (.unknownPid pid)
  else
    let c := {c with nodes := c.nodes.filter (· ≠ pid)}
    if c.nodes ≠ [] then .ok c
    else if ¬c.stopAsk then .error .noStopAsk
    else .ok {c with responses := [], stopAsk := false}

end Client

-- What reaches the client: the messages of the master, those of the network with
-- their sender, and its own timers.
inductive Event where
  | run
  | stop
  | network (sender : ℕ) (msg : AtomicBroadcastMsg)
  | peerStop (pid : ℕ)
  | timeout (timer : ℕ)
  deriving DecidableEq, Repr

-- A timer fires once; one that is not armed does nothing.
def Client.fire (c : Client) (timer : ℕ) : Except Panic Client :=
  match c.armed.lookup timer with
  | none => .ok c
  | some id => (c.cancelTimer timer).proposalTimeout id

def Client.handle (c : Client) : Event → Except Panic Client
  | .run => c.receiveRun
  | .stop => .ok c.receiveStop
  | .network _ msg => c.receiveNetwork msg
  | .peerStop pid => c.receivePeerStop pid
  | .timeout timer => c.fire timer

end KompicsBenches.ClientComp
