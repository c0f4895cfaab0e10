import KompicsBenches.ReconfigComp

namespace KompicsBenches.ReconfigSystem
open LeaderComp (Leader)
open Segments ReconfigComp

-- One reconfiguration, from configuration 1 to 2. The final sequence of the
-- first one ends with the stop sign that names the nodes of the second.
structure Config where
  initial : List ℕ
  reconfiguration : List ℕ
  distinct : reconfiguration.Nodup
  policy : ReconfigurationPolicy
  entries : List Entry
  skipPrepareUseLeader : Option Leader

namespace Config
variable (cfg : Config)

def continuedNodes : List ℕ := cfg.reconfiguration.filter (· ∈ cfg.initial)

def newNodes : List ℕ := cfg.reconfiguration.filter (· ∉ cfg.initial)

def finalSequence : List Entry :=
  cfg.entries ++ [.stopSign ⟨2,cfg.reconfiguration,cfg.skipPrepareUseLeader⟩]

-- What `handle_stopsign` reports at every node of the first configuration.
def finalMsg : FinalMsg :=
  ⟨2,⟨cfg.continuedNodes,cfg.newNodes⟩,cfg.finalSequence,cfg.skipPrepareUseLeader⟩

-- The number of segments, and their size. The remainder of the division belongs
-- to no segment.
def count : ℕ := cfg.continuedNodes.length

def offset : ℕ := cfg.finalSequence.length / cfg.count

end Config

structure Packet where
  src : ℕ
  dst : ℕ
  msg : ReconfigurationMsg
  deriving DecidableEq

-- A request that a PaxosComp has handed to its replica.
structure LocalRequest where
  pid : ℕ
  requestor : ℕ
  sr : SequenceRequest
  metadata : SequenceMetaData
  deriving DecidableEq

-- `decided` lists the nodes that have reported the stop sign. `inbox` records the
-- messages a node has handled before the replica of the next configuration runs.
structure System where
  comps : ℕ → PaxosComp
  net : Multiset Packet
  requests : Multiset LocalRequest
  decided : List ℕ
  inbox : ℕ → List ReconfigurationMsg

def System.initial (cfg : Config) : System where
  comps := .init cfg.initial cfg.reconfiguration cfg.policy
  net := 0
  requests := 0
  decided := []
  inbox := fun _ => []

def sends (p : ℕ) : Effect → Multiset Packet
  | .tell pid msg => {⟨p,pid,msg⟩}
  | _ => 0

def asks (p : ℕ) : Effect → Multiset LocalRequest
  | .localSequenceReq requestor sr metadata => {⟨p,requestor,sr,metadata⟩}
  | _ => 0

def System.commit (s : System) (p : ℕ) (result : PaxosComp × List Effect) : System :=
  {s with
    comps := Function.update s.comps p result.1
    net := s.net + (result.2.map (sends p)).sum
    requests := s.requests + (result.2.map (asks p)).sum}

-- A message counts as handled until the replica of configuration 2 runs.
def System.record (s : System) (x : Packet) : System :=
  if (s.comps x.dst).activeConfig.id < 2 then
    {s with inbox := Function.update s.inbox x.dst (s.inbox x.dst ++ [x.msg])}
  else s

inductive Action where
  | run (p : ℕ)
  | leader (p configId pid : ℕ)
  | reconfig (p : ℕ)
  | deliver (x : Packet) (rnd : ℕ)
  | answer (x : LocalRequest) (succeeded : Bool)
  | retry (p configId : ℕ)
  | stop (p : ℕ)
  deriving DecidableEq

-- The entries `get_chosen_entries` returns: those of the asked range once they
-- are decided, and none before.
def chosenEntries (cfg : Config) (sr : SequenceRequest) (succeeded : Bool) : Option (List Entry) :=
  if succeeded then slice cfg.finalSequence sr.fromIdx sr.toIdx else some []

-- A node reports the stop sign once, after the replica of configuration 1 has
-- been started. Leaders of a configuration change at any time. `none` is a step
-- that cannot happen, or a panic.
def step (cfg : Config) (s : System) : Action → Option System
  | .run p => (s.comps p).receiveRun.map (s.commit p)
  | .leader p configId pid => some (s.commit p ((s.comps p).receiveLeader configId pid))
  | .reconfig p =>
    if p ∈ cfg.initial ∧ p ∉ s.decided ∧ 1 ≤ (s.comps p).activeConfig.id then
      ((s.comps p).receiveReconfig cfg.finalMsg).map fun result =>
        {s.commit p result with decided := s.decided ++ [p]}
    else none
  | .deliver x rnd =>
    if x ∈ s.net then
      ((s.comps x.dst).receiveNetwork x.msg x.src rnd).map fun result =>
        ({s with net := s.net.erase x}.record x).commit x.dst result
    else none
  | .answer x succeeded =>
    if x ∈ s.requests then
      (chosenEntries cfg x.sr succeeded).map fun entries =>
        {s with requests := s.requests.erase x}.commit x.pid
          (s.comps x.pid,[PaxosComp.replySequence x.sr x.requestor x.metadata succeeded entries])
    else none
  | .retry p configId =>
    ((s.comps p).retryTransferTimers configId).bind fun (seqLen,totalSegments) =>
      let fired := {s.comps p with
        retryTransferTimers := Function.update (s.comps p).retryTransferTimers configId none}
      (fired.retryRequestSequence configId seqLen totalSegments).map (s.commit p)
  | .stop p => (s.comps p).stopComponents.map (s.commit p)

inductive Reached (cfg : Config) : System → Prop where
  | initial : Reached cfg (.initial cfg)
  | step : Reached cfg s → step cfg s action = some next → Reached cfg next

def execute (cfg : Config) (s : System) : List Action → Option System
  | [] => some s
  | action :: rest => (step cfg s action).bind (execute cfg · rest)

theorem execute_reached (path : Reached cfg s) (done : execute cfg s actions = some next) :
    Reached cfg next := by
  induction actions generalizing s with
  | nil =>
    cases done
    exact path
  | cons action rest ih =>
    obtain ⟨middle,moved,more⟩ := Option.bind_eq_some_iff.mp done
    exact ih (path.step moved) more

end KompicsBenches.ReconfigSystem
