import KompicsBenches.ClientComp
import KompicsBenches.RaftReplicas
import KompicsBenches.Stages

namespace KompicsBenches.RaftStops

open GuardedRuns Stages
open RaftProposals (HashOrder)
open RaftReplicas (RawNode RaftReplica Effect)

variable {m : ℕ} {ν μ : Type}

def pid (p : Fin (m + 1)) : ℕ := p + 1

-- What a RaftComp keeps of the stop: whether it was stopped, and whether its replica
-- has replied to the ask.
structure RaftComp where
  stopped : Bool
  answered : Bool
  deriving DecidableEq, Repr

-- On their way: the stops of the client and those of the peers, between the components
-- of a node as well as between nodes.
inductive Letter (m : ℕ) where
  | clientStop (node : Fin (m + 1))
  | stop (node : Fin (m + 1))
  | sendStop (node : Fin (m + 1)) (myPid : ℕ) (ackClient : Bool)
  | peerStop (node : Fin (m + 1)) (fromPid : ℕ)
  | stopMsg (node : Fin (m + 1)) (fromPid : ℕ)
  | clientPeer (fromPid : ℕ)
  | reply (node : Fin (m + 1))
  deriving DecidableEq

-- Panics when it is told to stop a second time.
def RaftComp.receiveClientStop (c : RaftComp) : Option RaftComp :=
  if c.stopped then none else some { c with stopped := true }

-- The communicator of a node knows the other nodes and the client.
def communicate (node : Fin (m + 1)) (myPid : ℕ) (ackClient : Bool) : Multiset (Letter m) :=
  (Finset.univ.erase node).val.map (fun peer => .peerStop peer myPid) +
    if ackClient then {.clientPeer myPid} else 0

def lettersOf (node : Fin (m + 1)) : Effect μ → Multiset (Letter m)
  | .sendStop myPid ackClient => {.sendStop node myPid ackClient}
  | .replyStop => {.reply node}
  | _ => 0

-- What a replica has told since it was `before`.
def posted (node : Fin (m + 1)) (before after : RaftReplica ν μ) : Multiset (Letter m) :=
  ((after.told.drop before.told.length).map (lettersOf node)).sum

-- `handled` counts the letters that were delivered; it is kept by the model.
structure System (m : ℕ) (ν μ : Type) where
  comps : Fin (m + 1) → RaftComp
  replicas : Fin (m + 1) → RaftReplica ν μ
  client : ClientComp.Client
  asked : Bool
  net : Multiset (Letter m)
  handled : ℕ

inductive Event (m : ℕ) (μ : Type) where
  | stop
  | deliver (letter : Letter m)
  | clientHears (message : ControlCodec.AtomicBroadcastMsg)
  | replica (node : Fin (m + 1)) (event : RaftReplicas.Event μ)

namespace System
variable (lib : Fin (m + 1) → RawNode ν μ) (order : HashOrder) (s : System m ν μ)

def put (node : Fin (m + 1)) (replica : RaftReplica ν μ) : System m ν μ :=
  { s with replicas := Function.update s.replicas node replica,
           net := s.net + posted node (s.replicas node) replica }

-- The master lets the client stop all of its nodes.
def stop : System m ν μ :=
  { s with client := s.client.receiveStop, asked := true,
           net := s.net + (Finset.univ.filter fun node => pid node ∈ s.client.nodes).val.map .clientStop }

-- `none` is a panic.
def handle : Letter m → Option (System m ν μ)
  | .clientStop node => (s.comps node).receiveClientStop.map fun comp =>
      { s with comps := Function.update s.comps node comp, net := s.net + {.stop node} }
  | .stop node => some (s.put node ((s.replicas node).receiveStop (lib node)))
  | .sendStop node myPid ackClient => some { s with net := s.net + communicate node myPid ackClient }
  | .peerStop node fromPid => some { s with net := s.net + {.stopMsg node fromPid} }
  | .stopMsg node fromPid => ((s.replicas node).receiveStopMsg fromPid).map (s.put node)
  | .clientPeer fromPid =>
    match s.client.receivePeerStop fromPid with
    | .ok client => some { s with client }
    | .error _ => none
  | .reply node => some { s with
      comps := Function.update s.comps node { s.comps node with answered := true } }

def taking (letter : Letter m) : System m ν μ :=
  { s with net := s.net.erase letter, handled := s.handled + 1 }

def step : Event m μ → Option (System m ν μ)
  | .stop => some s.stop
  | .deliver letter => if letter ∈ s.net then (s.taking letter).handle lib letter else none
  | .clientHears message =>
    match s.client.receiveNetwork message with
    | .ok client => some { s with client }
    | .error _ => none
  | .replica node event => ((s.replicas node).step (lib node) order event).map (s.put node)

-- The master stops the client once; what else a replica may do, it does at any time.
def Allowed : Event m μ → Prop
  | .stop => s.asked = false
  | .replica node event => event.isStop = false ∧ (s.replicas node).Allowed event
  | .deliver _ | .clientHears _ => True

instance : (event : Event m μ) → Decidable (s.Allowed event)
  | .stop => inferInstanceAs (Decidable (s.asked = false))
  | .replica node event => inferInstanceAs (Decidable (event.isStop = false ∧ (s.replicas node).Allowed event))
  | .deliver _ | .clientHears _ => inferInstanceAs (Decidable True)

end System

-- A client that has finished, and replicas that nobody has told to stop.
structure Fresh (s : System m ν μ) : Prop where
  comps : ∀ p, s.comps p = ⟨false,false⟩
  running : ∀ p, (s.replicas p).stopped = false ∧ (s.replicas p).stoppedPeers = ∅ ∧
    (s.replicas p).stopAsk = false ∧ (s.replicas p).numPeers = m
  finished : s.client.state = .finished
  nodes : ∀ x, x ∈ s.client.nodes ↔ ∃ p : Fin (m + 1), pid p = x
  unasked : s.asked = false
  unstopped : s.client.stopAsk = false
  net : s.net = 0
  handled : s.handled = 0

section Frames
open RaftReplicas RaftReplica
variable {lib : RawNode ν μ} {order : HashOrder} {r next last : RaftReplica ν μ}

-- What does not halt a replica leaves its part of the stop as it is.
structure Unhalted (r next : RaftReplica ν μ) : Prop where
  stopped : next.stopped = r.stopped
  stoppedPeers : next.stoppedPeers = r.stoppedPeers
  stopAsk : next.stopAsk = r.stopAsk
  numPeers : next.numPeers = r.numPeers
  grows : ∃ more, next.told = r.told ++ more ∧ ∀ effect ∈ more, effect.stops = false

theorem Unhalted.trans (first : Unhalted r next) (second : Unhalted next last) : Unhalted r last := by
  obtain ⟨some_more,grown,none_stops⟩ := first.grows
  obtain ⟨more,grown_again,none_stops_again⟩ := second.grows
  refine ⟨second.stopped.trans first.stopped,second.stoppedPeers.trans first.stoppedPeers,
    second.stopAsk.trans first.stopAsk,second.numPeers.trans first.numPeers,some_more ++ more,?_,?_⟩
  · rw [grown_again,grown,List.append_assoc]
  · intro effect inside
    exact (List.mem_append.mp inside).elim (none_stops effect) (none_stops_again effect)

theorem Unhalted.same (stopped : next.stopped = r.stopped) (stoppedPeers : next.stoppedPeers = r.stoppedPeers)
    (stopAsk : next.stopAsk = r.stopAsk) (numPeers : next.numPeers = r.numPeers) (told : next.told = r.told) :
    Unhalted r next := ⟨stopped,stoppedPeers,stopAsk,numPeers,[],told.trans (List.append_nil _).symm,by simp⟩

theorem Unhalted.say (r : RaftReplica ν μ) {effect : Effect μ} (other : effect.stops = false) :
    Unhalted r (r.tell effect) := ⟨rfl,rfl,rfl,rfl,[effect],rfl,by simpa using other⟩

theorem settle_unhalted (r : RaftReplica ν μ) : Unhalted r (r.settle lib) := by
  unfold settle
  dsimp only
  split <;> split <;> exact .same rfl rfl rfl rfl rfl

theorem Unhalted.change (change : Change lib order false r next) : Unhalted r next := by
  cases change with
  | library raw | campaigned => exact .same rfl rfl rfl rfl rfl
  | say effect quiet =>
    apply Unhalted.say
    cases effect with
    | rawRaftMsg _ | proposalResponse _ _ => rfl
    | _ => cases quiet
  | sayStop _ _ halting | stopping _ _ halting | stopped halting => cases halting
  | noteLeader leader =>
    unfold RaftReplica.noteLeader
    split
    · exact ⟨rfl,rfl,rfl,rfl,[_],rfl,by simp [Effect.stops]⟩
    · exact .same rfl rfl rfl rfl rfl
  | begins raw unsettled => exact ⟨rfl,rfl,rfl,rfl,[_],rfl,by simp [Effect.stops]⟩
  | finalizes raw voters leader unsettled =>
    have begun : Unhalted r (RaftReplica.tell { r with raw } .finalizeMembershipChange) :=
      ⟨rfl,rfl,rfl,rfl,[_],rfl,by simp [Effect.stops]⟩
    exact (begun.trans (settle_unhalted _)).trans (.say _ rfl)

theorem Unhalted.propose {proposal : RaftProposals.Proposal} (done : r.propose lib order proposal = some next) :
    Unhalted r next := by
  obtain rfl | ⟨_,_,_,rfl⟩ | ⟨_,_,_,rfl⟩ | ⟨_,_,raw,_,_,rfl⟩ | ⟨raw,_,rfl⟩ := propose_cases done
  · exact .same rfl rfl rfl rfl rfl
  · exact .same rfl rfl rfl rfl rfl
  · exact .say _ rfl
  · exact ⟨rfl,rfl,rfl,rfl,[_],rfl,by simp [Effect.stops]⟩
  · exact ⟨rfl,rfl,rfl,rfl,[_],rfl,by simp [Effect.stops]⟩

theorem Unhalted.moves (moves : Moves lib order false r next) : Unhalted r next := by
  induction moves with
  | refl => exact .same rfl rfl rfl rfl rfl
  | tail _ move ih =>
    refine ih.trans ?_
    cases move with
    | change change => exact .change change
    | propose proposal done => exact .propose done
    | takes => exact .same rfl rfl rfl rfl rfl

theorem step_unhalted {event : RaftReplicas.Event μ} (other : event.isStop = false)
    (done : r.step lib order event = some next) : Unhalted r next := by
  have moves := step_moves done
  rw [other] at moves
  exact .moves moves

theorem posted_unhalted (p : Fin (m + 1)) (unhalted : Unhalted r next) : posted p r next = 0 := by
  obtain ⟨more,grown,none_stops⟩ := unhalted.grows
  rw [posted,grown,List.drop_left]
  apply List.sum_eq_zero
  intro letters inside
  obtain ⟨effect,told,rfl⟩ := List.mem_map.mp inside
  have other := none_stops effect told
  cases effect with
  | sendStop _ _ | replyStop => cases other
  | _ => rfl

end Frames

-- Where the stop of a node is on its way to a peer.
inductive Hop where
  | flying
  | arrived
  | taken
  deriving DecidableEq, Repr

-- How far a node is with its stop; `client` says whether the client has heard of it.
inductive Stage (m : ℕ) where
  | running
  | told
  | asked
  | sending
  | sent (peers : Fin (m + 1) → Hop) (client : Bool)

inductive Wait where
  | waiting
  | replying
  | answered
  deriving DecidableEq, Repr

def hopLetters (q p : Fin (m + 1)) : Hop → Multiset (Letter m)
  | .flying => {.peerStop p (pid q)}
  | .arrived => {.stopMsg p (pid q)}
  | .taken => 0

def letters (q : Fin (m + 1)) : Stage m → Multiset (Letter m)
  | .running => 0
  | .told => {.clientStop q}
  | .asked => {.stop q}
  | .sending => {.sendStop q (pid q) true}
  | .sent peers client => (if client then 0 else {.clientPeer (pid q)}) + inFlight (hopLetters q) peers

def replyLetters (p : Fin (m + 1)) : Wait → Multiset (Letter m)
  | .replying => {.reply p}
  | .waiting | .answered => 0

def Hop.steps : Hop → ℕ
  | .flying => 0
  | .arrived => 1
  | .taken => 2

-- The letters that were delivered for a node.
def Stage.steps (q : Fin (m + 1)) : Stage m → ℕ
  | .running | .told => 0
  | .asked => 1
  | .sending => 2
  | .sent peers client =>
    3 + (if client then 1 else 0) + counted (fun p hop => if p = q then 0 else hop.steps) peers

def Wait.steps : Wait → ℕ
  | .waiting | .replying => 0
  | .answered => 1

namespace Stage

-- The RaftComp of the node was told.
def downed : Stage m → Bool
  | .running | .told => false
  | .asked | .sending | .sent _ _ => true

-- The replica of the node was told.
def halted : Stage m → Bool
  | .running | .told | .asked => false
  | .sending | .sent _ _ => true

def acked : Stage m → Bool
  | .sent _ client => client
  | _ => false

def heardBy (p : Fin (m + 1)) : Stage m → Bool
  | .sent peers _ => peers p = .taken
  | _ => false

end Stage

-- The peers that a node has heard of.
def heard (stage : Fin (m + 1) → Stage m) (p : Fin (m + 1)) : Finset (Fin (m + 1)) :=
  Finset.univ.filter fun q => q ≠ p ∧ (stage q).heardBy p = true

-- The part a replica takes in the stop.
structure Part (at_stage : Stage m) (heard : Finset (Fin (m + 1))) (wait : Wait) (r : RaftReplica ν μ) : Prop where
  stopped : r.stopped = at_stage.halted
  stoppedPeers : r.stoppedPeers = heard.image pid
  numPeers : r.numPeers = m
  stopAsk : r.stopAsk = true ↔ at_stage.halted = true ∧ heard.card ≠ m
  waiting : wait = .waiting ↔ ¬(at_stage.halted = true ∧ heard.card = m)

-- What the client still waits for.
structure Roll (stage : Fin (m + 1) → Stage m) (client : ClientComp.Client) (asked : Bool) : Prop where
  finished : client.state = .finished
  nodes : ∀ x, x ∈ client.nodes ↔ ∃ q, pid q = x ∧ (stage q).acked = false
  ask : client.stopAsk = true ↔ asked = true ∧ client.nodes ≠ []

structure Course (stage : Fin (m + 1) → Stage m) (wait : Fin (m + 1) → Wait) (s : System m ν μ) : Prop where
  net : s.net = inFlight letters stage + inFlight replyLetters wait
  handled : s.handled = counted Stage.steps stage + counted (fun _ => Wait.steps) wait
  comps : ∀ p, s.comps p = ⟨(stage p).downed,wait p = .answered⟩
  parts : ∀ p, Part (stage p) (heard stage p) (wait p) (s.replicas p)
  own : ∀ q peers client, stage q = .sent peers client → peers q = .taken
  roll : Roll stage s.client s.asked
  begun : ∀ q, stage q = .running ↔ s.asked = false

section Stages
variable {stage : Fin (m + 1) → Stage m} {wait : Fin (m + 1) → Wait} {p q : Fin (m + 1)} {at_stage new : Stage m}

theorem pid_injective : Function.Injective (pid (m := m)) := by
  intro p q same
  exact Fin.ext (Nat.succ_injective same)

-- Which stage a letter belongs to.
def Origin (q : Fin (m + 1)) (at_stage : Stage m) : Letter m → Prop
  | .clientStop p => p = q ∧ at_stage = .told
  | .stop p => p = q ∧ at_stage = .asked
  | .sendStop p myPid ackClient => p = q ∧ myPid = pid q ∧ ackClient = true ∧ at_stage = .sending
  | .peerStop p fromPid => fromPid = pid q ∧ ∃ peers client, at_stage = .sent peers client ∧ peers p = .flying
  | .stopMsg p fromPid => fromPid = pid q ∧ ∃ peers client, at_stage = .sent peers client ∧ peers p = .arrived
  | .clientPeer fromPid => fromPid = pid q ∧ ∃ peers, at_stage = .sent peers false
  | .reply _ => False

theorem origin_hop {peers : Fin (m + 1) → Hop} {client : Bool} {letter : Letter m}
    (inside : letter ∈ inFlight (hopLetters q) peers) : Origin q (.sent peers client) letter := by
  obtain ⟨p,there⟩ := mem_inFlight.mp inside
  cases hop : peers p with
  | flying =>
    rw [hop,hopLetters,Multiset.mem_singleton] at there
    exact there ▸ ⟨rfl,peers,client,rfl,hop⟩
  | arrived =>
    rw [hop,hopLetters,Multiset.mem_singleton] at there
    exact there ▸ ⟨rfl,peers,client,rfl,hop⟩
  | taken =>
    rw [hop] at there
    exact absurd there (Multiset.notMem_zero _)

theorem origin_letters {letter : Letter m} (inside : letter ∈ letters q at_stage) : Origin q at_stage letter := by
  cases at_stage with
  | running => exact absurd inside (Multiset.notMem_zero _)
  | told =>
    rw [Multiset.mem_singleton.mp inside]
    exact ⟨rfl,rfl⟩
  | asked =>
    rw [Multiset.mem_singleton.mp inside]
    exact ⟨rfl,rfl⟩
  | sending =>
    rw [Multiset.mem_singleton.mp inside]
    exact ⟨rfl,rfl,rfl,rfl⟩
  | sent peers client =>
    rcases Multiset.mem_add.mp inside with ack | hop
    · cases client with
      | true => exact absurd ack (Multiset.notMem_zero _)
      | false =>
        rw [Multiset.mem_singleton.mp ack]
        exact ⟨rfl,peers,rfl⟩
    · exact origin_hop hop

-- A letter that is not a reply comes from a stage, a reply from a replica.
theorem origin_net {letter : Letter m} (inside : letter ∈ inFlight letters stage + inFlight replyLetters wait) :
    (∃ q, letter ∈ letters q (stage q) ∧ Origin q (stage q) letter) ∨ ∃ p, wait p = .replying ∧ letter = .reply p := by
  rcases Multiset.mem_add.mp inside with from_stage | from_wait
  · obtain ⟨q,there⟩ := mem_inFlight.mp from_stage
    exact .inl ⟨q,there,origin_letters there⟩
  · obtain ⟨p,there⟩ := mem_inFlight.mp from_wait
    cases now : wait p with
    | waiting | answered =>
      rw [now] at there
      exact absurd there (Multiset.notMem_zero _)
    | replying =>
      rw [now] at there
      exact .inr ⟨p,now,Multiset.mem_singleton.mp there⟩

theorem mem_heard : q ∈ heard stage p ↔ q ≠ p ∧ (stage q).heardBy p = true := by
  rw [heard,Finset.mem_filter,and_iff_right (Finset.mem_univ q)]

-- Only what a peer takes changes what is heard of it.
theorem heard_same (same : ∀ p, p ≠ q → new.heardBy p = (stage q).heardBy p) :
    heard (Function.update stage q new) = heard stage := by
  funext p
  apply Finset.filter_congr
  intro other _
  by_cases moved : other = q
  · subst moved
    rw [Function.update_self]
    exact and_congr_right fun apart => by rw [same p (Ne.symm apart)]
  · rw [Function.update_of_ne moved]

theorem heard_taken {peers : Fin (m + 1) → Hop} {client : Bool} (before : stage q = .sent peers client) (apart : q ≠ p)
    (x : Fin (m + 1)) : heard (Function.update stage q (.sent (Function.update peers p .taken) client)) x =
      if x = p then insert q (heard stage p) else heard stage x := by
  have same : (if x = p then insert q (heard stage p) else heard stage x) =
      if x = p then insert q (heard stage x) else heard stage x := by
    split
    · rename_i here
      rw [here]
    · rfl
  rw [same]
  ext other
  rw [mem_heard]
  by_cases moved : other = q
  · subst moved
    rw [Function.update_self]
    by_cases there : x = p
    · subst there
      simp [Stage.heardBy,apart]
    · simp [mem_heard,Stage.heardBy,before,there]
  · rw [Function.update_of_ne moved]
    split
    · rw [Finset.mem_insert,or_iff_right moved,mem_heard]
    · rw [mem_heard]

theorem heard_card_le (stage : Fin (m + 1) → Stage m) (p : Fin (m + 1)) : (heard stage p).card ≤ m := by
  have within : heard stage p ⊆ Finset.univ.erase p := by
    intro q inside
    exact Finset.mem_erase.mpr ⟨(mem_heard.mp inside).1,Finset.mem_univ q⟩
  have most := Finset.card_le_card within
  rwa [Finset.card_erase_of_mem (Finset.mem_univ p),Finset.card_univ,Fintype.card_fin] at most

-- Who has heard of as many nodes as there are peers has heard of them all.
theorem heard_all : (heard stage p).card = m ↔ ∀ q, q ≠ p → (stage q).heardBy p = true := by
  have within : heard stage p ⊆ Finset.univ.erase p := by
    intro q inside
    exact Finset.mem_erase.mpr ⟨(mem_heard.mp inside).1,Finset.mem_univ q⟩
  have size : (Finset.univ.erase p).card = m := by
    rw [Finset.card_erase_of_mem (Finset.mem_univ p),Finset.card_univ,Fintype.card_fin]
    rfl
  constructor
  · intro full q apart
    have same := Finset.eq_of_subset_of_card_le within (size.trans full.symm).le
    exact (mem_heard.mp (same ▸ Finset.mem_erase.mpr ⟨apart,Finset.mem_univ q⟩)).2
  · intro all
    refine Eq.trans ?_ size
    congr 1
    apply within.antisymm
    intro q inside
    have apart := Finset.ne_of_mem_erase inside
    exact mem_heard.mpr ⟨apart,all q apart⟩

end Stages

section Replicas
variable {r : RaftReplica ν μ} {p q : Fin (m + 1)} {at_stage : Stage m}
  {known : Finset (Fin (m + 1))} {wait : Wait}

theorem Part.card (part : Part at_stage known wait r) : r.stoppedPeers.card = known.card := by
  rw [part.stoppedPeers,Finset.card_image_of_injective _ pid_injective]

theorem Part.same {next : RaftReplica ν μ} (part : Part at_stage known wait r) (unhalted : Unhalted r next) :
    Part at_stage known wait next :=
  ⟨unhalted.stopped.trans part.stopped,unhalted.stoppedPeers.trans part.stoppedPeers,
    unhalted.numPeers.trans part.numPeers,unhalted.stopAsk.symm ▸ part.stopAsk,part.waiting⟩

theorem Part.at {new : Stage m} (part : Part at_stage known wait r) (halted : new.halted = at_stage.halted) :
    Part new known wait r := by
  refine ⟨?_,part.stoppedPeers,part.numPeers,?_,?_⟩
  · rw [halted]
    exact part.stopped
  · rw [halted]
    exact part.stopAsk
  · rw [halted]
    exact part.waiting

-- What a replica does when it is stopped, and who waits for it then.
theorem Part.receiveStop (lib : RawNode ν μ) (p : Fin (m + 1)) (part : Part .asked known wait r) :
    posted p r (r.receiveStop lib) = {.sendStop p lib.id true} + (if known.card = m then {.reply p} else 0) ∧
      Part .sending known (if known.card = m then .replying else .waiting) (r.receiveStop lib) ∧ wait = .waiting := by
  have unasked : r.stopAsk = false := by
    by_contra asked
    exact absurd (part.stopAsk.mp (Bool.eq_true_of_not_eq_false asked)).1 Bool.false_ne_true
  refine ⟨?_,?_,part.waiting.mpr (fun both => absurd both.1 Bool.false_ne_true)⟩
  · unfold RaftReplica.receiveStop
    simp only [RaftReplica.tell,RaftReplica.stopTimers,part.card,part.numPeers]
    split
    · simp [posted,lettersOf]
    · simp [posted,lettersOf]
  · unfold RaftReplica.receiveStop
    simp only [RaftReplica.tell,RaftReplica.stopTimers,part.card,part.numPeers]
    split
    · rename_i all
      exact ⟨rfl,part.stoppedPeers,rfl,by simp [unasked,all],by simp [all,Stage.halted]⟩
    · rename_i missing
      exact ⟨rfl,part.stoppedPeers,rfl,by simp [missing,Stage.halted],by simp [missing]⟩

-- A peer that was not heard of is accepted; the last one releases who waits.
theorem Part.receiveStopMsg (part : Part at_stage known wait r) (fresh : q ∉ known) (room : (insert q known).card ≤ m) :
    ∃ next, r.receiveStopMsg (pid q) = some next ∧
      posted p r next = (if at_stage.halted = true ∧ (insert q known).card = m then {.reply p} else 0) ∧
      Part at_stage (insert q known)
        (if at_stage.halted = true ∧ (insert q known).card = m then .replying else .waiting) next ∧ wait = .waiting := by
  have larger := Finset.card_insert_of_notMem fresh
  have missing : known.card ≠ m := by omega
  have unheard : pid q ∉ r.stoppedPeers := by
    rw [part.stoppedPeers,Finset.mem_image]
    rintro ⟨other,inside,same⟩
    exact fresh (pid_injective same ▸ inside)
  have grown : insert (pid q) r.stoppedPeers = (insert q known).image pid := by
    rw [part.stoppedPeers,Finset.image_insert]
  have count : (insert (pid q) r.stoppedPeers).card = (insert q known).card := by
    rw [grown,Finset.card_image_of_injective _ pid_injective]
  have waiting : wait = .waiting := part.waiting.mpr fun both => missing both.2
  unfold RaftReplica.receiveStopMsg
  rw [if_neg unheard]
  simp only [count,part.numPeers,part.stopped]
  by_cases last : (insert q known).card = m ∧ at_stage.halted = true
  · have asked : r.stopAsk = true := part.stopAsk.mpr ⟨last.2,missing⟩
    rw [if_pos last,if_pos asked,if_pos (And.comm.mp last)]
    refine ⟨_,rfl,by simp [posted,lettersOf,RaftReplica.tell],?_,waiting⟩
    exact ⟨rfl,grown,rfl,by simp [RaftReplica.tell,last.1],by simp [last]⟩
  · have unready : ¬(at_stage.halted = true ∧ (insert q known).card = m) := fun both => last (And.comm.mp both)
    rw [if_neg last,if_neg unready]
    refine ⟨_,rfl,by simp [posted],?_,waiting⟩
    refine ⟨rfl,grown,rfl,?_,?_⟩
    · rw [part.stopAsk]
      constructor
      · exact fun both => ⟨both.1,fun full => unready ⟨both.1,full⟩⟩
      · exact fun both => ⟨both.1,missing⟩
    · rw [if_neg unready]
      exact iff_of_true rfl unready

end Replicas

section Hops
variable {p q : Fin (m + 1)} {peers : Fin (m + 1) → Hop}

-- The stop of a node to all of its peers and to the client, all on their way.
theorem sent_letters (q : Fin (m + 1)) :
    letters q (.sent (fun x => if x = q then .taken else .flying) false) = communicate q (pid q) true := by
  have flying : inFlight (hopLetters q) (fun x => if x = q then .taken else .flying) =
      (Finset.univ.erase q).val.map fun peer => .peerStop peer (pid q) := by
    have own : hopLetters q q (if q = q then .taken else .flying) = 0 := by rw [if_pos rfl]; rfl
    have others : ∀ x ∈ Finset.univ.erase q,
        hopLetters q x (if x = q then .taken else .flying) = {Letter.peerStop x (pid q)} := by
      intro x inside
      rw [if_neg (Finset.ne_of_mem_erase inside)]
      rfl
    rw [inFlight,← Finset.add_sum_erase _ _ (Finset.mem_univ q),own,zero_add,Finset.sum_congr rfl others]
    have single := Multiset.sum_map_singleton ((Finset.univ.erase q).val.map fun peer => Letter.peerStop peer (pid q))
    rwa [Multiset.map_map] at single
  rw [letters,flying,communicate]
  exact add_comm _ _

theorem sent_steps (q : Fin (m + 1)) : Stage.steps q (.sent (fun x => if x = q then .taken else .flying) false) = 3 := by
  have none_yet : counted (fun p (hop : Hop) => if p = q then 0 else hop.steps)
      (fun x => if x = q then .taken else .flying) = 0 := by
    apply Finset.sum_eq_zero
    intro x _
    by_cases own : x = q
    · exact if_pos own
    · simp [own,Hop.steps]
  rw [Stage.steps,none_yet]
  rfl

theorem hop_trade {letter : Letter m} (hop : hopLetters q p (peers p) = {letter}) (after : Hop) (client : Bool) :
    ∃ rest, letters q (.sent peers client) = letter ::ₘ rest ∧
      letters q (.sent (Function.update peers p after) client) = hopLetters q p after + rest := by
  have present : letter ∈ inFlight (hopLetters q) peers := mem_inFlight.mpr ⟨p,by rw [hop]; exact Multiset.mem_singleton_self _⟩
  refine ⟨(if client then 0 else {.clientPeer (pid q)}) + (inFlight (hopLetters q) peers).erase letter,?_,?_⟩
  · rw [letters,← Multiset.add_cons,Multiset.cons_erase present]
  · rw [letters,← inFlight_move after hop]
    ac_rfl

theorem hop_steps {after : Hop} (apart : p ≠ q) (raised : after.steps = (peers p).steps + 1) (client : Bool) :
    Stage.steps q (.sent (Function.update peers p after) client) = Stage.steps q (.sent peers client) + 1 := by
  have moved : counted (fun p (hop : Hop) => if p = q then 0 else hop.steps) (Function.update peers p after) =
      counted (fun p (hop : Hop) => if p = q then 0 else hop.steps) peers + 1 :=
    counted_raise 1 (by rw [if_neg apart,if_neg apart,raised])
  rw [Stage.steps,Stage.steps,moved]
  exact (add_assoc _ _ 1).symm

end Hops

section Steps
variable {lib : Fin (m + 1) → RawNode ν μ} {order : HashOrder} {stage : Fin (m + 1) → Stage m}
  {wait : Fin (m + 1) → Wait} {s next : System m ν μ} {p q : Fin (m + 1)} {letter : Letter m}

theorem turned_net (waiting : wait p = .waiting) (last : Prop) [Decidable last] :
    inFlight replyLetters (Function.update wait p (if last then .replying else .waiting)) =
      inFlight replyLetters wait + if last then {.reply p} else 0 := by
  split
  · have silent : replyLetters p (wait p) = 0 := by rw [waiting]; rfl
    exact (inFlight_start Wait.replying silent).symm
  · rw [← waiting,Function.update_eq_self,add_zero]

theorem turned_steps (waiting : wait p = .waiting) (last : Prop) [Decidable last] :
    counted (fun _ => Wait.steps) (Function.update wait p (if last then .replying else .waiting)) =
      counted (fun _ => Wait.steps) wait := by
  apply counted_raise 0
  rw [waiting]
  split <;> rfl

-- One node goes on to a new stage with the letter that was taken.
theorem Course.advance (course : Course stage wait s) (new : Stage m) {wait' : Fin (m + 1) → Wait}
    (sent rest replies : Multiset (Letter m)) (before : letters q (stage q) = letter ::ₘ rest) (after : letters q new = sent + rest)
    (steps : new.steps q = (stage q).steps q + 1)
    (replying : inFlight replyLetters wait' = inFlight replyLetters wait + replies)
    (counting : counted (fun _ => Wait.steps) wait' = counted (fun _ => Wait.steps) wait)
    (net : next.net = s.net.erase letter + (sent + replies)) (handled : next.handled = s.handled + 1)
    (comps : ∀ p, next.comps p = ⟨(Function.update stage q new p).downed,wait' p = .answered⟩)
    (parts : ∀ p, Part (Function.update stage q new p) (heard (Function.update stage q new) p) (wait' p) (next.replicas p))
    (own : ∀ peers client, new = .sent peers client → peers q = .taken)
    (roll : Roll (Function.update stage q new) next.client next.asked) (asked : next.asked = s.asked)
    (apart : stage q ≠ .running) (later : new ≠ .running) : Course (Function.update stage q new) wait' next := by
  have present : letter ∈ inFlight letters stage :=
    mem_inFlight.mpr ⟨q,before ▸ Multiset.mem_cons_self letter rest⟩
  refine ⟨?_,?_,comps,parts,?_,roll,?_⟩
  · rw [net,course.net,Multiset.erase_add_left_pos _ present,replying,← inFlight_trade before after]
    ac_rfl
  · have raised := counted_raise 1 steps
    have total := course.handled
    omega
  · intro other peers client stays
    by_cases moved : other = q
    · subst moved
      rw [Function.update_self] at stays
      exact own peers client stays
    · rw [Function.update_of_ne moved] at stays
      exact course.own other peers client stays
  · intro other
    rw [asked]
    by_cases moved : other = q
    · rw [moved,Function.update_self]
      exact iff_of_false later (fun unasked => apart ((course.begun q).mpr unasked))
    · rw [Function.update_of_ne moved]
      exact course.begun other

theorem Roll.kept {client : ClientComp.Client} {asked : Bool} (roll : Roll stage client asked) {new : Stage m}
    (acked : new.acked = (stage q).acked) : Roll (Function.update stage q new) client asked := by
  refine ⟨roll.finished,?_,roll.ask⟩
  intro x
  rw [roll.nodes x]
  apply exists_congr
  intro other
  by_cases moved : other = q
  · rw [moved,Function.update_self,acked]
  · rw [Function.update_of_ne moved]

-- Nothing that replicas see changes.
theorem Course.parts_kept (course : Course stage wait s) {new : Stage m} (halted : new.halted = (stage q).halted)
    (same : ∀ p, p ≠ q → new.heardBy p = (stage q).heardBy p) (p : Fin (m + 1)) :
    Part (Function.update stage q new p) (heard (Function.update stage q new) p) (wait p) (s.replicas p) := by
  rw [heard_same same]
  by_cases moved : p = q
  · subst moved
    rw [Function.update_self]
    exact (course.parts p).at halted
  · rw [Function.update_of_ne moved]
    exact course.parts p

theorem Course.comps_kept (course : Course stage wait s) {new : Stage m} (downed : new.downed = (stage q).downed) (p : Fin (m + 1)) :
    s.comps p = ⟨(Function.update stage q new p).downed,wait p = .answered⟩ := by
  rw [course.comps p]
  by_cases moved : p = q
  · rw [moved,Function.update_self,downed]
  · rw [Function.update_of_ne moved]

abbrev Continues (s : Option (System m ν μ)) : Prop := ∃ next, s = some next ∧ ∃ stage wait, Course stage wait next

theorem Course.clientStop (course : Course stage wait s) (inside : .clientStop p ∈ s.net) :
    Continues ((s.taking (.clientStop p)).handle lib (.clientStop p)) := by
  rw [course.net] at inside
  obtain ⟨_,_,rfl,now⟩ | ⟨_,_,other⟩ := origin_net inside
  · have comp : s.comps p = ⟨false,wait p = .answered⟩ := by
      rw [course.comps p,now]
      rfl
    refine ⟨{ s.taking (.clientStop p) with comps := Function.update s.comps p ⟨true,wait p = .answered⟩,
                                            net := s.net.erase (.clientStop p) + {.stop p} },?_,?_⟩
    · simp [System.handle,System.taking,RaftComp.receiveClientStop,comp]
    · refine ⟨_,wait,course.advance .asked {.stop p} 0 0 (by rw [now]; rfl) (add_zero _).symm
        (by rw [now]; rfl) (add_zero _).symm rfl (by simp) rfl ?_
        (course.parts_kept (by rw [now]; rfl) (fun _ _ => by rw [now]; rfl)) (fun _ _ other => by cases other)
        (course.roll.kept (by rw [now]; rfl)) rfl (by rw [now]; simp) (by simp)⟩
      intro x
      by_cases moved : x = p
      · subst moved
        simp [Stage.downed]
      · rw [Function.update_of_ne moved]
        exact (Function.update_of_ne moved _ _).trans (course.comps x)
  · cases other

-- A replica that was put in place has the part of its own node.
theorem parts_put {stage' : Fin (m + 1) → Stage m} {turned : Wait} {replica : RaftReplica ν μ}
    (others : ∀ x, x ≠ p → Part (stage' x) (heard stage' x) (wait x) (s.replicas x))
    (own : Part (stage' p) (heard stage' p) turned replica) (x : Fin (m + 1)) :
    Part (stage' x) (heard stage' x) (Function.update wait p turned x) (Function.update s.replicas p replica x) := by
  by_cases here : x = p
  · subst here
    rw [Function.update_self,Function.update_self]
    exact own
  · rw [Function.update_of_ne here,Function.update_of_ne here]
    exact others x here

theorem turned_answered (waiting : wait p = .waiting) (last : Prop) [Decidable last] (x : Fin (m + 1)) :
    Function.update wait p (if last then .replying else .waiting) x = .answered ↔ wait x = .answered := by
  by_cases here : x = p
  · subst here
    rw [Function.update_self,waiting]
    split <;> simp
  · rw [Function.update_of_ne here]

theorem Course.stop (named : ∀ p, (lib p).id = pid p) (course : Course stage wait s) (inside : .stop p ∈ s.net) :
    Continues ((s.taking (.stop p)).handle lib (.stop p)) := by
  rw [course.net] at inside
  obtain ⟨_,_,rfl,now⟩ | ⟨_,_,other⟩ := origin_net inside
  · have part := course.parts p
    rw [now] at part
    obtain ⟨told,own,waiting⟩ := part.receiveStop (lib p) p
    have same : heard (Function.update stage p .sending) = heard stage :=
      heard_same fun _ _ => by rw [now]; rfl
    refine ⟨_,rfl,_,_,course.advance .sending {.sendStop p (pid p) true} 0
      (if (heard stage p).card = m then {.reply p} else 0) (by rw [now]; rfl) (add_zero _).symm (by rw [now]; rfl)
      (turned_net waiting ((heard stage p).card = m)) (turned_steps waiting _) ?_ rfl ?_ (parts_put ?_ ?_)
      (fun _ _ other => by cases other) (course.roll.kept (by rw [now]; rfl)) rfl (by rw [now]; simp) (by simp)⟩
    · exact congrArg (s.net.erase (.stop p) + ·) (named p ▸ told)
    · intro x
      simp only [turned_answered waiting]
      exact course.comps_kept (by rw [now]; rfl) x
    · intro x apart
      rw [same,Function.update_of_ne apart]
      exact course.parts x
    · rw [same,Function.update_self]
      exact own
  · cases other

theorem Course.sendStop {myPid : ℕ} {ackClient : Bool} (course : Course stage wait s)
    (inside : .sendStop p myPid ackClient ∈ s.net) :
    Continues ((s.taking (.sendStop p myPid ackClient)).handle lib (.sendStop p myPid ackClient)) := by
  rw [course.net] at inside
  obtain ⟨_,_,rfl,rfl,rfl,now⟩ | ⟨_,_,other⟩ := origin_net inside
  · refine ⟨_,rfl,_,wait,course.advance (.sent (fun x => if x = p then .taken else .flying) false)
      (communicate p (pid p) true) 0 0 (by rw [now]; rfl) ?_ ?_ (add_zero _).symm rfl ?_ rfl
      (course.comps_kept (by rw [now]; rfl)) (course.parts_kept (by rw [now]; rfl) ?_) ?_
      (course.roll.kept (by rw [now]; rfl)) rfl (by rw [now]; simp) (by simp)⟩
    · exact (sent_letters p).trans (add_zero _).symm
    · rw [now]
      exact sent_steps p
    · exact (congrArg (s.net.erase _ + ·) (add_zero _)).symm
    · intro x apart
      simp [Stage.heardBy,apart,now]
    · intro peers client same
      cases same
      exact if_pos rfl
  · cases other

theorem Course.peerStop {fromPid : ℕ} (course : Course stage wait s) (inside : .peerStop p fromPid ∈ s.net) :
    Continues ((s.taking (.peerStop p fromPid)).handle lib (.peerStop p fromPid)) := by
  rw [course.net] at inside
  obtain ⟨q,_,rfl,peers,client,now,hop⟩ | ⟨_,_,other⟩ := origin_net inside
  · have apart : p ≠ q := by
      intro same
      rw [same,course.own q peers client now] at hop
      cases hop
    have there : hopLetters q p (peers p) = {.peerStop p (pid q)} := by
      rw [hop]
      rfl
    obtain ⟨rest,before,after⟩ := hop_trade there Hop.arrived client
    refine ⟨_,rfl,_,wait,course.advance (.sent (Function.update peers p .arrived) client) {.stopMsg p (pid q)} rest 0
      (by rw [now]; exact before) after ?_ (add_zero _).symm rfl ?_ rfl (course.comps_kept (by rw [now]; rfl))
      (course.parts_kept (by rw [now]; rfl) ?_) ?_ (course.roll.kept (by rw [now]; rfl)) rfl (by rw [now]; simp) (by simp)⟩
    · rw [now]
      exact hop_steps apart (by rw [hop]; rfl) client
    · exact (congrArg (s.net.erase _ + ·) (add_zero _)).symm
    · intro x _
      rw [now]
      by_cases here : x = p
      · simp [Stage.heardBy,here,hop]
      · simp [Stage.heardBy,here]
    · intro others ack same
      cases same
      rw [Function.update_of_ne (Ne.symm apart)]
      exact course.own q peers client now
  · cases other

theorem Course.stopMsg {fromPid : ℕ} (course : Course stage wait s) (inside : .stopMsg p fromPid ∈ s.net) :
    Continues ((s.taking (.stopMsg p fromPid)).handle lib (.stopMsg p fromPid)) := by
  rw [course.net] at inside
  obtain ⟨q,_,rfl,peers,client,now,hop⟩ | ⟨_,_,other⟩ := origin_net inside
  · have apart : p ≠ q := by
      intro same
      rw [same,course.own q peers client now] at hop
      cases hop
    have there : hopLetters q p (peers p) = {.stopMsg p (pid q)} := by
      rw [hop]
      rfl
    obtain ⟨rest,before,after⟩ := hop_trade there Hop.taken client
    have known := heard_taken now (Ne.symm apart)
    have fresh : q ∉ heard stage p := by
      rw [mem_heard,now]
      simp [Stage.heardBy,hop]
    have room := heard_card_le (Function.update stage q (.sent (Function.update peers p .taken) client)) p
    rw [known,if_pos rfl] at room
    obtain ⟨replica,done,told,own,waiting⟩ := (course.parts p).receiveStopMsg fresh room
    refine ⟨(s.taking (.stopMsg p (pid q))).put p replica,?_,_,_,
      course.advance (.sent (Function.update peers p .taken) client) 0 rest
      (if (stage p).halted = true ∧ (insert q (heard stage p)).card = m then {.reply p} else 0)
      (by rw [now]; exact before) after ?_ (turned_net waiting _) (turned_steps waiting _) ?_ rfl ?_ (parts_put ?_ ?_) ?_
      (course.roll.kept (by rw [now]; rfl)) rfl (by rw [now]; simp) (by simp)⟩
    · simp [System.handle,System.taking,done]
    · rw [now]
      exact hop_steps apart (by rw [hop]; rfl) client
    · rw [zero_add]
      exact congrArg (s.net.erase (.stopMsg p (pid q)) + ·) told
    · intro x
      simp only [turned_answered waiting]
      exact course.comps_kept (by rw [now]; rfl) x
    · intro x away
      rw [known,if_neg away]
      by_cases sender : x = q
      · subst sender
        rw [Function.update_self]
        exact (course.parts x).at (by rw [now]; rfl)
      · rw [Function.update_of_ne sender]
        exact course.parts x
    · rw [known,if_pos rfl,Function.update_of_ne apart]
      exact own
    · intro others ack same
      cases same
      rw [Function.update_of_ne (Ne.symm apart)]
      exact course.own q peers client now
  · cases other

-- The client takes the stop of a node that it still waits for.
theorem Roll.receivePeerStop {client : ClientComp.Client} (roll : Roll stage client true) (new : Stage m)
    (missing : (stage q).acked = false) (heard : new.acked = true) :
    ∃ next, client.receivePeerStop (pid q) = .ok next ∧ Roll (Function.update stage q new) next true := by
  have known : pid q ∈ client.nodes := (roll.nodes _).mpr ⟨q,rfl,missing⟩
  have asked : client.stopAsk = true := roll.ask.mpr ⟨rfl,List.ne_nil_of_mem known⟩
  have left_over (x : ℕ) : x ∈ client.nodes.filter (· ≠ pid q) ↔
      ∃ p, pid p = x ∧ (Function.update stage q new p).acked = false := by
    rw [List.mem_filter,roll.nodes x,decide_eq_true_eq]
    constructor
    · rintro ⟨⟨p,named,waited⟩,apart⟩
      have other : p ≠ q := fun same => apart (named ▸ same ▸ rfl)
      exact ⟨p,named,by rw [Function.update_of_ne other]; exact waited⟩
    · rintro ⟨p,named,waited⟩
      by_cases same : p = q
      · rw [same,Function.update_self,heard] at waited
        cases waited
      · rw [Function.update_of_ne same] at waited
        exact ⟨⟨p,named,waited⟩,fun equal => same (pid_injective (named.trans equal))⟩
  unfold ClientComp.Client.receivePeerStop
  rw [if_neg (by simpa using known)]
  by_cases more : client.nodes.filter (· ≠ pid q) ≠ []
  · exact ⟨_,if_pos more,roll.finished,left_over,iff_of_true asked ⟨rfl,more⟩⟩
  · refine ⟨{ client with nodes := client.nodes.filter (· ≠ pid q), responses := [], stopAsk := false },?_,
      roll.finished,left_over,iff_of_false Bool.false_ne_true (fun both => more both.2)⟩
    dsimp only
    rw [if_neg more,if_neg (not_not.mpr asked)]

theorem Course.clientPeer {fromPid : ℕ} (course : Course stage wait s) (inside : .clientPeer fromPid ∈ s.net) :
    Continues ((s.taking (.clientPeer fromPid)).handle lib (.clientPeer fromPid)) := by
  rw [course.net] at inside
  obtain ⟨q,_,rfl,peers,now⟩ | ⟨_,_,other⟩ := origin_net inside
  · have asked : s.asked = true := by
      by_contra unasked
      have running := (course.begun q).mpr (Bool.eq_false_iff.mpr unasked)
      rw [now] at running
      cases running
    have roll := course.roll
    rw [asked] at roll
    obtain ⟨client,done,later⟩ := roll.receivePeerStop (q := q) (.sent peers true) (by rw [now]; rfl) rfl
    refine ⟨{ s.taking (.clientPeer (pid q)) with client },?_,_,wait,course.advance (.sent peers true) 0
      (inFlight (hopLetters q) peers) 0 (by rw [now]; rfl) rfl ?_ (add_zero _).symm rfl (add_zero _).symm rfl
      (course.comps_kept (by rw [now]; rfl)) (course.parts_kept (by rw [now]; rfl) ?_) ?_ (asked.symm ▸ later) rfl
      (by rw [now]; simp) (by simp)⟩
    · simp [System.handle,System.taking,done]
    · rw [now]
      exact add_right_comm 3 1 _
    · intro x _
      rw [now]
      rfl
    · intro others ack same
      cases same
      exact course.own q peers false now
  · cases other

theorem Course.reply (course : Course stage wait s) (inside : .reply p ∈ s.net) :
    Continues ((s.taking (.reply p)).handle lib (.reply p)) := by
  rw [course.net] at inside
  obtain ⟨_,_,none⟩ | ⟨x,now,same⟩ := origin_net inside
  · cases none
  · cases same
    have only : replyLetters p (wait p) = {.reply p} := by
      rw [now]
      rfl
    have present : .reply p ∈ inFlight replyLetters wait := mem_inFlight.mpr ⟨p,by rw [only]; exact Multiset.mem_singleton_self _⟩
    refine ⟨_,rfl,stage,Function.update wait p .answered,?_,?_,?_,?_,course.own,course.roll,course.begun⟩
    · rw [← inFlight_move Wait.answered only]
      change s.net.erase (.reply p) = _
      rw [course.net,Multiset.erase_add_right_pos _ present]
      exact congrArg (inFlight letters stage + ·) (add_zero _).symm
    · have raised : counted (fun _ => Wait.steps) (Function.update wait p .answered) =
          counted (fun _ => Wait.steps) wait + 1 := counted_raise 1 (by rw [now]; rfl)
      rw [raised,← add_assoc,← course.handled]
      rfl
    · intro x
      change Function.update s.comps p { s.comps p with answered := true } x = _
      by_cases here : x = p
      · subst here
        rw [Function.update_self,Function.update_self,course.comps x]
        rfl
      · rw [Function.update_of_ne here,Function.update_of_ne here]
        exact course.comps x
    · intro x
      by_cases here : x = p
      · subst here
        rw [Function.update_self]
        have part := course.parts x
        refine ⟨part.stopped,part.stoppedPeers,part.numPeers,part.stopAsk,?_⟩
        have done := part.waiting
        rw [now] at done
        simpa using done
      · rw [Function.update_of_ne here]
        exact course.parts x

theorem Course.stopAll (course : Course stage wait s) (unasked : s.asked = false) :
    Course (fun _ => .told) wait s.stop := by
  have running (q : Fin (m + 1)) : stage q = .running := (course.begun q).mpr unasked
  have everyone (q : Fin (m + 1)) : pid q ∈ s.client.nodes :=
    (course.roll.nodes _).mpr ⟨q,rfl,by rw [running q]; rfl⟩
  have nobody : heard (fun _ : Fin (m + 1) => (Stage.told : Stage m)) = heard stage := by
    funext p
    apply Finset.filter_congr
    intro q _
    rw [running q]
    rfl
  refine ⟨?_,?_,?_,?_,?_,⟨course.roll.finished,?_,?_⟩,?_⟩
  · have silent : inFlight letters stage = 0 := inFlight_zero fun q => by rw [running q]; rfl
    have told : inFlight letters (fun _ : Fin (m + 1) => (Stage.told : Stage m)) =
        (Finset.univ.filter fun node => pid node ∈ s.client.nodes).val.map .clientStop := by
      rw [Finset.filter_true_of_mem (fun q _ => everyone q)]
      have single := Multiset.sum_map_singleton ((Finset.univ : Finset (Fin (m + 1))).val.map Letter.clientStop)
      rwa [Multiset.map_map] at single
    rw [told,add_comm,System.stop]
    dsimp only
    rw [course.net,silent,zero_add]
  · have same : counted Stage.steps (fun _ : Fin (m + 1) => (Stage.told : Stage m)) = counted Stage.steps stage := by
      apply Finset.sum_congr rfl
      intro q _
      rw [running q]
      rfl
    rw [same]
    exact course.handled
  · intro p
    have comp := course.comps p
    rw [running p] at comp
    exact comp
  · intro p
    rw [nobody]
    exact (course.parts p).at (by rw [running p]; rfl)
  · intro _ _ _ other
    cases other
  · intro x
    refine (course.roll.nodes x).trans (exists_congr fun q => ?_)
    rw [running q]
    rfl
  · exact iff_of_true rfl ⟨rfl,List.ne_nil_of_mem (everyone 0)⟩
  · intro q
    exact iff_of_false (fun other => by cases other) (fun other => by cases other)

-- A finished client lets the answers and leaders that are still announced to it pass.
theorem finished_network {c client : ClientComp.Client} {message : ControlCodec.AtomicBroadcastMsg}
    (finished : c.state = .finished) (done : c.receiveNetwork message = .ok client) : client = c := by
  cases message with
  | firstLeader leader =>
    change c.firstLeader leader = _ at done
    unfold ClientComp.Client.firstLeader at done
    rw [finished] at done
    dsimp only at done
    split at done
    · cases done
      rfl
    · cases done
      rfl
  | proposalResp response =>
    change c.proposalResp response = _ at done
    rw [ClientComp.Client.proposalResp,if_pos (.inl finished)] at done
    cases done
    rfl
  | pendingReconfiguration data =>
    change c.pendingReconfiguration data = _ at done
    unfold ClientComp.Client.pendingReconfiguration at done
    rw [finished] at done
    dsimp only at done
    split at done
    · cases done
    · cases done
      rfl
  | proposal _ =>
    cases done
    rfl

theorem Course.replica {event : RaftReplicas.Event μ} (course : Course stage wait s) (other : event.isStop = false)
    {replica : RaftReplica ν μ} (done : (s.replicas p).step (lib p) order event = some replica) :
    Course stage wait (s.put p replica) := by
  have unhalted := step_unhalted other done
  have silent := posted_unhalted p unhalted
  refine ⟨?_,course.handled,course.comps,?_,course.own,course.roll,course.begun⟩
  · rw [System.put]
    dsimp only
    rw [silent,add_zero,course.net]
  · intro x
    change Part _ _ _ (Function.update s.replicas p replica x)
    by_cases here : x = p
    · subst here
      rw [Function.update_self]
      exact (course.parts x).same unhalted
    · rw [Function.update_of_ne here]
      exact course.parts x

-- Whatever letter is delivered, its handler does not panic.
theorem Course.deliver (named : ∀ p, (lib p).id = pid p) (course : Course stage wait s) (inside : letter ∈ s.net) :
    Continues (s.step lib order (.deliver letter)) := by
  rw [System.step,if_pos inside]
  cases letter with
  | clientStop p => exact course.clientStop inside
  | stop p => exact course.stop named inside
  | sendStop p myPid ackClient => exact course.sendStop inside
  | peerStop p fromPid => exact course.peerStop inside
  | stopMsg p fromPid => exact course.stopMsg inside
  | clientPeer fromPid => exact course.clientPeer inside
  | reply p => exact course.reply inside

theorem handled_step (done : s.step lib order (.deliver letter) = some next) : next.handled = s.handled + 1 := by
  rw [System.step] at done
  split at done
  · cases letter with
    | clientStop p | stopMsg p _ =>
      obtain ⟨_,_,same⟩ := Option.map_eq_some_iff.mp done
      cases same
      rfl
    | stop p | sendStop p _ _ | peerStop p _ | reply p =>
      cases done
      rfl
    | clientPeer _ =>
      rw [System.handle] at done
      split at done
      · cases done
        rfl
      · cases done
  · cases done

theorem Course.step {event : Event m μ} (named : ∀ p, (lib p).id = pid p) (course : Course stage wait s)
    (able : s.Allowed event) (done : s.step lib order event = some next) : ∃ stage wait, Course stage wait next := by
  cases event with
  | stop =>
    cases done
    exact ⟨_,wait,course.stopAll able⟩
  | deliver letter =>
    have inside : letter ∈ s.net := by
      by_contra missing
      rw [System.step,if_neg missing] at done
      cases done
    have continues : Continues (s.step lib order (.deliver letter)) := course.deliver named inside
    obtain ⟨after,same,later⟩ := continues
    cases same.symm.trans done
    exact later
  | clientHears message =>
    rw [System.step] at done
    split at done
    · rename_i client heard
      cases done
      cases finished_network course.roll.finished heard
      exact ⟨stage,wait,course⟩
    · cases done
  | replica node event =>
    obtain ⟨replica,told,same⟩ := Option.map_eq_some_iff.mp done
    cases same
    exact ⟨stage,wait,course.replica able.1 told⟩

end Steps

section Runs
variable {lib : Fin (m + 1) → RawNode ν μ} {order : HashOrder} {stage : Fin (m + 1) → Stage m}
  {wait : Fin (m + 1) → Wait} {start s : System m ν μ} {p q : Fin (m + 1)}

theorem Fresh.course (fresh : Fresh start) : Course (fun _ => .running) (fun _ => .waiting) start := by
  have nobody (p : Fin (m + 1)) : heard (fun _ : Fin (m + 1) => (Stage.running : Stage m)) p = ∅ := by
    apply Finset.filter_false_of_mem
    intro q _ both
    cases both.2
  refine ⟨?_,?_,fresh.comps,?_,?_,⟨fresh.finished,?_,?_⟩,?_⟩
  · have letters_none : inFlight letters (fun _ : Fin (m + 1) => (Stage.running : Stage m)) = 0 :=
      inFlight_zero fun _ => rfl
    have replies_none : inFlight (replyLetters (m := m)) (fun _ => Wait.waiting) = 0 := inFlight_zero fun _ => rfl
    rw [letters_none,replies_none,add_zero]
    exact fresh.net
  · have stages : counted Stage.steps (fun _ : Fin (m + 1) => (Stage.running : Stage m)) = 0 :=
      Finset.sum_eq_zero fun _ _ => rfl
    have waits : counted (fun _ : Fin (m + 1) => Wait.steps) (fun _ => Wait.waiting) = 0 :=
      Finset.sum_eq_zero fun _ _ => rfl
    rw [fresh.handled,stages,waits]
  · intro p
    obtain ⟨running,unheard,unasked,peers⟩ := fresh.running p
    rw [nobody p]
    refine ⟨running,unheard,peers,?_,iff_of_true rfl (fun both => absurd both.1 Bool.false_ne_true)⟩
    rw [unasked]
    exact iff_of_false Bool.false_ne_true (fun both => absurd both.1 Bool.false_ne_true)
  · intro _ _ _ other
    cases other
  · intro x
    exact (fresh.nodes x).trans (exists_congr fun q => (and_iff_left rfl).symm)
  · rw [fresh.unasked,fresh.unstopped]
    exact iff_of_false Bool.false_ne_true (fun both => absurd both.1 Bool.false_ne_true)
  · exact fun _ => iff_of_true rfl fresh.unasked

theorem run_course (named : ∀ p, (lib p).id = pid p) (fresh : Fresh start)
    (path : Reached (System.step lib order) System.Allowed start s) : ∃ stage wait, Course stage wait s :=
  path.invariant (fun s => ∃ stage wait, Course stage wait s) ⟨_,_,fresh.course⟩ fun _ _ _ kept able done =>
    kept.elim fun _ rest => rest.elim fun _ course => course.step named able done

-- A reply is given when the node itself has stopped and has heard of all the others.
theorem Course.released (course : Course stage wait s) (ready : wait p ≠ .waiting) (q : Fin (m + 1)) :
    (s.replicas q).stopped = true := by
  have both := not_not.mp fun missing => ready ((course.parts p).waiting.mpr missing)
  rw [(course.parts q).stopped]
  by_cases own : q = p
  · rw [own]
    exact both.1
  · have known := heard_all.mp both.2 q own
    cases now : stage q with
    | running | told | asked | sending =>
      rw [now] at known
      cases known
    | sent peers client => rfl

theorem Course.emptied (course : Course stage wait s) (replied : s.client.nodes = []) (q : Fin (m + 1)) :
    ∃ peers, stage q = .sent peers true := by
  have acked : (stage q).acked = true := by
    by_contra waited
    have missing := (course.roll.nodes (pid q)).mpr ⟨q,rfl,Bool.eq_false_iff.mpr waited⟩
    rw [replied] at missing
    cases missing
  cases now : stage q with
  | running | told | asked | sending =>
    rw [now] at acked
    cases acked
  | sent peers client =>
    rw [now] at acked
    cases acked
    exact ⟨peers,rfl⟩

-- The letters of a whole stop.
def total (m : ℕ) : ℕ := (m + 1) * (2 * m + 5)

theorem others_sum (q : Fin (m + 1)) (weight : Fin (m + 1) → ℕ) (most : ∀ p, weight p ≤ 2) :
    ∑ p, (if p = q then 0 else weight p) ≤ 2 * m := by
  have own : (if q = q then 0 else weight q) = 0 := if_pos rfl
  have bound := Finset.sum_le_card_nsmul (Finset.univ.erase q) (fun p => if p = q then 0 else weight p) 2 (by
    intro p _
    by_cases same : p = q
    · simp [same]
    · simpa [same] using most p)
  rw [Finset.card_erase_of_mem (Finset.mem_univ q),Finset.card_univ,Fintype.card_fin] at bound
  rw [← Finset.add_sum_erase _ _ (Finset.mem_univ q),own,zero_add]
  exact bound.trans (by simp [Nat.mul_comm])

theorem Stage.steps_le (q : Fin (m + 1)) (at_stage : Stage m) : at_stage.steps q ≤ 2 * m + 4 := by
  cases at_stage with
  | running | told => exact Nat.zero_le _
  | asked | sending =>
    rw [Stage.steps]
    omega
  | sent peers client =>
    have most := others_sum q (fun p => (peers p).steps) (fun p => by cases peers p <;> decide)
    rw [Stage.steps,counted]
    split <;> omega

theorem Course.handled_le (course : Course stage wait s) : s.handled ≤ total m := by
  have stages : counted Stage.steps stage ≤ (m + 1) * (2 * m + 4) := by
    have bound := Finset.sum_le_card_nsmul Finset.univ (fun q => (stage q).steps q) (2 * m + 4)
      (fun q _ => Stage.steps_le q _)
    simpa [counted] using bound
  have waits : counted (fun _ => Wait.steps) wait ≤ m + 1 := by
    have bound := Finset.sum_le_card_nsmul Finset.univ (fun q => (wait q).steps) 1
      (fun q _ => by cases wait q <;> decide)
    simpa [counted] using bound
  rw [course.handled,total]
  calc counted Stage.steps stage + counted (fun _ => Wait.steps) wait
      ≤ (m + 1) * (2 * m + 4) + (m + 1) := Nat.add_le_add stages waits
    _ = (m + 1) * (2 * m + 5) := by ring

theorem inFlight_empty {ι σ L : Type} [Fintype ι] {letters : ι → σ → Multiset L} {stage : ι → σ}
    (silent : inFlight letters stage = 0) (p : ι) : letters p (stage p) = 0 :=
  Multiset.eq_zero_of_forall_notMem fun letter there =>
    Multiset.notMem_zero letter (silent ▸ mem_inFlight.mpr ⟨p,there⟩)

theorem settled_hops {peers : Fin (m + 1) → Hop} {client : Bool} (silent : letters q (.sent peers client) = 0) :
    client = true ∧ ∀ p, peers p = .taken := by
  obtain ⟨ack,hops⟩ := add_eq_zero.mp silent
  refine ⟨?_,?_⟩
  · by_contra waited
    rw [if_neg waited] at ack
    exact Multiset.singleton_ne_zero _ ack
  · intro p
    have none_left := inFlight_empty hops p
    cases hop : peers p with
    | flying | arrived =>
      rw [hop] at none_left
      exact absurd none_left (Multiset.singleton_ne_zero _)
    | taken => rfl

-- With no letter left every node has been heard of by all.
theorem Course.silent (course : Course stage wait s) (asked : s.asked = true) (net : s.net = 0) (q : Fin (m + 1)) :
    (∃ peers, stage q = .sent peers true ∧ ∀ p, peers p = .taken) ∧ wait q = .answered := by
  have parts := course.net.symm.trans net
  obtain ⟨stages,waits⟩ := add_eq_zero.mp parts
  have sent (q : Fin (m + 1)) : ∃ peers, stage q = .sent peers true ∧ ∀ p, peers p = .taken := by
    have none_left := inFlight_empty stages q
    cases now : stage q with
    | running =>
      have unasked := (course.begun q).mp now
      rw [asked] at unasked
      cases unasked
    | told | asked | sending =>
      rw [now] at none_left
      exact absurd none_left (Multiset.singleton_ne_zero _)
    | sent peers client =>
      rw [now] at none_left
      obtain ⟨rfl,all⟩ := settled_hops none_left
      exact ⟨peers,rfl,all⟩
  refine ⟨sent q,?_⟩
  have full : (heard stage q).card = m := by
    rw [heard_all]
    intro p _
    obtain ⟨peers,now,all⟩ := sent p
    rw [now]
    exact decide_eq_true (all q)
  obtain ⟨peers,now,_⟩ := sent q
  have ready : wait q ≠ .waiting := fun waiting =>
    (course.parts q).waiting.mp waiting ⟨by rw [now]; rfl,full⟩
  have none_left := inFlight_empty waits q
  cases state : wait q with
  | waiting => exact absurd state ready
  | replying =>
    rw [state] at none_left
    exact absurd none_left (Multiset.singleton_ne_zero _)
  | answered => rfl

theorem Stage.steps_sent {peers : Fin (m + 1) → Hop} (all : ∀ p, peers p = .taken) :
    Stage.steps q (.sent peers true) = 2 * m + 4 := by
  have own : (if q = q then 0 else (peers q).steps) = 0 := if_pos rfl
  have others : ∑ p ∈ Finset.univ.erase q, (if p = q then 0 else (peers p).steps) = 2 * m := by
    rw [Finset.sum_congr rfl fun p inside => (if_neg (Finset.ne_of_mem_erase inside)).trans (congrArg Hop.steps (all p)),
      Finset.sum_const,Finset.card_erase_of_mem (Finset.mem_univ q),Finset.card_univ,Fintype.card_fin]
    exact Nat.mul_comm _ _
  rw [Stage.steps,counted,← Finset.add_sum_erase _ _ (Finset.mem_univ q),own,others]
  simp only [if_true]
  omega

theorem Course.handled_all (course : Course stage wait s) (asked : s.asked = true) (net : s.net = 0) :
    s.handled = total m := by
  have stages : counted Stage.steps stage = ∑ _q : Fin (m + 1), (2 * m + 4) := by
    apply Finset.sum_congr rfl
    intro q _
    obtain ⟨⟨peers,now,all⟩,_⟩ := course.silent asked net q
    rw [now,Stage.steps_sent all]
  have waits : counted (fun _ => Wait.steps) wait = ∑ _q : Fin (m + 1), 1 := by
    apply Finset.sum_congr rfl
    intro q _
    rw [(course.silent asked net q).2]
    rfl
  rw [course.handled,stages,waits,Finset.sum_const,Finset.sum_const,Finset.card_univ,Fintype.card_fin,total]
  simp only [smul_eq_mul]
  ring

-- The stop of a whole run, whatever else replicas and client do meanwhile: no handler
-- panics on a letter that is on its way, a replica's reply and the client's come only
-- when all replicas have stopped, the letters of a stop are as many in every order, and
-- when none is left everybody has been answered.
theorem stop_ends (named : ∀ p, (lib p).id = pid p) (fresh : Fresh start)
    (path : Reached (System.step lib order) System.Allowed start s) :
    (∀ letter ∈ s.net, (s.step lib order (.deliver letter)).isSome = true) ∧
    (∀ p, (s.comps p).answered = true → ∀ q, (s.replicas q).stopped = true) ∧
    (s.client.nodes = [] → ∀ q, (s.replicas q).stopped = true) ∧
    s.handled ≤ total m ∧
    (s.asked = true → (s.net = 0 ↔ s.handled = total m)) ∧
    (s.asked = true → s.net = 0 →
      (∀ p, (s.comps p).answered = true) ∧ s.client.nodes = [] ∧ s.client.stopAsk = false) := by
  obtain ⟨stage,wait,course⟩ := run_course named fresh path
  have delivered {letter : Letter m} (inside : letter ∈ s.net) :
      Continues (s.step lib order (.deliver letter)) := course.deliver named inside
  refine ⟨?_,?_,?_,course.handled_le,?_,?_⟩
  · intro letter inside
    obtain ⟨next,done,_⟩ := delivered inside
    rw [done]
    rfl
  · intro p replied q
    have answered : wait p = .answered := by
      rw [course.comps p] at replied
      exact of_decide_eq_true replied
    exact course.released (by rw [answered]; decide) q
  · intro replied q
    obtain ⟨peers,now⟩ := course.emptied replied q
    rw [(course.parts q).stopped,now]
    rfl
  · intro asked
    refine ⟨course.handled_all asked,?_⟩
    intro all
    by_contra left_over
    obtain ⟨letter,inside⟩ := Multiset.exists_mem_of_ne_zero left_over
    obtain ⟨next,done,_,_,later⟩ := delivered inside
    have more : next.handled = s.handled + 1 := handled_step done
    have most := later.handled_le
    omega
  · intro asked net
    have replied : s.client.nodes = [] := by
      rw [List.eq_nil_iff_forall_not_mem]
      intro x inside
      obtain ⟨q,_,waited⟩ := (course.roll.nodes x).mp inside
      obtain ⟨⟨peers,now,_⟩,_⟩ := course.silent asked net q
      rw [now] at waited
      cases waited
    refine ⟨?_,replied,?_⟩
    · intro p
      rw [course.comps p]
      exact decide_eq_true (course.silent asked net p).2
    · by_contra waiting
      exact (course.roll.ask.mp (Bool.eq_true_of_not_eq_false waiting)).2 replied

end Runs

-- Two nodes, the second of which stops while the first still ticks.
def twoNodes : System 1 RaftReplicas.Members Unit where
  comps _ := ⟨false,false⟩
  replicas _ := (RaftReplica.with ⟨0,{1,2},false,[]⟩ .replaceFollower 1).onStart
  client := { ClientComp.Client.with ⟨[1,2],0,1,[1,2],none⟩ with state := .finished }
  asked := false
  net := 0
  handled := 0

def twoLibs (p : Fin 2) : RawNode RaftReplicas.Members Unit := { RaftReplicas.second with id := pid p }

def stopEvents : List (Event 1 Unit) :=
  let first : Fin 2 := ⟨0,Nat.zero_lt_two⟩
  let other : Fin 2 := ⟨1,Nat.one_lt_two⟩
  [.stop,.deliver (.clientStop other),.deliver (.stop other),.deliver (.sendStop other 2 true),.replica first .tick,
    .deliver (.peerStop first 2),.deliver (.stopMsg first 2),.deliver (.clientPeer 2),.deliver (.clientStop first),
    .deliver (.stop first),.deliver (.reply first),.deliver (.sendStop first 1 true),.deliver (.peerStop other 1),
    .deliver (.stopMsg other 1),.deliver (.reply other),.deliver (.clientPeer 1)]

theorem stop_ends_two : ∃ s : System 1 RaftReplicas.Members Unit,
    Reached (System.step twoLibs RaftProposals.increasing) System.Allowed twoNodes s ∧ s.net = 0 ∧
      (∀ p, (s.comps p).answered = true) ∧ s.client.nodes = [] := by
  have fresh : Fresh twoNodes := by
    refine ⟨fun _ => rfl,fun _ => ⟨rfl,rfl,rfl,rfl⟩,rfl,?_,rfl,rfl,rfl,rfl⟩
    intro x
    change x ∈ [1,2] ↔ _
    simp [Fin.exists_fin_two,pid,eq_comm]
  obtain ⟨s,path,all⟩ := runs_check stopEvents
    (show (runs (System.step twoLibs RaftProposals.increasing) System.Allowed twoNodes stopEvents).map
      (fun s => s.asked && s.handled == 14) = some true by decide)
  rw [Bool.and_eq_true,beq_iff_eq] at all
  obtain ⟨_,_,_,_,exactly,ended⟩ := stop_ends (fun _ => rfl) fresh path
  have empty := (exactly all.1).mpr all.2
  obtain ⟨answered,replied,_⟩ := ended all.1 empty
  exact ⟨s,path,empty,answered,replied⟩

end KompicsBenches.RaftStops
