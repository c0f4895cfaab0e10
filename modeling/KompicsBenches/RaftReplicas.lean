import KompicsBenches.ControlCodec
import KompicsBenches.GuardedRuns
import KompicsBenches.RaftProposals

namespace KompicsBenches.RaftReplicas

open GuardedRuns Wire
open RaftProposals (Call HashOrder Proposal ReconfigurationPolicy ReconfigurationState)

structure Entry where
  index : ℕ
  term : ℕ
  data : List UInt8
  confChange : Bool
  deriving DecidableEq, Repr

inductive ConfChangeType where
  | beginMembershipChange
  | finalizeMembershipChange
  | addNode
  deriving DecidableEq, Repr

structure Ready (μ : Type) where
  entries : List Entry
  snapshot : Bool
  messages : List μ
  committedEntries : Option (List Entry)

-- What a replica uses of the Raft library and of the storage behind it, over whatever
-- state and messages that has. `none` is an error the replica does not survive; `id`
-- is part of its configuration; `changeType` reads a change of the membership.
structure RawNode (ν μ : Type) where
  id : ℕ
  leaderId : ν → ℕ
  isLeader : ν → Bool
  voters : ν → Finset ℕ
  isInMembershipChange : ν → Bool
  tick : ν → ν
  campaign : ν → ν
  step : μ → ν → ν
  propose : List UInt8 → ν → Option ν
  proposeMembershipChange : List ℕ × List ℕ → ν → Option ν
  beginMembershipChange : List UInt8 → ν → Option ν
  finalizeMembershipChange : List UInt8 → ν → Option ν
  ready : ν → Option (Ready μ × ν)
  advance : Ready μ → ν → ν
  appendLog : List Entry → ν → Option (Bool × ν)
  setConfState : ν → ν
  setHardState : ℕ → ℕ → ν → Option ν
  changeType : List UInt8 → Option ConfChangeType

variable {ν μ : Type}

def RawNode.perform (lib : RawNode ν μ) : Call → ν → Option ν
  | .forwardReconfig _ _, raw => some raw
  | .proposeMembershipChange newConfig, raw => lib.proposeMembershipChange newConfig raw
  | .propose data, raw => lib.propose data raw

inductive State where
  | election
  | running
  deriving DecidableEq, Repr

-- What a replica tells its supervisor and its communicator, and what it asks of the
-- library that changes the log or the members.
inductive Effect (μ : Type) where
  | leader (notifyClient : Bool) (pid : ℕ)
  | call (call : Call)
  | beginMembershipChange
  | finalizeMembershipChange
  | rawRaftMsg (message : μ)
  | proposalResponse (data : List UInt8) (latestLeader : ℕ)
  | sendStop (pid : ℕ) (ackClient : Bool)
  | replyStop

-- `campaigns` counts the tries for leadership that are scheduled, `timers` says whether
-- the two periodic timers run. `told` is kept by the model.
structure RaftReplica (ν μ : Type) where
  raw : ν
  state : State
  timers : Bool
  campaigns : ℕ
  reconfigState : ReconfigurationState
  currentLeader : ℕ
  reconfigPolicy : ReconfigurationPolicy
  numPeers : ℕ
  stopped : Bool
  stoppedPeers : Finset ℕ
  hbProposals : List Proposal
  stopAsk : Bool
  told : List (Effect μ)

namespace RaftReplica

def «with» (raw : ν) (reconfigPolicy : ReconfigurationPolicy) (numPeers : ℕ) : RaftReplica ν μ :=
  ⟨raw,.election,false,0,.none,0,reconfigPolicy,numPeers,false,∅,[],false,[]⟩

variable (lib : RawNode ν μ) (order : HashOrder) (r : RaftReplica ν μ)

def tell (effect : Effect μ) : RaftReplica ν μ := { r with told := r.told ++ [effect] }

def stopTimers : RaftReplica ν μ := { r with timers := false }

def onStart : RaftReplica ν μ := { r with timers := true }

-- What the model of `propose` sees of the replica.
def view : RaftProposals.RaftReplica :=
  ⟨lib.id,lib.leaderId r.raw,lib.voters r.raw,r.hbProposals,r.reconfigState,r.reconfigPolicy⟩

-- `none` is a panic, here and below.
def propose (proposal : Proposal) : Option (RaftReplica ν μ) := do
  let outcome := (r.view lib).propose order (fun call => (lib.perform call r.raw).isNone) proposal
  let next ← outcome.next
  let raw ← outcome.calls.foldlM (fun raw call => lib.perform call raw) r.raw
  return { r with raw, hbProposals := next.hbProposals, reconfigState := next.reconfigState,
                  told := r.told ++ outcome.calls.map Effect.call }

def proposeAll (r : RaftReplica ν μ) : List Proposal → Option (RaftReplica ν μ)
  | [] => some r
  | proposal :: rest => do
    let r ← r.propose lib order proposal
    proposeAll r rest

def tryCampaignLeader : RaftReplica ν μ :=
  let r := { r with campaigns := r.campaigns - 1 }
  if lib.leaderId r.raw = 0 ∧ r.state = .election then { r with raw := lib.campaign r.raw } else r

def noteLeader (leader : ℕ) : RaftReplica ν μ :=
  if leader ≠ r.currentLeader then
    tell { r with currentLeader := leader, state := .running } (.leader (r.state = .election) leader)
  else r

def tick : Option (RaftReplica ν μ) :=
  let r := { r with raw := lib.tick r.raw }
  let leader := lib.leaderId r.raw
  if leader ≠ 0 then do
    let r ← proposeAll lib order { r with hbProposals := [] } r.hbProposals
    return r.noteLeader leader
  else some r

def beginMembershipChange (data : List UInt8) : Option (RaftReplica ν μ) := do
  let raw ← lib.beginMembershipChange data r.raw
  if lib.isInMembershipChange raw then return tell { r with raw } .beginMembershipChange else none

-- The election starts anew when the leader was removed; who stays tries for it later.
def settle : RaftReplica ν μ :=
  let r := if lib.id ∈ lib.voters r.raw then { r with reconfigState := .finished }
    else { r.stopTimers with reconfigState := .removed }
  if lib.leaderId r.raw = 0 then
    { r with state := .election, campaigns := r.campaigns + if r.reconfigState = .removed then 0 else 1 }
  else r

def reconfigData (voters : List ℕ) : List UInt8 :=
  putU64 ControlCodec.reconfigId ++ (putU32 voters.length ++ voters.flatMap putU64)

def finalizeMembershipChange (data : List UInt8) : Option (RaftReplica ν μ) := do
  let raw ← lib.finalizeMembershipChange data r.raw
  let response := reconfigData (order.iter (lib.voters raw))
  let r := settle lib (tell { r with raw } .finalizeMembershipChange)
  return tell { r with raw := lib.setConfState r.raw } (.proposalResponse response (lib.leaderId raw))

def answer (entry : Entry) : RaftReplica ν μ :=
  if lib.isLeader r.raw then r.tell (.proposalResponse entry.data (lib.id)) else r

-- The entries of new leaders are empty.
def applyEntry (entry : Entry) : Option (RaftReplica ν μ) :=
  if entry.data = [] then some r
  else if entry.confChange then
    if r.reconfigState = .removed ∨ r.reconfigState = .finished then some r
    else
      match lib.changeType entry.data with
      | some .beginMembershipChange => r.beginMembershipChange lib entry.data
      | some .finalizeMembershipChange => r.finalizeMembershipChange lib order entry.data
      | some .addNode | none => none
  else some (r.answer lib entry)

def applyAll (r : RaftReplica ν μ) : List Entry → Option (RaftReplica ν μ)
  | [] => some r
  | entry :: rest => do
    let r ← r.applyEntry lib order entry
    applyAll r rest

def setHardState : Option Entry → Option (RaftReplica ν μ)
  | none => some r
  | some lastCommitted => (lib.setHardState lastCommitted.index lastCommitted.term r.raw).map fun raw => { r with raw }

def applyCommitted (committed : List Entry) : Option (RaftReplica ν μ) := do
  let r ← r.applyAll lib order committed
  r.setHardState lib committed.getLast?

-- A log that cannot be written leaves what is ready for the next time.
def onReady : Option (RaftReplica ν μ) :=
  match lib.ready r.raw with
  | none => some r
  | some (ready,raw) => do
    let (persisted,raw) ← lib.appendLog ready.entries raw
    let r := { r with raw }
    if !persisted then return r
    if ready.snapshot then none
    let r := { r with told := r.told ++ ready.messages.map Effect.rawRaftMsg }
    let r ← r.applyCommitted lib order (ready.committedEntries.getD [])
    return { r with raw := lib.advance ready r.raw }

def receiveStop : RaftReplica ν μ :=
  let r := (r.tell (.sendStop (lib.id) true)).stopTimers
  let r := { r with stopped := true }
  if r.stoppedPeers.card = r.numPeers then r.tell .replyStop else { r with stopAsk := true }

-- Panics at the duplicate stop assertion and at a missing stop ask.
def receiveStopMsg (fromPid : ℕ) : Option (RaftReplica ν μ) :=
  if fromPid ∈ r.stoppedPeers then none
  else
    let r := { r with stoppedPeers := insert fromPid r.stoppedPeers }
    if r.stoppedPeers.card = r.numPeers ∧ r.stopped then
      if r.stopAsk then some (tell { r with stopAsk := false } .replyStop) else none
    else some r

def receiveRawRaft (message : μ) : RaftReplica ν μ :=
  if !r.stopped ∧ r.reconfigState ≠ .removed then { r with raw := lib.step message r.raw } else r

def receivePropose (proposal : Proposal) : Option (RaftReplica ν μ) :=
  if r.reconfigState ≠ .removed then r.propose lib order proposal else some r

end RaftReplica

inductive Event (μ : Type) where
  | propose (proposal : Proposal)
  | stop
  | rawRaftMsg (message : μ)
  | stopMsg (fromPid : ℕ)
  | onReady
  | tick
  | tryCampaignLeader

namespace RaftReplica
variable (lib : RawNode ν μ) (order : HashOrder)

def step (r : RaftReplica ν μ) : Event μ → Option (RaftReplica ν μ)
  | .propose proposal => r.receivePropose lib order proposal
  | .stop => some (r.receiveStop lib)
  | .rawRaftMsg message => some (r.receiveRawRaft lib message)
  | .stopMsg fromPid => r.receiveStopMsg fromPid
  | .onReady => r.onReady lib order
  | .tick => r.tick lib order
  | .tryCampaignLeader => some (r.tryCampaignLeader lib)

-- The timers that can fire; the supervisor asks for one stop.
def Allowed (r : RaftReplica ν μ) : Event μ → Prop
  | .stop => r.stopped = false
  | .onReady | .tick => r.timers = true
  | .tryCampaignLeader => 0 < r.campaigns
  | .propose _ | .rawRaftMsg _ | .stopMsg _ => True

instance (r : RaftReplica ν μ) : (event : Event μ) → Decidable (r.Allowed event)
  | .stop => inferInstanceAs (Decidable (r.stopped = false))
  | .onReady | .tick => inferInstanceAs (Decidable (r.timers = true))
  | .tryCampaignLeader => inferInstanceAs (Decidable (0 < r.campaigns))
  | .propose _ | .rawRaftMsg _ | .stopMsg _ => inferInstanceAs (Decidable True)

def Settled (r : RaftReplica ν μ) : Prop := r.reconfigState = .removed ∨ r.reconfigState = .finished

end RaftReplica

namespace Effect

def finalizes : Effect μ → Bool
  | .finalizeMembershipChange => true
  | _ => false

def asksMembership : Effect μ → Bool
  | .call (.proposeMembershipChange _) => true
  | _ => false

def notifies : Effect μ → Bool
  | .leader true _ => true
  | _ => false

-- What has to do with the members.
def membership : Effect μ → Bool
  | .beginMembershipChange | .finalizeMembershipChange | .call (.proposeMembershipChange _) => true
  | _ => false

def stops : Effect μ → Bool
  | .sendStop _ _ | .replyStop => true
  | _ => false

def plain : Effect μ → Bool
  | .rawRaftMsg _ | .proposalResponse _ _ => true
  | _ => false

end Effect

open RaftReplica Effect

section Changes
variable {lib : RawNode ν μ} {order : HashOrder} {halts : Bool} {r next : RaftReplica ν μ}

-- All that the handlers do to a replica, apart from its proposals. Only those of the
-- stop halt it.
inductive Change (lib : RawNode ν μ) (order : HashOrder) (halts : Bool) : RaftReplica ν μ → RaftReplica ν μ → Prop where
  | library (r : RaftReplica ν μ) (raw : ν) : Change lib order halts r { r with raw }
  | say (r : RaftReplica ν μ) (effect : Effect μ) (quiet : effect.plain) : Change lib order halts r (r.tell effect)
  | sayStop (r : RaftReplica ν μ) (effect : Effect μ) (stop : effect.stops) (halting : halts) :
      Change lib order halts r (r.tell effect)
  | stopping (r : RaftReplica ν μ) (stopAsk : Bool) (stoppedPeers : Finset ℕ) (halting : halts) :
      Change lib order halts r { r with stopAsk, stoppedPeers }
  | stopped (r : RaftReplica ν μ) (halting : halts) : Change lib order halts r { r.stopTimers with stopped := true }
  | campaigned (r : RaftReplica ν μ) : Change lib order halts r { r with campaigns := r.campaigns - 1 }
  | noteLeader (r : RaftReplica ν μ) (leader : ℕ) : Change lib order halts r (r.noteLeader leader)
  | begins (r : RaftReplica ν μ) (raw : ν) (unsettled : ¬r.Settled) :
      Change lib order halts r (tell { r with raw } .beginMembershipChange)
  | finalizes (r : RaftReplica ν μ) (raw : ν) (voters : Finset ℕ) (leader : ℕ) (unsettled : ¬r.Settled) :
      Change lib order halts r (tell (settle lib (tell { r with raw } .finalizeMembershipChange))
        (.proposalResponse (reconfigData (order.iter voters)) leader))

abbrev Course (lib : RawNode ν μ) (order : HashOrder) (halts : Bool) : RaftReplica ν μ → RaftReplica ν μ → Prop :=
  Relation.ReflTransGen (Change lib order halts)

theorem answer_course (r : RaftReplica ν μ) (entry : Entry) : Course lib order halts r (r.answer lib entry) := by
  unfold answer
  split
  · exact .single (.say r _ rfl)
  · exact .refl

theorem applyEntry_course {entry : Entry} (done : r.applyEntry lib order entry = some next) :
    Course lib order halts r next := by
  unfold applyEntry at done
  split at done
  · cases done
    exact .refl
  · split at done
    · split at done
      · cases done
        exact .refl
      · rename_i unsettled
        split at done
        · obtain ⟨raw,_,checked⟩ := Option.bind_eq_some_iff.mp done
          split at checked
          · cases checked
            exact .single (.begins r raw unsettled)
          · cases checked
        · obtain ⟨raw,_,finalized⟩ := Option.bind_eq_some_iff.mp done
          cases finalized
          exact (Relation.ReflTransGen.single (.finalizes r raw (lib.voters raw) (lib.leaderId raw) unsettled)).tail
            (.library _ _)
        · cases done
        · cases done
    · cases done
      exact answer_course r entry

theorem applyAll_course {entries : List Entry} (done : r.applyAll lib order entries = some next) :
    Course lib order halts r next := by
  induction entries generalizing r with
  | nil =>
    cases done
    exact .refl
  | cons entry rest ih =>
    obtain ⟨middle,first,later⟩ := Option.bind_eq_some_iff.mp done
    exact (applyEntry_course first).trans (ih later)

theorem setHardState_course {last : Option Entry} (done : r.setHardState lib last = some next) :
    Course lib order halts r next := by
  cases last with
  | none =>
    cases done
    exact .refl
  | some last =>
    obtain ⟨raw,_,same⟩ := Option.map_eq_some_iff.mp done
    cases same
    exact .single (.library r raw)

theorem say_course (r : RaftReplica ν μ) (messages : List μ) :
    Course lib order halts r { r with told := r.told ++ messages.map Effect.rawRaftMsg } := by
  induction messages generalizing r with
  | nil => simpa using Relation.ReflTransGen.refl
  | cons message rest ih =>
    have further := ih (r.tell (.rawRaftMsg message))
    simp only [RaftReplica.tell,List.append_assoc,List.singleton_append] at further
    exact .head (.say r (.rawRaftMsg message) rfl) further

theorem onReady_course (done : r.onReady lib order = some next) : Course lib order halts r next := by
  unfold onReady at done
  split at done
  · cases done
    exact .refl
  · rename_i ready raw _
    obtain ⟨⟨persisted,stored⟩,_,done⟩ := Option.bind_eq_some_iff.mp done
    have begun : Course lib order halts r { r with raw := stored } := .single (.library r stored)
    cases persisted with
    | false =>
      cases done
      exact begun
    | true =>
      simp only [Bool.not_true,Bool.false_eq_true,↓reduceIte] at done
      split at done
      · cases done
      · obtain ⟨applied,committed,last⟩ := Option.bind_eq_some_iff.mp done
        obtain ⟨middle,all,hard⟩ := Option.bind_eq_some_iff.mp committed
        cases last
        exact ((begun.trans (say_course _ _)).trans ((applyAll_course all).trans (setHardState_course hard))).tail
          (.library _ _)

theorem receiveStop_course (r : RaftReplica ν μ) : Course lib order true r (r.receiveStop lib) := by
  have told : Course lib order true r (r.tell (.sendStop (lib.id) true)) := .single (.sayStop r _ rfl rfl)
  have down := told.tail (.stopped _ rfl)
  unfold receiveStop
  dsimp only
  split
  · exact down.tail (.sayStop _ _ rfl rfl)
  · exact down.tail (.stopping _ true _ rfl)

theorem receiveStopMsg_course {fromPid : ℕ} (done : r.receiveStopMsg fromPid = some next) :
    Course lib order true r next := by
  unfold receiveStopMsg at done
  split at done
  · cases done
  · dsimp only at done
    split at done
    · split at done
      · cases done
        exact (Relation.ReflTransGen.single (.stopping r false (insert fromPid r.stoppedPeers) rfl)).tail (.sayStop _ _ rfl rfl)
      · cases done
    · cases done
      exact .single (.stopping r r.stopAsk (insert fromPid r.stoppedPeers) rfl)

theorem receiveRawRaft_course (r : RaftReplica ν μ) (message : μ) :
    Course lib order halts r (r.receiveRawRaft lib message) := by
  unfold receiveRawRaft
  split
  · exact .single (.library r _)
  · exact .refl

theorem tryCampaignLeader_course (r : RaftReplica ν μ) : Course lib order halts r (r.tryCampaignLeader lib) := by
  have tried : Course lib order halts r { r with campaigns := r.campaigns - 1 } := .single (.campaigned r)
  unfold tryCampaignLeader
  dsimp only
  split
  · exact tried.tail (.library _ _)
  · exact tried

-- All that a proposal does: it is held back, dropped, forwarded, or handed to the library.
theorem propose_cases {proposal : Proposal} (done : r.propose lib order proposal = some next) :
    next = { r with hbProposals := r.hbProposals ++ [proposal] } ∨
    (∃ reconfig, proposal.reconfig = some reconfig ∧ r.reconfigState ≠ .none ∧ next = r) ∨
    (∃ reconfig leader, proposal.reconfig = some reconfig ∧
      next = r.tell (.call (.forwardReconfig leader reconfig))) ∨
    (∃ reconfig config raw, proposal.reconfig = some reconfig ∧ r.reconfigState = .none ∧
      next = { r.tell (.call (.proposeMembershipChange config)) with raw, reconfigState := .pending }) ∨
    (∃ raw, proposal.reconfig = none ∧ next = { r.tell (.call (.propose proposal.data)) with raw }) := by
  obtain ⟨after,reached,done⟩ := Option.bind_eq_some_iff.mp done
  obtain ⟨raw,performed,same⟩ := Option.bind_eq_some_iff.mp done
  cases same
  unfold RaftProposals.RaftReplica.propose at reached performed ⊢
  split at reached
  · rename_i leaderless
    rw [if_pos leaderless] at performed ⊢
    cases reached
    cases performed
    exact .inl (by simp [view])
  · rename_i led
    rw [if_neg led] at performed ⊢
    cases asked : proposal.reconfig with
    | none =>
      simp only [asked] at reached performed ⊢
      split at reached
      · cases reached
      · cases reached
        exact .inr (.inr (.inr (.inr ⟨raw,trivial,rfl⟩)))
    | some reconfig =>
      simp only [asked] at reached performed ⊢
      by_cases fresh : r.reconfigState = .none
      · simp only [view,fresh,↓reduceIte] at reached performed ⊢
        by_cases other : lib.leaderId r.raw ≠ lib.id
        · rw [if_pos other] at reached performed ⊢
          cases reached
          cases performed
          exact .inr (.inr (.inl ⟨reconfig,lib.leaderId r.raw,rfl,by simp [RaftReplica.tell,fresh]⟩))
        · rw [if_neg other] at reached performed ⊢
          split at reached
          · cases reached
          · rename_i config computed
            simp only [computed] at performed ⊢
            split at reached
            · cases reached
            · cases reached
              exact .inr (.inr (.inr (.inl ⟨reconfig,config,raw,rfl,trivial,rfl⟩)))
      · have stays : (r.view lib).reconfigState ≠ .none := fresh
        rw [if_neg stays] at reached performed ⊢
        cases reached
        cases performed
        exact .inr (.inl ⟨reconfig,rfl,fresh,by simp [view]⟩)

-- With its proposals, all that a step does.
inductive Move (lib : RawNode ν μ) (order : HashOrder) (halts : Bool) : RaftReplica ν μ → RaftReplica ν μ → Prop where
  | change {r next : RaftReplica ν μ} (change : Change lib order halts r next) : Move lib order halts r next
  | propose {r next : RaftReplica ν μ} (proposal : Proposal) (done : r.propose lib order proposal = some next) :
      Move lib order halts r next
  | takes (r : RaftReplica ν μ) : Move lib order halts r { r with hbProposals := [] }

abbrev Moves (lib : RawNode ν μ) (order : HashOrder) (halts : Bool) : RaftReplica ν μ → RaftReplica ν μ → Prop :=
  Relation.ReflTransGen (Move lib order halts)

theorem Course.moves (course : Course lib order halts r next) : Moves lib order halts r next := by
  induction course with
  | refl => exact .refl
  | tail _ change ih => exact ih.tail (.change change)

theorem proposeAll_moves {proposals : List Proposal} (done : r.proposeAll lib order proposals = some next) :
    Moves lib order halts r next := by
  induction proposals generalizing r with
  | nil =>
    cases done
    exact .refl
  | cons proposal rest ih =>
    obtain ⟨middle,first,later⟩ := Option.bind_eq_some_iff.mp done
    exact .head (.propose proposal first) (ih later)

-- A tick is noticed by the library; a leader takes what was held back and is told of.
theorem tick_cases (done : r.tick lib order = some next) : next = { r with raw := lib.tick r.raw } ∨
    ∃ proposed, proposeAll lib order { r with raw := lib.tick r.raw, hbProposals := [] } r.hbProposals = some proposed ∧
      next = proposed.noteLeader (lib.leaderId (lib.tick r.raw)) := by
  unfold RaftReplica.tick at done
  dsimp only at done
  split at done
  · obtain ⟨proposed,all,noted⟩ := Option.bind_eq_some_iff.mp done
    cases noted
    exact .inr ⟨proposed,all,rfl⟩
  · cases done
    exact .inl rfl

def Event.isStop : Event μ → Bool
  | .stop | .stopMsg _ => true
  | .propose _ | .rawRaftMsg _ | .onReady | .tick | .tryCampaignLeader => false

theorem step_moves {event : Event μ} (done : r.step lib order event = some next) :
    Moves lib order event.isStop r next := by
  cases event with
  | propose proposal =>
    change r.receivePropose lib order proposal = some next at done
    unfold receivePropose at done
    split at done
    · exact .single (.propose proposal done)
    · cases done
      exact .refl
  | stop =>
    cases done
    exact (receiveStop_course r).moves
  | rawRaftMsg message =>
    cases done
    exact (receiveRawRaft_course r message).moves
  | stopMsg fromPid => exact (receiveStopMsg_course done).moves
  | onReady => exact (onReady_course done).moves
  | tick =>
    have ticked : Moves lib order false r { r with raw := lib.tick r.raw } := .single (.change (.library r _))
    obtain rfl | ⟨proposed,all,rfl⟩ := tick_cases done
    · exact ticked
    · exact ((ticked.tail (.takes _)).trans (proposeAll_moves all)).tail (.change (.noteLeader _ _))
  | tryCampaignLeader =>
    cases done
    exact (tryCampaignLeader_course r).moves

end Changes

section Membership
variable {lib : RawNode ν μ} {order : HashOrder} {halts : Bool} {r next : RaftReplica ν μ}

-- The changes of the members that are over, and those that may still be asked for.
def finalizations : ReconfigurationState → ℕ
  | .none | .pending => 0
  | .finished | .removed => 1

def allowance : ReconfigurationState → ℕ
  | .none => 1
  | .pending | .finished | .removed => 0

def awaited : State → ℕ
  | .election => 1
  | .running => 0

theorem finalizations_settled (settled : r.Settled) : finalizations r.reconfigState = 1 := by
  obtain removed | finished := settled
  · rw [removed]
    rfl
  · rw [finished]
    rfl

theorem allowance_settled (settled : r.Settled) : allowance r.reconfigState = 0 := by
  obtain removed | finished := settled
  · rw [removed]
    rfl
  · rw [finished]
    rfl

theorem finalizations_unsettled (unsettled : ¬r.Settled) : finalizations r.reconfigState = 0 := by
  cases now : r.reconfigState with
  | none | pending => rfl
  | finished => exact absurd (.inr now) unsettled
  | removed => exact absurd (.inl now) unsettled

-- A change of the members is asked for once and finalized once, the client is answered
-- right then, and a replica that was removed has no timer left.
structure Sound (order : HashOrder) (r : RaftReplica ν μ) : Prop where
  finalized : r.told.countP finalizes = finalizations r.reconfigState
  asked : r.told.countP asksMembership + allowance r.reconfigState ≤ 1
  notified : r.told.countP notifies + awaited r.state ≤ 1 + r.told.countP finalizes
  answered : r.Settled → ∃ before voters leader after, r.told = before ++ .finalizeMembershipChange ::
    .proposalResponse (reconfigData (order.iter voters)) leader :: after
  silent : r.reconfigState = .removed → r.timers = false
  scheduled : r.campaigns ≠ 0 → r.reconfigState = .finished

theorem Sound.start (raw : ν) (reconfigPolicy : ReconfigurationPolicy) (numPeers : ℕ) :
    Sound order (RaftReplica.with (μ := μ) raw reconfigPolicy numPeers).onStart := by
  refine ⟨rfl,Nat.le_refl 1,Nat.le_refl 1,?_,?_,?_⟩
  · rintro (removed | finished)
    · cases removed
    · cases finished
  · intro removed
    cases removed
  · intro some_try
    exact absurd rfl some_try

theorem Sound.say (sound : Sound order r) {effect : Effect μ} (finalizes : effect.finalizes = false)
    (asks : effect.asksMembership = false) (notifies : effect.notifies = false) : Sound order (r.tell effect) := by
  have count (p : Effect μ → Bool) (no : p effect = false) : (r.told ++ [effect]).countP p = r.told.countP p := by
    simp [List.countP_append,no]
  refine ⟨?_,?_,?_,?_,sound.silent,sound.scheduled⟩
  · exact (count _ finalizes).trans sound.finalized
  · simpa only [RaftReplica.tell,count _ asks] using sound.asked
  · simpa only [RaftReplica.tell,count _ notifies,count _ finalizes] using sound.notified
  · intro settled
    obtain ⟨before,voters,leader,after,same⟩ := sound.answered settled
    exact ⟨before,voters,leader,after ++ [effect],by simp [RaftReplica.tell,same]⟩

theorem Sound.noteLeader (sound : Sound order r) (leader : ℕ) : Sound order (r.noteLeader leader) := by
  unfold RaftReplica.noteLeader
  split
  · have notified := sound.notified
    refine ⟨?_,?_,?_,?_,sound.silent,sound.scheduled⟩
    · simpa [RaftReplica.tell,List.countP_append,Effect.finalizes] using sound.finalized
    · simpa [RaftReplica.tell,List.countP_append,Effect.asksMembership] using sound.asked
    · cases now : r.state with
      | election => simpa [RaftReplica.tell,List.countP_append,Effect.notifies,Effect.finalizes,now,awaited] using notified
      | running => simpa [RaftReplica.tell,List.countP_append,Effect.notifies,Effect.finalizes,now,awaited] using notified
    · intro settled
      obtain ⟨before,voters,pid,after,same⟩ := sound.answered settled
      exact ⟨before,voters,pid,after ++ [.leader (r.state = .election) leader],by simp [RaftReplica.tell,same]⟩
  · exact sound

theorem settle_told (r : RaftReplica ν μ) : (r.settle lib).told = r.told := by
  unfold settle
  dsimp only
  split <;> split <;> rfl

theorem settle_settled (r : RaftReplica ν μ) : (r.settle lib).Settled := by
  unfold settle
  dsimp only
  split <;> split
  · exact .inr rfl
  · exact .inr rfl
  · exact .inl rfl
  · exact .inl rfl

theorem settle_silent (r : RaftReplica ν μ) : (r.settle lib).reconfigState = .removed →
    (r.settle lib).timers = false := by
  unfold settle
  dsimp only
  split <;> split
  · intro removed
    cases removed
  · intro removed
    cases removed
  · exact fun _ => rfl
  · exact fun _ => rfl

theorem settle_scheduled (r : RaftReplica ν μ) (idle : r.campaigns = 0) : (r.settle lib).campaigns ≠ 0 →
    (r.settle lib).reconfigState = .finished := by
  unfold settle
  dsimp only
  split <;> split
  · exact fun _ => rfl
  · exact fun _ => rfl
  · exact fun tries => absurd idle tries
  · exact fun tries => absurd idle tries

theorem Sound.finalizes (sound : Sound order r) (raw : ν) (voters : Finset ℕ) (leader : ℕ) (unsettled : ¬r.Settled) :
    Sound order (RaftReplica.tell (settle lib (RaftReplica.tell { r with raw } .finalizeMembershipChange))
      (.proposalResponse (reconfigData (order.iter voters)) leader)) := by
  have none_yet := sound.finalized.trans (finalizations_unsettled unsettled)
  have idle : r.campaigns = 0 := by
    by_contra tries
    exact unsettled (.inr (sound.scheduled tries))
  have settled : (settle lib (RaftReplica.tell { r with raw } .finalizeMembershipChange)).Settled := settle_settled _
  generalize after : settle lib (RaftReplica.tell { r with raw } Effect.finalizeMembershipChange) = done at settled ⊢
  have told : done.told = r.told ++ [.finalizeMembershipChange] := by
    rw [← after,settle_told]
    rfl
  refine ⟨?_,?_,?_,?_,?_,?_⟩
  · have once := finalizations_settled settled
    simp [RaftReplica.tell,told,List.countP_append,List.countP_cons,none_yet,once,Effect.finalizes]
  · have asked := sound.asked
    have spent := allowance_settled settled
    simp only [RaftReplica.tell,told,List.countP_append,spent]
    exact (Nat.le_add_right _ _).trans asked
  · have notified := sound.notified
    rw [none_yet] at notified
    have one : r.told.countP Effect.notifies ≤ 1 := (Nat.le_add_right _ _).trans notified
    have most : awaited done.state ≤ 1 := by cases done.state <;> decide
    simp [RaftReplica.tell,told,List.countP_append,List.countP_cons,none_yet,Effect.notifies,Effect.finalizes]
    omega
  · exact fun _ => ⟨r.told,voters,leader,[],by simp [RaftReplica.tell,told]⟩
  · rw [← after]
    exact settle_silent _
  · rw [← after]
    exact settle_scheduled _ idle

theorem Sound.change (sound : Sound order r) (change : Change lib order halts r next) : Sound order next := by
  cases change with
  | library raw => exact ⟨sound.finalized,sound.asked,sound.notified,sound.answered,sound.silent,sound.scheduled⟩
  | say effect quiet =>
    cases effect with
    | rawRaftMsg _ | proposalResponse _ _ => exact sound.say rfl rfl rfl
    | _ => cases quiet
  | sayStop effect stop halting =>
    cases effect with
    | sendStop _ _ | replyStop => exact sound.say rfl rfl rfl
    | _ => cases stop
  | stopping stopAsk stoppedPeers halting =>
    exact ⟨sound.finalized,sound.asked,sound.notified,sound.answered,sound.silent,sound.scheduled⟩
  | stopped halting => exact ⟨sound.finalized,sound.asked,sound.notified,sound.answered,fun _ => rfl,sound.scheduled⟩
  | campaigned =>
    refine ⟨sound.finalized,sound.asked,sound.notified,sound.answered,sound.silent,?_⟩
    intro tries
    apply sound.scheduled
    intro nobody
    exact tries (by rw [nobody])
  | noteLeader leader => exact sound.noteLeader leader
  | begins raw unsettled =>
    have kept : Sound order { r with raw } :=
      ⟨sound.finalized,sound.asked,sound.notified,sound.answered,sound.silent,sound.scheduled⟩
    exact kept.say rfl rfl rfl
  | finalizes raw voters leader unsettled => exact sound.finalizes raw voters leader unsettled

theorem Sound.propose (sound : Sound order r) {proposal : Proposal}
    (done : r.propose lib order proposal = some next) : Sound order next := by
  obtain rfl | ⟨_,_,_,rfl⟩ | ⟨_,_,_,rfl⟩ | ⟨_,_,raw,_,fresh,rfl⟩ | ⟨raw,_,rfl⟩ := propose_cases done
  · exact ⟨sound.finalized,sound.asked,sound.notified,sound.answered,sound.silent,sound.scheduled⟩
  · exact sound
  · exact sound.say rfl rfl rfl
  · have asked := sound.asked
    have none_yet := sound.finalized
    rw [fresh] at asked none_yet
    refine ⟨?_,?_,?_,?_,?_,?_⟩
    · simpa [RaftReplica.tell,List.countP_append,Effect.finalizes,finalizations] using none_yet
    · simpa [RaftReplica.tell,List.countP_append,Effect.asksMembership,allowance] using asked
    · simpa [RaftReplica.tell,List.countP_append,Effect.finalizes,Effect.notifies] using sound.notified
    · rintro (removed | finished)
      · cases removed
      · cases finished
    · intro removed
      cases removed
    · intro tries
      have finished := sound.scheduled tries
      rw [fresh] at finished
      cases finished
  · have told : Sound order (r.tell (.call (.propose proposal.data))) := sound.say rfl rfl rfl
    exact ⟨told.finalized,told.asked,told.notified,told.answered,told.silent,told.scheduled⟩

theorem Sound.moves (sound : Sound order r) (moves : Moves lib order halts r next) : Sound order next := by
  induction moves with
  | refl => exact sound
  | tail _ move ih =>
    cases move with
    | change change => exact ih.change change
    | propose proposal done => exact ih.propose done
    | takes => exact ⟨ih.finalized,ih.asked,ih.notified,ih.answered,ih.silent,ih.scheduled⟩

-- What comes after a replica has settled has nothing to do with the members.
structure Later (r next : RaftReplica ν μ) : Prop where
  grows : ∃ more, next.told = r.told ++ more ∧ (r.Settled → ∀ effect ∈ more, effect.membership = false)
  stays : r.Settled → next.reconfigState = r.reconfigState

theorem Later.same (told : next.told = r.told) (stays : next.reconfigState = r.reconfigState) : Later r next :=
  ⟨⟨[],told.trans (List.append_nil _).symm,by simp⟩,fun _ => stays⟩

theorem Later.settled (later : Later r next) (settled : r.Settled) : next.Settled := by
  unfold Settled
  rw [later.stays settled]
  exact settled

theorem Later.trans {last : RaftReplica ν μ} (first : Later r next) (second : Later next last) : Later r last := by
  obtain ⟨some_more,grown,quiet⟩ := first.grows
  obtain ⟨more,grown_again,quiet_again⟩ := second.grows
  refine ⟨⟨some_more ++ more,by rw [grown_again,grown,List.append_assoc],?_⟩,?_⟩
  · intro settled effect inside
    rcases List.mem_append.mp inside with before | after
    · exact quiet settled effect before
    · exact quiet_again (first.settled settled) effect after
  · exact fun settled => (second.stays (first.settled settled)).trans (first.stays settled)

theorem Later.say {effect : Effect μ} (grown : next.told = r.told ++ [effect])
    (quiet : r.Settled → effect.membership = false) (stays : next.reconfigState = r.reconfigState) : Later r next := by
  refine ⟨⟨[effect],grown,?_⟩,fun _ => stays⟩
  intro settled other inside
  rw [List.mem_singleton.mp inside]
  exact quiet settled

theorem Later.change (change : Change lib order halts r next) : Later r next := by
  cases change with
  | library raw => exact .same rfl rfl
  | say effect quiet =>
    refine .say rfl (fun _ => ?_) rfl
    cases effect with
    | rawRaftMsg _ | proposalResponse _ _ => rfl
    | _ => cases quiet
  | sayStop effect stop halting =>
    refine .say rfl (fun _ => ?_) rfl
    cases effect with
    | sendStop _ _ | replyStop => rfl
    | _ => cases stop
  | stopping stopAsk stoppedPeers halting => exact .same rfl rfl
  | stopped halting => exact .same rfl rfl
  | campaigned => exact .same rfl rfl
  | noteLeader leader =>
    unfold RaftReplica.noteLeader
    split
    · exact .say rfl (fun _ => rfl) rfl
    · exact .same rfl rfl
  | begins raw unsettled => exact .say rfl (fun settled => absurd settled unsettled) rfl
  | finalizes raw voters leader unsettled =>
    refine ⟨⟨[.finalizeMembershipChange,.proposalResponse (reconfigData (order.iter voters)) leader],?_,
      fun settled => absurd settled unsettled⟩,fun settled => absurd settled unsettled⟩
    simp [RaftReplica.tell,settle_told]

theorem Later.propose {proposal : Proposal} (done : r.propose lib order proposal = some next) : Later r next := by
  obtain rfl | ⟨_,_,_,rfl⟩ | ⟨_,_,_,rfl⟩ | ⟨_,_,raw,_,fresh,rfl⟩ | ⟨raw,_,rfl⟩ := propose_cases done
  · exact .same rfl rfl
  · exact .same rfl rfl
  · exact .say rfl (fun _ => rfl) rfl
  · have unsettled : ¬r.Settled := by
      unfold Settled
      rw [fresh]
      simp
    exact ⟨⟨_,rfl,fun settled => absurd settled unsettled⟩,fun settled => absurd settled unsettled⟩
  · exact .say rfl (fun _ => rfl) rfl

theorem Later.moves (moves : Moves lib order halts r next) : Later r next := by
  induction moves with
  | refl => exact .same rfl rfl
  | tail _ move ih =>
    refine ih.trans ?_
    cases move with
    | change change => exact .change change
    | propose proposal done => exact .propose done
    | takes => exact .same rfl rfl

-- A replica that was removed does nothing but take part in the stop.
structure Silent (r next : RaftReplica ν μ) : Prop where
  raw : next.raw = r.raw
  heldBack : next.hbProposals = r.hbProposals
  grows : ∃ more, next.told = r.told ++ more ∧ ∀ effect ∈ more, effect.stops = true

theorem Silent.trans {last : RaftReplica ν μ} (first : Silent r next) (second : Silent next last) : Silent r last := by
  obtain ⟨some_more,grown,only⟩ := first.grows
  obtain ⟨more,grown_again,only_again⟩ := second.grows
  refine ⟨second.raw.trans first.raw,second.heldBack.trans first.heldBack,some_more ++ more,?_,?_⟩
  · rw [grown_again,grown,List.append_assoc]
  · intro effect inside
    exact (List.mem_append.mp inside).elim (only effect) (only_again effect)

theorem Silent.same (raw : next.raw = r.raw) (heldBack : next.hbProposals = r.hbProposals) (told : next.told = r.told) :
    Silent r next := ⟨raw,heldBack,[],told.trans (List.append_nil _).symm,by simp⟩

end Membership

-- A library of one node, the second of three: it is elected at its first tick, and what
-- is proposed to it is committed at once.
structure Members where
  leader : ℕ
  voters : Finset ℕ
  changing : Bool
  unapplied : List Entry

def second : RawNode Members Unit where
  id := 2
  leaderId s := s.leader
  isLeader s := s.leader = 2
  voters s := s.voters
  isInMembershipChange s := s.changing
  tick s := { s with leader := 2 }
  campaign s := s
  step _ s := s
  propose data s := some { s with unapplied := s.unapplied ++ [⟨s.unapplied.length + 1,1,data,false⟩] }
  proposeMembershipChange _ s := some { s with
    unapplied := s.unapplied ++ [⟨s.unapplied.length + 1,1,[0],true⟩,⟨s.unapplied.length + 2,1,[1],true⟩] }
  beginMembershipChange _ s := some { s with changing := true }
  finalizeMembershipChange _ s := some { s with changing := false, voters := {1,3,4}, leader := 0 }
  ready s := if s.unapplied = [] then none else some (⟨s.unapplied,false,[],some s.unapplied⟩,s)
  advance _ s := { s with unapplied := [] }
  appendLog _ s := some (true,s)
  setConfState s := s
  setHardState _ _ s := some s
  changeType
    | [0] => some .beginMembershipChange
    | [1] => some .finalizeMembershipChange
    | _ => none

section Proposals
variable {lib : RawNode ν μ} {order : HashOrder} {halts : Bool} {r next : RaftReplica ν μ}

def normal (proposal : Proposal) : Option (List UInt8) :=
  match proposal.reconfig with
  | none => some proposal.data
  | some _ => none

def handed : Effect μ → Option (List UInt8)
  | .call (.propose data) => some data
  | _ => none

-- The proposals that a replica handed to the library or still holds back.
def ledger (r : RaftReplica ν μ) : Multiset (List UInt8) :=
  (r.told.filterMap handed : Multiset (List UInt8)) + (r.hbProposals.filterMap normal : Multiset (List UInt8))

def Event.given : Event μ → List (List UInt8)
  | .propose proposal => (normal proposal).toList
  | _ => []

end Proposals

end KompicsBenches.RaftReplicas
