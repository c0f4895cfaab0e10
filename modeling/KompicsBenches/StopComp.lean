import KompicsBenches.LeaderComp

namespace KompicsBenches.StopComp
open LeaderComp (BallotLeaderComp Message)

-- A party that is told to stop, and that hears of each of its peers once when that
-- has stopped. The one that told it waits until all peers have been heard of.
structure Stopper where
  peers : List ℕ
  stopped : Bool
  stoppedPeers : Finset ℕ
  asked : Bool

namespace Stopper

def stop (c : Stopper) : Stopper :=
  {c with stopped := true, asked := if c.stoppedPeers.card = c.peers.length then c.asked else true}

-- `none` is the duplicate, and the last peer that nobody waits for.
def hear (c : Stopper) (pid : ℕ) : Option Stopper :=
  if pid ∈ c.stoppedPeers then none
  else
    let c := {c with stoppedPeers := insert pid c.stoppedPeers}
    if c.stopped ∧ c.stoppedPeers.card = c.peers.length then
      if c.asked then some {c with asked := false} else none
    else some c

-- Only peers are heard of, and as long as one is missing somebody waits.
structure Sound (c : Stopper) : Prop where
  distinct : c.peers.Nodup
  known : ∀ pid ∈ c.stoppedPeers, pid ∈ c.peers
  waiting : c.stopped → c.stoppedPeers.card ≠ c.peers.length → c.asked

variable {c next : Stopper} {pid : ℕ}

theorem Sound.stop (sound : Sound c) : Sound c.stop := by
  refine ⟨sound.distinct,sound.known,?_⟩
  intro _ missing
  exact if_neg missing

theorem hear_cases (done : c.hear pid = some next) :
    pid ∉ c.stoppedPeers ∧ next.peers = c.peers ∧ next.stopped = c.stopped ∧
      next.stoppedPeers = insert pid c.stoppedPeers ∧
      (¬(next.stopped ∧ next.stoppedPeers.card = next.peers.length) → next.asked = c.asked) := by
  unfold hear at done
  split at done
  · cases done
  · rename_i fresh
    dsimp only at done
    split at done
    · rename_i last
      split at done
      · cases done
        refine ⟨fresh,rfl,rfl,rfl,?_⟩
        intro missing
        exact (missing last).elim
      · cases done
    · cases done
      exact ⟨fresh,rfl,rfl,rfl,fun _ => rfl⟩

theorem Sound.room (sound : Sound c) (fresh : pid ∉ c.stoppedPeers) (peer : pid ∈ c.peers) :
    c.stoppedPeers.card < c.peers.length := by
  have within : insert pid c.stoppedPeers ⊆ c.peers.toFinset := by
    intro other member
    rw [Finset.mem_insert] at member
    rw [List.mem_toFinset]
    obtain rfl | old := member
    · exact peer
    · exact sound.known other old
  have size := Finset.card_le_card within
  rw [Finset.card_insert_of_notMem fresh,List.toFinset_card_of_nodup sound.distinct] at size
  omega

theorem Sound.hear (sound : Sound c) (peer : pid ∈ c.peers) (done : c.hear pid = some next) :
    Sound next := by
  obtain ⟨fresh,peers,stopped,heard,asked⟩ := hear_cases done
  refine ⟨peers ▸ sound.distinct,?_,?_⟩
  · intro other member
    rw [heard,Finset.mem_insert] at member
    rw [peers]
    obtain rfl | old := member
    · exact peer
    · exact sound.known other old
  · intro down missing
    rw [asked (fun both => missing both.2)]
    apply sound.waiting (stopped ▸ down)
    have room := sound.room fresh peer
    omega

-- The stop of a peer that was not heard of is accepted.
theorem Sound.accepts (sound : Sound c) (fresh : pid ∉ c.stoppedPeers) (peer : pid ∈ c.peers) :
    c.hear pid ≠ none := by
  unfold Stopper.hear
  rw [if_neg fresh]
  dsimp only
  split
  · rename_i last
    have room := sound.room fresh peer
    rw [if_pos (sound.waiting last.1 (by omega))]
    exact Option.some_ne_none _
  · exact Option.some_ne_none _

-- The count of the peers heard of says whether all of them were.
theorem Sound.exact (sound : Sound c) :
    c.stoppedPeers.card = c.peers.length ↔ ∀ pid ∈ c.peers, pid ∈ c.stoppedPeers := by
  have within : c.stoppedPeers ⊆ c.peers.toFinset := by
    intro pid member
    exact List.mem_toFinset.mpr (sound.known pid member)
  rw [← List.toFinset_card_of_nodup sound.distinct]
  constructor
  · intro full pid peer
    have same := Finset.eq_of_subset_of_card_le within (Nat.le_of_eq full.symm)
    rw [same]
    exact List.mem_toFinset.mpr peer
  · intro all
    congr 1
    apply within.antisymm
    intro pid member
    exact all pid (List.mem_toFinset.mp member)

end Stopper

def viewBle (c : BallotLeaderComp) : Stopper := ⟨c.peers,c.stopped,c.stoppedPeers,c.stopAsk.isSome⟩

-- What a replica does about a stop, besides changing itself: it lets its communicator
-- send one, and it replies to the ask.
inductive ReplicaEffect where
  | sendStop (ackClient : Bool)
  | replyStop
  deriving DecidableEq, Repr

-- The part of a replica that takes part in the stop; its pid and configuration are
-- its place in the system. `stopAsk` holds the request of the pending ask.
structure PaxosReplica where
  peers : List ℕ
  stopped : Bool
  stoppedPeers : Finset ℕ
  stopAsk : Option Bool

def PaxosReplica.with (peers : List ℕ) : PaxosReplica := ⟨peers,false,∅,none⟩

namespace PaxosReplica
variable (c : PaxosReplica)

def receiveStop (ackClient : Bool) : PaxosReplica × List ReplicaEffect :=
  let c := {c with stopped := true}
  if c.stoppedPeers.card = c.peers.length then (c,[.sendStop ackClient,.replyStop])
  else ({c with stopAsk := some ackClient},[.sendStop ackClient])

-- Panics at the duplicate stop assertion and at a missing stop ask.
def receiveStopMsg (pid : ℕ) : Option (PaxosReplica × List ReplicaEffect) :=
  if pid ∈ c.stoppedPeers then none
  else
    let c := {c with stoppedPeers := insert pid c.stoppedPeers}
    if c.stopped ∧ c.stoppedPeers.card = c.peers.length then
      c.stopAsk.map fun _ => ({c with stopAsk := none},[.replyStop])
    else some (c,[])

end PaxosReplica

def viewReplica (c : PaxosReplica) : Stopper := ⟨c.peers,c.stopped,c.stoppedPeers,c.stopAsk.isSome⟩

-- The election component and the replica stop in the same way.
theorem viewBle_stop (c : BallotLeaderComp) (pid : ℕ) :
    viewBle (c.receiveLocal pid).1 = (viewBle c).stop := by
  unfold BallotLeaderComp.receiveLocal viewBle Stopper.stop
  dsimp only [BallotLeaderComp.stopTimer]
  split
  · rfl
  · rfl

theorem viewReplica_stop (c : PaxosReplica) (ackClient : Bool) :
    viewReplica (c.receiveStop ackClient).1 = (viewReplica c).stop := by
  unfold PaxosReplica.receiveStop viewReplica Stopper.stop
  dsimp only
  split
  · rfl
  · rfl

theorem viewBle_hear (c : BallotLeaderComp) (pid : ℕ) :
    (c.receiveStopPeer pid).map (fun result => viewBle result.1) = (viewBle c).hear pid := by
  by_cases heard : pid ∈ c.stoppedPeers
  · simp [BallotLeaderComp.receiveStopPeer,Stopper.hear,viewBle,heard]
  · by_cases last : c.stopped ∧ c.stoppedPeers.card + 1 = c.peers.length
    · cases ask : c.stopAsk with
      | none => simp [BallotLeaderComp.receiveStopPeer,Stopper.hear,viewBle,heard,last,ask]
      | some request => simp [BallotLeaderComp.receiveStopPeer,Stopper.hear,viewBle,heard,last,ask]
    · simp [BallotLeaderComp.receiveStopPeer,Stopper.hear,viewBle,heard,last]

theorem viewReplica_hear (c : PaxosReplica) (pid : ℕ) :
    (c.receiveStopMsg pid).map (fun result => viewReplica result.1) = (viewReplica c).hear pid := by
  by_cases heard : pid ∈ c.stoppedPeers
  · simp [PaxosReplica.receiveStopMsg,Stopper.hear,viewReplica,heard]
  · by_cases last : c.stopped ∧ c.stoppedPeers.card + 1 = c.peers.length
    · cases ask : c.stopAsk with
      | none => simp [PaxosReplica.receiveStopMsg,Stopper.hear,viewReplica,heard,last,ask]
      | some request => simp [PaxosReplica.receiveStopMsg,Stopper.hear,viewReplica,heard,last,ask]
    · simp [PaxosReplica.receiveStopMsg,Stopper.hear,viewReplica,heard,last]

end KompicsBenches.StopComp
