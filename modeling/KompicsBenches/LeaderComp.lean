import Mathlib

namespace KompicsBenches.LeaderComp

-- Ballot numbers do not wrap here, pid 0 belongs to no process.
structure Ballot where
  n : ℕ
  pid : ℕ
  deriving DecidableEq, Repr

namespace Ballot

-- The derived `Ord` compares `n` first and then `pid`.
def pair (b : Ballot) : ℕ ×ₗ ℕ := toLex (b.n,b.pid)

theorem pair_injective : Function.Injective pair := by
  intro left right same
  cases left
  cases right
  simp only [pair,EmbeddingLike.apply_eq_iff_eq,Prod.mk.injEq] at same
  simp [same.1,same.2]

instance : LinearOrder Ballot := LinearOrder.lift' pair pair_injective

theorem lt_exact (left right : Ballot) :
    left < right ↔ left.n < right.n ∨ left.n = right.n ∧ left.pid < right.pid := by
  change pair left < pair right ↔ _
  exact Prod.Lex.toLex_lt_toLex

end Ballot

structure Leader where
  pid : ℕ
  round : Ballot
  deriving DecidableEq, Repr

inductive HeartbeatMsg where
  | request (round : ℕ) (maxBallot : Ballot)
  | reply (senderPid round : ℕ) (maxBallot : Ballot)
  deriving DecidableEq, Repr

inductive Message where
  | heartbeat (hb : HeartbeatMsg)
  | stopPeer (pid : ℕ)
  deriving DecidableEq, Repr

inductive Effect where
  | tellPeers (msg : Message)
  | tellSender (msg : Message)
  | trigger (leader : Leader)
  | replyStop (pid : ℕ)
  deriving DecidableEq, Repr

-- Peers are actor paths in the source, each stands for its process. The timer
-- holds the delay it was scheduled with, `stopAsk` the request of the pending ask.
structure BallotLeaderComp where
  pid : ℕ
  peers : List ℕ
  hbRound : ℕ
  ballots : List (Ballot × ℕ)
  currentBallot : Ballot
  leader : Option (Ballot × ℕ)
  maxBallot : Ballot
  hbDelay : ℕ
  delta : ℕ
  majority : ℕ
  timer : Option ℕ
  stopped : Bool
  stoppedPeers : Finset ℕ
  stopAsk : Option ℕ
  quickTimeout : Bool
  initialElectionFactor : ℕ
  deriving DecidableEq

-- The greatest entry in tuple order.
def topEntry (ballots : List (Ballot × ℕ)) : Option (Ballot × ℕ) :=
  (ballots.map toLex).max?.map ofLex

def BallotLeaderComp.with (peers : List ℕ) (pid hbDelay delta : ℕ) (quickTimeout : Bool)
    (initialLeader : Option Leader) (initialElectionFactor : ℕ) : BallotLeaderComp :=
  let n := peers.length + 1
  let initial : Option (Ballot × ℕ) × Ballot × Ballot :=
    match initialLeader with
    | some l => (some (l.round,l.pid),if l.pid = pid then l.round else ⟨0,pid⟩,l.round)
    | none => (none,⟨0,pid⟩,⟨0,pid⟩)
  { pid := pid
    majority := n / 2 + 1
    peers := peers
    hbRound := 0
    ballots := []
    currentBallot := initial.2.1
    leader := initial.1
    maxBallot := initial.2.2
    hbDelay := hbDelay
    delta := delta
    timer := none
    stopped := false
    stoppedPeers := ∅
    stopAsk := none
    quickTimeout := quickTimeout
    initialElectionFactor := initialElectionFactor }

namespace BallotLeaderComp

def setInitialLeader (c : BallotLeaderComp) (l : Leader) : BallotLeaderComp :=
  {c with
    leader := some (l.round,l.pid)
    currentBallot := if l.pid = c.pid then l.round else ⟨0,c.pid⟩
    maxBallot := l.round
    quickTimeout := false}

-- `none` is a panic: here the `unwrap` of the maximum of an empty list.
def checkLeader (c : BallotLeaderComp) : Option (BallotLeaderComp × List Effect) :=
  (topEntry c.ballots).map fun top =>
    let c := {c with ballots := []}
    if top.1 < c.maxBallot then
      ({c with
        currentBallot := {c.currentBallot with n := c.maxBallot.n + 1}
        leader := none},[])
    else if c.leader ≠ some top then
      ({c with quickTimeout := false,maxBallot := top.1,leader := some top},
        [.trigger ⟨top.2,top.1⟩])
    else (c,[])

-- The delay of the next timer. The division panics at a factor of 0.
def delay (c : BallotLeaderComp) : Option ℕ :=
  if c.quickTimeout then
    if c.initialElectionFactor = 0 then none else some (c.hbDelay / c.initialElectionFactor)
  else some c.hbDelay

def startTimer (c : BallotLeaderComp) (t : ℕ) : BallotLeaderComp := {c with timer := some t}

def stopTimer (c : BallotLeaderComp) : BallotLeaderComp := {c with timer := none}

def hbRequest (c : BallotLeaderComp) : Effect :=
  .tellPeers (.heartbeat (.request c.hbRound c.maxBallot))

-- The part of `hb_timeout` that looks at the replies of the round.
def closeRound (c : BallotLeaderComp) : Option (BallotLeaderComp × List Effect) :=
  if c.majority ≤ c.ballots.length + 1 then
    checkLeader {c with ballots := c.ballots ++ [(c.currentBallot,c.pid)]}
  else some ({c with ballots := []},[])

def hbTimeout (c : BallotLeaderComp) : Option (BallotLeaderComp × List Effect) :=
  c.closeRound.bind fun (c,fired) =>
    c.delay.map fun delay =>
      let c := {c with hbRound := c.hbRound + 1}
      (c.startTimer delay,fired ++ [c.hbRequest])

def onStart (c : BallotLeaderComp) : Option (BallotLeaderComp × List Effect) :=
  c.delay.map fun delay => (c.startTimer delay,[c.hbRequest])

-- The request of the `Stop` ask is the pid that the peers are told.
def receiveLocal (c : BallotLeaderComp) (pid : ℕ) : BallotLeaderComp × List Effect :=
  let told := Effect.tellPeers (.stopPeer pid)
  let c : BallotLeaderComp := {c.stopTimer with stopped := true}
  if c.stoppedPeers.card = c.peers.length then (c,[told,.replyStop pid])
  else ({c with stopAsk := some pid},[told])

def receiveHeartbeat (c : BallotLeaderComp) : HeartbeatMsg → BallotLeaderComp × List Effect
  | .request round maxBallot =>
    if c.stopped then (c,[])
    else
      let c := if c.maxBallot < maxBallot then {c with maxBallot := maxBallot} else c
      (c,[.tellSender (.heartbeat (.reply c.pid round c.currentBallot))])
  | .reply senderPid round maxBallot =>
    if c.stopped then (c,[])
    else if round = c.hbRound then ({c with ballots := c.ballots ++ [(maxBallot,senderPid)]},[])
    else ({c with hbDelay := c.hbDelay + c.delta},[])

-- Panics at the duplicate stop assertion and at a missing stop ask.
def receiveStopPeer (c : BallotLeaderComp) (pid : ℕ) : Option (BallotLeaderComp × List Effect) :=
  if pid ∈ c.stoppedPeers then none
  else
    let c := {c with stoppedPeers := insert pid c.stoppedPeers}
    if c.stopped ∧ c.stoppedPeers.card = c.peers.length then
      c.stopAsk.map fun ask => ({c with stopAsk := none},[.replyStop ask])
    else some (c,[])

def receiveNetwork (c : BallotLeaderComp) : Message → Option (BallotLeaderComp × List Effect)
  | .heartbeat hb => some (c.receiveHeartbeat hb)
  | .stopPeer pid => c.receiveStopPeer pid

end BallotLeaderComp

-- What a component is woken up for.
inductive Input where
  | start
  | timeout
  | stop (pid : ℕ)
  | message (msg : Message)
  deriving DecidableEq, Repr

-- A timer that was cancelled or never started does not fire.
def BallotLeaderComp.handle (c : BallotLeaderComp) :
    Input → Option (BallotLeaderComp × List Effect)
  | .start => c.onStart
  | .timeout => if c.timer.isSome then c.hbTimeout else none
  | .stop pid => some (c.receiveLocal pid)
  | .message msg => c.receiveNetwork msg

theorem topEntry_mem (found : topEntry ballots = some top) : top ∈ ballots := by
  unfold topEntry at found
  obtain ⟨entry,greatest,rfl⟩ := Option.map_eq_some_iff.mp found
  obtain ⟨original,listed,rfl⟩ := List.mem_map.mp (List.max?_mem greatest)
  exact listed

theorem topEntry_le (found : topEntry ballots = some top) (listed : entry ∈ ballots) :
    entry.1 ≤ top.1 := by
  unfold topEntry at found
  obtain ⟨greatest,isMax,rfl⟩ := Option.map_eq_some_iff.mp found
  have below : toLex entry ≤ greatest :=
    (List.max?_le_iff isMax).mp le_rfl _ (List.mem_map_of_mem listed)
  rcases Prod.Lex.le_iff.mp below with less | ⟨same,_⟩
  · exact less.le
  · exact same.le

theorem topEntry_total (nonempty : ballots ≠ []) : (topEntry ballots).isSome := by
  unfold topEntry
  rw [Option.isSome_map,List.isSome_max?_iff]
  simpa using nonempty

-- What handling one input may do to the ballots and the leader of a component,
-- and the Leader events it triggers. Only the first two move `current_ballot` or
-- trigger anything, and both happen at a timeout.
inductive Turn (c next : BallotLeaderComp) : List Leader → Prop where
  | raised : next.currentBallot = {c.currentBallot with n := c.maxBallot.n + 1} →
      next.maxBallot = c.maxBallot → next.leader = none → Turn c next []
  | elected (ballot : Ballot) (pid : ℕ) :
      (ballot,pid) ∈ c.ballots ++ [(c.currentBallot,c.pid)] → c.currentBallot ≤ ballot →
      c.maxBallot ≤ ballot → c.leader ≠ some (ballot,pid) →
      next.currentBallot = c.currentBallot → next.maxBallot = ballot →
      next.leader = some (ballot,pid) → Turn c next [⟨pid,ballot⟩]
  | kept : next.currentBallot = c.currentBallot → c.maxBallot ≤ next.maxBallot →
      next.leader = c.leader → Turn c next []

def triggered : Effect → Option Leader
  | .trigger leader => some leader
  | _ => none

-- The entry that a reply adds to the ballots of the round.
def reported : Input → List (Ballot × ℕ)
  | .message (.heartbeat (.reply senderPid _ maxBallot)) => [(maxBallot,senderPid)]
  | _ => []

-- A reply names its sender and the ballot it holds.
def Honest (pid : ℕ) (held : Ballot) : Effect → Prop
  | .tellPeers (.heartbeat (.reply ..)) => False
  | .tellSender (.heartbeat (.reply senderPid _ ballot)) => senderPid = pid ∧ ballot = held
  | _ => True

structure Handled (c : BallotLeaderComp) (input : Input) (next : BallotLeaderComp)
    (effects : List Effect) : Prop where
  turn : Turn c next (effects.filterMap triggered)
  pid : next.pid = c.pid
  ballots : next.ballots ⊆ c.ballots ++ reported input
  honest : ∀ effect ∈ effects, Honest next.pid next.currentBallot effect

theorem checkLeader_turn {c : BallotLeaderComp} (done : BallotLeaderComp.checkLeader
      {c with ballots := c.ballots ++ [(c.currentBallot,c.pid)]} = some (next,effects)) :
    Turn c next (effects.filterMap triggered) ∧ next.pid = c.pid ∧ next.ballots = [] ∧
      ∀ effect ∈ effects, Honest next.pid next.currentBallot effect := by
  unfold BallotLeaderComp.checkLeader at done
  obtain ⟨top,found,chosen⟩ := Option.map_eq_some_iff.mp done
  have pushed : (c.currentBallot,c.pid) ∈ c.ballots ++ [(c.currentBallot,c.pid)] := by simp
  have own : c.currentBallot ≤ top.1 := topEntry_le found pushed
  dsimp only at chosen
  split_ifs at chosen with behind changed
  · cases chosen
    exact ⟨.raised rfl rfl rfl,rfl,rfl,by simp⟩
  · cases chosen
    exact ⟨.elected top.1 top.2 (topEntry_mem found) own (not_lt.mp behind) changed rfl rfl rfl,
      rfl,rfl,by simp [Honest]⟩
  · cases chosen
    exact ⟨.kept rfl le_rfl rfl,rfl,rfl,by simp⟩

theorem closeRound_turn {c : BallotLeaderComp} (done : c.closeRound = some (next,effects)) :
    Turn c next (effects.filterMap triggered) ∧ next.pid = c.pid ∧ next.ballots = [] ∧
      ∀ effect ∈ effects, Honest next.pid next.currentBallot effect := by
  unfold BallotLeaderComp.closeRound at done
  split_ifs at done with enough
  · exact checkLeader_turn done
  · cases done
    exact ⟨.kept rfl le_rfl rfl,rfl,rfl,by simp⟩

-- A turn does not depend on the round, the timer or the delay.
theorem Turn.transport (turn : Turn c next leaders) (current : next'.currentBallot = next.currentBallot)
    (greatest : next'.maxBallot = next.maxBallot) (leader : next'.leader = next.leader) :
    Turn c next' leaders := by
  cases turn with
  | raised ballot top none =>
    exact .raised (current.trans ballot) (greatest.trans top) (leader.trans none)
  | elected ballot pid listed own above new same top chosen =>
    exact .elected ballot pid listed own above new (current.trans same) (greatest.trans top)
      (leader.trans chosen)
  | kept same top old =>
    exact .kept (current.trans same) (greatest ▸ top) (leader.trans old)

theorem Turn.listed (turn : Turn c next leaders) :
    ∀ leader ∈ leaders, (leader.round,leader.pid) ∈ c.ballots ++ [(c.currentBallot,c.pid)] := by
  cases turn with
  | raised => simp
  | elected ballot pid listed => simpa using listed
  | kept => simp

theorem hbTimeout_handled {c : BallotLeaderComp} (done : c.hbTimeout = some (next,effects)) :
    Handled c .timeout next effects := by
  unfold BallotLeaderComp.hbTimeout at done
  obtain ⟨⟨closed,fired⟩,ended,rest⟩ := Option.bind_eq_some_iff.mp done
  obtain ⟨delay,_,result⟩ := Option.map_eq_some_iff.mp rest
  obtain ⟨turn,same,emptied,honest⟩ := closeRound_turn ended
  cases result
  refine ⟨?_,same,by simp [BallotLeaderComp.startTimer,emptied],?_⟩
  · have silent (c : BallotLeaderComp) : [c.hbRequest].filterMap triggered = [] := rfl
    rw [List.filterMap_append,silent,List.append_nil]
    exact turn.transport rfl rfl rfl
  · intro effect listed
    rcases List.mem_append.mp listed with old | new
    · exact honest effect old
    · cases List.mem_singleton.mp new
      trivial

theorem onStart_handled {c : BallotLeaderComp} (done : c.onStart = some (next,effects)) :
    Handled c .start next effects := by
  unfold BallotLeaderComp.onStart at done
  obtain ⟨delay,_,result⟩ := Option.map_eq_some_iff.mp done
  cases result
  exact ⟨.kept rfl le_rfl rfl,rfl,by simp [BallotLeaderComp.startTimer],
    by simp [Honest,BallotLeaderComp.hbRequest]⟩

theorem receiveLocal_handled {c : BallotLeaderComp} (done : c.receiveLocal pid = (next,effects)) :
    Handled c (.stop pid) next effects := by
  unfold BallotLeaderComp.receiveLocal at done
  dsimp only at done
  split_ifs at done with everyone
  all_goals
    cases done
    exact ⟨.kept rfl le_rfl rfl,rfl,by simp [BallotLeaderComp.stopTimer],by simp [Honest]⟩

theorem receiveHeartbeat_handled {c : BallotLeaderComp}
    (done : c.receiveHeartbeat hb = (next,effects)) :
    Handled c (.message (.heartbeat hb)) next effects := by
  unfold BallotLeaderComp.receiveHeartbeat at done
  cases hb with
  | request round maxBallot =>
    dsimp only at done
    split_ifs at done with stopped greater
    · cases done
      exact ⟨.kept rfl le_rfl rfl,rfl,by simp,by simp⟩
    · cases done
      exact ⟨.kept rfl greater.le rfl,rfl,by simp,by simp [Honest]⟩
    · cases done
      exact ⟨.kept rfl le_rfl rfl,rfl,by simp,by simp [Honest]⟩
  | reply senderPid round maxBallot =>
    dsimp only at done
    split_ifs at done with stopped current
    all_goals
      cases done
      exact ⟨.kept rfl le_rfl rfl,rfl,by simp [reported],by simp⟩

theorem receiveStopPeer_handled {c : BallotLeaderComp}
    (done : c.receiveStopPeer pid = some (next,effects)) :
    Handled c (.message (.stopPeer pid)) next effects := by
  unfold BallotLeaderComp.receiveStopPeer at done
  dsimp only at done
  split_ifs at done with duplicate everyone
  · obtain ⟨ask,_,result⟩ := Option.map_eq_some_iff.mp done
    cases result
    exact ⟨.kept rfl le_rfl rfl,rfl,by simp,by simp [Honest]⟩
  · cases done
    exact ⟨.kept rfl le_rfl rfl,rfl,by simp,by simp⟩

theorem closeRound_total (c : BallotLeaderComp) :
    ∃ next effects, c.closeRound = some (next,effects) ∧
      next.initialElectionFactor = c.initialElectionFactor := by
  unfold BallotLeaderComp.closeRound
  split_ifs with enough
  · obtain ⟨top,found⟩ := Option.isSome_iff_exists.mp
      (topEntry_total (List.append_ne_nil_of_right_ne_nil c.ballots
        (List.cons_ne_nil (c.currentBallot,c.pid) [])))
    unfold BallotLeaderComp.checkLeader
    rw [found,Option.map_some]
    dsimp only
    split_ifs
    · exact ⟨_,_,rfl,rfl⟩
    · exact ⟨_,_,rfl,rfl⟩
    · exact ⟨_,_,rfl,rfl⟩
  · exact ⟨_,_,rfl,rfl⟩

-- The own ballot is always in the list, so the `unwrap` of `check_leader` is safe.
theorem hbTimeout_total (c : BallotLeaderComp) (factor : c.initialElectionFactor ≠ 0) :
    c.hbTimeout.isSome := by
  obtain ⟨next,effects,closed,same⟩ := closeRound_total c
  unfold BallotLeaderComp.hbTimeout BallotLeaderComp.delay
  rw [closed,Option.bind_some]
  dsimp only
  rw [same,if_neg factor]
  split_ifs <;> rfl

theorem handle_handled {c : BallotLeaderComp} (done : c.handle input = some (next,effects)) :
    Handled c input next effects := by
  cases input with
  | start => exact onStart_handled done
  | timeout =>
    unfold BallotLeaderComp.handle at done
    split_ifs at done with running
    exact hbTimeout_handled done
  | stop pid => exact receiveLocal_handled (Option.some.inj done)
  | message msg =>
    cases msg with
    | heartbeat hb => exact receiveHeartbeat_handled (Option.some.inj done)
    | stopPeer pid => exact receiveStopPeer_handled done

end KompicsBenches.LeaderComp
