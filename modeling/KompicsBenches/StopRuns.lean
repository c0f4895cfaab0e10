import KompicsBenches.StopLedger

namespace KompicsBenches.StopRuns
open LeaderComp (BallotLeaderComp)
open ReconfigComp StopComp StopSystem StopLedger
variable {cfg : Config} {s next : System} {spot : Spot} {pid : ℕ} {letter : Letter}

def viewsOf (s : System) : Views
  | .ble,spot => viewBle (s.bles spot)
  | .replica,spot => viewReplica (s.replicas spot)

structure Good (cfg : Config) (s : System) : Prop where
  ledger : Ledger cfg (viewsOf s) s.letters
  complete : Complete cfg (viewsOf s) s.letters

theorem Good.of {views : Views} {letters : List Letter} (ledger : Ledger cfg views letters)
    (complete : Complete cfg views letters) (sameViews : viewsOf s = views)
    (sameLetters : s.letters = letters) : Good cfg s := by
  subst sameViews sameLetters
  exact ⟨ledger,complete⟩

theorem viewsOf_erase (letter : Letter) :
    viewsOf {s with letters := s.letters.erase letter} = viewsOf s := by
  funext route spot
  cases route with
  | ble => rfl
  | replica => rfl

theorem viewsOf_post (letters fresh : List Letter) :
    viewsOf (System.post {s with letters := letters} fresh) = viewsOf s := by
  funext route spot
  cases route with
  | ble => rfl
  | replica => rfl

section Commits

-- The letters an election component sends.
def bleLetters (spot : Spot) (peers : List ℕ) : LeaderComp.Effect → List Letter
  | .tellPeers (.stopPeer pid) => peers.map fun peer => .bleStop (peer,spot.2) pid
  | _ => []

theorem bleEffects_run (s : System) (spot : Spot) (effects : List LeaderComp.Effect) :
    (effects.foldl (System.bleEffect spot) s).bles = s.bles ∧
      (effects.foldl (System.bleEffect spot) s).replicas = s.replicas ∧
      (effects.foldl (System.bleEffect spot) s).letters =
        s.letters ++ effects.flatMap (bleLetters spot (s.bles spot).peers) := by
  induction effects generalizing s with
  | nil => exact ⟨rfl,rfl,(List.append_nil _).symm⟩
  | cons effect effects ih =>
    obtain ⟨bles,replicas,letters⟩ := ih (System.bleEffect spot s effect)
    have same : (System.bleEffect spot s effect).bles = s.bles ∧
        (System.bleEffect spot s effect).replicas = s.replicas ∧
        (System.bleEffect spot s effect).letters =
          s.letters ++ bleLetters spot (s.bles spot).peers effect := by
      cases effect with
      | tellPeers msg =>
        cases msg with
        | heartbeat hb => exact ⟨rfl,rfl,(List.append_nil _).symm⟩
        | stopPeer pid => exact ⟨rfl,rfl,rfl⟩
      | _ => exact ⟨rfl,rfl,(List.append_nil _).symm⟩
    rw [same.1] at bles letters
    rw [same.2.1] at replicas
    rw [same.2.2] at letters
    refine ⟨bles,replicas,?_⟩
    rw [List.foldl_cons,letters,List.flatMap_cons,List.append_assoc]

theorem bleCommit_parts (result : BallotLeaderComp × List LeaderComp.Effect) :
    viewsOf (s.bleCommit spot result) = put (viewsOf s) .ble spot (viewBle result.1) ∧
      (s.bleCommit spot result).letters =
        s.letters ++ result.2.flatMap (bleLetters spot result.1.peers) := by
  obtain ⟨bles,replicas,letters⟩ :=
    bleEffects_run {s with bles := Function.update s.bles spot result.1} spot result.2
  constructor
  · funext route at_
    cases route with
    | ble =>
      show viewBle ((s.bleCommit spot result).bles at_) = _
      rw [System.bleCommit,bles]
      unfold put
      by_cases same : at_ = spot
      · subst same
        simp
      · simp [same,viewsOf]
    | replica =>
      show viewReplica ((s.bleCommit spot result).replicas at_) = _
      rw [System.bleCommit,replicas]
      simp [put,viewsOf]
  · rw [System.bleCommit,letters]
    simp

def replicaLetters (spot : Spot) : ReplicaEffect → List Letter
  | .sendStop ackClient => [.sendStop spot ackClient]
  | .replyStop => []

theorem replicaEffects_run (s : System) (spot : Spot) (effects : List ReplicaEffect) :
    (effects.foldl (System.replicaEffect spot) s).bles = s.bles ∧
      (effects.foldl (System.replicaEffect spot) s).replicas = s.replicas ∧
      (effects.foldl (System.replicaEffect spot) s).letters =
        s.letters ++ effects.flatMap (replicaLetters spot) := by
  induction effects generalizing s with
  | nil => exact ⟨rfl,rfl,(List.append_nil _).symm⟩
  | cons effect effects ih =>
    obtain ⟨bles,replicas,letters⟩ := ih (System.replicaEffect spot s effect)
    cases effect with
    | sendStop ackClient =>
      refine ⟨bles,replicas,?_⟩
      rw [List.foldl_cons,letters,List.flatMap_cons,← List.append_assoc]
      rfl
    | replyStop => exact ⟨bles,replicas,letters⟩

theorem replicaCommit_parts (result : PaxosReplica × List ReplicaEffect) :
    viewsOf (s.replicaCommit spot result) = put (viewsOf s) .replica spot (viewReplica result.1) ∧
      (s.replicaCommit spot result).letters =
        s.letters ++ result.2.flatMap (replicaLetters spot) := by
  obtain ⟨bles,replicas,letters⟩ :=
    replicaEffects_run {s with replicas := Function.update s.replicas spot result.1} spot result.2
  constructor
  · funext route at_
    cases route with
    | ble =>
      show viewBle ((s.replicaCommit spot result).bles at_) = _
      rw [System.replicaCommit,bles]
      simp [put,viewsOf]
    | replica =>
      show viewReplica ((s.replicaCommit spot result).replicas at_) = _
      rw [System.replicaCommit,replicas]
      unfold put
      by_cases same : at_ = spot
      · subst same
        simp
      · simp [same,viewsOf]
  · rw [System.replicaCommit,letters]

end Commits

section Handlers
variable {c after : BallotLeaderComp} {effects : List LeaderComp.Effect} {input : LeaderComp.Input}

theorem receiveLocal_letters (c : BallotLeaderComp) (spot : Spot) (pid : ℕ) :
    (c.receiveLocal pid).2.flatMap (bleLetters spot (c.receiveLocal pid).1.peers) =
      c.peers.map fun peer => .bleStop (peer,spot.2) pid := by
  unfold BallotLeaderComp.receiveLocal
  dsimp only [BallotLeaderComp.stopTimer]
  split
  · exact List.append_nil _
  · exact List.append_nil _

theorem receiveStop_letters (c : PaxosReplica) (spot : Spot) (ackClient : Bool) :
    (c.receiveStop ackClient).2.flatMap (replicaLetters spot) = [.sendStop spot ackClient] := by
  unfold PaxosReplica.receiveStop
  dsimp only
  split
  · rfl
  · rfl

theorem receiveStopPeer_letters (done : c.receiveStopPeer pid = some (after,effects)) (peers : List ℕ) :
    effects.flatMap (bleLetters spot peers) = [] := by
  unfold BallotLeaderComp.receiveStopPeer at done
  split at done
  · cases done
  · dsimp only at done
    split at done
    · obtain ⟨ask,_,same⟩ := Option.map_eq_some_iff.mp done
      cases same
      rfl
    · cases done
      rfl

theorem receiveStopMsg_letters {c after : PaxosReplica} {effects : List ReplicaEffect}
    (done : c.receiveStopMsg pid = some (after,effects)) :
    effects.flatMap (replicaLetters spot) = [] := by
  unfold PaxosReplica.receiveStopMsg at done
  split at done
  · cases done
  · dsimp only at done
    split at done
    · obtain ⟨ask,_,same⟩ := Option.map_eq_some_iff.mp done
      cases same
      rfl
    · cases done
      rfl

theorem onStart_quiet (done : c.onStart = some (after,effects)) :
    viewBle after = viewBle c ∧ ∀ peers, effects.flatMap (bleLetters spot peers) = [] := by
  obtain ⟨delay,_,same⟩ := Option.map_eq_some_iff.mp done
  cases same
  exact ⟨rfl,fun _ => rfl⟩

theorem closeRound_quiet (done : c.closeRound = some (after,effects)) :
    viewBle after = viewBle c ∧ ∀ peers, effects.flatMap (bleLetters spot peers) = [] := by
  unfold BallotLeaderComp.closeRound at done
  split at done
  · obtain ⟨top,_,same⟩ := Option.map_eq_some_iff.mp done
    dsimp only at same
    split at same
    · cases same
      exact ⟨rfl,fun _ => rfl⟩
    · split at same
      · cases same
        exact ⟨rfl,fun _ => rfl⟩
      · cases same
        exact ⟨rfl,fun _ => rfl⟩
  · cases done
    exact ⟨rfl,fun _ => rfl⟩

theorem hbTimeout_quiet (done : c.hbTimeout = some (after,effects)) :
    viewBle after = viewBle c ∧ ∀ peers, effects.flatMap (bleLetters spot peers) = [] := by
  obtain ⟨⟨closed,fired⟩,closing,done⟩ := Option.bind_eq_some_iff.mp done
  obtain ⟨delay,_,same⟩ := Option.map_eq_some_iff.mp done
  cases same
  have quiet : viewBle closed = viewBle c ∧ ∀ peers, fired.flatMap (bleLetters spot peers) = [] :=
    closeRound_quiet closing
  refine ⟨quiet.1,?_⟩
  intro peers
  rw [List.flatMap_append,quiet.2 peers]
  rfl

theorem receiveHeartbeat_quiet {hb : LeaderComp.HeartbeatMsg}
    (done : c.receiveHeartbeat hb = (after,effects)) :
    viewBle after = viewBle c ∧ ∀ peers, effects.flatMap (bleLetters spot peers) = [] := by
  cases hb with
  | request round maxBallot =>
    unfold BallotLeaderComp.receiveHeartbeat at done
    dsimp only at done
    split at done
    · cases done
      exact ⟨rfl,fun _ => rfl⟩
    · cases done
      refine ⟨?_,fun _ => rfl⟩
      split
      · rfl
      · rfl
  | reply senderPid round maxBallot =>
    unfold BallotLeaderComp.receiveHeartbeat at done
    dsimp only at done
    split at done
    · cases done
      exact ⟨rfl,fun _ => rfl⟩
    · split at done
      · cases done
        exact ⟨rfl,fun _ => rfl⟩
      · cases done
        exact ⟨rfl,fun _ => rfl⟩

-- The election itself does not touch the stop.
theorem election_quiet (election : isElection input) (done : c.handle input = some (after,effects)) :
    viewBle after = viewBle c ∧ ∀ peers, effects.flatMap (bleLetters spot peers) = [] := by
  cases input with
  | start => exact onStart_quiet done
  | timeout =>
    change (if c.timer.isSome then c.hbTimeout else none) = some (after,effects) at done
    split at done
    · exact hbTimeout_quiet done
    · cases done
  | stop pid => cases election
  | message msg =>
    cases msg with
    | heartbeat hb => exact receiveHeartbeat_quiet (Option.some.inj done)
    | stopPeer pid => cases election

end Handlers

theorem peers_nodup (cfg : Config) (spot : Spot) : (cfg.peers spot).Nodup := by
  have members : (cfg.members spot.2).Nodup := by
    unfold Config.members
    split
    · exact cfg.distinctInitial
    · split
      · exact cfg.distinct
      · exact List.nodup_nil
  unfold Config.peers
  split
  · exact members.filter _
  · exact List.nodup_nil

theorem peers_symm {p q k : ℕ} (peer : q ∈ cfg.peers (p,k)) : p ∈ cfg.peers (q,k) := by
  unfold Config.peers at peer ⊢
  dsimp only at peer ⊢
  split at peer
  · rename_i member
    obtain ⟨other,different⟩ := List.mem_filter.mp peer
    rw [if_pos other]
    apply List.mem_filter.mpr
    refine ⟨member,?_⟩
    have : q ≠ p := by simpa using different
    simpa using this.symm
  · cases peer

section Performing

theorem prepare_view (p : ℕ) (bles : Spot → BallotLeaderComp) (effects : List Effect) (spot : Spot) :
    viewBle (effects.foldl (prepare p) bles spot) = viewBle (bles spot) := by
  induction effects generalizing bles with
  | nil => rfl
  | cons effect effects ih =>
    rw [List.foldl_cons,ih]
    unfold prepare
    split
    · rename_i configId l
      by_cases same : spot = (p,configId)
      · subst same
        rw [Function.update_self]
        rfl
      · rw [Function.update_of_ne same]
    · rfl

-- A PaxosComp changes no component's part in the stop; it only posts letters.
theorem perform_parts {action : ReconfigSystem.Action} (done : s.perform cfg action = some next) :
    viewsOf next = viewsOf s ∧ (next.letters = s.letters ∨ ∃ p c effects,
      turn cfg s.base action = some (p,c,effects) ∧
        next.letters = s.letters ++ effects.flatMap (lettersOf p c)) := by
  unfold System.perform at done
  split at done
  · obtain ⟨base,_,rfl⟩ := Option.map_eq_some_iff.mp done
    refine ⟨?_,.inl rfl⟩
    funext route spot
    cases route with
    | ble => rfl
    | replica => rfl
  · rename_i p c effects turned
    split at done
    · cases done
    · obtain ⟨base,_,rfl⟩ := Option.map_eq_some_iff.mp done
      refine ⟨?_,.inr ⟨p,c,effects,turned,rfl⟩⟩
      funext route spot
      cases route with
      | ble => exact prepare_view p s.bles effects spot
      | replica => rfl

theorem calm_letters {effects : List Effect} (calm : Calm effects) (p : ℕ) (c : PaxosComp) :
    effects.flatMap (lettersOf p c) = [] := by
  rw [List.flatMap_eq_nil_iff]
  intro effect member
  have quiet := calm effect member
  cases effect with
  | stopReplicas count => cases quiet
  | stopPeers configId peers => cases quiet
  | _ => rfl

theorem receiveNetwork_calm {c after : PaxosComp} {msg : ReconfigurationMsg} {sender rnd : ℕ}
    {effects : List Effect} (timely : ∀ r, msg = .init r → c.stopped = false)
    (done : c.receiveNetwork msg sender rnd = some (after,effects)) : Calm effects := by
  cases msg with
  | init r => exact receiveInit_calm (timely r rfl) done
  | sequenceRequest sr =>
    change (if c.stopped then some (c,[]) else (c.handleSequenceRequest sr sender).map (c,·)) = _ at done
    split at done
    · cases done
      exact calm_nil
    · obtain ⟨replied,answered,same⟩ := Option.map_eq_some_iff.mp done
      cases same
      exact handleSequenceRequest_calm answered
  | sequenceTransfer st =>
    change (if c.stopped then some (c,[]) else c.handleSequenceTransfer st rnd) = _ at done
    split at done
    · cases done
      exact calm_nil
    · exact handleSequenceTransfer_calm done

-- Every step of a PaxosComp is calm, but the stop and the answer to a late
-- ReconfigInit.
theorem turn_calm {action : ReconfigSystem.Action} {p : ℕ} {c : PaxosComp} {effects : List Effect}
    (other : isClientStop action = false) (timely : late s (.comp action) = false)
    (done : turn cfg s.base action = some (p,c,effects)) : Calm effects := by
  cases action with
  | run p =>
    obtain ⟨result,ran,same⟩ := Option.map_eq_some_iff.mp done
    cases same
    unfold PaxosComp.receiveRun at ran
    split at ran
    · exact startReplica_calm ran
    · cases ran
      exact calm_nil
  | leader p configId pid =>
    have same : ((s.base.comps p).receiveLeader configId pid).2 = effects :=
      congrArg (fun result => result.2.2) (Option.some.inj done)
    rw [← same]
    unfold PaxosComp.receiveLeader
    split
    · dsimp only
      split
      · exact calm_one rfl
      · exact calm_nil
    · exact calm_nil
  | reconfig p =>
    obtain ⟨result,decided,same⟩ := Option.map_eq_some_iff.mp done
    cases same
    exact receiveReconfig_calm decided
  | deliver x rnd =>
    obtain ⟨result,handled,same⟩ := Option.map_eq_some_iff.mp done
    cases same
    apply receiveNetwork_calm _ handled
    intro r init
    obtain ⟨src,dst,msg⟩ := x
    change msg = _ at init
    subst init
    exact timely
  | answer x succeeded => cases done
  | retry p configId =>
    obtain ⟨⟨seqLen,totalSegments⟩,_,done⟩ := Option.bind_eq_some_iff.mp done
    obtain ⟨result,retried,same⟩ := Option.map_eq_some_iff.mp done
    cases same
    exact retry_calm retried
  | stop p => cases other

theorem stopComponents_letters {c after : PaxosComp} {effects : List Effect}
    (done : c.stopComponents = some (after,effects)) (p : ℕ) :
    ∃ count, effects.flatMap (lettersOf p after) = asks p (configIds after count) := by
  unfold PaxosComp.stopComponents at done
  dsimp only at done
  split at done
  · cases done
  · split at done
    · obtain ⟨⟨last,started⟩,starting,same⟩ := Option.map_eq_some_iff.mp done
      cases same
      have quiet := calm_letters (startReplica_calm starting) p last
      refine ⟨last.replicas,?_⟩
      rw [List.flatMap_cons,quiet,List.append_nil]
      rfl
    · cases done
      exact ⟨c.replicas,List.append_nil _⟩

end Performing

section Steps
variable (good : Good cfg s)
include good

theorem Good.peers_ble (spot : Spot) : (s.bles spot).peers = cfg.peers spot := good.ledger.peers .ble spot

theorem Good.peers_replica (spot : Spot) : (s.replicas spot).peers = cfg.peers spot :=
  good.ledger.peers .replica spot

theorem Good.bleAsk (member : Letter.bleAsk spot ∈ s.letters) :
    Good cfg (System.bleCommit {s with letters := s.letters.erase (.bleAsk spot)} spot
      ((s.bles spot).receiveLocal spot.1)) := by
  obtain ⟨views,letters⟩ := bleCommit_parts (s := {s with letters := s.letters.erase (.bleAsk spot)})
    ((s.bles spot).receiveLocal spot.1)
  rw [viewsOf_erase,viewBle_stop] at views
  rw [receiveLocal_letters,good.peers_ble] at letters
  refine .of ?_ ?_ views letters
  · apply (good.ledger.stop .ble spot).deliver member
    · intro route p k q
      exact bleStop_load (peers_nodup cfg spot)
    · intro letter inside
      obtain ⟨peer,listed,rfl⟩ := List.mem_map.mp inside
      refine ⟨?_,listed⟩
      show (put (viewsOf s) .ble spot _ .ble spot).stopped
      rw [put,if_pos ⟨rfl,rfl⟩]
      rfl
  · apply good.complete.stop
    · intro route p k q carries
      exact carries
    · intro q peer
      exact ⟨_,List.mem_map_of_mem peer,rfl,rfl,rfl⟩

theorem Good.replicaAsk {ackClient : Bool} (member : Letter.replicaAsk spot ackClient ∈ s.letters) :
    Good cfg (System.replicaCommit {s with letters := s.letters.erase (.replicaAsk spot ackClient)} spot
      ((s.replicas spot).receiveStop ackClient)) := by
  obtain ⟨views,letters⟩ :=
    replicaCommit_parts (s := {s with letters := s.letters.erase (.replicaAsk spot ackClient)})
      ((s.replicas spot).receiveStop ackClient)
  rw [viewsOf_erase,viewReplica_stop] at views
  rw [receiveStop_letters] at letters
  refine .of ?_ ?_ views letters
  · apply (good.ledger.stop .replica spot).deliver member
    · intro route p k q
      exact Nat.le_of_eq (Nat.add_zero _)
    · intro letter inside
      rw [List.mem_singleton] at inside
      subst inside
      show (put (viewsOf s) .replica spot _ .replica spot).stopped
      rw [put,if_pos ⟨rfl,rfl⟩]
      rfl
  · apply good.complete.stop
    · intro route p k q carries
      exact carries
    · intro q peer
      exact ⟨_,List.mem_singleton_self _,rfl,rfl⟩

theorem Good.bleStop {result : BallotLeaderComp × List LeaderComp.Effect}
    (member : Letter.bleStop spot pid ∈ s.letters)
    (done : (s.bles spot).receiveStopPeer pid = some result) :
    Good cfg (System.bleCommit {s with letters := s.letters.erase (.bleStop spot pid)} spot result) := by
  obtain ⟨views,letters⟩ :=
    bleCommit_parts (s := {s with letters := s.letters.erase (.bleStop spot pid)}) result
  rw [viewsOf_erase] at views
  rw [receiveStopPeer_letters done,List.append_nil] at letters
  have sent : Sent cfg (viewsOf s) .ble pid spot := good.ledger.proper _ member
  have heard : (viewsOf s .ble spot).hear pid = some (viewBle result.1) := by
    have same := viewBle_hear (s.bles spot) pid
    rw [done] at same
    exact same.symm
  refine .of ?_ ?_ views letters
  · exact good.ledger.hear member (fun _ _ _ _ => rfl) sent (peers_symm sent.peer) heard
  · exact good.complete.hear (fun _ _ _ _ carries => carries) heard

theorem Good.stopMsg {result : PaxosReplica × List ReplicaEffect}
    (member : Letter.stopMsg spot pid ∈ s.letters)
    (done : (s.replicas spot).receiveStopMsg pid = some result) :
    Good cfg (System.replicaCommit {s with letters := s.letters.erase (.stopMsg spot pid)} spot result) := by
  obtain ⟨views,letters⟩ :=
    replicaCommit_parts (s := {s with letters := s.letters.erase (.stopMsg spot pid)}) result
  rw [viewsOf_erase] at views
  rw [receiveStopMsg_letters done,List.append_nil] at letters
  have sent : Sent cfg (viewsOf s) .replica pid spot := good.ledger.proper _ member
  have heard : (viewsOf s .replica spot).hear pid = some (viewReplica result.1) := by
    have same := viewReplica_hear (s.replicas spot) pid
    rw [done] at same
    exact same.symm
  refine .of ?_ ?_ views letters
  · exact good.ledger.hear member (fun _ _ _ _ => rfl) sent (peers_symm sent.peer) heard
  · exact good.complete.hear (fun _ _ _ _ carries => carries) heard

-- A letter is replaced by others that carry the same stop.
theorem Good.post {fresh : List Letter} (member : letter ∈ s.letters)
    (lighter : ∀ route p k q, load route p k q fresh ≤ weight route p k q letter)
    (proper : ∀ letter ∈ fresh, Proper cfg (viewsOf s) letter)
    (passed : ∀ route p k q, q ∈ cfg.peers (p,k) → Carries route p k q letter →
      ∃ other ∈ fresh, Carries route p k q other) (sameViews : viewsOf next = viewsOf s)
    (sameLetters : next.letters = s.letters.erase letter ++ fresh) : Good cfg next :=
  .of (good.ledger.deliver member lighter proper) (good.complete.deliver passed) sameViews sameLetters

theorem Good.clientStop {p : ℕ} (member : Letter.clientStop p ∈ s.letters)
    (done : System.perform {s with letters := s.letters.erase (.clientStop p)} cfg (.stop p) = some next) :
    Good cfg next := by
  obtain ⟨views,letters⟩ := perform_parts done
  rw [viewsOf_erase] at views
  have asked : ∃ ids : List ℕ, ids.Nodup ∧ next.letters = s.letters.erase (.clientStop p) ++ asks p ids := by
    obtain letters | ⟨q,c,effects,turned,letters⟩ := letters
    · exact ⟨[],List.nodup_nil,letters.trans (List.append_nil _).symm⟩
    · obtain ⟨⟨after,told⟩,stopping,equal⟩ := Option.map_eq_some_iff.mp turned
      cases equal
      obtain ⟨count,asked⟩ := stopComponents_letters stopping p
      exact ⟨configIds c count,List.nodup_range',asked ▸ letters⟩
  obtain ⟨ids,distinct,letters⟩ := asked
  apply good.post member _ _ _ views letters
  · intro route p k q
    exact asks_load distinct _
  · intro letter inside
    obtain asking | asking := List.mem_append.mp inside
    · obtain ⟨configId,_,rfl⟩ := List.mem_map.mp asking
      trivial
    · obtain ⟨configId,_,rfl⟩ := List.mem_map.mp asking
      trivial
  · intro route p k q _ carries
    exact carries.elim

theorem Good.comp {action : ReconfigSystem.Action} (other : isClientStop action = false)
    (timely : late s (.comp action) = false) (done : s.perform cfg action = some next) : Good cfg next := by
  obtain ⟨views,letters⟩ := perform_parts done
  have same : next.letters = s.letters := by
    obtain letters | ⟨p,c,effects,turned,letters⟩ := letters
    · exact letters
    · rw [letters,calm_letters (turn_calm other timely turned),List.append_nil]
  exact .of good.ledger good.complete views same

theorem Good.election {input : LeaderComp.Input} {result : BallotLeaderComp × List LeaderComp.Effect}
    (election : isElection input) (done : (s.bles spot).handle input = some result) :
    Good cfg (s.bleCommit spot result) := by
  obtain ⟨after,effects⟩ := result
  have parts : viewsOf (s.bleCommit spot (after,effects)) = put (viewsOf s) .ble spot (viewBle after) ∧
      (s.bleCommit spot (after,effects)).letters =
        s.letters ++ effects.flatMap (bleLetters spot after.peers) := bleCommit_parts (after,effects)
  have quiet : viewBle after = viewBle (s.bles spot) ∧
      ∀ peers, effects.flatMap (bleLetters spot peers) = [] := election_quiet election done
  obtain ⟨views,letters⟩ := parts
  obtain ⟨view,quiet⟩ := quiet
  have same : put (viewsOf s) .ble spot (viewBle after) = viewsOf s := by
    funext route at_
    unfold put
    split
    · rename_i here
      rw [here.1,here.2,view]
      rfl
    · rfl
  rw [quiet,List.append_nil] at letters
  exact .of good.ledger good.complete (views.trans same) letters

theorem Good.receive (member : letter ∈ s.letters)
    (done : System.receive {s with letters := s.letters.erase letter} cfg letter = some next) :
    Good cfg next := by
  cases letter with
  | clientStop p => exact good.clientStop member done
  | bleAsk spot =>
    obtain ⟨_,done⟩ := Option.ite_none_right_eq_some.mp done
    cases done
    exact good.bleAsk member
  | replicaAsk spot ackClient =>
    obtain ⟨_,done⟩ := Option.ite_none_right_eq_some.mp done
    cases done
    exact good.replicaAsk member
  | bleStop spot pid =>
    obtain ⟨_,done⟩ := Option.ite_none_right_eq_some.mp done
    obtain ⟨result,handled,rfl⟩ := Option.map_eq_some_iff.mp done
    exact good.bleStop member handled
  | sendStop spot ackClient =>
    obtain ⟨_,done⟩ := Option.ite_none_right_eq_some.mp done
    cases done
    have stopped : (viewsOf s .replica spot).stopped := good.ledger.proper _ member
    have peers := good.peers_replica spot
    apply good.post member _ _ _ (viewsOf_post _ _) rfl
    · intro route p k q
      exact commStop_load (by rw [peers]; exact peers_nodup cfg spot) ackClient
    · intro letter inside
      obtain sent | acked := List.mem_append.mp inside
      · obtain ⟨peer,listed,rfl⟩ := List.mem_map.mp sent
        exact ⟨stopped,peers ▸ listed⟩
      · cases ackClient with
        | true =>
          rw [if_pos rfl,List.mem_singleton] at acked
          subst acked
          trivial
        | false => cases acked
    · intro route p k q peer carries
      obtain ⟨rfl,rfl⟩ := carries
      refine ⟨.commStop (q,k) p,List.mem_append_left _ ?_,rfl,rfl,rfl⟩
      exact List.mem_map_of_mem (peers ▸ peer)
  | commStop spot pid =>
    obtain ⟨_,done⟩ := Option.ite_none_right_eq_some.mp done
    cases done
    apply good.post member _ _ _ (viewsOf_post _ _) rfl
    · intro route p k q
      exact Nat.le_of_eq (Nat.add_zero _)
    · intro letter inside
      rw [List.mem_singleton] at inside
      subst inside
      have sent : Sent cfg (viewsOf s) .replica pid spot := good.ledger.proper _ member
      exact sent
    · intro route p k q _ carries
      exact ⟨.stopMsg spot pid,List.mem_singleton_self _,carries⟩
  | stopMsg spot pid =>
    obtain ⟨_,done⟩ := Option.ite_none_right_eq_some.mp done
    obtain ⟨result,handled,rfl⟩ := Option.map_eq_some_iff.mp done
    exact good.stopMsg member handled
  | clientPeer pid =>
    cases done
    apply good.post member _ _ _ (viewsOf_erase _) (List.append_nil _).symm
    · intro route p k q
      exact Nat.zero_le _
    · intro letter inside
      cases inside
    · intro route p k q _ carries
      exact carries.elim

end Steps

theorem good_step {action : Action} (good : Good cfg s) (timely : late s action = false)
    (done : step cfg s action = some next) : Good cfg next := by
  cases action with
  | comp action =>
    obtain ⟨other,done⟩ := Option.ite_none_left_eq_some.mp done
    exact good.comp (by simpa using other) timely done
  | election spot input =>
    obtain ⟨running,done⟩ := Option.ite_none_right_eq_some.mp done
    obtain ⟨result,handled,rfl⟩ := Option.map_eq_some_iff.mp done
    exact good.election running.2 handled
  | deliver letter =>
    obtain ⟨member,done⟩ := Option.ite_none_right_eq_some.mp done
    exact good.receive member done

theorem initial_good (hbDelay delta factor : ℕ) : Good cfg (System.initial cfg hbDelay delta factor) := by
  refine ⟨⟨?_,?_,?_,?_,?_⟩,?_⟩
  · intro route spot
    cases route with
    | ble => rfl
    | replica => rfl
  · intro route spot
    have fresh : Stopper.Sound ⟨cfg.peers spot,false,∅,false⟩ := by
      refine ⟨peers_nodup cfg spot,?_,?_⟩
      · intro pid member
        simp at member
      · intro stopped
        cases stopped
    cases route with
    | ble => exact fresh
    | replica => exact fresh
  · intro route p k q
    have nobody : heard (viewsOf (System.initial cfg hbDelay delta factor)) route p k q = 0 := by
      unfold heard
      rw [if_neg]
      cases route with
      | ble => exact Finset.notMem_empty p
      | replica => exact Finset.notMem_empty p
    rw [nobody,Nat.add_zero]
    show load route p k q ((cfg.initial ∪ cfg.reconfiguration).map .clientStop) ≤ 1
    rw [load,List.map_map]
    apply sum_at_most (List.Nodup.union cfg.initial cfg.distinct) _ p
    intro pid
    exact Nat.le_refl _
  · intro letter member
    obtain ⟨pid,_,rfl⟩ := List.mem_map.mp member
    trivial
  · intro route spot pid member
    cases route with
    | ble => exact (Finset.notMem_empty pid member).elim
    | replica => exact (Finset.notMem_empty pid member).elim
  · intro route p k q stopped
    cases route with
    | ble => cases stopped
    | replica => cases stopped

section Runs
variable {hbDelay delta factor : ℕ} {past : List (System × Action)} {actions : List Action}

-- A run, with the steps it took and the state each of them met, the latest first.
inductive Reached (cfg : Config) (hbDelay delta factor : ℕ) : List (System × Action) → System → Prop where
  | start : Reached cfg hbDelay delta factor [] (.initial cfg hbDelay delta factor)
  | step {past : List (System × Action)} {s next : System} {action : Action}
      (run : Reached cfg hbDelay delta factor past s) (done : step cfg s action = some next) :
      Reached cfg hbDelay delta factor ((s,action) :: past) next

theorem reached_good (run : Reached cfg hbDelay delta factor past s)
    (timely : ∀ step ∈ past, late step.1 step.2 = false) : Good cfg s := by
  induction run with
  | start => exact initial_good hbDelay delta factor
  | step _ done ih =>
    rw [List.forall_mem_cons] at timely
    exact good_step (ih timely.2) timely.1 done

-- The message a component takes note of a stopped peer by.
def arrival : Route → Spot → ℕ → Letter
  | .ble,spot,pid => .bleStop spot pid
  | .replica,spot,pid => .stopMsg spot pid

theorem arrival_carries (route : Route) (spot : Spot) (pid : ℕ) :
    Carries route pid spot.2 spot.1 (arrival route spot pid) := by
  cases route with
  | ble => exact ⟨rfl,rfl,rfl⟩
  | replica => exact ⟨rfl,rfl,rfl⟩

theorem carries_weight {route : Route} {p k q : ℕ} (carries : Carries route p k q letter) :
    weight route p k q letter = 1 := by
  cases letter with
  | bleStop spot pid => exact if_pos carries
  | sendStop spot ackClient => exact if_pos carries
  | commStop spot pid => exact if_pos carries
  | stopMsg spot pid => exact if_pos carries
  | _ => exact carries.elim

section States
variable (good : Good cfg s) {route : Route}
include good

theorem Good.arrives (member : arrival route spot pid ∈ s.letters) :
    pid ∈ (viewsOf s route spot).peers ∧ pid ∉ (viewsOf s route spot).stoppedPeers ∧
      s.letters.count (arrival route spot pid) = 1 := by
  have carries := arrival_carries route spot pid
  have one := carries_weight carries
  have sent : Sent cfg (viewsOf s) route pid spot := by
    cases route with
    | ble => exact good.ledger.proper _ member
    | replica => exact good.ledger.proper _ member
  have once := good.ledger.once route pid spot.2 spot.1
  have rest : weight route pid spot.2 spot.1 (arrival route spot pid) +
      load route pid spot.2 spot.1 (s.letters.erase (arrival route spot pid)) =
        load route pid spot.2 spot.1 s.letters := load_erase member
  refine ⟨?_,?_,?_⟩
  · rw [good.ledger.peers]
    exact peers_symm sent.peer
  · intro heardOf
    have : heard (viewsOf s) route pid spot.2 spot.1 = 1 := if_pos heardOf
    omega
  · have last : arrival route spot pid ∉ s.letters.erase (arrival route spot pid) := by
      intro again
      have : weight route pid spot.2 spot.1 (arrival route spot pid) ≤
          load route pid spot.2 spot.1 (s.letters.erase (arrival route spot pid)) := weight_le again
      omega
    have gone := List.count_eq_zero.mpr last
    rw [List.count_erase_self] at gone
    have := List.one_le_count_iff.mpr member
    omega

theorem Good.accepted (member : arrival route spot pid ∈ s.letters) (started : s.started spot) :
    step cfg s (.deliver (arrival route spot pid)) ≠ none := by
  obtain ⟨peer,fresh,_⟩ := good.arrives member
  have heard := (good.ledger.sound route spot).accepts fresh peer
  have delivered : step cfg s (.deliver (arrival route spot pid)) =
      System.receive {s with letters := s.letters.erase (arrival route spot pid)} cfg
        (arrival route spot pid) := if_pos member
  rw [delivered]
  cases route with
  | ble =>
    have same := viewBle_hear (s.bles spot) pid
    have handled : System.receive {s with letters := s.letters.erase (.bleStop spot pid)} cfg
        (.bleStop spot pid) = ((s.bles spot).receiveStopPeer pid).map (System.bleCommit
          {s with letters := s.letters.erase (.bleStop spot pid)} spot) := if_pos started
    intro stuck
    rw [arrival,handled,Option.map_eq_none_iff] at stuck
    rw [stuck] at same
    exact heard same.symm
  | replica =>
    have same := viewReplica_hear (s.replicas spot) pid
    have handled : System.receive {s with letters := s.letters.erase (.stopMsg spot pid)} cfg
        (.stopMsg spot pid) = ((s.replicas spot).receiveStopMsg pid).map (System.replicaCommit
          {s with letters := s.letters.erase (.stopMsg spot pid)} spot) := if_pos started
    intro stuck
    rw [arrival,handled,Option.map_eq_none_iff] at stuck
    rw [stuck] at same
    exact heard same.symm

theorem Good.counted (route : Route) (spot : Spot) :
    (viewsOf s route spot).stoppedPeers.card = (viewsOf s route spot).peers.length ↔
      ∀ pid ∈ (viewsOf s route spot).peers, (viewsOf s route (pid,spot.2)).stopped ∧
        ∀ letter ∈ s.letters, ¬Carries route pid spot.2 spot.1 letter := by
  rw [(good.ledger.sound route spot).exact]
  constructor
  · intro all pid peer
    have heardOf := all pid peer
    refine ⟨(good.ledger.told route spot pid heardOf).stopped,?_⟩
    intro letter member carries
    have once := good.ledger.once route pid spot.2 spot.1
    have notice : heard (viewsOf s) route pid spot.2 spot.1 = 1 := if_pos heardOf
    have moving : weight route pid spot.2 spot.1 letter ≤ load route pid spot.2 spot.1 s.letters :=
      weight_le member
    rw [carries_weight carries] at moving
    omega
  · intro all pid peer
    obtain ⟨stopped,arrived⟩ := all pid peer
    rw [good.ledger.peers] at peer
    obtain heardOf | ⟨letter,member,carries⟩ :=
      good.complete route pid spot.2 spot.1 stopped (peers_symm peer)
    · exact heardOf
    · exact (arrived letter member carries).elim

end States

-- As long as no stopped node is sent a ReconfigInit, a stop that arrives at an election
-- component or a replica is the only one of a peer not heard of yet and is accepted,
-- and all peers are counted just when all have stopped and none of their stops is on
-- its way.
theorem stops_exact (run : Reached cfg hbDelay delta factor past s)
    (timely : ∀ step ∈ past, late step.1 step.2 = false) (route : Route) (spot : Spot) :
    (∀ pid, arrival route spot pid ∈ s.letters →
      pid ∈ (viewsOf s route spot).peers ∧ pid ∉ (viewsOf s route spot).stoppedPeers ∧
        s.letters.count (arrival route spot pid) = 1 ∧
        (s.started spot → step cfg s (.deliver (arrival route spot pid)) ≠ none)) ∧
    (∀ pid ∈ (viewsOf s route spot).stoppedPeers, pid ∈ (viewsOf s route spot).peers) ∧
    ((viewsOf s route spot).stoppedPeers.card = (viewsOf s route spot).peers.length ↔
      ∀ pid ∈ (viewsOf s route spot).peers, (viewsOf s route (pid,spot.2)).stopped ∧
        ∀ letter ∈ s.letters, ¬Carries route pid spot.2 spot.1 letter) := by
  have good := reached_good run timely
  refine ⟨?_,(good.ledger.sound route spot).known,good.counted route spot⟩
  intro pid member
  obtain ⟨peer,fresh,once⟩ := good.arrives member
  exact ⟨peer,fresh,once,good.accepted member⟩

def execute (cfg : Config) (s : System) : List Action → Option System
  | [] => some s
  | action :: actions => (step cfg s action).bind fun s => execute cfg s actions

def record (cfg : Config) (past : List (System × Action)) (s : System) :
    List Action → List (System × Action)
  | [] => past
  | action :: actions =>
    match step cfg s action with
    | some next => record cfg ((s,action) :: past) next actions
    | none => past

theorem Reached.execute (run : Reached cfg hbDelay delta factor past s)
    (done : execute cfg s actions = some next) :
    Reached cfg hbDelay delta factor (record cfg past s actions) next := by
  induction actions generalizing past s with
  | nil =>
    cases done
    exact run
  | cons action actions ih =>
    obtain ⟨middle,first,rest⟩ := Option.bind_eq_some_iff.mp done
    rw [record,first]
    exact ih (run.step first) rest

-- The first node is replaced by the fourth.
def replacement : Config where
  initial := [1,2,3]
  reconfiguration := [2,3,4]
  distinct := by decide
  policy := .pull
  entries := []
  skipPrepareUseLeader := none
  distinctInitial := by decide

def replaced : System := .initial replacement 10 10 1

-- The second and the third node go on in the new configuration. Then all nodes of that
-- are stopped, and the fourth has been told so by its peers.
def stopRun : List Action :=
  [.comp (.run 2),.comp (.run 3),.comp (.reconfig 2),.comp (.reconfig 3)] ++
    List.map .deliver [.clientStop 4,.clientStop 2,.clientStop 3,
      .bleAsk (4,2),.bleAsk (2,2),.bleAsk (3,2),.bleStop (4,2) 2,.bleStop (4,2) 3,.bleStop (2,2) 4,
      .replicaAsk (4,2) true,.replicaAsk (2,2) true,.replicaAsk (3,2) true,
      .sendStop (2,2) true,.sendStop (3,2) true,.commStop (4,2) 2,.commStop (4,2) 3,
      .stopMsg (4,2) 2,.stopMsg (4,2) 3]

-- The ReconfigInit of the second node arrives at the fourth only now.
def lateRun : List Action :=
  stopRun ++ [.comp (.deliver ⟨2,4,.init ⟨2,⟨[2,3],[4]⟩,⟨1,1⟩,2,none,none⟩⟩ 0)]

def endsIn (actions : List Action) (check : System → Bool) : Bool :=
  match execute replacement replaced actions with
  | some s => check s
  | none => false

theorem endsIn_reached {check : System → Bool} (checked : endsIn actions check) :
    ∃ s, Reached replacement 10 10 1 (record replacement [] replaced actions) s ∧ check s := by
  unfold endsIn at checked
  cases done : StopRuns.execute replacement replaced actions with
  | none => simp [done] at checked
  | some s =>
    rw [done] at checked
    exact ⟨s,Reached.execute .start done,checked⟩

theorem stopRun_exact : ∃ past s, Reached replacement 10 10 1 past s ∧
    (s.replicas (4,2)).stoppedPeers = {2,3} ∧
    ((viewsOf s .ble (2,2)).stoppedPeers.card = (viewsOf s .ble (2,2)).peers.length ↔
      ∀ pid ∈ (viewsOf s .ble (2,2)).peers, (viewsOf s .ble (pid,2)).stopped ∧
        ∀ letter ∈ s.letters, ¬Carries .ble pid 2 2 letter) := by
  have checked : endsIn stopRun fun s => (s.replicas (4,2)).stoppedPeers = {2,3} := by decide +kernel
  have timely : (record replacement [] replaced stopRun).all
      (fun step => late step.1 step.2 == false) := by decide +kernel
  obtain ⟨s,run,final⟩ := endsIn_reached checked
  refine ⟨_,s,run,of_decide_eq_true final,(stops_exact run ?_ .ble (2,2)).2.2⟩
  intro step member
  simpa using List.all_eq_true.mp timely step member

-- The fourth node answers the late ReconfigInit with stops to all nodes of the new
-- configuration, itself included. The second has heard of it and panics.
theorem stops_duplicated : ∃ past s, Reached replacement 10 10 1 past s ∧ s.started (2,2) ∧
    .bleStop (2,2) 4 ∈ s.letters ∧ 4 ∈ (s.bles (2,2)).stoppedPeers ∧
    (s.bles (2,2)).receiveStopPeer 4 = none ∧
    .bleStop (4,2) 4 ∈ s.letters ∧ 4 ∉ (s.bles (4,2)).peers := by
  have checked : endsIn lateRun fun s => s.started (2,2) ∧
      .bleStop (2,2) 4 ∈ s.letters ∧ 4 ∈ (s.bles (2,2)).stoppedPeers ∧
      .bleStop (4,2) 4 ∈ s.letters ∧ 4 ∉ (s.bles (4,2)).peers := by decide +kernel
  obtain ⟨s,run,final⟩ := endsIn_reached checked
  obtain ⟨started,duplicate,heardOf,own,foreign⟩ := of_decide_eq_true final
  exact ⟨_,s,run,started,duplicate,heardOf,if_pos heardOf,own,foreign⟩

end Runs

end KompicsBenches.StopRuns
