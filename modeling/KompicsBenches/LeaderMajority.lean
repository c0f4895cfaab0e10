import KompicsBenches.LeaderElection
import KompicsBenches.Custody

namespace KompicsBenches.LeaderMajority
open LeaderComp LeaderElection Custody

-- One process told another one the ballot it holds, as the answer of a round.
structure Report (n : ℕ) where
  requester : Fin n
  round : ℕ
  reporter : Fin n
  ballot : Ballot
  deriving DecidableEq

def answered (s : System n) : Action n → List (Report n)
  | .deliver ⟨requester,reporter,.heartbeat (.request round _)⟩ =>
    if (s.comps reporter).stopped then []
    else [⟨requester,round,reporter,(s.comps reporter).currentBallot⟩]
  | _ => []

-- A run together with everything that was reported in it.
inductive Ran (cfg : Config n) : System n → List (Report n) → Prop where
  | initial : Ran cfg (.initial cfg) []
  | step : Ran cfg s reports → step cfg s action = some next →
      Ran cfg next (reports ++ answered s action)

theorem ran_reached (path : Ran cfg s reports) : Reached cfg s := by
  induction path with
  | initial => exact .initial
  | step _ moved ih => exact ih.step moved

theorem reached_ran (path : Reached cfg s) : ∃ reports, Ran cfg s reports := by
  induction path with
  | initial => exact ⟨[],.initial⟩
  | step _ moved ih =>
    obtain ⟨reports,ran⟩ := ih
    exact ⟨_,ran.step moved⟩

-- A component asks all peers at once, and only for the round it is in.
def Asked (c : BallotLeaderComp) (effects : List Effect) : Prop :=
  ∃ fired, effects = fired ++ [c.hbRequest] ∧ ∀ effect ∈ fired, (triggered effect).isSome

structure Steady (c next : BallotLeaderComp) : Prop where
  peers : next.peers = c.peers
  majority : next.majority = c.majority

theorem closeRound_round {c : BallotLeaderComp} (done : c.closeRound = some (next,effects)) :
    Steady c next ∧ next.hbRound = c.hbRound ∧ next.ballots = [] ∧
      (∀ effect ∈ effects, (triggered effect).isSome) ∧
      ∀ leader ∈ effects.filterMap triggered, c.majority ≤ c.ballots.length + 1 ∧
        topEntry (c.ballots ++ [(c.currentBallot,c.pid)]) = some (leader.round,leader.pid) := by
  unfold BallotLeaderComp.closeRound at done
  split_ifs at done with enough
  · unfold BallotLeaderComp.checkLeader at done
    obtain ⟨top,found,chosen⟩ := Option.map_eq_some_iff.mp done
    dsimp only at chosen
    split_ifs at chosen with behind changed
    · cases chosen
      exact ⟨⟨rfl,rfl⟩,rfl,rfl,by simp,by simp⟩
    · cases chosen
      refine ⟨⟨rfl,rfl⟩,rfl,rfl,by simp [triggered],?_⟩
      intro leader fired
      simp only [triggered,List.filterMap_cons,List.filterMap_nil,List.mem_singleton] at fired
      subst fired
      exact ⟨enough,found⟩
    · cases chosen
      exact ⟨⟨rfl,rfl⟩,rfl,rfl,by simp,by simp⟩
  · cases done
    exact ⟨⟨rfl,rfl⟩,rfl,rfl,by simp,by simp⟩

theorem hbTimeout_round {c : BallotLeaderComp} (done : c.hbTimeout = some (next,effects)) :
    Steady c next ∧ next.hbRound = c.hbRound + 1 ∧ next.ballots = [] ∧ Asked next effects ∧
      ∀ leader ∈ effects.filterMap triggered, c.majority ≤ c.ballots.length + 1 ∧
        topEntry (c.ballots ++ [(c.currentBallot,c.pid)]) = some (leader.round,leader.pid) := by
  unfold BallotLeaderComp.hbTimeout at done
  obtain ⟨⟨closed,fired⟩,ended,rest⟩ := Option.bind_eq_some_iff.mp done
  obtain ⟨delay,_,result⟩ := Option.map_eq_some_iff.mp rest
  obtain ⟨steady,round,emptied,only,backed⟩ := closeRound_round ended
  cases result
  refine ⟨⟨steady.peers,steady.majority⟩,?_,emptied,⟨fired,rfl,only⟩,?_⟩
  · simp only [BallotLeaderComp.startTimer]
    rw [round]
  · intro leader listed
    apply backed
    simpa [triggered,BallotLeaderComp.hbRequest] using listed

theorem onStart_round {c : BallotLeaderComp} (done : c.onStart = some (next,effects)) :
    Steady c next ∧ next.hbRound = c.hbRound ∧ next.ballots = c.ballots ∧ Asked next effects := by
  unfold BallotLeaderComp.onStart at done
  obtain ⟨delay,_,result⟩ := Option.map_eq_some_iff.mp done
  cases result
  exact ⟨⟨rfl,rfl⟩,rfl,rfl,[],rfl,by simp⟩

-- A stop moves nothing that belongs to a round.
def Silent : Effect → Prop
  | .tellPeers (.stopPeer _) => True
  | .replyStop _ => True
  | _ => False

theorem receiveLocal_round {c : BallotLeaderComp} (done : c.receiveLocal pid = (next,effects)) :
    Steady c next ∧ next.hbRound = c.hbRound ∧ next.ballots = c.ballots ∧ next.timer = none ∧
      ∀ effect ∈ effects, Silent effect := by
  unfold BallotLeaderComp.receiveLocal at done
  dsimp only at done
  split_ifs at done with everyone
  all_goals
    cases done
    exact ⟨⟨rfl,rfl⟩,rfl,rfl,rfl,by simp [Silent]⟩

theorem receiveStopPeer_round {c : BallotLeaderComp}
    (done : c.receiveStopPeer pid = some (next,effects)) :
    Steady c next ∧ next.hbRound = c.hbRound ∧ next.ballots = c.ballots ∧ next.timer = c.timer ∧
      ∀ effect ∈ effects, Silent effect := by
  unfold BallotLeaderComp.receiveStopPeer at done
  dsimp only at done
  split_ifs at done with duplicate everyone
  · obtain ⟨ask,_,result⟩ := Option.map_eq_some_iff.mp done
    cases result
    exact ⟨⟨rfl,rfl⟩,rfl,rfl,rfl,by simp [Silent]⟩
  · cases done
    exact ⟨⟨rfl,rfl⟩,rfl,rfl,rfl,by simp⟩

section Way
variable {cfg : Config n} {i j k : Fin n} {round : ℕ}

-- The round trip that a message belongs to: who asked whom in which round.
def exchange (x : Packet n) : Option (Fin n × Fin n × ℕ) :=
  match x.msg with
  | .heartbeat (.request round _) => some (x.src,x.dst,round)
  | .heartbeat (.reply _ round _) => some (x.dst,x.src,round)
  | .stopPeer _ => none

def onWay (i j : Fin n) (round : ℕ) (x : Packet n) : ℕ :=
  if exchange x = some (i,j,round) then 1 else 0

def counted (cfg : Config n) (c : BallotLeaderComp) (j : Fin n) (round : ℕ) : ℕ :=
  if round = c.hbRound then c.ballots.countP (·.2 = cfg.pid j) else 0

-- All that is left of a round trip: its request, its reply or its ballot.
def way (cfg : Config n) (s : System n) (i j : Fin n) (round : ℕ) : ℕ :=
  counted cfg (s.comps i) j round + carried (onWay i j round) s.net

theorem carried_sends {load : Packet n → ℕ} {effects : List Effect}
    (nothing : ∀ effect ∈ effects, carried load (sends cfg k src effect) = 0) :
    carried load (effects.map (sends cfg k src)).sum = 0 := by
  induction effects with
  | nil => simp
  | cons effect rest ih =>
    rw [List.map_cons,List.sum_cons,carried_add,nothing effect List.mem_cons_self,
      ih fun effect listed => nothing effect (List.mem_cons_of_mem _ listed)]

theorem carried_silent {effects : List Effect} (silent : ∀ effect ∈ effects, Silent effect) :
    carried (onWay i j round) (effects.map (sends cfg k src)).sum = 0 := by
  apply carried_sends
  intro effect listed
  have quiet := silent effect listed
  match effect,quiet with
  | .replyStop _,_ => simp [sends]
  | .tellPeers (.stopPeer _),_ =>
    apply carried_eq_zero
    intro x sent
    simp only [sends] at sent
    obtain ⟨_,_,rfl⟩ := Multiset.mem_map.mp sent
    rfl

theorem carried_asked {c : BallotLeaderComp} (asked : Asked c effects) :
    carried (onWay i j round) (effects.map (sends cfg k src)).sum ≤
      if i = k ∧ round = c.hbRound then 1 else 0 := by
  obtain ⟨fired,rfl,only⟩ := asked
  have before : carried (onWay i j round) (fired.map (sends cfg k src)).sum = 0 := by
    apply carried_sends
    intro effect listed
    match effect,only effect listed with
    | .trigger _,_ => simp [sends]
  rw [List.map_append,List.sum_append,carried_add,before,zero_add,List.map_singleton,List.sum_singleton]
  simp only [BallotLeaderComp.hbRequest,sends,carried,Multiset.map_map]
  split_ifs with same
  · obtain ⟨rfl,rfl⟩ := same
    have towards : (onWay i j c.hbRound ∘ fun dst =>
        ⟨i,dst,.heartbeat (.request c.hbRound c.maxBallot)⟩) = fun dst => if dst = j then 1 else 0 := by
      funext dst
      simp [onWay,exchange]
    rw [towards]
    change ∑ dst ∈ Finset.univ.filter (cfg.pid · ∈ cfg.peers i), (if dst = j then 1 else 0) ≤ 1
    rw [Finset.sum_ite_eq']
    split_ifs <;> omega
  · apply le_of_eq
    apply Multiset.sum_eq_zero
    intro load member
    obtain ⟨dst,_,rfl⟩ := Multiset.mem_map.mp member
    simp only [Function.comp,onWay,exchange,Option.some.injEq,Prod.mk.injEq,ite_eq_right_iff]
    rintro ⟨rfl,_,rfl⟩
    exact absurd ⟨rfl,rfl⟩ same

-- A process asks its peers only, and a reply passes on what was reported.
def Sound (cfg : Config n) (reports : List (Report n)) (x : Packet n) : Prop :=
  match x.msg with
  | .heartbeat (.request _ _) => x.dst ≠ x.src
  | .heartbeat (.reply pid round ballot) =>
    pid = cfg.pid x.src ∧ x.src ≠ x.dst ∧ ⟨x.dst,round,x.src,ballot⟩ ∈ reports
  | .stopPeer _ => True

structure Backed (cfg : Config n) (s : System n) (reports : List (Report n)) : Prop where
  pid : ∀ i, (s.comps i).pid = cfg.pid i
  net : ∀ x ∈ s.net, Sound cfg reports x
  ballots : ∀ i, ∀ entry ∈ (s.comps i).ballots, ∃ j, j ≠ i ∧ entry.2 = cfg.pid j ∧
    ⟨i,(s.comps i).hbRound,j,entry.1⟩ ∈ reports

-- At most one round trip of two processes in a round, and none in a round to come.
structure Fresh (cfg : Config n) (s : System n) : Prop where
  once : ∀ i j round, way cfg s i j round ≤ 1
  later : ∀ i j round, s.started i = false ∨ (s.comps i).hbRound < round → way cfg s i j round = 0

structure Fixed (cfg : Config n) (s : System n) : Prop where
  peers : ∀ i, (s.comps i).peers = cfg.peers i
  majority : ∀ i, (s.comps i).majority = ((cfg.peers i).length + 1) / 2 + 1
  running : ∀ i, (s.comps i).timer.isSome → s.started i = true

-- A step either asks all peers of one process, in its first round or in its next
-- one, or it moves what is left of the round trips.
inductive Rounds (cfg : Config n) (s next : System n) : Prop where
  | moved : (∀ i, (next.comps i).hbRound = (s.comps i).hbRound) → next.started = s.started →
      (∀ i j round, way cfg next i j round ≤ way cfg s i j round) → Rounds cfg s next
  | asked (k : Fin n) : next.started = Function.update s.started k true →
      (∀ i, i ≠ k → (next.comps i).hbRound = (s.comps i).hbRound) →
      (s.started k = false ∧ (next.comps k).hbRound = (s.comps k).hbRound ∨
        (next.comps k).hbRound = (s.comps k).hbRound + 1) →
      (∀ i j round, way cfg next i j round ≤
        way cfg s i j round + if i = k ∧ round = (next.comps k).hbRound then 1 else 0) →
      Rounds cfg s next

theorem rounds_fresh (fresh : Fresh cfg s) (rounds : Rounds cfg s next) : Fresh cfg next := by
  cases rounds with
  | moved same started fewer =>
    refine ⟨?_,?_⟩
    · intro i j round
      exact (fewer i j round).trans (fresh.once i j round)
    · intro i j round due
      rw [started,same] at due
      exact Nat.le_zero.mp ((fewer i j round).trans (fresh.later i j round due).le)
  | asked k started others turned fewer =>
    refine ⟨?_,?_⟩
    · intro i j round
      have bound := fewer i j round
      split_ifs at bound with now
      · obtain ⟨rfl,rfl⟩ := now
        have nothing : way cfg s i j (next.comps i).hbRound = 0 := by
          apply fresh.later
          rcases turned with ⟨first,_⟩ | again
          · exact .inl first
          · exact .inr (by omega)
        omega
      · exact bound.trans (fresh.once i j round)
    · intro i j round due
      have bound := fewer i j round
      by_cases same : i = k
      · subst same
        rw [started,Function.update_self] at due
        have ahead : (next.comps i).hbRound < round := by simpa using due
        rw [if_neg (by omega)] at bound
        have nothing : way cfg s i j round = 0 := by
          apply fresh.later
          rcases turned with ⟨first,_⟩ | again
          · exact .inl first
          · exact .inr (by omega)
        omega
      · rw [if_neg (by simp [same])] at bound
        rw [started,Function.update_of_ne same,others i same] at due
        have nothing := fresh.later i j round due
        omega

theorem Sound.grow (sound : Sound cfg reports x) (more : reports ⊆ reports') :
    Sound cfg reports' x := by
  unfold Sound at sound ⊢
  split at sound
  · exact sound
  · exact ⟨sound.1,sound.2.1,more sound.2.2⟩
  · trivial

theorem sends_sound {effects : List Effect}
    (each : ∀ effect ∈ effects, ∀ x ∈ sends cfg k src effect, Sound cfg reports x) :
    ∀ x ∈ (effects.map (sends cfg k src)).sum, Sound cfg reports x := by
  induction effects with
  | nil => simp
  | cons effect rest ih =>
    intro x sent
    rw [List.map_cons,List.sum_cons,Multiset.mem_add] at sent
    rcases sent with now | later
    · exact each effect List.mem_cons_self x now
    · exact ih (fun effect listed => each effect (List.mem_cons_of_mem _ listed)) x later

theorem silent_sound {effects : List Effect} (silent : ∀ effect ∈ effects, Silent effect) :
    ∀ x ∈ (effects.map (sends cfg k src)).sum, Sound cfg reports x := by
  apply sends_sound
  intro effect listed x sent
  match effect,silent effect listed with
  | .replyStop _,_ => simp [sends] at sent
  | .tellPeers (.stopPeer _),_ =>
    simp only [sends] at sent
    obtain ⟨_,_,rfl⟩ := Multiset.mem_map.mp sent
    trivial

theorem asked_sound {c : BallotLeaderComp} (asked : Asked c effects) :
    ∀ x ∈ (effects.map (sends cfg k src)).sum, Sound cfg reports x := by
  obtain ⟨fired,rfl,only⟩ := asked
  apply sends_sound
  intro effect listed x sent
  rcases List.mem_append.mp listed with before | last
  · match effect,only effect before with
    | .trigger _,_ => simp [sends] at sent
  · cases List.mem_singleton.mp last
    simp only [BallotLeaderComp.hbRequest,sends] at sent
    obtain ⟨dst,inside,rfl⟩ := Multiset.mem_map.mp sent
    have chosen : dst ∈ Finset.univ.filter fun j => cfg.pid j ∈ cfg.peers k := inside
    have peer : cfg.pid dst ∈ cfg.peers k := (Finset.mem_filter.mp chosen).2
    have other : cfg.pid dst ≠ cfg.pid k := by simpa using (List.mem_filter.mp peer).2
    intro same
    exact other (congrArg cfg.pid same)

theorem commit_backed {s : System n} {c' : BallotLeaderComp} (backed : Backed cfg s reports)
    (more : reports ⊆ reports') (fewer : flight ⊆ s.net) (pid : c'.pid = (s.comps k).pid)
    (sent : ∀ x ∈ (effects.map (sends cfg k src)).sum, Sound cfg reports' x)
    (listed : ∀ entry ∈ c'.ballots, ∃ j, j ≠ k ∧ entry.2 = cfg.pid j ∧
      ⟨k,c'.hbRound,j,entry.1⟩ ∈ reports') :
    Backed cfg ({s with net := flight}.commit cfg k src (c',effects)) reports' where
  pid := by
    intro i
    by_cases same : i = k
    · subst same
      simp only [System.commit,Function.update_self]
      exact pid.trans (backed.pid i)
    · simp only [System.commit,Function.update_of_ne same]
      exact backed.pid i
  net := by
    intro x present
    rcases Multiset.mem_add.mp present with old | new
    · exact (backed.net x (fewer old)).grow more
    · exact sent x new
  ballots := by
    intro i
    by_cases same : i = k
    · subst same
      simp only [System.commit,Function.update_self]
      exact listed
    · simp only [System.commit,Function.update_of_ne same]
      intro entry old
      obtain ⟨j,other,named,reported⟩ := backed.ballots i entry old
      exact ⟨j,other,named,more reported⟩

-- Marking a component as started is nothing that the reports see.
theorem Backed.mark (backed : Backed cfg s reports) (started : Fin n → Bool) :
    Backed cfg {s with started := started} reports :=
  ⟨backed.pid,backed.net,backed.ballots⟩

theorem counted_others {s : System n} {c' : BallotLeaderComp}
    (same : ∀ j round, counted cfg c' j round = counted cfg (s.comps k) j round) (i j : Fin n) (round : ℕ) :
    counted cfg (Function.update s.comps k c' i) j round = counted cfg (s.comps i) j round := by
  by_cases here : i = k
  · subst here
    rw [Function.update_self]
    exact same j round
  · rw [Function.update_of_ne here]

theorem update_round {s : System n} {c' : BallotLeaderComp} (same : c'.hbRound = (s.comps k).hbRound)
    (i : Fin n) : (Function.update s.comps k c' i).hbRound = (s.comps i).hbRound := by
  by_cases here : i = k
  · subst here
    rw [Function.update_self]
    exact same
  · rw [Function.update_of_ne here]

theorem commit_fixed {s : System n} {c' : BallotLeaderComp} (fixed : Fixed cfg s)
    (steady : Steady (s.comps k) c') (running : c'.timer.isSome → s.started k = true) :
    Fixed cfg ({s with net := flight}.commit cfg k src (c',effects)) := by
  refine ⟨?_,?_,?_⟩
  all_goals
    intro i
    by_cases same : i = k
    · subst same
      simp only [System.commit,Function.update_self]
      first
        | exact steady.peers.trans (fixed.peers i)
        | exact steady.majority.trans (fixed.majority i)
        | exact running
    · simp only [System.commit,Function.update_of_ne same]
      first
        | exact fixed.peers i
        | exact fixed.majority i
        | exact fixed.running i

-- What a step keeps, with the reports that it adds.
structure Kept (cfg : Config n) (s next : System n) (reports : List (Report n)) : Prop where
  backed : Backed cfg next reports
  rounds : Rounds cfg s next
  fixed : Fixed cfg next

theorem timeout_kept {s : System n} (backed : Backed cfg s reports) (fixed : Fixed cfg s)
    (moved : step cfg s (.timeout k) = some next) : Kept cfg s next (reports ++ answered s (.timeout k)) := by
  obtain ⟨⟨c',effects⟩,done,rfl⟩ := Option.map_eq_some_iff.mp moved
  have pid := (handle_handled done).pid
  simp only [BallotLeaderComp.handle] at done
  split_ifs at done with running
  obtain ⟨steady,turned,emptied,asked,_⟩ := hbTimeout_round done
  have started := fixed.running k running
  refine ⟨?_,.asked k ?_ ?_ ?_ ?_,commit_fixed fixed steady fun _ => started⟩
  · apply commit_backed backed (List.subset_append_left _ _) (Multiset.Subset.refl s.net) pid
    · exact asked_sound asked
    · simp [emptied]
  · simp only [System.commit]
    rw [← started,Function.update_eq_self]
  · intro i other
    simp only [System.commit,Function.update_of_ne other]
  · simp only [System.commit,Function.update_self]
    exact .inr turned
  · intro i j round
    have sent : carried (onWay i j round) (effects.map (sends cfg k k)).sum ≤ _ := carried_asked asked
    simp only [way,System.commit,Function.update_self,carried_add]
    have fewer : counted cfg (Function.update s.comps k c' i) j round ≤ counted cfg (s.comps i) j round := by
      by_cases same : i = k
      · subst same
        simp [counted,emptied]
      · rw [Function.update_of_ne same]
    omega

theorem start_kept {s : System n} (backed : Backed cfg s reports) (fixed : Fixed cfg s)
    (moved : step cfg s (.start k) = some next) : Kept cfg s next (reports ++ answered s (.start k)) := by
  dsimp only [step] at moved
  split_ifs at moved with before
  obtain ⟨⟨c',effects⟩,done,rfl⟩ := Option.map_eq_some_iff.mp moved
  have pid := (handle_handled done).pid
  obtain ⟨steady,round,same,asked⟩ := onStart_round done
  have marked : Function.update s.started k true k = true := Function.update_self ..
  refine ⟨Backed.mark ?_ _,.asked k rfl ?_ ?_ ?_,?_⟩
  · apply commit_backed backed (List.subset_append_left _ _) (Multiset.Subset.refl s.net) pid
    · exact asked_sound asked
    · intro entry listed
      rw [same] at listed
      obtain ⟨j,other,named,reported⟩ := backed.ballots k entry listed
      rw [round]
      exact ⟨j,other,named,List.mem_append_left _ reported⟩
  · intro i other
    simp only [System.commit,Function.update_of_ne other]
  · simp only [System.commit,Function.update_self]
    exact .inl ⟨by simpa using before,round⟩
  · intro i j round'
    have sent : carried (onWay i j round') (effects.map (sends cfg k k)).sum ≤ _ := carried_asked asked
    simp only [way,System.commit,Function.update_self,carried_add]
    rw [counted_others (by simp [counted,same,round])]
    omega
  · have started : Fixed cfg {s with started := Function.update s.started k true} :=
      ⟨fixed.peers,fixed.majority,fun i running => by
        by_cases here : i = k
        · simp [here]
        · simpa [here] using fixed.running i running⟩
    exact commit_fixed started steady fun _ => marked

theorem silent_kept {s : System n} {c' : BallotLeaderComp} {flight : Multiset (Packet n)}
    (backed : Backed cfg s reports) (fixed : Fixed cfg s) (fewer : flight ≤ s.net)
    (pid : c'.pid = (s.comps k).pid) (steady : Steady (s.comps k) c')
    (round : c'.hbRound = (s.comps k).hbRound) (same : c'.ballots = (s.comps k).ballots)
    (timer : c'.timer.isSome → (s.comps k).timer.isSome) (silent : ∀ effect ∈ effects, Silent effect) :
    Kept cfg s ({s with net := flight}.commit cfg k src (c',effects)) (reports ++ []) := by
  refine ⟨?_,.moved (update_round round) rfl ?_,
    commit_fixed fixed steady fun running => fixed.running k (timer running)⟩
  · apply commit_backed backed (List.subset_append_left _ _) (Multiset.subset_of_le fewer) pid
    · exact silent_sound silent
    · intro entry listed
      rw [same] at listed
      obtain ⟨j,other,named,reported⟩ := backed.ballots k entry listed
      rw [round]
      exact ⟨j,other,named,List.mem_append_left _ reported⟩
  · intro i j round'
    simp only [way,System.commit,carried_add]
    rw [counted_others (by simp [counted,same,round]),carried_silent silent,add_zero]
    have left : carried (onWay i j round') flight ≤ carried (onWay i j round') s.net := carried_mono fewer
    omega

-- A request that is answered leaves the net as its reply.
theorem request_kept {s : System n} {c' : BallotLeaderComp} {x : Packet n}
    (backed : Backed cfg s reports) (fixed : Fixed cfg s) (present : x ∈ s.net)
    (asks : x.msg = .heartbeat (.request asked top)) (running : (s.comps x.dst).stopped = false)
    (done : (s.comps x.dst).receiveHeartbeat (.request asked top) = (c',effects)) :
    Kept cfg s ({s with net := s.net.erase x}.commit cfg x.dst x.src (c',effects))
      (reports ++ [⟨x.src,asked,x.dst,(s.comps x.dst).currentBallot⟩]) := by
  have result : c'.pid = (s.comps x.dst).pid ∧ Steady (s.comps x.dst) c' ∧
      c'.hbRound = (s.comps x.dst).hbRound ∧ c'.ballots = (s.comps x.dst).ballots ∧
      c'.timer = (s.comps x.dst).timer ∧ effects = [.tellSender (.heartbeat
        (.reply (s.comps x.dst).pid asked (s.comps x.dst).currentBallot))] := by
    simp only [BallotLeaderComp.receiveHeartbeat,running,Bool.false_eq_true,if_false] at done
    split_ifs at done
    all_goals
      cases done
      exact ⟨rfl,⟨rfl,rfl⟩,rfl,rfl,rfl,rfl⟩
  obtain ⟨pid,steady,round,same,timer,rfl⟩ := result
  have sound := backed.net x present
  simp only [Sound,asks] at sound
  refine ⟨?_,.moved (update_round round) rfl ?_,
    commit_fixed fixed steady fun set => fixed.running _ (timer ▸ set)⟩
  · apply commit_backed backed (List.subset_append_left _ _) (Multiset.erase_subset x s.net) pid
    · intro y sent
      simp only [List.map_singleton,List.sum_singleton,sends,Multiset.mem_singleton] at sent
      subst sent
      exact ⟨backed.pid x.dst,sound,List.mem_append_right _ List.mem_cons_self⟩
    · intro entry listed
      rw [same] at listed
      obtain ⟨j,other,named,reported⟩ := backed.ballots x.dst entry listed
      rw [round]
      exact ⟨j,other,named,List.mem_append_left _ reported⟩
  · intro i j round'
    have exchanged := carried_handled (onWay i j round') (sends cfg x.dst x.src (.tellSender (.heartbeat
      (.reply (s.comps x.dst).pid asked (s.comps x.dst).currentBallot)))) present
    simp only [way,System.commit]
    rw [counted_others (by simp [counted,same,round]),List.map_singleton,List.sum_singleton]
    have carriedSame : carried (onWay i j round') (sends cfg x.dst x.src (.tellSender (.heartbeat
        (.reply (s.comps x.dst).pid asked (s.comps x.dst).currentBallot)))) = onWay i j round' x := by
      simp [sends,onWay,exchange,asks]
    omega

theorem reply_kept {s : System n} {c' : BallotLeaderComp} {x : Packet n}
    (backed : Backed cfg s reports) (fixed : Fixed cfg s) (present : x ∈ s.net)
    (answers : x.msg = .heartbeat (.reply pid round ballot)) (running : (s.comps x.dst).stopped = false)
    (done : (s.comps x.dst).receiveHeartbeat (.reply pid round ballot) = (c',effects)) :
    Kept cfg s ({s with net := s.net.erase x}.commit cfg x.dst x.src (c',effects)) (reports ++ []) := by
  have sound := backed.net x present
  simp only [Sound,answers] at sound
  obtain ⟨rfl,other,reported⟩ := sound
  simp only [BallotLeaderComp.receiveHeartbeat,running,Bool.false_eq_true,if_false] at done
  split_ifs at done with current
  · have result : c'.pid = (s.comps x.dst).pid ∧ Steady (s.comps x.dst) c' ∧
        c'.hbRound = (s.comps x.dst).hbRound ∧ c'.timer = (s.comps x.dst).timer ∧
        c'.ballots = (s.comps x.dst).ballots ++ [(ballot,cfg.pid x.src)] ∧ effects = [] := by
      cases done
      exact ⟨rfl,⟨rfl,rfl⟩,rfl,rfl,rfl,rfl⟩
    obtain ⟨pid,steady,same,timer,pushed,rfl⟩ := result
    refine ⟨?_,.moved (update_round same) rfl ?_,
      commit_fixed fixed steady fun set => fixed.running _ (timer ▸ set)⟩
    · apply commit_backed backed (List.subset_append_left _ _) (Multiset.erase_subset x s.net) pid
      · simp
      · intro entry listed
        rw [pushed] at listed
        rw [same]
        rcases List.mem_append.mp listed with old | new
        · obtain ⟨j,apart,named,before⟩ := backed.ballots x.dst entry old
          exact ⟨j,apart,named,List.mem_append_left _ before⟩
        · cases List.mem_singleton.mp new
          exact ⟨x.src,other,rfl,List.mem_append_left _ (current ▸ reported)⟩
    · intro i j round'
      have erased := carried_erase (onWay i j round') present
      simp only [way,System.commit,List.map_nil,List.sum_nil,add_zero]
      by_cases here : i = x.dst
      · subst here
        rw [Function.update_self]
        -- The reply is taken from the net and put among the ballots.
        have more : counted cfg c' j round' ≤
            counted cfg (s.comps x.dst) j round' + onWay x.dst j round' x := by
          simp only [counted,onWay,exchange,answers,pushed,same,List.countP_append,
            List.countP_singleton,decide_eq_true_eq,cfg.distinct.eq_iff,Option.some.injEq,
            Prod.mk.injEq,true_and,current]
          split_ifs with now taken lost
          · exact le_rfl
          · exact absurd ⟨taken,now.symm⟩ lost
          · exact Nat.le_add_right _ _
          · exact le_rfl
          · exact Nat.zero_le _
          · exact Nat.zero_le _
        omega
      · rw [Function.update_of_ne here]
        omega
  · cases done
    exact silent_kept backed fixed (Multiset.erase_le x s.net) rfl ⟨rfl,rfl⟩ rfl rfl (fun set => set) (by simp)

theorem stopped_heartbeat {c : BallotLeaderComp} (halted : c.stopped = true)
    (done : c.receiveHeartbeat hb = (c',effects)) : c' = c ∧ effects = [] := by
  unfold BallotLeaderComp.receiveHeartbeat at done
  cases hb with
  | request round top =>
    simp only [halted,if_true,Prod.mk.injEq] at done
    exact ⟨done.1.symm,done.2.symm⟩
  | reply pid round ballot =>
    simp only [halted,if_true,Prod.mk.injEq] at done
    exact ⟨done.1.symm,done.2.symm⟩

theorem deliver_kept {s : System n} {x : Packet n} (backed : Backed cfg s reports) (fixed : Fixed cfg s)
    (moved : step cfg s (.deliver x) = some next) :
    Kept cfg s next (reports ++ answered s (.deliver x)) := by
  dsimp only [step] at moved
  split_ifs at moved with ready
  obtain ⟨⟨c',effects⟩,done,rfl⟩ := Option.map_eq_some_iff.mp moved
  obtain ⟨present,_⟩ := ready
  obtain ⟨src,dst,msg⟩ := x
  cases msg with
  | stopPeer pid =>
    obtain ⟨steady,round,same,timer,silent⟩ := receiveStopPeer_round done
    have kept := (receiveStopPeer_handled done).pid
    exact silent_kept backed fixed (Multiset.erase_le _ s.net) kept steady round same
      (fun set => timer ▸ set) silent
  | heartbeat hb =>
    have handled := Option.some.inj done
    by_cases running : (s.comps dst).stopped = false
    · cases hb with
      | request asked top =>
        simp only [answered,running,Bool.false_eq_true,if_false]
        exact request_kept backed fixed present rfl running handled
      | reply pid round ballot => exact reply_kept backed fixed present rfl running handled
    · rw [Bool.not_eq_false] at running
      obtain ⟨rfl,rfl⟩ := stopped_heartbeat running handled
      have nothing : answered s (.deliver ⟨src,dst,.heartbeat hb⟩) = [] := by
        cases hb with
        | request => simp [answered,running]
        | reply => rfl
      rw [nothing]
      exact silent_kept backed fixed (Multiset.erase_le _ s.net) rfl ⟨rfl,rfl⟩ rfl rfl (fun set => set)
        (by simp)

theorem step_kept {s : System n} (backed : Backed cfg s reports) (fixed : Fixed cfg s)
    (moved : step cfg s action = some next) : Kept cfg s next (reports ++ answered s action) := by
  cases action with
  | start k => exact start_kept backed fixed moved
  | timeout k => exact timeout_kept backed fixed moved
  | deliver x => exact deliver_kept backed fixed moved
  | stop k =>
    dsimp only [step] at moved
    split_ifs at moved with started
    obtain ⟨⟨c',effects⟩,done,rfl⟩ := Option.map_eq_some_iff.mp moved
    have kept := (handle_handled done).pid
    obtain ⟨steady,round,same,halted,silent⟩ := receiveLocal_round (Option.some.inj done)
    exact silent_kept backed fixed le_rfl kept steady round same (by simp [halted]) silent

theorem component_fixed (cfg : Config n) (i : Fin n) : (cfg.component i).peers = cfg.peers i ∧
    (cfg.component i).majority = ((cfg.peers i).length + 1) / 2 + 1 ∧ (cfg.component i).timer = none := by
  unfold Config.component
  cases cfg.told i <;> exact ⟨rfl,rfl,rfl⟩

theorem ran_kept (path : Ran cfg s reports) :
    Backed cfg s reports ∧ Fresh cfg s ∧ Fixed cfg s := by
  induction path with
  | initial =>
    refine ⟨⟨component_pid cfg,by simp [System.initial],?_⟩,⟨?_,?_⟩,⟨?_,?_,?_⟩⟩
    · simp [System.initial,component_ballots]
    · simp [way,counted,System.initial,component_ballots]
    · simp [way,counted,System.initial,component_ballots]
    · exact fun i => (component_fixed cfg i).1
    · exact fun i => (component_fixed cfg i).2.1
    · simp [System.initial,component_fixed]
  | step _ moved ih =>
    obtain ⟨backed,fresh,fixed⟩ := ih
    have kept := step_kept backed fixed moved
    exact ⟨kept.backed,rounds_fresh fresh kept.rounds,kept.fixed⟩

theorem silent_triggers {effects : List Effect} (silent : ∀ effect ∈ effects, Silent effect) :
    effects.filterMap triggered = [] := by
  rw [List.filterMap_eq_nil_iff]
  intro effect listed
  match effect,silent effect listed with
  | .replyStop _,_ => rfl
  | .tellPeers (.stopPeer _),_ => rfl

theorem triggers_timeout {c : BallotLeaderComp} (done : c.handle input = some (next,effects))
    (fired : effects.filterMap triggered ≠ []) : input = .timeout := by
  cases input with
  | timeout => rfl
  | start =>
    unfold BallotLeaderComp.handle BallotLeaderComp.onStart at done
    obtain ⟨delay,_,result⟩ := Option.map_eq_some_iff.mp done
    cases result
    exact absurd rfl fired
  | stop pid =>
    obtain ⟨_,_,_,_,silent⟩ := receiveLocal_round (Option.some.inj done)
    exact absurd (silent_triggers silent) fired
  | message msg =>
    cases msg with
    | stopPeer pid =>
      obtain ⟨_,_,_,_,silent⟩ := receiveStopPeer_round done
      exact absurd (silent_triggers silent) fired
    | heartbeat hb =>
      have handled := Option.some.inj done
      unfold BallotLeaderComp.receiveHeartbeat at handled
      cases hb with
      | request round top =>
        dsimp only at handled
        split_ifs at handled
        all_goals
          cases handled
          exact absurd rfl fired
      | reply pid round ballot =>
        dsimp only at handled
        split_ifs at handled
        all_goals
          cases handled
          exact absurd rfl fired

theorem event_timeout {s : System n} (moved : step cfg s action = some next)
    (event : next.events = s.events ++ [(i,leader)]) : action = .timeout i ∧
      ∃ c' effects, (s.comps i).hbTimeout = some (c',effects) ∧ leader ∈ effects.filterMap triggered := by
  obtain ⟨k,input,c',effects,done,grown,which⟩ : ∃ k input c' effects,
      (s.comps k).handle input = some (c',effects) ∧
      next.events = s.events ++ (effects.filterMap triggered).map (k,·) ∧
      (input = .timeout → action = .timeout k) := by
    cases action with
    | start k =>
      dsimp only [step] at moved
      split_ifs at moved
      obtain ⟨result,done,rfl⟩ := Option.map_eq_some_iff.mp moved
      exact ⟨k,.start,result.1,result.2,done,rfl,by simp⟩
    | timeout k =>
      obtain ⟨result,done,rfl⟩ := Option.map_eq_some_iff.mp moved
      exact ⟨k,.timeout,result.1,result.2,done,rfl,fun _ => rfl⟩
    | stop k =>
      dsimp only [step] at moved
      split_ifs at moved
      obtain ⟨result,done,rfl⟩ := Option.map_eq_some_iff.mp moved
      exact ⟨k,_,result.1,result.2,done,rfl,by simp⟩
    | deliver x =>
      dsimp only [step] at moved
      split_ifs at moved
      obtain ⟨result,done,rfl⟩ := Option.map_eq_some_iff.mp moved
      exact ⟨x.dst,.message x.msg,result.1,result.2,done,rfl,by simp⟩
  have added : (effects.filterMap triggered).map (k,·) = [(i,leader)] :=
    List.append_cancel_left (grown.symm.trans event)
  obtain ⟨fired,one,same⟩ := List.map_eq_singleton_iff.mp added
  cases same
  have timeout := triggers_timeout done (by simp [one])
  subst timeout
  simp only [BallotLeaderComp.handle] at done
  split_ifs at done
  exact ⟨which rfl,c',effects,done,by simp [one]⟩

-- The ballots of a round with the own one: one for each process that is counted.
theorem ballots_distinct (backed : Backed cfg s reports) (fresh : Fresh cfg s) (i : Fin n) :
    (((s.comps i).ballots ++ [((s.comps i).currentBallot,(s.comps i).pid)]).map Prod.snd).Nodup := by
  have peers : ((s.comps i).ballots.map Prod.snd).Nodup := by
    rw [List.nodup_iff_count_le_one]
    intro pid
    by_cases listed : pid ∈ (s.comps i).ballots.map Prod.snd
    · obtain ⟨entry,inside,rfl⟩ := List.mem_map.mp listed
      obtain ⟨j,_,named,_⟩ := backed.ballots i entry inside
      have bound := fresh.once i j (s.comps i).hbRound
      simp only [way,counted,if_true] at bound
      rw [List.count,List.countP_map,named]
      have same : (fun x : Ballot × ℕ => decide (x.2 = cfg.pid j)) = (· == cfg.pid j) ∘ Prod.snd := by
        funext x
        rw [Bool.eq_iff_iff]
        simp
      rw [← same]
      omega
    · rw [List.count_eq_zero_of_not_mem listed]
      exact Nat.zero_le _
  rw [List.map_append,List.nodup_append]
  refine ⟨peers,List.nodup_singleton _,?_⟩
  intro pid listed own last
  obtain ⟨entry,inside,rfl⟩ := List.mem_map.mp listed
  obtain ⟨j,other,named,_⟩ := backed.ballots i entry inside
  cases List.mem_singleton.mp last
  rw [named,backed.pid i]
  intro same
  exact other (cfg.distinct same)

-- A list that names each process at most once is a function on the processes it names.
theorem named_once {α β : Type*} (spare : β) {pid : Fin n → α} (apart : Function.Injective pid) {full : List (β × α)}
    (once : (full.map Prod.snd).Nodup) (named : ∀ entry ∈ full, ∃ j, entry.2 = pid j) :
    ∃ (backers : Finset (Fin n)) (ballot : Fin n → β), backers.card = full.length ∧
      (∀ j ∈ backers, (ballot j,pid j) ∈ full) ∧
      ∀ entry ∈ full, ∀ j, entry.2 = pid j → j ∈ backers ∧ entry = (ballot j,pid j) := by
  classical
  have found : ∀ j, ∃ b, pid j ∈ full.map Prod.snd → (b,pid j) ∈ full := by
    intro j
    by_cases listed : pid j ∈ full.map Prod.snd
    · obtain ⟨⟨b,_⟩,inside,rfl⟩ := List.mem_map.mp listed
      exact ⟨b,fun _ => inside⟩
    · exact ⟨spare,fun inside => absurd inside listed⟩
  choose ballot holds using found
  refine ⟨Finset.univ.filter fun j => pid j ∈ full.map Prod.snd,ballot,?_,?_,?_⟩
  · have counted : (Finset.univ.filter fun j => pid j ∈ full.map Prod.snd).image pid =
        (full.map Prod.snd).toFinset := by
      ext name
      simp only [Finset.mem_image,Finset.mem_filter,Finset.mem_univ,true_and,List.mem_toFinset]
      constructor
      · rintro ⟨j,inside,rfl⟩
        exact inside
      · intro inside
        obtain ⟨entry,listed,rfl⟩ := List.mem_map.mp inside
        obtain ⟨j,same⟩ := named entry listed
        exact ⟨j,same ▸ inside,same.symm⟩
    rw [← Finset.card_image_of_injective _ apart,counted,List.toFinset_card_of_nodup once,List.length_map]
  · exact fun j member => holds j (Finset.mem_filter.mp member).2
  · intro entry listed j same
    have inside : pid j ∈ full.map Prod.snd := same ▸ List.mem_map_of_mem listed
    exact ⟨Finset.mem_filter.mpr ⟨Finset.mem_univ j,inside⟩,List.inj_on_of_nodup_map once listed (holds j inside) same⟩

theorem leader_backed_by_majority (cfg : Config n) (path : Ran cfg s reports)
    (moved : step cfg s action = some next) (event : next.events = s.events ++ [(i,leader)]) :
    action = .timeout i ∧ ∃ (backers : Finset (Fin n)) (ballot : Fin n → Ballot),
      ((s.comps i).peers.length + 1) / 2 + 1 ≤ backers.card ∧
      i ∈ backers ∧ ballot i = (s.comps i).currentBallot ∧
      (∀ j ∈ backers, j ≠ i → ⟨i,(s.comps i).hbRound,j,ballot j⟩ ∈ reports) ∧
      (∀ entry ∈ (s.comps i).ballots, ∃ j ∈ backers, entry = (ballot j,cfg.pid j)) ∧
      (∃ p ∈ backers, cfg.pid p = leader.pid ∧ ballot p = leader.round) ∧
      ∀ j ∈ backers, ballot j ≤ leader.round := by
  obtain ⟨backed,fresh,fixed⟩ := ran_kept path
  obtain ⟨timeout,c',effects,done,fired⟩ := event_timeout moved event
  obtain ⟨_,_,_,_,majority⟩ := hbTimeout_round done
  obtain ⟨enough,top⟩ := majority leader fired
  have distinct := ballots_distinct backed fresh i
  set full := (s.comps i).ballots ++ [((s.comps i).currentBallot,(s.comps i).pid)] with pushed
  have named : ∀ entry ∈ full, ∃ j, entry.2 = cfg.pid j := by
    intro entry listed
    rcases List.mem_append.mp listed with old | own
    · obtain ⟨j,_,same,_⟩ := backed.ballots i entry old
      exact ⟨j,same⟩
    · cases List.mem_singleton.mp own
      exact ⟨i,backed.pid i⟩
  have own : ((s.comps i).currentBallot,(s.comps i).pid) ∈ full := List.mem_append_right _ (List.mem_singleton_self _)
  obtain ⟨backers,ballot,size,holds,held⟩ := named_once ⟨0,0⟩ cfg.distinct distinct named
  obtain ⟨self,mine⟩ := held _ own i (backed.pid i)
  refine ⟨timeout,backers,ballot,?_,self,(Prod.mk.inj mine).1.symm,?_,?_,?_,?_⟩
  · rw [size,fixed.peers i,← fixed.majority i,pushed,List.length_append]
    exact enough
  · intro j member other
    rcases List.mem_append.mp (holds j member) with reply | self
    · obtain ⟨reporter,_,same,reported⟩ := backed.ballots i _ reply
      cases cfg.distinct same
      exact reported
    · have same := (Prod.mk.inj (List.mem_singleton.mp self)).2
      rw [backed.pid i] at same
      exact absurd (cfg.distinct same) other
  · intro entry reply
    have inside : entry ∈ full := List.mem_append_left _ reply
    obtain ⟨j,same⟩ := named entry inside
    exact ⟨j,held entry inside j same⟩
  · obtain ⟨p,same⟩ := named _ (topEntry_mem top)
    obtain ⟨member,entry⟩ := held _ (topEntry_mem top) p same
    exact ⟨p,member,same.symm,(Prod.mk.inj entry).1.symm⟩
  · exact fun j member => topEntry_le top (holds j member)

-- Process 2 is elected with the ballot of process 3 that it got in round 1.
theorem second_elected_by_two : ∃ s reports next, Ran election s reports ∧
    step election s (.timeout 1) = some next ∧ next.events = [(1,⟨2,⟨6,2⟩⟩)] ∧
    ∃ (backers : Finset (Fin 3)) (ballot : Fin 3 → Ballot), 2 ≤ backers.card ∧ 1 ∈ backers ∧
      (∀ j ∈ backers, j ≠ 1 → ⟨1,1,j,ballot j⟩ ∈ reports) ∧ ∀ j ∈ backers, ballot j ≤ ⟨6,2⟩ := by
  obtain ⟨s,reached,view⟩ := executed election ((electionRun 1 2).take 7)
    (fun s => decide ((s.comps 1).peers.length = 2 ∧ (s.comps 1).hbRound = 1 ∧ s.events = [] ∧
      (step election s (.timeout 1)).map System.events = some [(1,⟨2,⟨6,2⟩⟩)])) true (by decide +kernel)
  obtain ⟨reports,path⟩ := reached_ran reached
  obtain ⟨peers,round,before,after⟩ := of_decide_eq_true view
  obtain ⟨next,moved,events⟩ := Option.map_eq_some_iff.mp after
  have event : next.events = s.events ++ [((1 : Fin 3),(⟨2,⟨6,2⟩⟩ : Leader))] := by
    rw [before]
    exact events
  obtain ⟨_,backers,ballot,enough,own,_,reported,_,_,below⟩ :=
    leader_backed_by_majority election path moved event
  rw [peers] at enough
  rw [round] at reported
  exact ⟨s,reports,next,path,moved,events,backers,ballot,enough,own,reported,below⟩

end Way

end KompicsBenches.LeaderMajority
