import KompicsBenches.LeaderComp

namespace KompicsBenches.LeaderElection
open LeaderComp

-- The components of one configuration. A component starts without an initial
-- leader, or it is created with the one of the stop sign or told it later; its
-- round is the configured start round with pid 0.
structure Config (n : ℕ) where
  pid : Fin n → ℕ
  distinct : Function.Injective pid
  positive : ∀ i, 1 ≤ pid i
  hbDelay : ℕ
  delta : ℕ
  initialElectionFactor : ℕ
  quickTimeout : Fin n → Bool
  prioStartRound : ℕ
  leaderPid : ℕ
  created : Fin n → Bool
  told : Fin n → Bool

namespace Config
variable (cfg : Config n)

def initialLeader : Leader := ⟨cfg.leaderPid,⟨cfg.prioStartRound,0⟩⟩

def informed (i : Fin n) : Bool := cfg.created i || cfg.told i

def peers (i : Fin n) : List ℕ := (List.ofFn cfg.pid).filter (· ≠ cfg.pid i)

def component (i : Fin n) : BallotLeaderComp :=
  let c := BallotLeaderComp.with (cfg.peers i) (cfg.pid i) cfg.hbDelay cfg.delta
    (cfg.quickTimeout i) (if cfg.created i then some cfg.initialLeader else none)
    cfg.initialElectionFactor
  if cfg.told i then c.setInitialLeader cfg.initialLeader else c

-- The one process that may hold a ballot.
def owner (b : Ballot) : ℕ := if b.pid = 0 then cfg.leaderPid else b.pid

end Config

structure Packet (n : ℕ) where
  src : Fin n
  dst : Fin n
  msg : Message
  deriving DecidableEq

-- `held` records every ballot that was the current one of a component, `events`
-- every Leader event with the component that triggered it, oldest first.
structure System (n : ℕ) where
  comps : Fin n → BallotLeaderComp
  started : Fin n → Bool
  net : Multiset (Packet n)
  held : List (Fin n × Ballot)
  events : List (Fin n × Leader)

def System.initial (cfg : Config n) : System n where
  comps := cfg.component
  started := fun _ => false
  net := 0
  held := List.ofFn fun i => (i,(cfg.component i).currentBallot)
  events := []

def sends (cfg : Config n) (i src : Fin n) : Effect → Multiset (Packet n)
  | .tellPeers msg => (Finset.univ.filter (cfg.pid · ∈ cfg.peers i)).val.map (⟨i,·,msg⟩)
  | .tellSender msg => {⟨i,src,msg⟩}
  | _ => 0

def System.commit (cfg : Config n) (s : System n) (i src : Fin n)
    (result : BallotLeaderComp × List Effect) : System n :=
  {s with
    comps := Function.update s.comps i result.1
    net := s.net + (result.2.map (sends cfg i src)).sum
    held := s.held ++ [(i,result.1.currentBallot)]
    events := s.events ++ (result.2.filterMap triggered).map (i,·)}

inductive Action (n : ℕ) where
  | start (i : Fin n)
  | timeout (i : Fin n)
  | stop (i : Fin n)
  | deliver (x : Packet n)
  deriving DecidableEq

-- Messages wait until the component has been started. `none` is a step that
-- cannot happen, or a panic.
def step (cfg : Config n) (s : System n) : Action n → Option (System n)
  | .start i =>
    if s.started i then none
    else
      ((s.comps i).handle .start).map fun result =>
        {s.commit cfg i i result with started := Function.update s.started i true}
  | .timeout i => ((s.comps i).handle .timeout).map (s.commit cfg i i)
  | .stop i =>
    if s.started i then ((s.comps i).handle (.stop (cfg.pid i))).map (s.commit cfg i i)
    else none
  | .deliver x =>
    if x ∈ s.net ∧ s.started x.dst then
      ((s.comps x.dst).handle (.message x.msg)).map
        ({s with net := s.net.erase x}.commit cfg x.dst x.src)
    else none

inductive Reached (cfg : Config n) : System n → Prop where
  | initial : Reached cfg (.initial cfg)
  | step : Reached cfg s → step cfg s action = some next → Reached cfg next

def execute (cfg : Config n) (s : System n) : List (Action n) → Option (System n)
  | [] => some s
  | action :: rest => (step cfg s action).bind (execute cfg · rest)

theorem execute_reached (path : Reached cfg s) (done : execute cfg s actions = some next) :
    Reached cfg next := by
  induction actions generalizing s with
  | nil =>
    cases done
    exact path
  | cons action rest ih =>
    obtain ⟨middle,moved,more⟩ := Option.bind_eq_some_iff.mp done
    exact ih (path.step moved) more

def System.leaders (s : System n) (i : Fin n) : List Leader :=
  s.events.filterMap fun (j,leader) => if j = i then some leader else none

-- Everything a step can do: one component handles one input, and a reply it
-- handles was in flight.
structure Stepped (cfg : Config n) (s next : System n) (i : Fin n) (input : Input)
    (effects : List Effect) : Prop where
  handled : Handled (s.comps i) input (next.comps i) effects
  others : ∀ j, j ≠ i → next.comps j = s.comps j
  net : ∀ x ∈ next.net, x ∈ s.net ∨ x.src = i ∧
    (Effect.tellPeers x.msg ∈ effects ∨ Effect.tellSender x.msg ∈ effects)
  message : ∀ msg, input = .message msg → ∃ x ∈ s.net, x.msg = msg
  held : next.held = s.held ++ [(i,(next.comps i).currentBallot)]
  events : next.events = s.events ++ (effects.filterMap triggered).map (i,·)

theorem sends_member {effects : List Effect} {x : Packet n}
    (sent : x ∈ (effects.map (sends cfg i src)).sum) :
    x.src = i ∧ (Effect.tellPeers x.msg ∈ effects ∨ Effect.tellSender x.msg ∈ effects) := by
  induction effects with
  | nil => simp at sent
  | cons effect rest ih =>
    rw [List.map_cons,List.sum_cons,Multiset.mem_add] at sent
    rcases sent with now | later
    · cases effect with
      | tellPeers msg =>
        simp only [sends] at now
        obtain ⟨j,_,rfl⟩ := Multiset.mem_map.mp now
        exact ⟨rfl,.inl List.mem_cons_self⟩
      | tellSender msg =>
        cases Multiset.mem_singleton.mp now
        exact ⟨rfl,.inr List.mem_cons_self⟩
      | trigger leader => simp [sends] at now
      | replyStop pid => simp [sends] at now
    · obtain ⟨same,told⟩ := ih later
      exact ⟨same,told.imp (List.mem_cons_of_mem _) (List.mem_cons_of_mem _)⟩

theorem commit_stepped {s : System n} {cfg : Config n} (fewer : flight ⊆ s.net)
    (message : ∀ msg, input = .message msg → ∃ x ∈ s.net, x.msg = msg)
    (done : (s.comps i).handle input = some result) :
    Stepped cfg s ({s with net := flight}.commit cfg i src result) i input result.2 where
  handled := by
    simp only [System.commit,Function.update_self]
    exact handle_handled done
  others := by
    intro j different
    simp [System.commit,Function.update_of_ne different]
  net := by
    intro x present
    rcases Multiset.mem_add.mp present with old | new
    · exact .inl (fewer old)
    · exact .inr (sends_member new)
  message := message
  held := by simp [System.commit]
  events := rfl

-- `start` also marks the component as started, which no invariant reads.
theorem Stepped.mark {s next : System n} (stepped : Stepped cfg s next i input effects)
    (started : Fin n → Bool) :
    Stepped cfg s {next with started := started} i input effects :=
  ⟨stepped.handled,stepped.others,stepped.net,stepped.message,stepped.held,stepped.events⟩

theorem step_stepped {s : System n} (moved : step cfg s action = some next) :
    ∃ i input effects, Stepped cfg s next i input effects := by
  cases action with
  | start i =>
    dsimp only [step] at moved
    split_ifs at moved with started
    obtain ⟨result,done,rfl⟩ := Option.map_eq_some_iff.mp moved
    have stepped : Stepped cfg s (s.commit cfg i i result) i .start result.2 :=
      commit_stepped (fun _ => id) (by simp) done
    exact ⟨i,.start,result.2,stepped.mark _⟩
  | timeout i =>
    obtain ⟨result,done,rfl⟩ := Option.map_eq_some_iff.mp moved
    exact ⟨i,.timeout,result.2,commit_stepped (fun _ => id) (by simp) done⟩
  | stop i =>
    dsimp only [step] at moved
    split_ifs at moved with started
    obtain ⟨result,done,rfl⟩ := Option.map_eq_some_iff.mp moved
    exact ⟨i,_,result.2,commit_stepped (fun _ => id) (by simp) done⟩
  | deliver x =>
    dsimp only [step] at moved
    split_ifs at moved with present
    obtain ⟨result,done,rfl⟩ := Option.map_eq_some_iff.mp moved
    refine ⟨x.dst,.message x.msg,result.2,
      commit_stepped (Multiset.erase_subset x s.net) ?_ done⟩
    intro msg same
    cases same
    exact ⟨x,present.1,rfl⟩

-- A ballot that the named process has held.
def Claimed (cfg : Config n) (held : List (Fin n × Ballot)) (ballot : Ballot) (pid : ℕ) : Prop :=
  ∃ i, cfg.pid i = pid ∧ (i,ballot) ∈ held

structure Owned (cfg : Config n) (s : System n) : Prop where
  pid : ∀ i, (s.comps i).pid = cfg.pid i
  current : ∀ i, (i,(s.comps i).currentBallot) ∈ s.held
  held : ∀ i ballot, (i,ballot) ∈ s.held → cfg.owner ballot = cfg.pid i
  ballots : ∀ i, ∀ entry ∈ (s.comps i).ballots, Claimed cfg s.held entry.1 entry.2
  replies : ∀ x ∈ s.net, ∀ pid round ballot, x.msg = .heartbeat (.reply pid round ballot) →
    Claimed cfg s.held ballot pid
  events : ∀ i leader, (i,leader) ∈ s.events → Claimed cfg s.held leader.round leader.pid

theorem Claimed.grow (claimed : Claimed cfg held ballot pid) (more : held ⊆ held') :
    Claimed cfg held' ballot pid := by
  obtain ⟨i,same,listed⟩ := claimed
  exact ⟨i,same,more listed⟩

theorem Owned.claimed_owner {pid : ℕ} (owned : Owned cfg s)
    (claimed : Claimed cfg s.held ballot pid) :
    cfg.owner ballot = pid := by
  obtain ⟨i,rfl,listed⟩ := claimed
  exact owned.held i ballot listed

-- What a component picks its leader from.
theorem Owned.listed {s : System n} (owned : Owned cfg s) {leader : Leader} (listed :
    (leader.round,leader.pid) ∈ (s.comps i).ballots ++ [((s.comps i).currentBallot,(s.comps i).pid)]) :
    Claimed cfg s.held leader.round leader.pid := by
  rcases List.mem_append.mp listed with reply | self
  · exact owned.ballots i _ reply
  · obtain ⟨round,pid⟩ := Prod.mk.inj (List.mem_singleton.mp self)
    rw [round,pid]
    exact ⟨i,(owned.pid i).symm,owned.current i⟩

theorem component_owner (cfg : Config n) (i : Fin n) :
    cfg.owner (cfg.component i).currentBallot = cfg.pid i := by
  have positive := cfg.positive i
  have own : cfg.owner ⟨0,cfg.pid i⟩ = cfg.pid i := by
    unfold Config.owner
    rw [if_neg (by simp only; omega)]
  have chosen : cfg.owner (if cfg.initialLeader.pid = cfg.pid i then cfg.initialLeader.round
      else ⟨0,cfg.pid i⟩) = cfg.pid i := by
    split_ifs with same
    · simpa [Config.owner,Config.initialLeader] using same
    · exact own
  unfold Config.component
  dsimp only
  cases cfg.told i with
  | true => exact chosen
  | false =>
    cases cfg.created i with
    | true => exact chosen
    | false => exact own

theorem component_pid (cfg : Config n) (i : Fin n) : (cfg.component i).pid = cfg.pid i := by
  unfold Config.component
  cases cfg.told i <;> rfl

theorem component_ballots (cfg : Config n) (i : Fin n) : (cfg.component i).ballots = [] := by
  unfold Config.component
  cases cfg.told i <;> rfl

theorem initial_owned (cfg : Config n) : Owned cfg (.initial cfg) where
  pid := component_pid cfg
  current := by
    intro i
    exact List.mem_ofFn.mpr ⟨i,rfl⟩
  held := by
    intro i ballot listed
    obtain ⟨j,same⟩ := List.mem_ofFn.mp listed
    cases same
    exact component_owner cfg _
  ballots := by simp [System.initial,component_ballots]
  replies := by simp [System.initial]
  events := by simp [System.initial]

-- A bumped ballot keeps its pid component, so it keeps its owner.
theorem Turn.owner {c next : BallotLeaderComp} (turn : Turn c next leaders) (cfg : Config n) :
    cfg.owner next.currentBallot = cfg.owner c.currentBallot := by
  cases turn with
  | raised current _ _ =>
    rw [current]
    rfl
  | elected _ _ _ _ _ _ current _ _ => rw [current]
  | kept current _ _ => rw [current]

theorem step_owned (owned : Owned cfg s) (stepped : Stepped cfg s next i input effects) :
    Owned cfg next := by
  have grown : s.held ⊆ next.held := by
    rw [stepped.held]
    exact List.subset_append_left _ _
  have pids : ∀ j, (next.comps j).pid = cfg.pid j := by
    intro j
    by_cases same : j = i
    · subst same
      exact stepped.handled.pid.trans (owned.pid j)
    · rw [stepped.others j same]
      exact owned.pid j
  have now : (i,(next.comps i).currentBallot) ∈ next.held := by
    rw [stepped.held]
    simp
  have added : ∀ entry ∈ reported input, Claimed cfg s.held entry.1 entry.2 := by
    intro entry listed
    match input,listed with
    | .message (.heartbeat (.reply pid round ballot)),listed =>
      cases List.mem_singleton.mp listed
      obtain ⟨x,present,same⟩ := stepped.message _ rfl
      exact owned.replies x present _ _ _ same
  refine ⟨pids,?_,?_,?_,?_,?_⟩
  · intro j
    by_cases same : j = i
    · subst same
      exact now
    · rw [stepped.others j same]
      exact grown (owned.current j)
  · intro j ballot listed
    rw [stepped.held] at listed
    rcases List.mem_append.mp listed with old | new
    · exact owned.held j ballot old
    · cases List.mem_singleton.mp new
      rw [Turn.owner stepped.handled.turn]
      exact owned.held _ _ (owned.current _)
  · intro j entry listed
    by_cases same : j = i
    · subst same
      rcases List.mem_append.mp (stepped.handled.ballots listed) with old | new
      · exact (owned.ballots j entry old).grow grown
      · exact (added entry new).grow grown
    · rw [stepped.others j same] at listed
      exact (owned.ballots j entry listed).grow grown
  · intro x present pid round ballot same
    rcases stepped.net x present with old | ⟨_,told | told⟩
    · exact (owned.replies x old pid round ballot same).grow grown
    · have honest := stepped.handled.honest _ told
      rw [same] at honest
      exact honest.elim
    · have honest := stepped.handled.honest _ told
      rw [same] at honest
      obtain ⟨rfl,rfl⟩ := honest
      exact ⟨i,(pids i).symm,now⟩
  · intro j leader listed
    rw [stepped.events] at listed
    rcases List.mem_append.mp listed with old | new
    · exact (owned.events j leader old).grow grown
    · obtain ⟨fired,triggered,same⟩ := List.mem_map.mp new
      cases same
      refine Claimed.grow ?_ grown
      exact owned.listed (stepped.handled.turn.listed _ triggered)

theorem reached_owned (path : Reached cfg s) : Owned cfg s := by
  induction path with
  | initial => exact initial_owned cfg
  | step _ moved ih =>
    obtain ⟨i,input,effects,stepped⟩ := step_stepped moved
    exact step_owned ih stepped

theorem leader_owner_unique (cfg : Config n) (path : Reached cfg s) :
    (∀ i j left right, (i,left) ∈ s.events → (j,right) ∈ s.events → left.round = right.round →
      left.pid = right.pid) ∧
    ∀ i leader, (i,leader) ∈ s.events → ∃ k, cfg.pid k = leader.pid ∧ (k,leader.round) ∈ s.held := by
  have owned := reached_owned path
  refine ⟨?_,owned.events⟩
  intro i j left right first second same
  have firstOwner := owned.claimed_owner (owned.events i left first)
  have secondOwner := owned.claimed_owner (owned.events j right second)
  rw [← firstOwner,← secondOwner,same]

-- Process 1 is the initial leader and is started late.
def election : Config 3 where
  pid := fun i => i.val + 1
  distinct := by
    intro i j same
    exact Fin.ext (Nat.succ.inj same)
  positive := by simp
  hbDelay := 100
  delta := 10
  initialElectionFactor := 2
  quickTimeout := fun _ => false
  prioStartRound := 5
  leaderPid := 1
  created := fun i => i.val = 0
  told := fun i => i.val ≠ 0

-- One round trip of component `i` with component `j`, then its timeout.
def heartbeat (i j : Fin 3) (round : ℕ) (max ballot : Ballot) : List (Action 3) :=
  [.deliver ⟨i,j,.heartbeat (.request round max)⟩,
    .deliver ⟨j,i,.heartbeat (.reply (j.val + 1) round ballot)⟩,.timeout i]

-- Process 2 misses the initial leader, bumps its ballot and is elected by 2 and 3.
def electionRun (second third : Fin 3) : List (Action 3) :=
  [.start second,.start third] ++ heartbeat second third 0 ⟨5,0⟩ ⟨0,3⟩ ++
    heartbeat second third 1 ⟨5,0⟩ ⟨0,3⟩ ++ heartbeat third second 0 ⟨5,0⟩ ⟨6,2⟩

theorem executed (cfg : Config n) (actions : List (Action n)) (view : System n → α) (result : α)
    (done : (execute cfg (.initial cfg) actions).map view = some result) :
    ∃ s, Reached cfg s ∧ view s = result := by
  obtain ⟨s,ran,same⟩ := Option.map_eq_some_iff.mp done
  exact ⟨s,execute_reached .initial ran,same⟩

theorem election_run_owner : ∃ s, Reached election s ∧
    s.events = [(1,⟨2,⟨6,2⟩⟩),(2,⟨2,⟨6,2⟩⟩)] ∧
    ∃ k, election.pid k = 2 ∧ (k,⟨6,2⟩) ∈ s.held := by
  obtain ⟨s,path,events⟩ := executed election (electionRun 1 2) System.events
    [(1,⟨2,⟨6,2⟩⟩),(2,⟨2,⟨6,2⟩⟩)] (by decide +kernel)
  refine ⟨s,path,events,?_⟩
  exact (leader_owner_unique election path).2 2 ⟨2,⟨6,2⟩⟩ (by simp [events])

-- The initial round of an informed component, then the rounds of its events.
def rounds (cfg : Config n) (s : System n) (i : Fin n) : List Ballot :=
  (if cfg.informed i then [cfg.initialLeader.round] else []) ++ (s.leaders i).map Leader.round

-- The last round is the leader's, if there is one. Without a leader the own
-- ballot has been bumped past every round so far.
structure Rising (cfg : Config n) (s : System n) (i : Fin n) : Prop where
  ordered : (rounds cfg s i).Pairwise (· < ·)
  below : ∀ round ∈ rounds cfg s i, round ≤ (s.comps i).maxBallot
  leader : ∀ ballot pid, (s.comps i).leader = some (ballot,pid) →
    cfg.owner ballot = pid ∧ ballot ≤ (s.comps i).maxBallot ∧
      ∀ round ∈ rounds cfg s i, round ≤ ballot
  none : (s.comps i).leader = none → ∀ round ∈ rounds cfg s i, round < (s.comps i).currentBallot

theorem component_informed (cfg : Config n) (i : Fin n) (known : cfg.informed i) :
    (cfg.component i).leader = some (cfg.initialLeader.round,cfg.initialLeader.pid) ∧
      (cfg.component i).maxBallot = cfg.initialLeader.round := by
  unfold Config.component
  dsimp only
  unfold Config.informed at known
  cases told : cfg.told i with
  | true => exact ⟨rfl,rfl⟩
  | false =>
    rw [told,Bool.or_false] at known
    rw [known]
    exact ⟨rfl,rfl⟩

theorem component_uninformed (cfg : Config n) (i : Fin n) (unknown : ¬ cfg.informed i) :
    (cfg.component i).leader = none := by
  unfold Config.component
  dsimp only
  rw [Config.informed,Bool.or_eq_true,not_or] at unknown
  rw [if_neg unknown.2,if_neg unknown.1]
  rfl

theorem initial_rounds (cfg : Config n) (i : Fin n) : rounds cfg (.initial cfg) i =
    if cfg.informed i then [cfg.initialLeader.round] else [] := by
  simp [rounds,System.leaders,System.initial]

theorem initial_rising (cfg : Config n) (i : Fin n) : Rising cfg (.initial cfg) i := by
  by_cases known : cfg.informed i
  · obtain ⟨leader,greatest⟩ := component_informed cfg i known
    have only : rounds cfg (.initial cfg) i = [cfg.initialLeader.round] := by
      rw [initial_rounds,if_pos known]
    refine ⟨?_,?_,?_,?_⟩
    · rw [only]
      exact List.pairwise_singleton _ _
    · rw [only]
      intro round listed
      cases List.mem_singleton.mp listed
      exact greatest.ge
    · intro ballot pid chosen
      obtain ⟨rfl,rfl⟩ := Prod.mk.inj (Option.some.inj (leader.symm.trans chosen))
      refine ⟨by simp [Config.owner,Config.initialLeader],greatest.ge,?_⟩
      rw [only]
      intro round listed
      exact (List.mem_singleton.mp listed).le
    · intro absent
      cases leader.symm.trans absent
  · have none : rounds cfg (.initial cfg) i = [] := by rw [initial_rounds,if_neg known]
    refine ⟨?_,?_,?_,?_⟩
    · rw [none]
      exact List.Pairwise.nil
    · simp [none]
    · intro ballot pid chosen
      cases (component_uninformed cfg i known).symm.trans chosen
    · simp [none]

theorem Stepped.leaders (stepped : Stepped cfg s next i input effects) :
    rounds cfg next i = rounds cfg s i ++ (effects.filterMap triggered).map Leader.round := by
  unfold rounds System.leaders
  rw [stepped.events,List.filterMap_append,List.map_append,List.append_assoc]
  congr 2
  simp [List.filterMap_map]

theorem Stepped.rounds_others (stepped : Stepped cfg s next i input effects) (other : j ≠ i) :
    rounds cfg next j = rounds cfg s j := by
  unfold rounds System.leaders
  rw [stepped.events,List.filterMap_append,List.map_append]
  simp [List.filterMap_map,other.symm]

-- A ballot is bumped past everything the component has seen.
theorem below_bumped {round top : Ballot} (below : round ≤ top) (c : Ballot) :
    round < {c with n := top.n + 1} := by
  refine lt_of_le_of_lt below ((Ballot.lt_exact _ _).mpr (.inl ?_))
  exact Nat.lt_succ_self _

theorem rising_elected (owned : Owned cfg s) (rising : Rising cfg s i)
    (claimed : Claimed cfg s.held ballot pid) (own : (s.comps i).currentBallot ≤ ballot)
    (above : (s.comps i).maxBallot ≤ ballot) (new : (s.comps i).leader ≠ some (ballot,pid)) :
    ∀ round ∈ rounds cfg s i, round < ballot := by
  intro round listed
  cases chosen : (s.comps i).leader with
  | none => exact lt_of_lt_of_le (rising.none chosen round listed) own
  | some old =>
    obtain ⟨oldBallot,oldPid⟩ := old
    obtain ⟨oldOwner,top,last⟩ := rising.leader oldBallot oldPid chosen
    refine lt_of_le_of_ne ((rising.below round listed).trans above) ?_
    -- The same ballot again would be the same leader again, as its owner is unique.
    rintro rfl
    have same : oldBallot = round := le_antisymm (top.trans above) (last round listed)
    have unique : oldPid = pid := by
      rw [← oldOwner,same]
      exact owned.claimed_owner claimed
    exact new (by rw [chosen,same,unique])

theorem step_rising {s next : System n} (owned : Owned cfg s) (rising : ∀ j, Rising cfg s j)
    (stepped : Stepped cfg s next i input effects) (j : Fin n) : Rising cfg next j := by
  by_cases same : j = i
  · subst same
    have grown := stepped.leaders
    have old := rising j
    have turn := stepped.handled.turn
    have listed := turn.listed
    generalize effects.filterMap triggered = fired at grown turn listed
    cases turn with
    | raised current greatest leader =>
      rw [List.map_nil,List.append_nil] at grown
      refine ⟨by rw [grown]; exact old.ordered,?_,?_,?_⟩
      · rw [grown,greatest]
        exact old.below
      · intro ballot pid chosen
        cases leader.symm.trans chosen
      · intro _
        rw [grown,current]
        intro round earlier
        exact below_bumped (old.below round earlier) _
    | elected ballot pid _ own above new current greatest leader =>
      have claimed : Claimed cfg s.held ballot pid := owned.listed (listed ⟨pid,ballot⟩ (by simp))
      have higher := rising_elected owned old claimed own above new
      have bound : ∀ round ∈ rounds cfg next j, round ≤ ballot := by
        rw [grown]
        intro round earlier
        rcases List.mem_append.mp earlier with before | last
        · exact (higher round before).le
        · exact (List.mem_singleton.mp last).le
      refine ⟨?_,?_,?_,?_⟩
      · rw [grown,List.pairwise_append]
        refine ⟨old.ordered,List.pairwise_singleton _ _,?_⟩
        intro round before last listed
        cases List.mem_singleton.mp listed
        exact higher round before
      · rw [greatest]
        exact bound
      · intro ballot' pid' chosen
        cases leader.symm.trans chosen
        exact ⟨owned.claimed_owner claimed,greatest.ge,bound⟩
      · intro absent
        cases leader.symm.trans absent
    | kept current greatest leader =>
      rw [List.map_nil,List.append_nil] at grown
      refine ⟨by rw [grown]; exact old.ordered,?_,?_,?_⟩
      · rw [grown]
        intro round earlier
        exact (old.below round earlier).trans greatest
      · rw [leader,grown]
        intro ballot pid chosen
        obtain ⟨owner,top,last⟩ := old.leader ballot pid chosen
        exact ⟨owner,top.trans greatest,last⟩
      · rw [leader,grown,current]
        exact old.none
  · have old := rising j
    have grown := stepped.rounds_others same
    have unchanged := stepped.others j same
    refine ⟨?_,?_,?_,?_⟩
    all_goals rw [grown]
    · exact old.ordered
    · rw [unchanged]
      exact old.below
    · rw [unchanged]
      exact old.leader
    · rw [unchanged]
      exact old.none

theorem reached_rising (path : Reached cfg s) : ∀ i, Rising cfg s i := by
  induction path with
  | initial => exact initial_rising cfg
  | step before moved ih =>
    obtain ⟨i,input,effects,stepped⟩ := step_stepped moved
    exact step_rising (reached_owned before) ih stepped

theorem leader_ballots_increase (cfg : Config n) (path : Reached cfg s) (i : Fin n) :
    ((s.leaders i).map Leader.round).Pairwise (· < ·) ∧
      (cfg.informed i → ∀ leader ∈ s.leaders i, cfg.initialLeader.round < leader.round) := by
  have ordered := (reached_rising path i).ordered
  unfold rounds at ordered
  obtain ⟨_,events,across⟩ := List.pairwise_append.mp ordered
  refine ⟨events,?_⟩
  intro known leader listed
  exact across _ (by simp [known]) _ (List.mem_map_of_mem listed)

theorem election_run_rising : ∃ s, Reached election s ∧
    s.leaders 2 = [⟨2,⟨6,2⟩⟩,⟨3,⟨7,3⟩⟩] ∧ (⟨6,2⟩ : Ballot) < ⟨7,3⟩ ∧ (⟨5,0⟩ : Ballot) < ⟨6,2⟩ := by
  obtain ⟨s,path,leaders⟩ := executed election
    (electionRun 1 2 ++ [.start 0] ++ heartbeat 2 0 1 ⟨6,2⟩ ⟨5,0⟩ ++ heartbeat 2 0 2 ⟨6,2⟩ ⟨5,0⟩)
    (System.leaders · 2) [⟨2,⟨6,2⟩⟩,⟨3,⟨7,3⟩⟩] (by decide +kernel)
  obtain ⟨ordered,above⟩ := leader_ballots_increase election path 2
  rw [leaders] at ordered above
  refine ⟨s,path,leaders,?_,above rfl _ List.mem_cons_self⟩
  exact List.rel_of_pairwise_cons ordered (by simp)

end KompicsBenches.LeaderElection
