import KompicsBenches.SequenceRuns

namespace KompicsBenches.ActivePeers
open Segments ReconfigComp ReconfigSystem ReconfigInvariant SequenceCollect SequenceNode SequenceOpen
open SequenceRuns

-- The senders of the ReconfigInits that a node has handled, oldest first.
def initSender : ReconfigurationMsg → Option ℕ
  | .init r => some r.sender
  | _ => none

def senders (inbox : List ReconfigurationMsg) : List ℕ := inbox.filterMap initSender

-- The ready and the unready peers are the continued nodes, split by whether their
-- ReconfigInit has been handled.
structure Partition (cfg : Config) (handled : List ℕ) (peers : List ℕ × List ℕ) : Prop where
  disjoint : peers.1.Disjoint peers.2
  readyDistinct : peers.1.Nodup
  unreadyDistinct : peers.2.Nodup
  members : ∀ q, q ∈ peers.1 ∨ q ∈ peers.2 ↔ q ∈ cfg.continuedNodes
  known : ∀ q ∈ cfg.continuedNodes, q ∈ peers.1 ↔ q ∈ handled

-- After the first ReconfigInit and before the replica starts.
def Waiting (s : System) (p : ℕ) : Prop :=
  senders (s.inbox p) ≠ [] ∧ (s.comps p).activeConfig.id < 2

def Partitioned (cfg : Config) (p : ℕ) (s : System) : Prop :=
  Waiting s p → Partition cfg (senders (s.inbox p)) (s.comps p).activePeers

-- No ReconfigInit but the first one has come from a continued node.
def FirstOnly (cfg : Config) (p : ℕ) (s : System) : Prop :=
  ∀ q ∈ (senders (s.inbox p)).tail, q ∉ cfg.continuedNodes

-- The states of a run, latest first.
inductive Run (cfg : Config) : List System → Prop where
  | start : Run cfg [.initial cfg]
  | step : Run cfg (s :: earlier) → step cfg s action = some next → Run cfg (next :: s :: earlier)

theorem Run.reached (run : Run cfg states) : ∀ s ∈ states, Reached cfg s := by
  induction run with
  | start =>
    intro s listed
    cases List.mem_singleton.mp listed
    exact .initial
  | step _ moved ih =>
    intro s listed
    rcases List.mem_cons.mp listed with rfl | before
    · exact (ih _ List.mem_cons_self).step moved
    · exact ih s before

variable {cfg : Config} {c next : PaxosComp} {effects : List Effect}

theorem start_peers (done : c.startReplica configId = some (next,effects)) :
    next.activePeers = c.activePeers := by
  obtain ⟨_,rfl,_⟩ := startReplica_eq done
  rfl

theorem run_peers (done : c.receiveRun = some (next,effects)) :
    next.activePeers = c.activePeers := by
  unfold PaxosComp.receiveRun at done
  split at done
  · exact start_peers done
  · cases done
    rfl

theorem leader_peers (done : c.receiveLeader configId pid = (next,effects)) :
    next.activePeers = c.activePeers := by
  unfold PaxosComp.receiveLeader at done
  split at done
  all_goals
    cases done
    rfl

theorem stop_peers (done : c.stopComponents = some (next,effects)) :
    next.activePeers = c.activePeers := by
  rcases stopComponents_eq done with ⟨rfl,_,_,_⟩ | ⟨configId,started,begun,_⟩
  · rfl
  · have same := start_peers begun
    exact same

theorem retry_peers (done : c.retryRequestSequence configId seqLen total = some (next,effects)) :
    next.activePeers = c.activePeers := by
  unfold PaxosComp.retryRequestSequence at done
  split at done
  · cases done
    rfl
  · split at done
    · cases done
    · cases done
      rfl

theorem pull_peers (done : c.pullSequence configId seqLen skip = some (next,effects)) :
    next.activePeers = c.activePeers := by
  unfold PaxosComp.pullSequence at done
  dsimp only at done
  split at done
  · cases done
  · obtain ⟨expected,set,same⟩ := Option.map_eq_some_iff.mp done
    cases same
    obtain ⟨_,_,rfl⟩ := expected_spec set
    rfl

theorem previous_peers (done : c.pullPrevious metadata = some (next,effects)) :
    next.activePeers = c.activePeers := by
  unfold PaxosComp.pullPrevious at done
  split at done
  · split at done
    · exact pull_peers done
    · cases done
      rfl
  · cases done
    rfl

theorem complete_peers (done : c.completeTransfer configId = some (next,effects)) :
    next.activePeers = c.activePeers := by
  unfold PaxosComp.completeTransfer at done
  obtain ⟨⟨rem,sequence⟩,_,rest⟩ := Option.bind_eq_some_iff.mp done
  dsimp only at rest
  split at rest
  · obtain ⟨configId,_,last⟩ := Option.bind_eq_some_iff.mp rest
    split at last
    · have same := start_peers last
      exact same
    · cases last
      rfl
  · cases rest
    rfl

theorem transfer_peers (done : c.handleSequenceTransfer st rnd = some (next,effects)) :
    next.activePeers = c.activePeers := by
  unfold PaxosComp.handleSequenceTransfer at done
  split at done
  · cases done
    rfl
  · obtain ⟨⟨pulled,asked⟩,previous,rest⟩ := Option.bind_eq_some_iff.mp done
    have same := previous_peers previous
    dsimp only at rest
    split at rest
    · obtain ⟨filled,appended,last⟩ := Option.bind_eq_some_iff.mp rest
      obtain ⟨⟨ended,started⟩,completed,equal⟩ := Option.map_eq_some_iff.mp last
      cases equal
      rw [complete_peers completed,← same]
      obtain ⟨⟨rem,sequence⟩,_,written⟩ := Option.bind_eq_some_iff.mp appended
      obtain ⟨out,_,rfl⟩ := Option.map_eq_some_iff.mp written
      rfl
    · split at rest
      · cases rest
        exact same
      · obtain ⟨q,_,equal⟩ := Option.map_eq_some_iff.mp rest
        cases equal
        exact same

theorem open_peers (none : c.activePeers = ([],[])) (good : GoodInit cfg r)
    (done : c.openTransfer r rnd = some (next,effects)) :
    next.activePeers = (ready cfg r.sender,unready cfg r.sender) := by
  unfold PaxosComp.openTransfer at done
  obtain ⟨prepared,_,rest⟩ := Option.bind_eq_some_iff.mp done
  dsimp only at rest
  rw [none,good.nodes] at rest
  simp only [List.nil_append] at rest
  split at rest
  · obtain ⟨⟨ended,started⟩,begun,same⟩ := Option.map_eq_some_iff.mp rest
    cases same
    exact start_peers begun
  · obtain ⟨tag,_,rest⟩ := Option.bind_eq_some_iff.mp rest
    obtain ⟨⟨middle,asked⟩,asking,rest⟩ := Option.bind_eq_some_iff.mp rest
    have set : middle.activePeers = (ready cfg r.sender,unready cfg r.sender) := by
      split at asking
      · exact pull_peers asking
      · obtain ⟨expected,set,same⟩ := Option.map_eq_some_iff.mp asking
        cases same
        obtain ⟨_,_,rfl⟩ := expected_spec set
        rfl
    dsimp only at rest
    split at rest
    · obtain ⟨⟨ended,handled⟩,transferred,same⟩ := Option.map_eq_some_iff.mp rest
      cases same
      rw [transfer_peers transferred,set]
    · cases rest
      exact set

-- What a ReconfigInit does to the peers of a new node.
theorem init_peers {inbox : List ReconfigurationMsg} (good : NewGood cfg inbox c)
    (init : GoodInit cfg r) (early : c.activeConfig.id < 2)
    (done : c.receiveInit r rnd = some (next,effects)) :
    (opening inbox = [] ∧ next.activePeers = (ready cfg r.sender,unready cfg r.sender)) ∨
      (opening inbox ≠ [] ∧ next.activeConfig = c.activeConfig ∧
        next.activePeers = if r.sender ∈ cfg.continuedNodes then
          (c.activePeers.1 ++ [r.sender],c.activePeers.2.filter (· = r.sender))
        else c.activePeers) := by
  unfold PaxosComp.receiveInit at done
  split at done
  · rename_i stopped
    have := good.frame.halted stopped
    omega
  · rw [init.config,if_neg (by omega)] at done
    cases good.phase with
    | idle waiting active peers complete absent fresh =>
      rw [waiting] at done
      exact .inl ⟨fresh,open_peers peers init done⟩
    | collecting first rest rem buffer waiting active complete absent shape pending held =>
      rw [waiting,init.nodes] at done
      refine .inr ⟨by simp [shape],?_⟩
      dsimp only at done
      by_cases known : r.sender ∈ cfg.continuedNodes
      · rw [if_pos ⟨rfl,known⟩] at done
        cases done
        rw [if_pos known]
        exact ⟨rfl,rfl⟩
      · rw [if_neg (fun both => known both.2)] at done
        cases done
        rw [if_neg known]
        exact ⟨rfl,rfl⟩
    | started waiting active verdicts => omega

theorem senders_opening (inbox : List ReconfigurationMsg) :
    senders inbox = [] ↔ opening inbox = [] := by
  induction inbox with
  | nil => simp [senders,opening]
  | cons msg rest ih =>
    cases msg with
    | init r => simp [senders,opening,initSender,isInit]
    | sequenceRequest sr => simpa [senders,opening,initSender,isInit] using ih
    | sequenceTransfer st => simpa [senders,opening,initSender,isInit] using ih

-- The three things that a step can do to the peers of a new node.
inductive PeersStep (cfg : Config) (p : ℕ) (s next : System) : Prop where
  | kept : senders (next.inbox p) = senders (s.inbox p) →
      (next.comps p).activePeers = (s.comps p).activePeers → PeersStep cfg p s next
  | first (sender : ℕ) : senders (s.inbox p) = [] → senders (next.inbox p) = [sender] →
      (next.comps p).activePeers = (ready cfg sender,unready cfg sender) → PeersStep cfg p s next
  | later (sender : ℕ) : senders (s.inbox p) ≠ [] →
      senders (next.inbox p) = senders (s.inbox p) ++ [sender] →
      (next.comps p).activeConfig.id < 2 →
      (next.comps p).activePeers = (if sender ∈ cfg.continuedNodes then
        ((s.comps p).activePeers.1 ++ [sender],(s.comps p).activePeers.2.filter (· = sender))
      else (s.comps p).activePeers) → PeersStep cfg p s next

theorem commit_kept {s middle : System} (comps : middle.comps = s.comps)
    (inboxes : middle.inbox = s.inbox)
    (same : result.1.activePeers = (s.comps q).activePeers) :
    PeersStep cfg p s (middle.commit q result) := by
  refine .kept (by rw [← inboxes]; rfl) ?_
  by_cases here : p = q
  · subst here
    simpa [System.commit] using same
  · simp [System.commit,Function.update_of_ne here,comps]

theorem senders_more (inbox : List ReconfigurationMsg) (msg : ReconfigurationMsg) :
    senders (inbox ++ [msg]) = senders inbox ++ (initSender msg).toList := by
  unfold senders
  rw [List.filterMap_append]
  cases msg <;> rfl

theorem deliver_peers {s : System} (sound : Sound cfg s) (new : p ∈ cfg.newNodes)
    (present : x ∈ s.net)
    (done : (s.comps x.dst).receiveNetwork x.msg x.src rnd = some result) :
    PeersStep cfg p s (({s with net := s.net.erase x}.record x).commit x.dst result) := by
  have packet := sound.net x present
  have fields := record_fields {s with net := s.net.erase x} x
  by_cases here : p = x.dst
  · subst here
    have good := sound.new _ new
    have node : ((({s with net := s.net.erase x}.record x).commit x.dst result).comps x.dst) =
        result.1 := by simp [System.commit]
    by_cases early : (s.comps x.dst).activeConfig.id < 2
    · have inbox : senders (({s with net := s.net.erase x}.record x).inbox x.dst) =
          senders (s.inbox x.dst) ++ (initSender x.msg).toList := by
        rw [record_inbox {s with net := s.net.erase x} x early,senders_more]
      obtain ⟨src,dst,msg⟩ := x
      obtain ⟨next,effects⟩ := result
      cases msg with
      | init r =>
        rcases init_peers good packet.2 early done with ⟨fresh,peers⟩ | ⟨begun,same,peers⟩
        · rw [← senders_opening] at fresh
          rw [fresh] at inbox
          exact .first r.sender fresh inbox (by rw [node,peers])
        · rw [ne_eq,← senders_opening] at begun
          refine .later r.sender begun inbox ?_ (by rw [node,peers])
          rw [node,same]
          exact early
      | sequenceRequest sr => exact (continued_not_new packet.2.1 new).elim
      | sequenceTransfer st =>
        refine .kept (inbox.trans (List.append_nil _)) ?_
        rw [node]
        unfold PaxosComp.receiveNetwork at done
        dsimp only at done
        split at done
        · cases done
          rfl
        · exact transfer_peers done
    · obtain ⟨same,_⟩ := network_ignored good new packet (not_lt.mp early) done
      refine .kept ?_ (by rw [node,same])
      change senders (({s with net := s.net.erase x}.record x).inbox x.dst) = _
      rw [record_late {s with net := s.net.erase x} x (not_lt.mp early)]
  · refine .kept ?_ ?_
    · change senders (({s with net := s.net.erase x}.record x).inbox p) = _
      rw [record_other _ _ here]
    · simp [System.commit,Function.update_of_ne here,fields.1]

theorem step_peers {s next : System} (sound : Sound cfg s) (new : p ∈ cfg.newNodes)
    (moved : step cfg s action = some next) : PeersStep cfg p s next := by
  cases action with
  | run q =>
    obtain ⟨result,done,rfl⟩ := Option.map_eq_some_iff.mp moved
    exact commit_kept rfl rfl (run_peers done)
  | leader q configId pid =>
    cases moved
    exact commit_kept rfl rfl (leader_peers rfl)
  | reconfig q =>
    dsimp only [step] at moved
    split at moved
    · rename_i allowed
      obtain ⟨result,done,rfl⟩ := Option.map_eq_some_iff.mp moved
      have other : p ≠ q := by
        rintro rfl
        exact initial_not_new allowed.1 new
      refine .kept rfl ?_
      simp [System.commit,Function.update_of_ne other]
    · cases moved
  | deliver x rnd =>
    dsimp only [step] at moved
    split at moved
    · rename_i present
      obtain ⟨result,done,rfl⟩ := Option.map_eq_some_iff.mp moved
      exact deliver_peers sound new present done
    · cases moved
  | answer x succeeded =>
    dsimp only [step] at moved
    split at moved
    · obtain ⟨entries,_,rfl⟩ := Option.map_eq_some_iff.mp moved
      exact commit_kept rfl rfl rfl
    · cases moved
  | retry q configId =>
    obtain ⟨⟨seqLen,total⟩,_,fired⟩ := Option.bind_eq_some_iff.mp moved
    obtain ⟨result,done,rfl⟩ := Option.map_eq_some_iff.mp fired
    have same := retry_peers done
    exact commit_kept rfl rfl same
  | stop q =>
    obtain ⟨result,done,rfl⟩ := Option.map_eq_some_iff.mp moved
    exact commit_kept rfl rfl (stop_peers done)

-- As long as only the first ReconfigInit came from a continued node, the peers
-- are as that one has set them.
theorem reached_split {s : System} (path : Reached cfg s) (new : p ∈ cfg.newNodes)
    (handled : senders (s.inbox p) = sender :: rest) (only : FirstOnly cfg p s) :
    (s.comps p).activePeers = (ready cfg sender,unready cfg sender) := by
  induction path generalizing rest with
  | initial => simp [System.initial,senders] at handled
  | @step s action next before moved ih =>
    cases step_peers (reached_sound before) new moved with
    | kept same peers =>
      rw [peers]
      exact ih (same ▸ handled) (by unfold FirstOnly; rw [← same]; exact only)
    | first sender' _ now peers =>
      cases now.symm.trans handled
      exact peers
    | later sender' begun now _ peers =>
      obtain ⟨first,earlier,shape⟩ := List.exists_cons_of_ne_nil begun
      rw [shape] at now
      cases now.symm.trans handled
      have outside : ∀ q ∈ earlier ++ [sender'], q ∉ cfg.continuedNodes := by
        intro q listed
        refine only q ?_
        rw [handled]
        exact listed
      rw [peers,if_neg (outside sender' (by simp))]
      refine ih shape ?_
      intro q listed
      rw [shape] at listed
      exact outside q (List.mem_append_left _ listed)

theorem split_partition (cfg : Config) (sender : ℕ) (outside : ∀ q ∈ rest, q ∉ cfg.continuedNodes) :
    Partition cfg (sender :: rest) (ready cfg sender,unready cfg sender) where
  disjoint := by
    intro q left right
    have same := (List.mem_filter.mp left).2
    have other := (List.mem_filter.mp right).2
    simp only [decide_eq_true_eq] at same other
    exact other same
  readyDistinct := (continued_distinct cfg).filter _
  unreadyDistinct := (continued_distinct cfg).filter _
  members := by
    intro q
    simp only [ready,unready,List.mem_filter,decide_eq_true_eq]
    tauto
  known := by
    intro q member
    simp only [ready,List.mem_filter,decide_eq_true_eq,List.mem_cons]
    constructor
    · rintro ⟨_,same⟩
      exact .inl same
    · rintro (same | listed)
      · exact ⟨member,same⟩
      · exact (outside q listed member).elim

-- `retain` keeps the sender among the unready peers and adds it to the ready ones.
theorem retain_breaks (cfg : Config) (first : ℕ) (member : sender ∈ cfg.continuedNodes) :
    ¬Partition cfg handled
      (ready cfg first ++ [sender],(unready cfg first).filter (· = sender)) := by
  intro partition
  by_cases same : sender = first
  · subst same
    have distinct := partition.readyDistinct
    rw [ready_continued,if_pos member] at distinct
    simp at distinct
  · refine partition.disjoint (a := sender) (by simp) ?_
    simp [unready,member,same]

theorem peers_partition_exact (run : Run cfg states) (new : p ∈ cfg.newNodes) :
    (∀ s ∈ states, Partitioned cfg p s) ↔ ∀ s ∈ states, FirstOnly cfg p s := by
  constructor
  · intro partitioned
    induction run with
    | start =>
      intro s listed
      cases List.mem_singleton.mp listed
      simp [FirstOnly,System.initial,senders]
    | @step s earlier action next before moved ih =>
      have only := ih fun s listed => partitioned s (List.mem_cons_of_mem _ listed)
      have path := before.reached s List.mem_cons_self
      refine List.forall_mem_cons.mpr ⟨?_,only⟩
      have firstOnly := only s List.mem_cons_self
      cases step_peers (reached_sound path) new moved with
      | kept same _ =>
        unfold FirstOnly
        rw [same]
        exact firstOnly
      | first sender _ now _ =>
        unfold FirstOnly
        simp [now]
      | later sender begun now early peers =>
        obtain ⟨first,rest,shape⟩ := List.exists_cons_of_ne_nil begun
        have waiting : Waiting next p := ⟨by simp [now],early⟩
        have partition := partitioned next List.mem_cons_self waiting
        have outside : sender ∉ cfg.continuedNodes := by
          intro member
          rw [peers,if_pos member,reached_split path new shape firstOnly] at partition
          exact retain_breaks cfg first member partition
        unfold FirstOnly at firstOnly ⊢
        rw [shape] at firstOnly
        rw [now,shape]
        intro q listed
        rcases List.mem_append.mp listed with old | last
        · exact firstOnly q old
        · cases List.mem_singleton.mp last
          exact outside
  · intro only s listed waiting
    obtain ⟨first,rest,shape⟩ := List.exists_cons_of_ne_nil waiting.1
    have firstOnly := only s listed
    rw [reached_split (run.reached s listed) new shape firstOnly]
    unfold FirstOnly at firstOnly
    rw [shape] at firstOnly ⊢
    exact split_partition cfg first firstOnly

def recorded (cfg : Config) : List System → List Action → Option (List System)
  | states,[] => some states
  | [],_ => none
  | s :: earlier,action :: rest =>
    (step cfg s action).bind fun next => recorded cfg (next :: s :: earlier) rest

theorem recorded_run (run : Run cfg states) (done : recorded cfg states actions = some all) :
    Run cfg all := by
  induction actions generalizing states with
  | nil =>
    unfold recorded at done
    cases done
    exact run
  | cons action rest ih =>
    cases states with
    | nil => cases done
    | cons s earlier =>
      obtain ⟨next,moved,more⟩ := Option.bind_eq_some_iff.mp done
      exact ih (run.step moved) more

instance (cfg : Config) (p : ℕ) (s : System) : Decidable (FirstOnly cfg p s) :=
  inferInstanceAs (Decidable (∀ q ∈ (senders (s.inbox p)).tail, q ∉ cfg.continuedNodes))

instance (s : System) (p : ℕ) : Decidable (Waiting s p) :=
  inferInstanceAs (Decidable (_ ∧ _))

-- Node 3, which leaves, reports the stop sign after node 1.
def leavingRun : List Action :=
  decided 1 [1,3] ++ [.deliver (initOf (replace .pull 3) 1 (some ⟨0,2,[first,second]⟩)) 0,
    .deliver (initOf (replace .pull 3) 3 none) 0]

theorem leaving_run_partitioned : ∃ states s, Run (replace .pull 3) states ∧ s ∈ states ∧
    Waiting s 4 ∧ Partition (replace .pull 3) (senders (s.inbox 4)) (s.comps 4).activePeers := by
  obtain ⟨states,done,view⟩ := Option.map_eq_some_iff.mp
    (show (recorded (replace .pull 3) [.initial (replace .pull 3)] leavingRun).map (fun states =>
      (states.all fun s => decide (FirstOnly (replace .pull 3) 4 s),
        states.any fun s => decide (Waiting s 4))) = some (true,true) by decide +kernel)
  have run := recorded_run .start done
  simp only [Prod.mk.injEq,List.all_eq_true,List.any_eq_true,decide_eq_true_eq] at view
  obtain ⟨only,s,listed,waiting⟩ := view
  exact ⟨states,s,run,listed,waiting,
    (peers_partition_exact run (by decide)).mpr only s listed waiting⟩

-- The second continued node is ready and unready.
theorem peers_not_partitioned : ¬∀ (cfg : Config) (s : System) (p : ℕ), Reached cfg s →
    p ∈ cfg.newNodes → Partitioned cfg p s := by
  intro partitioned
  obtain ⟨s,path,view⟩ := executed (replace .pull 3)
    (decided 1 [1,2] ++ [.deliver (initOf (replace .pull 3) 1 (some ⟨0,2,[first,second]⟩)) 0,
      .deliver (initOf (replace .pull 3) 2 none) 0])
    (fun s => (decide (Waiting s 4),(s.comps 4).activePeers)) (true,[1,2],[2]) (by decide +kernel)
  simp only [Prod.mk.injEq,decide_eq_true_eq] at view
  have disjoint := (partitioned _ s 4 path (by decide) view.1).disjoint
  rw [view.2] at disjoint
  exact disjoint (a := 2) (by decide) (by decide)

end KompicsBenches.ActivePeers
