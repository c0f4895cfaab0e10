import KompicsBenches.IdentifyHandshake

namespace KompicsBenches.IdentifyHandshake

open GuardedRuns

variable {ι : Type} [DecidableEq ι] {actors : List ι} {ids : ℕ → ℤ} {s next : System ι}

theorem start_inv (some_actor : actors ≠ []) : Inv actors ids System.start where
  flow := Flow.start actors
  nodes := by
    constructor <;> simp [System.start,Node.start,arrived]
  acks := by
    have none_complete (i : ι) (r : ℕ) : ¬Complete actors [] i r := by
      intro complete
      obtain ⟨j,member⟩ := List.exists_mem_of_ne_nil actors some_actor
      cases complete j member
    constructor <;> simp [System.start,none_complete]
  work := by
    constructor <;> simp [System.start,Node.start]

-- A run that is called for has begun, and each node has had its `Init`.
theorem Inv.running (inv : Inv actors ids s) (ran : (s.master (s.begun - 1)).ran = true) :
    0 < s.begun ∧ ∀ i ∈ actors, (s.node i).master = some (s.begun - 1) := by
  have begun : 0 < s.begun := by
    by_contra early
    rw [inv.work.fresh _ (by omega)] at ran
    cases ran
  refine ⟨begun,?_⟩
  intro i member
  have own := inv.work.ran ran i member i member
  exact (inv.nodes.known begun i member (inv.flow.known own).2.2.2.1).2.1

theorem Inv.settled (inv : Inv actors ids s) (some_actor : actors ≠ [])
    (ended : s.begun = 0 ∨ (s.master (s.begun - 1)).doneCount = actors.length) :
    (∀ r < s.begun, ∀ i ∈ actors, Complete actors s.heard i r) ∧
      s.net.countP Letter.isRun = 0 ∧ s.net.countP Letter.isDone = 0 ∧
        actors.countP (fun i => (s.node i).working) = 0 := by
  have bound := inv.work.bound
  rcases ended with early | full
  · rw [inv.work.fresh (s.begun - 1) (by omega)] at bound
    simp only [Bool.false_eq_true,if_false] at bound
    refine ⟨?_,by omega,by omega,by omega⟩
    intro r present
    omega
  · have some_length := List.length_pos_iff.mpr some_actor
    split at bound
    · rename_i ran
      refine ⟨?_,by omega,by omega,by omega⟩
      intro r present i member
      by_cases last : r = s.begun - 1
      · subst last
        exact inv.work.ran ran i member
      · exact inv.work.past r (by omega) i member
    · omega

theorem Flow.none_arrived {net : List (Letter ι)} {heard : List (ι × Heard ι)} {begun : ℕ}
    (flow : Flow actors net heard begun) (later : begun ≤ r) (i : ι) : arrived heard i r = [] := by
  rw [List.eq_nil_iff_forall_not_mem]
  intro entry found
  obtain ⟨rfl,entered⟩ := mem_arrived.mp found
  have early := (flow.known entered).2.2.1
  omega

theorem Flow.none_complete {net : List (Letter ι)} {heard : List (ι × Heard ι)} {begun : ℕ}
    (flow : Flow actors net heard begun) (some_actor : actors ≠ []) (later : begun ≤ r) (i : ι) :
    ¬Complete actors heard i r := by
  intro complete
  obtain ⟨j,member⟩ := List.exists_mem_of_ne_nil actors some_actor
  have early := (flow.known (complete j member)).2.2.1
  omega

theorem begin_inv (inv : Inv actors ids s) (distinct : actors.Nodup) (some_actor : actors ≠ [])
    (done : begin actors s = some next) : Inv actors ids next := by
  unfold begin at done
  split at done
  · rename_i ended
    cases done
    obtain ⟨complete,no_runs,no_dones,no_workers⟩ := inv.settled some_actor ended
    have others (p : Letter ι → Bool) (apart : ∀ i, p (.init s.begun i) = false) :
        (s.net ++ actors.map (Letter.init s.begun)).countP p = s.net.countP p := by
      rw [List.countP_append,Nat.add_eq_left,List.countP_eq_zero]
      intro letter found
      obtain ⟨i,_,rfl⟩ := List.mem_map.mp found
      simp [apart i]
    refine ⟨inv.flow.begins distinct,?_,?_,?_⟩
    · constructor
      · intro i member
        dsimp only
        rw [Nat.add_sub_cancel,if_neg (inv.flow.none_complete some_actor (le_refl _) i),
          inv.flow.none_arrived (le_refl _) i,inv.nodes.buffer i member]
        split
        · rfl
        · rename_i partly
          rcases Nat.eq_zero_or_pos s.begun with early | begun
          · exact inv.flow.none_arrived (by omega) i
          · exact absurd (complete (s.begun - 1) (by omega) i member) partly
      · exact inv.nodes.size
      · intro _ i member waiting
        have sent : Letter.init s.begun i ∈ s.net ++ actors.map (Letter.init s.begun) :=
          List.mem_append_right _ (List.mem_map_of_mem member)
        exact absurd sent waiting
      · intro i _ complete
        exact absurd complete (inv.flow.none_complete some_actor (le_refl _) i)
    · constructor
      · exact inv.acks.sent
      · intro r
        dsimp only
        rw [others _ (by simp [Letter.isAck])]
        exact inv.acks.counted r
    · constructor
      · intro r present
        exact complete r (by dsimp only at present; omega)
      · intro ran
        dsimp only at ran
        rw [Nat.add_sub_cancel,inv.work.fresh _ (le_refl _)] at ran
        cases ran
      · intro r later
        exact inv.work.fresh r (by dsimp only at later; omega)
      · dsimp only
        rw [others _ (by simp [Letter.isRun]),others _ (by simp [Letter.isDone]),Nat.add_sub_cancel,
          inv.work.fresh _ (le_refl _),no_runs,no_dones,no_workers]
        simp
      · intro i r sent
        rw [List.mem_append] at sent
        rcases sent with old | new
        · rw [List.countP_eq_zero] at no_dones
          exact absurd rfl (no_dones _ old)
        · simp at new
      · exact inv.work.workers
      · intro r i sent
        rw [List.mem_append] at sent
        rcases sent with old | new
        · exact inv.work.runs r i old
        · simp at new
  · cases done

-- The steps from the acknowledgements to the last `Done` touch of a node only
-- whether it works.
theorem Nodes.same {node : ι → Node ι} {master : ℕ → PartitioningActor} {net : List (Letter ι)}
    (nodes : Nodes actors ids s) (fields : ∀ i, ∃ working, node i = { s.node i with working := working })
    (inits : ∀ r i, Letter.init r i ∈ s.net → Letter.init r i ∈ net) :
    Nodes actors ids { s with node := node, master := master, net := net } where
  buffer i member := by
    obtain ⟨working,same⟩ := fields i
    dsimp only
    rw [same]
    exact nodes.buffer i member
  size i := by
    obtain ⟨working,same⟩ := fields i
    dsimp only
    rw [same]
    exact nodes.size i
  known begun i member waiting := by
    obtain ⟨working,same⟩ := fields i
    dsimp only
    rw [same]
    exact nodes.known begun i member fun sent => waiting (inits _ _ sent)
  nodes i member complete := by
    obtain ⟨working,same⟩ := fields i
    dsimp only
    rw [same]
    exact nodes.nodes i member complete

theorem only_working (node : ι → Node ι) (working : Bool) (i j : ι) :
    ∃ now, Function.update node i { node i with working := working } j = { node j with working := now } := by
  by_cases here : j = i
  · subst here
    exact ⟨working,Function.update_self ..⟩
  · exact ⟨(node j).working,Function.update_of_ne here ..⟩

omit [DecidableEq ι] in
-- What a step does to the work of the last run: it leaves the masters of later runs alone,
-- and new work belongs to the actors and to that run.
theorem Work.moved {node : ι → Node ι} {master : ℕ → PartitioningActor} {net : List (Letter ι)} (work : Work actors s)
    (ran : (master (s.begun - 1)).ran = true → ∀ i ∈ actors, Complete actors s.heard i (s.begun - 1))
    (later : ∀ r, s.begun ≤ r → master r = s.master r)
    (bound : net.countP Letter.isRun + actors.countP (fun i => (node i).working) + net.countP Letter.isDone +
      (master (s.begun - 1)).doneCount ≤ if (master (s.begun - 1)).ran then actors.length else 0)
    (current : ∀ i r, Letter.done i r ∈ net → Letter.done i r ∈ s.net ∨ r + 1 = s.begun)
    (workers : ∀ i, (node i).working = true → (s.node i).working = true ∨ i ∈ actors)
    (runs : ∀ r i, Letter.run r i ∈ net → Letter.run r i ∈ s.net ∨ i ∈ actors) :
    Work actors { s with node := node, master := master, net := net } where
  past := work.past
  ran := ran
  fresh r due := (later r due).trans (work.fresh r due)
  bound := bound
  current i r sent := (current i r sent).elim (work.current i r) id
  workers i works := (workers i works).elim (work.workers i) id
  runs r i sent := (runs r i sent).elim (work.runs r i) id

theorem working_member (node : ι → Node ι) (working : Bool) (member : i ∈ actors) (j : ι)
    (works : (Function.update node i { node i with working := working } j).working = true) :
    (node j).working = true ∨ j ∈ actors := by
  by_cases here : j = i
  · exact .inr (here ▸ member)
  · rw [Function.update_of_ne here] at works
    exact .inl works

theorem startRun_inv (inv : Inv actors ids s) (done : startRun actors s = some next) : Inv actors ids next := by
  unfold startRun at done
  dsimp only at done
  split at done
  · rename_i ready
    obtain ⟨begun,acked,not_ran⟩ := ready
    cases done
    have complete : ∀ i ∈ actors, Complete actors s.heard i (s.begun - 1) := by
      have counted := inv.acks.counted (s.begun - 1)
      have most := List.countP_le_length (p := fun i => decide (Complete actors s.heard i (s.begun - 1))) (l := actors)
      have all : (actors.countP fun i => Complete actors s.heard i (s.begun - 1)) = actors.length := by omega
      intro i member
      exact of_decide_eq_true (List.countP_eq_length.mp all i member)
    have bound := inv.work.bound
    rw [not_ran] at bound
    simp only [Bool.false_eq_true,if_false] at bound
    have no_dones : (actors.map (Letter.run (s.begun - 1))).countP Letter.isDone = 0 := by
      rw [List.countP_map,List.countP_eq_zero]
      simp [Letter.isDone]
    refine ⟨?_,?_,?_,?_⟩
    · apply inv.flow.same
      · intro r j
        rw [List.count_append,count_apart (by simp),Nat.add_zero]
      · intro j i r
        rw [List.count_append,count_apart (by simp),Nat.add_zero]
    · apply inv.nodes.same
      · intro i
        exact ⟨(s.node i).working,rfl⟩
      · intro r i sent
        exact List.mem_append_left _ sent
    · refine ⟨inv.acks.sent,?_⟩
      intro r
      have no_acks : (actors.map (Letter.run (s.begun - 1))).countP (Letter.isAck r) = 0 := by
        rw [List.countP_map,List.countP_eq_zero]
        simp [Letter.isAck]
      dsimp only
      rw [List.countP_append,no_acks,Nat.add_zero,← inv.acks.counted r]
      by_cases here : r = s.begun - 1
      · subst here
        rw [Function.update_self]
      · rw [Function.update_of_ne here]
    · apply inv.work.moved (fun _ => complete)
      · intro r later
        exact Function.update_of_ne (by omega) ..
      · simp only [Function.update_self,List.countP_append,no_dones,if_true]
        have runs := List.countP_le_length (p := Letter.isRun) (l := actors.map (Letter.run (s.begun - 1)))
        rw [List.length_map] at runs
        omega
      · intro i r sent
        refine (List.mem_append.mp sent).imp_right ?_
        simp
      · intro i works
        exact .inl works
      · intro r i sent
        refine (List.mem_append.mp sent).imp_right ?_
        intro new
        obtain ⟨_,member,same⟩ := List.mem_map.mp new
        cases same
        exact member
  · cases done

theorem finish_inv (inv : Inv actors ids s) (distinct : actors.Nodup) (done : finish i s = some next) :
    Inv actors ids next := by
  unfold finish at done
  dsimp only at done
  split at done
  · rename_i working
    have member := inv.work.workers i working
    have bound := inv.work.bound
    have fewer := countP_flip (p := fun j => (Function.update s.node i { s.node i with working := false } j).working)
      (q := fun j => (s.node j).working) distinct member (by simp) working
      (by intro j other; rw [Function.update_of_ne other])
    have ran : (s.master (s.begun - 1)).ran = true := by
      by_contra not_ran
      rw [if_neg not_ran] at bound
      omega
    obtain ⟨begun,masters⟩ := inv.running ran
    obtain ⟨target,is_master,done⟩ := Option.bind_eq_some_iff.mp done
    have current : target = s.begun - 1 := Option.some.inj (is_master.symm.trans (masters i member))
    subst current
    cases done
    have others (p : Letter ι → Bool) (apart : p (.done i (s.begun - 1)) = false) :
        (s.net ++ [Letter.done i (s.begun - 1)]).countP p = s.net.countP p := by
      rw [List.countP_append,List.countP_singleton,apart]
      simp
    refine ⟨?_,?_,?_,?_⟩
    · apply inv.flow.same
      · intro r j
        simp
      · intro j i r
        simp
    · apply inv.nodes.same
      · exact only_working s.node false i
      · intro r j sent
        exact List.mem_append_left _ sent
    · refine ⟨inv.acks.sent,?_⟩
      intro r
      dsimp only
      rw [others _ rfl]
      exact inv.acks.counted r
    · apply inv.work.moved inv.work.ran (fun _ _ => rfl)
      · rw [others _ rfl,List.countP_append,List.countP_singleton,if_pos (by rfl)]
        dsimp only at fewer
        omega
      · intro j r sent
        refine (List.mem_append.mp sent).imp_right ?_
        intro new
        cases List.mem_singleton.mp new
        omega
      · exact working_member s.node false member
      · intro r j sent
        refine (List.mem_append.mp sent).imp_right ?_
        simp
  · cases done

-- A delivered letter leaves the network.
section Deliveries
variable {letter : Letter ι}

theorem Flow.drops {net : List (Letter ι)} {heard : List (ι × Heard ι)} {begun : ℕ} (flow : Flow actors net heard begun)
    (sent : letter ∈ net) (other : ∀ r j, letter ≠ .init r j) (later : ∀ j i r, letter ≠ .identify j i r) :
    Flow actors (net.erase letter) heard begun := by
  apply flow.same
  · intro r j
    have taken := count_taken sent (.init r j)
    rw [if_neg (other r j)] at taken
    omega
  · intro j i r
    have taken := count_taken sent (.identify j i r)
    rw [if_neg (later j i r)] at taken
    omega

theorem kept_init {net : List (Letter ι)} (other : ∀ r j, letter ≠ .init r j) (r : ℕ) (j : ι)
    (sent : Letter.init r j ∈ net) : Letter.init r j ∈ net.erase letter :=
  (List.mem_erase_of_ne (other r j).symm).mpr sent

theorem initAck_inv (inv : Inv actors ids s) (sent : Letter.initAck src run initId ∈ s.net) :
    Inv actors ids { s with
      master := Function.update s.master run
        { s.master run with initAckCount := (s.master run).initAckCount + 1 }
      net := s.net.erase (.initAck src run initId) } := by
  have others := countP_taken sent
  refine ⟨inv.flow.drops sent (by simp) (by simp),?_,?_,?_⟩
  · apply inv.nodes.same
    · intro i
      exact ⟨(s.node i).working,rfl⟩
    · exact kept_init (by simp)
  · refine ⟨inv.acks.sent,?_⟩
    intro r
    have counted := inv.acks.counted r
    have taken := others (Letter.isAck r)
    dsimp only
    by_cases here : r = run
    · subst here
      simp only [Letter.isAck,decide_true,if_true] at taken
      rw [Function.update_self,← counted]
      dsimp only
      omega
    · simp only [Letter.isAck,Ne.symm here,decide_false,Bool.false_eq_true,if_false] at taken
      rw [Function.update_of_ne here,← counted]
      omega
  · have present : run < s.begun := by
      by_contra later
      have counted := inv.acks.counted run
      have taken := others (Letter.isAck run)
      simp only [Letter.isAck,decide_true,if_true] at taken
      have positive : 0 < actors.countP fun i => Complete actors s.heard i run := by omega
      obtain ⟨i,member,complete⟩ := List.countP_pos_iff.mp positive
      have early := (inv.flow.known (of_decide_eq_true complete i member)).2.2.1
      omega
    have fields (r : ℕ) : ∃ count, Function.update s.master run
        { s.master run with initAckCount := (s.master run).initAckCount + 1 } r =
          { s.master r with initAckCount := count } := by
      by_cases here : r = run
      · subst here
        exact ⟨_,Function.update_self ..⟩
      · exact ⟨(s.master r).initAckCount,Function.update_of_ne here ..⟩
    obtain ⟨count,same⟩ := fields (s.begun - 1)
    apply inv.work.moved
    · rw [same]
      exact inv.work.ran
    · intro r later
      exact Function.update_of_ne (by omega) ..
    · have runs := others Letter.isRun
      have dones := others Letter.isDone
      have bound := inv.work.bound
      simp only [Letter.isRun,Letter.isDone,Bool.false_eq_true,if_false] at runs dones
      simp only [same]
      omega
    · intro i r found
      exact .inl (List.mem_of_mem_erase found)
    · intro i works
      exact .inl works
    · intro r i found
      exact .inl (List.mem_of_mem_erase found)

theorem run_inv (inv : Inv actors ids s) (distinct : actors.Nodup) (sent : Letter.run run i ∈ s.net) :
    Inv actors ids { s with
      node := Function.update s.node i { s.node i with working := true }
      net := s.net.erase (.run run i) } := by
  have member := inv.work.runs run i sent
  have others := countP_taken sent
  refine ⟨inv.flow.drops sent (by simp) (by simp),?_,?_,?_⟩
  · apply inv.nodes.same
    · exact only_working s.node true i
    · exact kept_init (by simp)
  · refine ⟨inv.acks.sent,?_⟩
    intro r
    have counted := inv.acks.counted r
    have taken := others (Letter.isAck r)
    simp only [Letter.isAck,Bool.false_eq_true,if_false] at taken
    dsimp only
    omega
  · have more : (actors.countP fun j => (Function.update s.node i { s.node i with working := true } j).working) ≤
        actors.countP (fun j => (s.node j).working) + 1 := by
      by_cases works : (s.node i).working
      · apply Nat.le_succ_of_le
        apply List.countP_mono_left
        intro j _ now
        by_cases here : j = i
        · subst here
          exact works
        · rw [Function.update_of_ne here] at now
          exact now
      · apply le_of_eq
        apply countP_flip distinct member
        · exact Bool.not_eq_true _ ▸ works
        · rw [Function.update_self]
        · intro j other
          rw [Function.update_of_ne other]
    apply inv.work.moved inv.work.ran (fun _ _ => rfl)
    · have runs := others Letter.isRun
      have dones := others Letter.isDone
      have bound := inv.work.bound
      simp only [Letter.isRun,Letter.isDone,Bool.false_eq_true,if_false,if_true] at runs dones
      dsimp only at more ⊢
      omega
    · intro j r found
      exact .inl (List.mem_of_mem_erase found)
    · exact working_member s.node true member
    · intro r j found
      exact .inl (List.mem_of_mem_erase found)

theorem done_inv (inv : Inv actors ids s) (sent : Letter.done src run ∈ s.net) :
    Inv actors ids { s with
      master := Function.update s.master run { s.master run with doneCount := (s.master run).doneCount + 1 }
      net := s.net.erase (.done src run) } := by
  have current := inv.work.current src run sent
  obtain rfl : run = s.begun - 1 := by omega
  have others := countP_taken sent
  refine ⟨inv.flow.drops sent (by simp) (by simp),?_,?_,?_⟩
  · apply inv.nodes.same
    · intro i
      exact ⟨(s.node i).working,rfl⟩
    · exact kept_init (by simp)
  · refine ⟨inv.acks.sent,?_⟩
    intro r
    have taken := others (Letter.isAck r)
    simp only [Letter.isAck,Bool.false_eq_true,if_false] at taken
    dsimp only
    rw [← inv.acks.counted r,taken]
    by_cases here : r = s.begun - 1
    · subst here
      rw [Function.update_self]
      rfl
    · rw [Function.update_of_ne here]
      rfl
  · apply inv.work.moved
    · rw [Function.update_self]
      exact inv.work.ran
    · intro r later
      exact Function.update_of_ne (by omega) ..
    · have runs := others Letter.isRun
      have dones := others Letter.isDone
      have bound := inv.work.bound
      simp only [Letter.isRun,Letter.isDone,Bool.false_eq_true,if_false,if_true] at runs dones
      simp only [Function.update_self]
      omega
    · intro i r found
      exact .inl (List.mem_of_mem_erase found)
    · intro i works
      exact .inl works
    · intro r i found
      exact .inl (List.mem_of_mem_erase found)

theorem init_now (inv : Inv actors ids s) (some_actor : actors ≠ []) (sent : Letter.init run i ∈ s.net) :
    i ∈ actors ∧ run + 1 = s.begun ∧ ∀ j ∈ actors, (j,i,run) ∉ s.heard := by
  obtain ⟨first,there⟩ := List.exists_mem_of_ne_nil actors some_actor
  have one := inv.flow.one first there i run
  have positive := List.count_pos_iff.mpr sent
  split at one
  · rename_i origin
    have unheard : (first,i,run) ∉ s.heard := by
      rw [← List.count_eq_zero]
      omega
    refine ⟨origin.1,?_,?_⟩
    · by_contra not_last
      exact unheard (inv.work.past run (by omega) first there i origin.1)
    · intro j member entry
      exact (inv.flow.known entry).2.2.2.1 sent
  · omega

-- What an `Identify` of a run does at its receiver: it completes the list of the
-- receiver or only joins it.
structure Took (actors : List ι) (ids : ℕ → ℤ) (heard : List (ι × Heard ι)) (i : ι) (run : ℕ)
    (before after : Node ι) (ack : Option (InitAck ι)) : Prop where
  buffer : after.nodesListBuffer = if Complete actors heard i run then [] else arrived heard i run
  nodes : Complete actors heard i run → after.nodes = arrived heard i run
  n : after.n = before.n
  master : after.master = before.master
  currentRunId : after.currentRunId = before.currentRunId
  working : after.working = before.working
  ack : ack = if Complete actors heard i run then some ⟨i,run,ids run,arrived heard i run⟩ else none

theorem Inv.identify (inv : Inv actors ids s) (distinct : actors.Nodup)
    (sent : Letter.identify src i run ∈ s.net) : run + 1 = s.begun ∧ ∃ node ack,
      (s.node i).identify i (src,run) = some (node,ack) ∧
        Took actors ids (s.heard ++ [(i,src,run)]) i run (s.node i) node ack := by
  obtain ⟨member,origin,present,unheard⟩ := inv.flow.due sent
  have partly : ¬Complete actors s.heard i run := fun complete => unheard (complete src origin)
  have last : run + 1 = s.begun := by
    by_contra earlier
    exact partly (inv.work.past run (by omega) i member)
  have now : s.begun - 1 = run := by omega
  have flow := inv.flow.hears sent
  have buffer : (s.node i).nodesListBuffer ++ [(src,run)] = arrived (s.heard ++ [(i,src,run)]) i run := by
    rw [inv.nodes.buffer i member,now,if_neg partly,arrived_append,if_pos ⟨rfl,rfl⟩]
  refine ⟨last,?_⟩
  unfold Node.identify
  dsimp only
  rw [buffer]
  by_cases complete : Complete actors (s.heard ++ [(i,src,run)]) i run
  · -- Its own `Identify` is in the list, so its `Init` came before.
    have had_init : Letter.init run i ∉ s.net := by
      intro waiting
      exact (flow.known (complete i member)).2.2.2.1 (kept_init (by simp) run i waiting)
    obtain ⟨size,master,id⟩ := inv.nodes.known (by omega) i member (by rw [now]; exact had_init)
    rw [if_pos ((flow.arrived_length distinct).mpr complete |>.trans size.symm),master]
    refine ⟨_,_,rfl,?_⟩
    constructor <;> simp [complete,master,id,now]
  · have short : (arrived (s.heard ++ [(i,src,run)]) i run).length ≠ (s.node i).n := by
      intro full
      rcases inv.nodes.size i with size | none_yet
      · exact complete ((flow.arrived_length distinct).mp (full.trans size))
      · rw [← buffer,List.length_append,none_yet] at full
        simp at full
    rw [if_neg short]
    refine ⟨_,_,rfl,?_⟩
    constructor <;> simp [complete]

-- The node that is initialised knows its run; no node has the identifies of all.
theorem init_nodes (inv : Inv actors ids s) (member : i ∈ actors) (last : run + 1 = s.begun)
    (unheard : ∀ j ∈ actors, (j,i,run) ∉ s.heard) :
    Nodes actors ids { s with
      node := Function.update s.node i ((s.node i).newIteration run (ids run) actors)
      net := s.net.erase (.init run i) ++ actors.map (fun j => Letter.identify i j run) } := by
  have now : s.begun - 1 = run := by omega
  constructor
  · intro j there
    have before := inv.nodes.buffer j there
    by_cases here : j = i
    · subst here
      dsimp only
      rw [Function.update_self]
      exact before
    · dsimp only
      rw [Function.update_of_ne here]
      exact before
  · intro j
    by_cases here : j = i
    · subst here
      dsimp only
      rw [Function.update_self]
      exact .inl rfl
    · dsimp only
      rw [Function.update_of_ne here]
      exact inv.nodes.size j
  · intro begun j there waiting
    by_cases here : j = i
    · subst here
      dsimp only
      rw [Function.update_self,now]
      exact ⟨rfl,rfl,rfl⟩
    · dsimp only at waiting ⊢
      rw [Function.update_of_ne here]
      apply inv.nodes.known begun j there
      intro old
      apply waiting
      apply List.mem_append_left
      rw [List.mem_erase_of_ne]
      · exact old
      · intro equal
        cases equal
        exact here rfl
  · intro j there complete
    dsimp only at complete
    rw [now] at complete
    exact absurd (complete i member) (unheard j there)

theorem init_inv (inv : Inv actors ids s) (distinct : actors.Nodup) (some_actor : actors ≠ [])
    (sent : Letter.init run i ∈ s.net) :
    Inv actors ids { s with
      node := Function.update s.node i ((s.node i).newIteration run (ids run) actors)
      net := s.net.erase (.init run i) ++ actors.map (fun j => Letter.identify i j run) } := by
  obtain ⟨member,last,unheard⟩ := init_now inv some_actor sent
  have others (p : Letter ι → Bool) (apart : ∀ j, p (.identify i j run) = false) (own : p (.init run i) = false) :
      (s.net.erase (.init run i) ++ actors.map (fun j => Letter.identify i j run)).countP p = s.net.countP p := by
    have new : (actors.map fun j => Letter.identify i j run).countP p = 0 := by
      rw [List.countP_map,List.countP_eq_zero]
      intro j _
      simp [apart j]
    rw [List.countP_append,new,countP_taken sent p,own]
    simp
  have same (j : ι) : (Function.update s.node i ((s.node i).newIteration run (ids run) actors) j).working =
      (s.node j).working := by
    by_cases here : j = i
    · subst here
      rw [Function.update_self]
      rfl
    · rw [Function.update_of_ne here]
  refine ⟨inv.flow.inits distinct sent,init_nodes inv member last unheard,?_,?_⟩
  · refine ⟨inv.acks.sent,?_⟩
    intro r
    dsimp only
    rw [others _ (by simp [Letter.isAck]) rfl]
    exact inv.acks.counted r
  · apply inv.work.moved inv.work.ran (fun _ _ => rfl)
    · simp only [same]
      rw [others _ (by simp [Letter.isRun]) rfl,others _ (by simp [Letter.isDone]) rfl]
      exact inv.work.bound
    · intro j r found
      refine (List.mem_append.mp found).imp List.mem_of_mem_erase ?_
      simp
    · intro j works
      exact .inl (same j ▸ works)
    · intro r j found
      refine (List.mem_append.mp found).imp List.mem_of_mem_erase ?_
      simp

omit [DecidableEq ι] in
theorem Complete.mono {heard more : List (ι × Heard ι)} (complete : Complete actors heard i r)
    (sub : heard ⊆ more) : Complete actors more i r := by
  intro j member
  exact sub (complete j member)

end Deliveries

def System.takes (s : System ι) (src i : ι) (run : ℕ) (node : Node ι) (ack : Option (InitAck ι)) : System ι :=
  { s with
    node := Function.update s.node i node
    net := s.net.erase (.identify src i run) ++ ack.toList.map (fun a => Letter.initAck a.src a.run a.initId)
    heard := s.heard ++ [(i,src,run)]
    acks := s.acks ++ ack.toList }

section Identifies
variable {src i : ι} {run : ℕ} {node : Node ι} {ack : Option (InitAck ι)}

theorem elsewhere (actors : List ι) (s : System ι) (src : ι) {i j : ι} (run : ℕ) {r : ℕ} (other : ¬(i = j ∧ run = r)) :
    (Complete actors (s.heard ++ [(i,src,run)]) j r ↔ Complete actors s.heard j r) ∧
      arrived (s.heard ++ [(i,src,run)]) j r = arrived s.heard j r := by
  refine ⟨complete_append actors s.heard other,?_⟩
  rw [arrived_append,if_neg other,List.append_nil]

theorem Took.nodes_inv (took : Took actors ids (s.heard ++ [(i,src,run)]) i run (s.node i) node ack)
    (nodes : Nodes actors ids s) (now : s.begun - 1 = run) : Nodes actors ids (s.takes src i run node ack) := by
  subst now
  have others {j : ι} (other : j ≠ i) := elsewhere actors s src (s.begun - 1) (r := s.begun - 1)
    fun same : i = j ∧ _ => other same.1.symm
  constructor <;> simp only [System.takes]
  · intro j there
    by_cases here : j = i
    · subst here
      rw [Function.update_self]
      exact took.buffer
    · obtain ⟨complete,list⟩ := others here
      simp only [Function.update_of_ne here,nodes.buffer j there,complete,list]
  · intro j
    by_cases here : j = i
    · subst here
      rw [Function.update_self,took.n]
      exact nodes.size j
    · rw [Function.update_of_ne here]
      exact nodes.size j
  · intro begun j there waiting
    have known := nodes.known begun j there (by
      intro old
      exact waiting (List.mem_append_left _ (kept_init (by simp) _ _ old)))
    by_cases here : j = i
    · subst here
      rw [Function.update_self,took.n,took.master,took.currentRunId]
      exact known
    · rw [Function.update_of_ne here]
      exact known
  · intro j there complete
    by_cases here : j = i
    · subst here
      rw [Function.update_self]
      exact took.nodes complete
    · rw [Function.update_of_ne here,(others here).2]
      exact nodes.nodes j there ((others here).1.mp complete)

-- A completed list counts for one actor more.
theorem complete_counts (src : ι) (distinct : actors.Nodup) (member : i ∈ actors) (partly : ¬Complete actors s.heard i run)
    (r : ℕ) : (actors.countP fun j => Complete actors (s.heard ++ [(i,src,run)]) j r) =
      (actors.countP fun j => Complete actors s.heard j r) +
        if Complete actors (s.heard ++ [(i,src,run)]) i run ∧ run = r then 1 else 0 := by
  by_cases flips : Complete actors (s.heard ++ [(i,src,run)]) i run ∧ run = r
  · obtain ⟨complete,rfl⟩ := flips
    rw [if_pos ⟨complete,rfl⟩]
    apply countP_flip distinct member
    · exact decide_eq_false partly
    · exact decide_eq_true complete
    · intro j other
      exact decide_eq_decide.mpr (elsewhere actors s src run fun same => other same.1.symm).1
  · rw [if_neg flips,Nat.add_zero]
    apply List.countP_congr
    intro j _
    rw [decide_eq_true_iff,decide_eq_true_iff]
    by_cases here : i = j ∧ run = r
    · obtain ⟨rfl,rfl⟩ := here
      refine ⟨fun complete => absurd ⟨complete,rfl⟩ flips,fun complete => absurd complete partly⟩
    · exact (elsewhere actors s src run here).1

theorem Took.acks_inv (took : Took actors ids (s.heard ++ [(i,src,run)]) i run (s.node i) node ack)
    (acks : Acks actors ids s) (distinct : actors.Nodup) (member : i ∈ actors)
    (partly : ¬Complete actors s.heard i run) (sent : Letter.identify src i run ∈ s.net) :
    Acks actors ids (s.takes src i run node ack) := by
  constructor <;> simp only [System.takes]
  · intro j r
    rw [List.filter_append,acks.sent j r]
    by_cases here : i = j ∧ run = r
    · obtain ⟨rfl,rfl⟩ := here
      rw [if_neg partly,took.ack]
      by_cases complete : Complete actors (s.heard ++ [(i,src,run)]) i run
      · simp [complete]
      · simp [complete]
    · obtain ⟨complete,list⟩ := elsewhere actors s src run here
      have none_new : ack.toList.filter (fun a => a.src = j ∧ a.run = r) = [] := by
        rw [took.ack]
        split <;> simp [here]
      simp only [none_new,complete,list,List.append_nil]
  · intro r
    have taken := countP_taken sent (Letter.isAck r)
    have new : (ack.toList.map fun a => Letter.initAck a.src a.run a.initId).countP (Letter.isAck r) =
        if Complete actors (s.heard ++ [(i,src,run)]) i run ∧ run = r then 1 else 0 := by
      rw [took.ack]
      split <;> simp_all [Letter.isAck,List.countP_singleton]
    refine Eq.trans ?_ (complete_counts src distinct member partly r).symm
    rw [List.countP_append,new,← acks.counted r,taken]
    simp only [Letter.isAck,Bool.false_eq_true,if_false]
    omega

theorem Took.work_inv (took : Took actors ids (s.heard ++ [(i,src,run)]) i run (s.node i) node ack)
    (work : Work actors s) (sent : Letter.identify src i run ∈ s.net) :
    Work actors (s.takes src i run node ack) := by
  have grows : s.heard ⊆ s.heard ++ [(i,src,run)] := List.subset_append_left ..
  have others (p : Letter ι → Bool) (apart : ∀ j r id, p (.initAck j r id) = false)
      (own : p (.identify src i run) = false) : (s.net.erase (.identify src i run) ++
        ack.toList.map (fun a => Letter.initAck a.src a.run a.initId)).countP p = s.net.countP p := by
    have new : (ack.toList.map fun a => Letter.initAck a.src a.run a.initId).countP p = 0 := by
      rw [List.countP_map,List.countP_eq_zero]
      intro a _
      simp [apart a.src a.run a.initId]
    rw [List.countP_append,new,countP_taken sent p,own]
    simp
  have same (j : ι) : (Function.update s.node i node j).working = (s.node j).working := by
    by_cases here : j = i
    · subst here
      rw [Function.update_self,took.working]
    · rw [Function.update_of_ne here]
  constructor <;> simp only [System.takes]
  · intro r present j there
    exact (work.past r present j there).mono grows
  · intro ran j there
    exact (work.ran ran j there).mono grows
  · exact work.fresh
  · simp only [same]
    rw [others _ (by simp [Letter.isRun]) rfl,others _ (by simp [Letter.isDone]) rfl]
    exact work.bound
  · intro j r found
    rcases List.mem_append.mp found with old | new
    · exact work.current j r (List.mem_of_mem_erase old)
    · simp at new
  · intro j works
    rw [same] at works
    exact work.workers j works
  · intro r j found
    rcases List.mem_append.mp found with old | new
    · exact work.runs r j (List.mem_of_mem_erase old)
    · simp at new

theorem identify_inv (inv : Inv actors ids s) (distinct : actors.Nodup) (sent : Letter.identify src i run ∈ s.net)
    (last : run + 1 = s.begun)
    (took : Took actors ids (s.heard ++ [(i,src,run)]) i run (s.node i) node ack) :
    Inv actors ids (s.takes src i run node ack) := by
  obtain ⟨member,origin,_,unheard⟩ := inv.flow.due sent
  have partly : ¬Complete actors s.heard i run := fun complete => unheard (complete src origin)
  refine ⟨?_,took.nodes_inv inv.nodes (by omega),took.acks_inv inv.acks distinct member partly sent,
    took.work_inv inv.work sent⟩
  apply (inv.flow.hears sent).same
  · intro r j
    simp only [System.takes]
    rw [List.count_append,count_apart (by simp),Nat.add_zero]
  · intro j i r
    simp only [System.takes]
    rw [List.count_append,count_apart (by simp),Nat.add_zero]

end Identifies

theorem step_inv (distinct : actors.Nodup) (some_actor : actors ≠ []) (inv : Inv actors ids s)
    (done : step actors ids s event = some next) : Inv actors ids next := by
  cases event with
  | begin => exact begin_inv inv distinct some_actor done
  | startRun => exact startRun_inv inv done
  | finish i => exact finish_inv inv distinct done
  | deliver letter =>
    simp only [step] at done
    split at done
    · rename_i sent
      cases letter with
      | init run i =>
        cases done
        exact init_inv inv distinct some_actor sent
      | identify src i run =>
        obtain ⟨last,node,ack,result,took⟩ := inv.identify distinct sent
        simp only [receive,result] at done
        cases done
        exact identify_inv inv distinct sent last took
      | initAck src run initId =>
        cases done
        exact initAck_inv inv sent
      | run run i =>
        cases done
        exact run_inv inv distinct sent
      | done src run =>
        cases done
        exact done_inv inv sent
    · cases done

theorem reached_inv (distinct : actors.Nodup) (some_actor : actors ≠ [])
    (path : Reached (step actors ids) (fun _ _ => True) System.start s) : Inv actors ids s := by
  apply path.invariant
  · exact start_inv some_actor
  · intro s event next inv _ done
    exact step_inv distinct some_actor inv done

-- No letter is lost on a node that has no master yet.
theorem Inv.deliverable (inv : Inv actors ids s) (distinct : actors.Nodup) (sent : letter ∈ s.net) :
    (step actors ids s (.deliver letter)).isSome := by
  simp only [step,if_pos sent]
  cases letter with
  | identify src i run =>
    obtain ⟨_,node,ack,result,_⟩ := inv.identify distinct sent
    simp [receive,result]
  | init | initAck | run | done => rfl

-- Each node acknowledges a run once, when all its `Identify` messages are there,
-- and never counts one of another run.
structure Separated (actors : List ι) (ids : ℕ → ℤ) (s : System ι) : Prop where
  once : ∀ i ∈ actors, ∀ r < s.begun, Complete actors s.heard i r →
    ∃ nodes : List (Heard ι), s.acks.filter (fun a => a.src = i ∧ a.run = r) = [⟨i,r,ids r,nodes⟩] ∧
      nodes.Perm (actors.map fun j => (j,r))
  notEarlier : ∀ i ∈ actors, ∀ r < s.begun, ¬Complete actors s.heard i r →
    s.acks.filter (fun a => a.src = i ∧ a.run = r) = []
  fromNodes : ∀ a ∈ s.acks, a.src ∈ actors ∧ a.run < s.begun
  nodes : ∀ i ∈ actors, Complete actors s.heard i (s.begun - 1) →
    (s.node i).nodes.Perm (actors.map fun j => (j,s.begun - 1))
  buffer : ∀ i ∈ actors, ∀ entry ∈ (s.node i).nodesListBuffer, entry.1 ∈ actors ∧ entry.2 + 1 = s.begun
  delivered : ∀ letter ∈ s.net, (step actors ids s (.deliver letter)).isSome

theorem Inv.from_nodes (inv : Inv actors ids s) (some_actor : actors ≠ []) (sent : a ∈ s.acks) :
    a.src ∈ actors ∧ a.run < s.begun := by
  have own : a ∈ s.acks.filter (fun b => b.src = a.src ∧ b.run = a.run) := by
    rw [List.mem_filter]
    exact ⟨sent,by simp⟩
  rw [inv.acks.sent] at own
  split at own
  · rename_i complete
    obtain ⟨j,member⟩ := List.exists_mem_of_ne_nil actors some_actor
    have known := inv.flow.known (complete j member)
    exact ⟨known.1,known.2.2.1⟩
  · cases own

theorem identify_separates_runs (distinct : actors.Nodup) (some_actor : actors ≠ [])
    (path : Reached (step actors ids) (fun _ _ => True) System.start s) : Separated actors ids s := by
  have inv := reached_inv distinct some_actor path
  constructor
  · intro i _ r _ complete
    refine ⟨arrived s.heard i r,?_,inv.flow.arrived_perm distinct complete⟩
    rw [inv.acks.sent,if_pos complete]
  · intro i _ r _ partly
    rw [inv.acks.sent,if_neg partly]
  · intro a sent
    exact inv.from_nodes some_actor sent
  · intro i member complete
    rw [inv.nodes.nodes i member complete]
    exact inv.flow.arrived_perm distinct complete
  · intro i member entry found
    rw [inv.nodes.buffer i member] at found
    split at found
    · cases found
    · obtain ⟨now,entered⟩ := mem_arrived.mp found
      obtain ⟨_,origin,present,_⟩ := inv.flow.known (i := i) (j := entry.1) (r := entry.2) entered
      exact ⟨origin,by omega⟩
  · intro letter sent
    exact inv.deliverable distinct sent

-- Two nodes and two runs. In the second run node 2 hears node 1 while it still
-- has the number of nodes and the master of the first.
def twoRuns : List (Event ℕ) :=
  [.begin,.deliver (.init 0 1),.deliver (.identify 1 2 0),.deliver (.init 0 2),.deliver (.identify 2 2 0),
    .deliver (.identify 2 1 0),.deliver (.identify 1 1 0),.deliver (.initAck 1 0 7),.deliver (.initAck 2 0 7),
    .startRun,.deliver (.run 0 2),.deliver (.run 0 1),.finish 2,.finish 1,.deliver (.done 1 0),
    .deliver (.done 2 0),.begin,.deliver (.init 1 1),.deliver (.identify 1 2 1),.deliver (.init 1 2),
    .deliver (.identify 2 2 1)]

theorem two_runs_separated : ∃ s : System ℕ,
    Reached (step [1,2] fun r => r + 7) (fun _ _ => True) System.start s ∧
      s.acks = [⟨2,0,7,[(1,0),(2,0)]⟩,⟨1,0,7,[(2,0),(1,0)]⟩,⟨2,1,8,[(1,1),(2,1)]⟩] ∧
        Separated [1,2] (fun r => r + 7) s := by
  obtain ⟨s,path,holds⟩ : ∃ s : System ℕ, Reached (step [1,2] fun r => r + 7) (fun _ _ => True) System.start s ∧
      decide (s.acks = [⟨2,0,7,[(1,0),(2,0)]⟩,⟨1,0,7,[(2,0),(1,0)]⟩,⟨2,1,8,[(1,1),(2,1)]⟩]) = true :=
    runs_check twoRuns (by decide)
  exact ⟨s,path,of_decide_eq_true holds,identify_separates_runs (by decide) (by decide) path⟩

end KompicsBenches.IdentifyHandshake
