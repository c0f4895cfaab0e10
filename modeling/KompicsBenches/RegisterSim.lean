import KompicsBenches.RegisterSteps

namespace KompicsBenches.RegisterSim
open RegisterNode RegisterCell RegisterFootprint RegisterReplies RegisterAcks RegisterOrder
open RegisterSystem RegisterHandlers RegisterSteps
variable {n : ℕ} {cfg : Config n} {guard : Guard} {s next : System n} {c : Cell n}

def About (run key : ℕ) (x : Packet n) : Prop := x.msg.runId = run ∧ x.msg.key = key

instance : DecidablePred (About (n := n) run key) :=
  fun x => inferInstanceAs (Decidable (x.msg.runId = run ∧ x.msg.key = key))

theorem filter_erase_about {flight : Multiset (Packet n)} (present : x ∈ flight)
    (about : About run key x) :
    (flight.erase x).filter (About run key) = (flight.filter (About run key)).erase x := by
  conv_rhs => rw [← Multiset.cons_erase present]
  rw [Multiset.filter_cons_of_pos _ about,Multiset.erase_cons_head]

theorem filter_erase_other {flight : Multiset (Packet n)} (present : x ∈ flight)
    (other : ¬About run key x) :
    (flight.erase x).filter (About run key) = flight.filter (About run key) := by
  conv_rhs => rw [← Multiset.cons_erase present]
  rw [Multiset.filter_cons_of_neg _ other]

theorem carried_about {effects : List Effect} {p src : Fin n}
    (concerns : ∀ e ∈ effects, Concerns run key e) :
    ∀ x ∈ (effects.map (carried p src)).sum, About run key x := by
  intro x member
  obtain ⟨e,inside,same⟩ := mem_carried member
  have here := concerns e inside
  rcases same with rfl | rfl <;> exact here

theorem filter_carried_about {effects : List Effect} {p src : Fin n}
    (concerns : ∀ e ∈ effects, Concerns run key e) :
    ((effects.map (carried p src)).sum).filter (About run key) = (effects.map (carried p src)).sum :=
  Multiset.filter_eq_self.mpr (carried_about concerns)

theorem filter_carried_other {effects : List Effect} {p src : Fin n}
    (concerns : ∀ e ∈ effects, Concerns run' key' e) (other : ¬(run' = run ∧ key' = key)) :
    ((effects.map (carried p src)).sum).filter (About run key) = 0 := by
  refine Multiset.filter_eq_nil.mpr fun x member => ?_
  obtain ⟨same,equal⟩ := carried_about concerns x member
  rintro ⟨same',equal'⟩
  exact other ⟨same.symm.trans same',equal.symm.trans equal'⟩

theorem eventOf_other {e : Effect} (concerns : Concerns run' key' e)
    (other : ¬(run' = run ∧ key' = key)) (p : Fin n) : eventOf run key (p,run',e) = none := by
  cases e with
  | stamp event =>
    have same : event.key = key' := concerns
    exact if_neg (same ▸ other)
  | bcast msg => rfl
  | reply msg => rfl
  | initAck run => rfl
  | done => rfl
  | testDone stamps => rfl

theorem eventOf_done {e : Effect} (done : isDone e = true) (p : Fin n) :
    eventOf run key (p,run',e) = none := by
  cases e <;> first | rfl | cases done

-- The node is in the run now.
def InRun (s : System n) (run : ℕ) (p : Fin n) : Prop :=
  (p,run) ∈ s.inits ∧ (s.nodes p).currentRunId = run

-- The node has not invoked its operation on the key in this run, if it has one.
def Waiting (s : System n) (run key : ℕ) (p : Fin n) : Prop :=
  (p,run) ∉ s.runs ∨ (s.nodes p).currentRunId = run ∧ key ∈ (s.todo p).map Prod.fst

-- A cell shows one key of one run. Nodes that have gone on to another run are
-- out of sight: their registers in the cell follow the Writes they acknowledge.
structure Sim (run key : ℕ) (s : System n) (c : Cell n) : Prop where
  flight : c.flight = (inflight s).filter (About run key)
  events : c.trace = s.events run key
  state : ∀ p reg, InRun s run p → (s.nodes p).registerState key = some reg → c.reg p = reg
  lists : ∀ p list, InRun s run p → (s.nodes p).registerReadlist key = some list → c.list p = list
  fresh : ∀ p, (p,run) ∉ s.inits → c.reg p = .new ∧ c.list p = []
  waiting : ∀ p, Waiting s run key p → c.phase p = .idle
  broadcast : ∀ p w, (c.phase p).write? = some w ↔
    (p,run,.bcast (.write w)) ∈ s.trace ∧ w.key = key

theorem initial_sim (run key : ℕ) : Sim run key (System.initial cfg) (Cell.initial n) where
  flight := by simp [Cell.initial,System.initial,inflight]
  events := rfl
  state p reg here := by simp [InRun,System.initial] at here
  lists p list here := by simp [InRun,System.initial] at here
  fresh p _ := ⟨rfl,rfl⟩
  waiting p _ := rfl
  broadcast p w := by simp [Cell.initial,Phase.write?,System.initial]

theorem sim_imposing (sim : Sim run key s c) (traced : Traced c) (p : Fin n) :
    s.imposing p run key = (c.phase p).isImposing := by
  have sent : s.trace.any (writeSent p run key) = (c.phase p).write?.isSome := by
    rw [Bool.eq_iff_iff,List.any_eq_true,Option.isSome_iff_exists]
    constructor
    · rintro ⟨⟨p',run',e⟩,member,found⟩
      unfold writeSent at found
      split at found
      · rename_i w same
        cases same
        obtain ⟨rfl,rfl,named⟩ := of_decide_eq_true found
        exact ⟨w,(sim.broadcast p' w).mpr ⟨member,named⟩⟩
      · cases found
    · rintro ⟨w,known⟩
      obtain ⟨member,named⟩ := (sim.broadcast p w).mp known
      exact ⟨_,member,by simp [writeSent,named]⟩
  have answered : s.answered p run key = true ↔ ∃ kind w out, c.phase p = .done kind w out := by
    unfold System.answered
    rw [List.any_eq_true,← sim.events]
    constructor
    · rintro ⟨event,member,found⟩
      cases event with
      | invoked p' kind => cases found
      | answered p' kind out =>
        obtain rfl : p' = p := of_decide_eq_true found
        obtain ⟨w,done⟩ := (traced.answered p' kind out).mp member
        exact ⟨kind,w,out,done⟩
    · rintro ⟨kind,w,out,done⟩
      exact ⟨_,(traced.answered p kind out).mpr ⟨w,done⟩,by simp [isAnswer]⟩
  unfold System.imposing
  rw [sent]
  cases phase : c.phase p with
  | idle => rfl
  | querying kind => rfl
  | imposing kind w =>
    have pending : s.answered p run key = false := by
      rw [← Bool.not_eq_true,answered,phase]
      rintro ⟨_,_,_,done⟩
      cases done
    rw [pending]
    rfl
  | done kind w out =>
    rw [answered.mpr ⟨kind,w,out,phase⟩]
    simp [Phase.isImposing]

-- Steps of other keys and runs, and steps that only move messages along.
theorem sim_quiet (sim : Sim run key s c)
    (flight : (inflight next).filter (About run key) = (inflight s).filter (About run key))
    (events : next.events run key = s.events run key)
    (writes : ∀ p w, w.key = key → ((p,run,.bcast (.write w)) ∈ next.trace ↔
      (p,run,.bcast (.write w)) ∈ s.trace))
    (state : ∀ p reg, InRun next run p → (next.nodes p).registerState key = some reg → c.reg p = reg)
    (lists : ∀ p list, InRun next run p →
      (next.nodes p).registerReadlist key = some list → c.list p = list)
    (inits : ∀ p, (p,run) ∈ s.inits → (p,run) ∈ next.inits)
    (waiting : ∀ p, Waiting next run key p → Waiting s run key p) : Sim run key next c where
  flight := sim.flight.trans flight.symm
  events := sim.events.trans events.symm
  state := state
  lists := lists
  fresh p missing := sim.fresh p fun old => missing (inits p old)
  waiting p wait := sim.waiting p (waiting p wait)
  broadcast p w := by
    rw [sim.broadcast]
    constructor
    · rintro ⟨member,named⟩
      exact ⟨(writes p w named).mpr member,named⟩
    · rintro ⟨member,named⟩
      exact ⟨(writes p w named).mp member,named⟩

theorem init_sim (sim : Sim run key s c)
    (moved : step cfg s (.init p run') = some next) : Sim run key next c := by
  cases step_stepped moved with
  | init _ _ unseen nodes todo inits runs flight trace =>
    have node (q : Fin n) (other : q ≠ p) : next.nodes q = s.nodes q := by
      rw [nodes,Function.update_of_ne other]
    have begun : next.nodes p = (s.nodes p).newIteration run' (rankOf p) n := by
      rw [nodes,Function.update_self]
    -- A node that is in the run after its Init has fresh registers.
    have first (here : InRun next run p) : (p,run) ∉ s.inits := by
      have same : run' = run := by simpa [begun,AtomicRegister.newIteration] using here.2
      exact same ▸ unseen
    have before (q : Fin n) (other : q ≠ p) (here : InRun next run q) : InRun s run q := by
      obtain ⟨member,current⟩ := here
      rw [inits] at member
      exact ⟨by simpa [other] using member,node q other ▸ current⟩
    refine sim_quiet sim (by rw [flight]) ?_ ?_ ?_ ?_ ?_ ?_
    · unfold System.events
      rcases trace with same | more
      · rw [same]
      · rw [more,List.filterMap_append]
        exact List.append_nil _
    · intro q w _
      rcases trace with same | more
      · rw [same]
      · simp [more]
    · intro q reg here found
      by_cases same : q = p
      · subst same
        rw [(sim.fresh q (first here)).1]
        rw [begun] at found
        exact Option.some.inj (Option.ite_none_right_eq_some.mp found).2
      · exact sim.state q reg (before q same here) (node q same ▸ found)
    · intro q list here found
      by_cases same : q = p
      · subst same
        rw [(sim.fresh q (first here)).2]
        rw [begun] at found
        exact Option.some.inj (Option.ite_none_right_eq_some.mp found).2
      · exact sim.lists q list (before q same here) (node q same ▸ found)
    · intro q old
      rw [inits]
      exact List.mem_append_left _ old
    · intro q wait
      unfold Waiting at wait ⊢
      rw [runs,todo] at wait
      by_cases same : q = p
      · subst same
        exact .inl (by simpa using wait)
      · rwa [node q same,Function.update_of_ne same] at wait

theorem run_sim (sim : Sim run key s c) (moved : step cfg s (.run p) = some next) :
    Sim run key next c := by
  cases step_stepped moved with
  | run _ first ready nodes todo inits runs flight trace =>
    have node (q : Fin n) : (next.nodes q).currentRunId = (s.nodes q).currentRunId ∧
        (next.nodes q).registerState = (s.nodes q).registerState ∧
        (next.nodes q).registerReadlist = (s.nodes q).registerReadlist := by
      rw [nodes]
      by_cases same : q = p
      · subst same
        rw [Function.update_self]
        exact ⟨rfl,rfl,rfl⟩
      · rw [Function.update_of_ne same]
        exact ⟨rfl,rfl,rfl⟩
    have before (q : Fin n) (here : InRun next run q) : InRun s run q :=
      ⟨inits ▸ here.1,(node q).1 ▸ here.2⟩
    refine sim_quiet sim (by rw [flight]) (by unfold System.events; rw [trace])
      (fun q w _ => by rw [trace]) ?_ ?_ (fun q old => inits ▸ old) ?_
    · intro q reg here found
      exact sim.state q reg (before q here) ((node q).2.1 ▸ found)
    · intro q list here found
      exact sim.lists q list (before q here) ((node q).2.2 ▸ found)
    · intro q wait
      unfold Waiting at wait ⊢
      rw [(node q).1,runs,todo] at wait
      by_cases same : q = p
      · subst same
        rcases wait with missing | ⟨current,_⟩
        · exact .inl fun old => missing (List.mem_append_left _ old)
        · exact .inl (current ▸ first)
      · rw [Function.update_of_ne same] at wait
        exact wait.imp_left fun missing old => missing (List.mem_append_left _ old)

theorem forward_sim (sim : Sim run key s c) (moved : step cfg s (.forward p msg) = some next) :
    Sim run key next c := by
  cases step_stepped moved with
  | forward _ _ nodes todo inits runs flight trace =>
    refine sim_quiet sim (by rw [flight]) (by unfold System.events; rw [trace])
      (fun q w _ => by rw [trace]) ?_ ?_ (fun q old => inits ▸ old) ?_
    · intro q reg here found
      exact sim.state q reg ⟨inits ▸ here.1,nodes ▸ here.2⟩ (nodes ▸ found)
    · intro q list here found
      exact sim.lists q list ⟨inits ▸ here.1,nodes ▸ here.2⟩ (nodes ▸ found)
    · intro q wait
      unfold Waiting at wait ⊢
      rwa [nodes,runs,todo] at wait

-- The trace as the node that acts extends it.
theorem events_append {effects : List Effect} (trace : next.trace = s.trace ++ effects.map (p,run',·)) :
    next.events run key = s.events run key ++
      effects.filterMap fun e => eventOf run key (p,run',e) := by
  unfold System.events
  rw [trace,List.filterMap_append,List.filterMap_map]
  rfl

theorem invoke_other (sim : Sim run key s c) (sane : Sane cfg s)
    (moved : step cfg s (.invoke p) = some next)
    (other : ∀ op rest, s.todo p = op :: rest →
      ¬((s.nodes p).currentRunId = run ∧ op.1 = key)) : Sim run key next c := by
  cases step_stepped moved with
  | invoke _ op rest after effects head invoked nodes todo inits runs flight trace =>
    obtain ⟨reg,list,value,stamps,state,lists,small,begun,rfl,rfl⟩ := invoked_kept sane head invoked
    have apart := other op rest head
    have node (q : Fin n) (different : q ≠ p) : next.nodes q = s.nodes q := by
      rw [nodes,Function.update_of_ne different]
    have own := congrFun nodes p
    rw [Function.update_self] at own
    have current (q : Fin n) : (next.nodes q).currentRunId = (s.nodes q).currentRunId := by
      by_cases same : q = p
      · rw [same,own]
      · rw [node q same]
    have before (q : Fin n) (here : InRun next run q) : InRun s run q :=
      ⟨inits ▸ here.1,current q ▸ here.2⟩
    have concerns : ∀ e ∈ [Effect.stamp ⟨op.1,invocation op.2,value,(s.nodes p).rank⟩,
        .bcast (.read ⟨(s.nodes p).currentRunId,op.1,(beginOp op.2 (s.nodes p).rank reg).rid⟩)],
        Concerns (s.nodes p).currentRunId op.1 e := by
      intro e member
      simp only [List.mem_cons,List.not_mem_nil,or_false] at member
      rcases member with rfl | rfl
      · rfl
      · exact ⟨rfl,rfl⟩
    refine sim_quiet sim ?_ ?_ ?_ ?_ ?_ (fun q old => inits ▸ old) ?_
    · rw [flight,Multiset.filter_add,filter_carried_other concerns apart,add_zero]
    · rw [events_append trace,List.filterMap_eq_nil_iff.mpr,List.append_nil]
      exact fun e member => eventOf_other (concerns e member) apart p
    · intro q w _
      simp [trace]
    · intro q reg' here found
      by_cases same : q = p
      · subst same
        have untouched : key ≠ op.1 := fun equal => apart ⟨current q ▸ here.2,equal.symm⟩
        rw [own] at found
        exact sim.state q reg' (before q here) (by simpa [untouched] using found)
      · exact sim.state q reg' (before q here) (node q same ▸ found)
    · intro q list' here found
      by_cases same : q = p
      · subst same
        have untouched : key ≠ op.1 := fun equal => apart ⟨current q ▸ here.2,equal.symm⟩
        rw [own] at found
        exact sim.lists q list' (before q here) (by simpa [untouched] using found)
      · exact sim.lists q list' (before q here) (node q same ▸ found)
    · intro q wait
      unfold Waiting at wait ⊢
      rw [current q,runs,todo] at wait
      by_cases same : q = p
      · subst same
        rw [Function.update_self] at wait
        refine wait.imp_right fun both => ⟨both.1,?_⟩
        rw [head]
        exact List.mem_cons_of_mem _ both.2
      · rwa [Function.update_of_ne same] at wait

theorem invoke_here (sim : Sim run key s c) (sane : Sane cfg s)
    (moved : step cfg s (.invoke p) = some next) (head : s.todo p = op :: rest)
    (current : (s.nodes p).currentRunId = run) (named : op.1 = key) :
    ∃ c', Step guard c c' ∧ Sim run key next c' := by
  cases step_stepped moved with
  | invoke _ op' rest' after effects head' invoked nodes todo inits runs flight trace =>
    obtain ⟨rfl,rfl⟩ : op' = op ∧ rest' = rest := by simpa using head'.symm.trans head
    obtain ⟨reg,list,value,stamps,state,lists,small,begun,rfl,rfl⟩ := invoked_kept sane head invoked
    obtain ⟨now,size,rank⟩ := sane.current p _ (sane.runs p _ begun p)
    have here : InRun s run p := ⟨current ▸ now,current⟩
    have own : c.reg p = reg := sim.state p reg here (named ▸ state)
    have fresh : c.phase p = .idle := sim.waiting p (.inr ⟨current,by simp [head,named]⟩)
    have node (q : Fin n) (different : q ≠ p) : next.nodes q = s.nodes q := by
      rw [nodes,Function.update_of_ne different]
    have mine := congrFun nodes p
    rw [Function.update_self] at mine
    have before (q : Fin n) (other : q ≠ p) (inside : InRun next run q) : InRun s run q :=
      ⟨inits ▸ inside.1,node q other ▸ inside.2⟩
    subst named current
    refine ⟨_,.invoke op'.2 (s.nodes p).currentRunId op'.1 fresh,?_,?_,?_,?_,?_,?_,?_⟩
    · dsimp only
      rw [flight,Multiset.filter_add,← sim.flight,own]
      rw [filter_carried_about (by
        intro e member
        simp only [List.mem_cons,List.not_mem_nil,or_false] at member
        rcases member with rfl | rfl
        · rfl
        · exact ⟨rfl,rfl⟩)]
      simp [carried,rank]
    · dsimp only
      rw [events_append trace,sim.events]
      obtain ⟨key,kind⟩ := op'
      cases kind <;> simp [eventOf,invocation]
    · intro q reg' inside found
      by_cases same : q = p
      · subst same
        rw [mine] at found
        dsimp only at found ⊢
        rw [Function.update_self] at found ⊢
        rw [own,← rank]
        exact Option.some.inj found
      · dsimp only
        rw [Function.update_of_ne same]
        exact sim.state q reg' (before q same inside) (node q same ▸ found)
    · intro q list' inside found
      by_cases same : q = p
      · subst same
        rw [mine] at found
        dsimp only at found ⊢
        rw [Function.update_self] at found ⊢
        exact Option.some.inj found
      · dsimp only
        rw [Function.update_of_ne same]
        exact sim.lists q list' (before q same inside) (node q same ▸ found)
    · intro q missing
      rw [inits] at missing
      have same : q ≠ p := by
        rintro rfl
        exact missing now
      dsimp only
      rw [Function.update_of_ne same,Function.update_of_ne same]
      exact sim.fresh q missing
    · intro q wait
      unfold Waiting at wait
      rw [runs,todo] at wait
      by_cases same : q = p
      · subst same
        rw [Function.update_self] at wait
        rcases wait with missing | ⟨_,again⟩
        · exact absurd begun missing
        · have once := (cfg.once _ q).sublist ((sane.todo q).1.sublist.map Prod.fst)
          rw [head,List.map_cons,List.nodup_cons] at once
          exact absurd again once.1
      · rw [Function.update_of_ne same,node q same] at wait
        dsimp only
        rw [Function.update_of_ne same]
        exact sim.waiting q wait
    · intro q w
      have silent := sim.broadcast q w
      dsimp only
      by_cases same : q = p
      · subst same
        rw [fresh] at silent
        rw [Function.update_self]
        simpa [Phase.write?,trace] using silent
      · rw [Function.update_of_ne same,silent]
        simp [trace]

theorem deliver_other (sim : Sim run key s c) (sane : Sane cfg s)
    (moved : Delivered s next x after effects) (other : ¬About run key x) : Sim run key next c := by
  obtain ⟨kept,concerns⟩ := delivered_kept sane moved.present moved.handled
  have current (q : Fin n) : (next.nodes q).currentRunId = (s.nodes q).currentRunId :=
    (kept_update kept moved.nodes q).currentRunId
  have before (q : Fin n) (here : InRun next run q) : InRun s run q :=
    ⟨moved.inits ▸ here.1,current q ▸ here.2⟩
  -- The registers of the key are touched by messages of the run and key only.
  have untouched (q : Fin n) (here : InRun next run q) :
      (next.nodes q).registerState key = (s.nodes q).registerState key ∧
        (next.nodes q).registerReadlist key = (s.nodes q).registerReadlist key := by
    rw [moved.nodes]
    by_cases same : q = x.dst
    · subst same
      rw [Function.update_self]
      rcases delivered sane moved.present moved.handled with
        ⟨here',reg,list,_,_,reg',list',effect,_,settled⟩ | ⟨_,rfl,_⟩
      · have apart : key ≠ x.msg.key := fun equal =>
          other ⟨here'.trans (before _ here).2,equal.symm⟩
        obtain ⟨stamps,rfl⟩ := settled.node
        exact ⟨Function.update_of_ne apart _ _,Function.update_of_ne apart _ _⟩
      · exact ⟨rfl,rfl⟩
    · rw [Function.update_of_ne same]
      exact ⟨rfl,rfl⟩
  refine sim_quiet sim ?_ ?_ ?_ ?_ ?_ (fun q old => moved.inits ▸ old) ?_
  · rw [moved.flight,Multiset.filter_add,filter_erase_other moved.present other,
      filter_carried_other concerns other,add_zero]
  · rw [events_append moved.trace,List.filterMap_eq_nil_iff.mpr,List.append_nil]
    intro e member
    rw [kept.currentRunId]
    by_cases same : x.msg.runId = (s.nodes x.dst).currentRunId
    · exact eventOf_other (same ▸ concerns e member) (same ▸ other) x.dst
    · rcases (receive_other same moved.handled).2 with ⟨rfl,_⟩ | ⟨w,_,rfl⟩
      · cases member
      · cases List.mem_singleton.mp member
        rfl
  · intro q w named
    rw [moved.trace,List.mem_append]
    refine or_iff_left fun new => ?_
    obtain ⟨e,member,same⟩ := List.mem_map.mp new
    cases same
    obtain ⟨equal,key'⟩ := concerns _ member
    by_cases here : x.msg.runId = (s.nodes x.dst).currentRunId
    · exact other ⟨here.trans kept.currentRunId.symm,key'.symm.trans named⟩
    · rcases (receive_other here moved.handled).2 with ⟨rfl,_⟩ | ⟨w',_,rfl⟩
      · cases member
      · cases List.mem_singleton.mp member
  · intro q reg here found
    exact sim.state q reg (before q here) ((untouched q here).1 ▸ found)
  · intro q list here found
    exact sim.lists q list (before q here) ((untouched q here).2 ▸ found)
  · intro q wait
    unfold Waiting at wait ⊢
    rwa [current q,moved.runs,moved.todo] at wait

-- A message whose receiver has gone on. Its cell still stores and acknowledges
-- a Write; everything else is dropped.
theorem deliver_left (sim : Sim run key s c) (sane : Sane cfg s)
    (moved : Delivered s next x after effects) (about : About run key x)
    (left : x.msg.runId ≠ (s.nodes x.dst).currentRunId) :
    ∃ c', Step guard c c' ∧ Sim run key next c' := by
  obtain ⟨rfl,sent⟩ := receive_other left moved.handled
  have nodes : next.nodes = s.nodes := by rw [moved.nodes,Function.update_eq_self]
  have present : x ∈ c.flight := by
    rw [sim.flight]
    exact Multiset.mem_filter.mpr ⟨moved.present,about⟩
  have away (q : Fin n) (here : InRun next run q) : q ≠ x.dst := by
    rintro rfl
    exact left (about.1.trans (nodes ▸ here.2.symm))
  have before (q : Fin n) (here : InRun next run q) : InRun s run q :=
    ⟨moved.inits ▸ here.1,nodes ▸ here.2⟩
  have waits (q : Fin n) (wait : Waiting next run key q) : Waiting s run key q := by
    unfold Waiting at wait ⊢
    rwa [nodes,moved.runs,moved.todo] at wait
  rcases sent with ⟨rfl,_⟩ | ⟨w,same,rfl⟩
  · refine ⟨_,.drop present,?_,?_,?_,?_,?_,?_,?_⟩
    · dsimp only
      rw [moved.flight,sim.flight]
      simp [filter_erase_about moved.present about]
    · exact sim.events.trans (by rw [events_append moved.trace]; simp)
    · exact fun q reg here found => sim.state q reg (before q here) (nodes ▸ found)
    · exact fun q list here found => sim.lists q list (before q here) (nodes ▸ found)
    · exact fun q missing => sim.fresh q (moved.inits ▸ missing)
    · exact fun q wait => sim.waiting q (waits q wait)
    · intro q w
      rw [moved.trace]
      simpa using sim.broadcast q w
  · obtain ⟨src,dst,msg⟩ := x
    cases same
    refine ⟨_,.write present,?_,?_,?_,?_,?_,?_,?_⟩
    · dsimp only
      rw [moved.flight,sim.flight,Multiset.filter_add,filter_erase_about moved.present about,
        filter_carried_about (by
          intro e member
          rw [List.mem_singleton.mp member]
          exact about)]
      simp [carried]
    · exact sim.events.trans (by rw [events_append moved.trace]; simp [eventOf])
    · intro q reg here found
      dsimp only
      rw [Function.update_of_ne (away q here)]
      exact sim.state q reg (before q here) (nodes ▸ found)
    · exact fun q list here found => sim.lists q list (before q here) (nodes ▸ found)
    · intro q missing
      rw [moved.inits] at missing
      have other : q ≠ dst := by
        rintro rfl
        exact missing (about.1 ▸ (sane.flight _ moved.present).1 q)
      dsimp only
      rw [Function.update_of_ne other]
      exact sim.fresh q missing
    · exact fun q wait => sim.waiting q (waits q wait)
    · intro q w'
      rw [moved.trace]
      simpa using sim.broadcast q w'

-- A message of the current run: the cell takes the step of its register.
theorem sim_touched {c c' : Cell n} (sim : Sim run key s c) (sane : Sane cfg s)
    (moved : Delivered s next x after effects) (about : About run key x)
    (current : x.msg.runId = (s.nodes x.dst).currentRunId)
    (settled : Settled (s.nodes x.dst) x.msg.key reg' list' effect after effects)
    (concerns : ∀ e ∈ effect, Concerns x.msg.runId x.msg.key e)
    (reg : c'.reg = Function.update c.reg x.dst reg')
    (list : c'.list = Function.update c.list x.dst list')
    (sent : c'.flight = c.flight.erase x + (effect.toList.map (carried x.dst x.src)).sum)
    (grown : c'.trace = c.trace ++ effect.toList.filterMap fun e => eventOf run key (x.dst,run,e))
    (idle : ∀ p, c.phase p = .idle → c'.phase p = .idle)
    (written : ∀ p w, (c'.phase p).write? = some w ↔
      (c.phase p).write? = some w ∨ p = x.dst ∧ effect = some (.bcast (.write w))) :
    Sim run key next c' := by
  obtain ⟨tail,rfl,quiet,_⟩ := settled.effects
  obtain ⟨stamps,node⟩ := settled.node
  obtain ⟨rfl,rfl⟩ := about
  have kept := settled_kept settled
  have unsent : (tail.map (carried x.dst x.src)).sum = 0 := by
    refine List.sum_eq_zero fun bag member => ?_
    obtain ⟨e,inside,rfl⟩ := List.mem_map.mp member
    have done := quiet e inside
    cases e <;> first | rfl | cases done
  have unseen : tail.filterMap (fun e => eventOf x.msg.runId x.msg.key (x.dst,x.msg.runId,e)) = [] :=
    List.filterMap_eq_nil_iff.mpr fun e inside => eventOf_done (quiet e inside) _
  have before (q : Fin n) (here : InRun next x.msg.runId q) : InRun s x.msg.runId q :=
    ⟨moved.inits ▸ here.1,(kept_update kept moved.nodes q).currentRunId ▸ here.2⟩
  have stays : after.currentRunId = x.msg.runId := kept.currentRunId.trans current.symm
  have mine : next.nodes x.dst = after := by rw [moved.nodes,Function.update_self]
  have others (q : Fin n) (other : q ≠ x.dst) : next.nodes q = s.nodes q := by
    rw [moved.nodes,Function.update_of_ne other]
  refine ⟨?_,?_,?_,?_,?_,?_,?_⟩
  · have about : About x.msg.runId x.msg.key x := ⟨rfl,rfl⟩
    rw [moved.flight,Multiset.filter_add,filter_erase_about moved.present about,
      List.map_append,List.sum_append,unsent,add_zero,
      filter_carried_about (by simpa using concerns),← sim.flight,sent]
  · rw [events_append moved.trace,stays,List.filterMap_append,unseen,List.append_nil,← sim.events,
      grown]
  · intro q found here present
    rw [reg]
    by_cases same : q = x.dst
    · subst same
      rw [Function.update_self]
      rw [mine,node] at present
      simpa using present
    · rw [Function.update_of_ne same]
      exact sim.state q found (before q here) (others q same ▸ present)
  · intro q found here present
    rw [list]
    by_cases same : q = x.dst
    · subst same
      rw [Function.update_self]
      rw [mine,node] at present
      simpa using present
    · rw [Function.update_of_ne same]
      exact sim.lists q found (before q here) (others q same ▸ present)
  · intro q missing
    rw [moved.inits] at missing
    have other : q ≠ x.dst := by
      rintro rfl
      exact missing ((sane.flight x moved.present).1 x.dst)
    rw [reg,list,Function.update_of_ne other,Function.update_of_ne other]
    exact sim.fresh q missing
  · intro q wait
    unfold Waiting at wait
    rw [(kept_update kept moved.nodes q).currentRunId,moved.runs,moved.todo] at wait
    exact idle q (sim.waiting q wait)
  · intro q w
    rw [written,sim.broadcast,moved.trace,List.mem_append,or_and_right]
    refine or_congr Iff.rfl ?_
    constructor
    · rintro ⟨rfl,rfl⟩
      obtain ⟨_,named⟩ := concerns _ rfl
      exact ⟨List.mem_map.mpr ⟨.bcast (.write w),by simp,by rw [stays]⟩,named⟩
    · rintro ⟨new,named⟩
      obtain ⟨e,member,same⟩ := List.mem_map.mp new
      rw [Prod.mk.injEq,Prod.mk.injEq] at same
      obtain ⟨rfl,_,rfl⟩ := same
      rcases List.mem_append.mp member with here | last
      · exact ⟨rfl,Option.mem_toList.mp here⟩
      · cases quiet _ last

section Here
variable {c c' : Cell n} {reg reg' : AtomicRegisterState} {list list' : Readlist}
  {effect : Option Effect}

-- The step of the cell that goes with a handler, case by case.
inductive Follows (guard : Guard) (run key : ℕ) (c : Cell n) (x : Packet n)
    (reg' : AtomicRegisterState) (list' : Readlist) (effect : Option Effect) : Prop where
  | step (c' : Cell n) (step : Step guard c c')
      (reg : c'.reg = Function.update c.reg x.dst reg')
      (list : c'.list = Function.update c.list x.dst list')
      (sent : c'.flight = c.flight.erase x + (effect.toList.map (carried x.dst x.src)).sum)
      (grown : c'.trace = c.trace ++ effect.toList.filterMap fun e => eventOf run key (x.dst,run,e))
      (idle : ∀ p, c.phase p = .idle → c'.phase p = .idle)
      (written : ∀ p w, (c'.phase p).write? = some w ↔
        (c.phase p).write? = some w ∨ p = x.dst ∧ effect = some (.bcast (.write w)))

theorem follows_drop (present : x ∈ c.flight) (reg : c.reg x.dst = reg')
    (list : c.list x.dst = list') : Follows guard run key c x reg' list' none :=
  .step _ (.drop present) (by rw [← reg,Function.update_eq_self])
    (by rw [← list,Function.update_eq_self]) (by simp) (by simp) (fun _ idle => idle) (by simp)

theorem follows_read (present : ⟨src,dst,.read r⟩ ∈ c.flight) :
    Follows guard run key c ⟨src,dst,.read r⟩ (c.reg dst) (c.list dst)
      (some (.reply (.value (replyTo (rankOf dst) (c.reg dst) r)))) :=
  .step _ (.read present) (by simp) (by simp) (by simp [carried]) (by simp [eventOf])
    (fun _ idle => idle) (by simp)

theorem follows_write (present : ⟨src,dst,.write w⟩ ∈ c.flight) :
    Follows guard run key c ⟨src,dst,.write w⟩ (store (c.reg dst) w) (c.list dst)
      (some (.reply (.ack {runId := w.runId,key := w.key,rid := w.rid}))) :=
  .step _ (.write present) rfl (by simp) (by simp [carried]) (by simp [eventOf])
    (fun _ idle => idle) (by simp)

theorem follows_value (cell : RegisterCell.Reached guard n c)
    (present : ⟨src,dst,.value v⟩ ∈ c.flight) (named : v.key = key)
    (checked : v.rid = (c.reg dst).rid →
      guard n (c.reg dst) (c.list dst) v (c.phase dst).isImposing)
    (handled : Local n (rankOf dst) (c.reg dst) (c.list dst) (.value v) reg' list' effect) :
    Follows guard run key c ⟨src,dst,.value v⟩ reg' list' effect := by
  have tokens := reached_tokens cell
  have replies := reached_replies cell
  cases handled with
  | staleValue _ other => exact follows_drop present rfl rfl
  | wait _ current few =>
    exact .step _ (.wait present (checked current) few) rfl rfl (by simp) (by simp)
      (fun _ idle => idle) (by simp)
  | answer _ current many reading unanimous =>
    obtain ⟨kind,querying⟩ := quorum_querying tokens replies present many
    have reads := replies.reading dst kind (by rw [querying]; rfl)
    obtain rfl : kind = .read := by simpa [reading] using reads
    refine .step _ (.answer present (checked current) many querying unanimous) rfl rfl
      (by simp [carried]) (by simp [eventOf,named]) ?_ ?_
    · intro p idle
      have other : p ≠ dst := by
        rintro rfl
        simp [querying] at idle
      simpa [other] using idle
    · intro p w
      by_cases same : p = dst
      · subst same
        simp [querying,Phase.write?]
      · simp [same]
  | impose _ current many split greatest =>
    obtain ⟨kind,querying⟩ := quorum_querying tokens replies present many
    have reads := replies.reading dst kind (by rw [querying]; rfl)
    refine .step _ (.impose present (checked current) many querying
      (fun read => split (by simp [reads,read])) greatest rfl) rfl rfl
      (by simp [carried]) (by simp [eventOf]) ?_ ?_
    · intro p idle
      have other : p ≠ dst := by
        rintro rfl
        simp [querying] at idle
      simpa [other] using idle
    · intro p w
      by_cases same : p = dst
      · subst same
        simp [querying,Phase.write?]
      · simp [same]

theorem follows_ack (cell : RegisterCell.Reached guard n c)
    (present : ⟨src,dst,.ack a⟩ ∈ c.flight) (named : a.key = key)
    (handled : Local n (rankOf dst) (c.reg dst) (c.list dst) (.ack a) reg' list' effect) :
    Follows guard run key c ⟨src,dst,.ack a⟩ reg' list' effect := by
  have tokens := reached_tokens cell
  have acks := reached_acks cell
  have complete (kind : OpKind) (many : n / 2 < (c.reg dst).acks + 1)
      (flag : (c.reg dst).reading = decide (kind = .read)) (e : Effect)
      (stamped : eventOf run key (dst,run,e) =
        some (.answered dst kind (outOf kind (rankOf dst) (c.reg dst))))
      (unsent : carried dst src e = 0) (silent : ∀ w, e ≠ .bcast (.write w)) :
      Follows guard run key c ⟨src,dst,.ack a⟩ {c.reg dst with acks := 0} (c.list dst) (some e) := by
    obtain ⟨kind',w,imposing⟩ := quorum_imposing tokens acks present many
    have reads := (reached_replies cell).reading dst kind' (by rw [imposing]; rfl)
    obtain rfl : kind' = kind := by
      rw [flag] at reads
      cases kind <;> cases kind' <;> simp_all
    refine .step _ (.complete present many imposing) rfl (by simp) (by simp [unsent])
      (by simp [stamped]) ?_ ?_
    · intro p idle
      have other : p ≠ dst := by
        rintro rfl
        simp [imposing] at idle
      simpa [other] using idle
    · intro p w'
      by_cases same : p = dst
      · subst same
        simp [imposing,Phase.write?,silent]
      · simp [same]
  cases handled with
  | staleAck _ other => exact follows_drop present rfl rfl
  | ack _ current few =>
    exact .step _ (.ack present few) rfl (by simp) (by simp) (by simp) (fun _ idle => idle) (by simp)
  | completeRead _ current many reading =>
    exact complete .read many (by simp [reading]) _ (by simp [eventOf,named,outOf]) rfl (by simp)
  | completeWrite _ current many writing =>
    exact complete .write many (by simp [writing]) _ (by simp [eventOf,named,outOf]) rfl (by simp)

theorem deliver_here (cell : RegisterCell.Reached guard n c) (sim : Sim run key s c)
    (sane : Sane cfg s) (moved : Delivered s next x after effects) (about : About run key x)
    (current : x.msg.runId = (s.nodes x.dst).currentRunId)
    (allowed : Allowed guard s (.deliver x)) : ∃ c', Step guard c c' ∧ Sim run key next c' := by
  obtain ⟨ready,small⟩ := sane.flight x moved.present
  obtain ⟨reg,list,state,lists⟩ := sane.registers x.dst _ (ready x.dst) _ small
  obtain ⟨reg',list',effect,here,settled⟩ := receive_handles current state lists moved.handled
  obtain ⟨now,size,rank⟩ := sane.current x.dst _ (ready x.dst)
  have inside : InRun s run x.dst := ⟨about.1 ▸ ready x.dst,current.symm.trans about.1⟩
  obtain rfl := sim.state x.dst reg inside (about.2 ▸ state)
  obtain rfl := sim.lists x.dst list inside (about.2 ▸ lists)
  have present : x ∈ c.flight := by
    rw [sim.flight]
    exact Multiset.mem_filter.mpr ⟨moved.present,about⟩
  rw [size,rank] at here
  have follows : Follows guard run key c x reg' list' effect := by
    obtain ⟨src,dst,msg⟩ := x
    cases msg with
    | read r =>
      cases here
      exact follows_read present
    | value v =>
      refine follows_value cell present about.2 (fun same => ?_) here
      rw [← sim_imposing sim (reached_traced cell)]
      unfold Allowed at allowed
      dsimp only at allowed state lists
      simp only [AtomicRegisterMessage.key] at state lists
      rw [state,lists] at allowed
      obtain ⟨rfl,rfl⟩ := about
      exact allowed current same
    | write w =>
      cases here
      exact follows_write present
    | ack a => exact follows_ack cell present about.2 here
  obtain ⟨c',step,reg,list,sent,grown,idle,written⟩ := follows
  exact ⟨c',step,sim_touched sim sane moved about current settled here.concerns reg list sent grown
    idle written⟩

end Here

theorem step_sim (cell : RegisterCell.Reached guard n c) (sim : Sim run key s c)
    (sane : Sane cfg s) (allowed : Allowed guard s action) (moved : step cfg s action = some next) :
    ∃ c', (c' = c ∨ Step guard c c') ∧ Sim run key next c' := by
  cases step_stepped moved with
  | init p run' fresh nodes todo inits runs flight trace =>
    exact ⟨c,.inl rfl,init_sim sim moved⟩
  | run p first ready nodes todo inits runs flight trace => exact ⟨c,.inl rfl,run_sim sim moved⟩
  | invoke p op rest after effects head invoked nodes todo inits runs flight trace =>
    by_cases here : (s.nodes p).currentRunId = run ∧ op.1 = key
    · obtain ⟨c',step,after⟩ := invoke_here sim sane moved head here.1 here.2
      exact ⟨c',.inr step,after⟩
    · refine ⟨c,.inl rfl,invoke_other sim sane moved fun op' rest' head' => ?_⟩
      obtain ⟨rfl,_⟩ : op' = op ∧ rest' = rest := by simpa using head'.symm.trans head
      exact here
  | deliver x after effects arrived =>
    by_cases about : About run key x
    · by_cases current : x.msg.runId = (s.nodes x.dst).currentRunId
      · obtain ⟨c',step,after⟩ := deliver_here cell sim sane arrived about current allowed
        exact ⟨c',.inr step,after⟩
      · obtain ⟨c',step,after⟩ := deliver_left sim sane arrived about current
        exact ⟨c',.inr step,after⟩
    · exact ⟨c,.inl rfl,deliver_other sim sane arrived about⟩
  | forward p msg nodes todo inits runs flight trace => exact ⟨c,.inl rfl,forward_sim sim moved⟩

-- Every key of every run of the system is a cell.
theorem reached_sim (path : RegisterSystem.Reached cfg guard s) (run key : ℕ) :
    ∃ c, RegisterCell.Reached guard n c ∧ Sim run key s c := by
  induction path with
  | initial => exact ⟨_,.initial,initial_sim run key⟩
  | step prior allowed moved ih =>
    obtain ⟨c,cell,sim⟩ := ih
    obtain ⟨c',same | step,after⟩ := step_sim cell sim (reached_sane prior) allowed moved
    · exact ⟨c',same ▸ cell,after⟩
    · exact ⟨c',cell.step step,after⟩

end KompicsBenches.RegisterSim
