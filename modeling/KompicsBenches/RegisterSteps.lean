import KompicsBenches.RegisterHandlers

namespace KompicsBenches.RegisterSteps
open RegisterNode RegisterCell RegisterSystem RegisterHandlers
variable {n : ℕ} {cfg : Config n} {guard : Guard} {s next : System n}

-- The messages an effect puts on their way, at once or by way of the broadcast
-- component.
def carried (p src : Fin n) : Effect → Multiset (Packet n)
  | .bcast msg => packets p msg
  | .reply msg => {⟨p,src,msg⟩}
  | _ => 0

def inflight (s : System n) : Multiset (Packet n) :=
  s.net + s.requests.bind fun request => packets request.1 request.2

theorem sends_asks (variant : Variant) (p src : Fin n) (effect : Effect) :
    sends variant p src effect + (asks variant p effect).bind (fun x => packets x.1 x.2) =
      carried p src effect := by
  cases effect with
  | bcast msg => cases variant <;> simp [sends,asks,carried]
  | reply msg => simp [sends,asks,carried]
  | stamp event => rfl
  | initAck run => rfl
  | done => rfl
  | testDone stamps => rfl

theorem carried_sum (variant : Variant) (p src : Fin n) (effects : List Effect) :
    (effects.map (sends variant p src)).sum +
      ((effects.map (asks variant p)).sum).bind (fun x => packets x.1 x.2) =
      (effects.map (carried p src)).sum := by
  induction effects with
  | nil => rfl
  | cons e rest ih =>
    simp only [List.map_cons,List.sum_cons,Multiset.add_bind]
    rw [add_add_add_comm,sends_asks,ih]

theorem commit_inflight (s : System n) (p src : Fin n) (result : AtomicRegister × List Effect) :
    inflight (s.commit p src result) = inflight s + (result.2.map (carried p src)).sum := by
  unfold inflight System.commit
  dsimp only
  rw [Multiset.add_bind,add_add_add_comm,carried_sum]

theorem mem_carried {p src : Fin n} {effects : List Effect} {x : Packet n}
    (member : x ∈ (effects.map (carried p src)).sum) : ∃ e ∈ effects,
      e = .bcast x.msg ∨ e = .reply x.msg := by
  induction effects with
  | nil => simp at member
  | cons e rest ih =>
    rw [List.map_cons,List.sum_cons,Multiset.mem_add] at member
    rcases member with first | later
    · refine ⟨e,List.mem_cons_self ..,?_⟩
      cases e with
      | bcast msg =>
        obtain ⟨q,rfl⟩ := mem_packets.mp first
        exact .inl rfl
      | reply msg =>
        cases Multiset.mem_singleton.mp first
        exact .inr rfl
      | stamp event => simp [carried] at first
      | initAck run => simp [carried] at first
      | done => simp [carried] at first
      | testDone stamps => simp [carried] at first
    · obtain ⟨e',inside,same⟩ := ih later
      exact ⟨e',List.mem_cons_of_mem _ inside,same⟩

structure Delivered (s next : System n) (x : Packet n) (after : AtomicRegister)
    (effects : List Effect) : Prop where
  present : x ∈ inflight s
  handled : (s.nodes x.dst).receiveNetwork x.msg = some (after,effects)
  nodes : next.nodes = Function.update s.nodes x.dst after
  todo : next.todo = s.todo
  inits : next.inits = s.inits
  runs : next.runs = s.runs
  flight : inflight next = (inflight s).erase x + (effects.map (carried x.dst x.src)).sum
  trace : next.trace = s.trace ++ effects.map (x.dst,after.currentRunId,·)

-- Everything a step can do, with the messages under way as one bag.
inductive Stepped (cfg : Config n) (s next : System n) : Action n → Prop where
  | init (p : Fin n) (run : ℕ) (fresh : (p,run) ∉ s.inits)
      (nodes : next.nodes = Function.update s.nodes p ((s.nodes p).newIteration run (rankOf p) n))
      (todo : next.todo = Function.update s.todo p []) (inits : next.inits = s.inits ++ [(p,run)])
      (runs : next.runs = s.runs) (flight : inflight next = inflight s)
      (trace : next.trace = s.trace ∨ next.trace = s.trace ++ [(p,run,.initAck run)]) :
      Stepped cfg s next (.init p run)
  | run (p : Fin n) (first : (p,(s.nodes p).currentRunId) ∉ s.runs)
      (ready : ∀ q, (q,(s.nodes p).currentRunId) ∈ s.inits)
      (nodes : next.nodes = Function.update s.nodes p
        ((s.nodes p).beginOperations (cfg.workload (s.nodes p).currentRunId p)))
      (todo : next.todo = Function.update s.todo p (cfg.workload (s.nodes p).currentRunId p))
      (inits : next.inits = s.inits) (runs : next.runs = s.runs ++ [(p,(s.nodes p).currentRunId)])
      (flight : inflight next = inflight s) (trace : next.trace = s.trace) :
      Stepped cfg s next (.run p)
  | invoke (p : Fin n) (op : ℕ × OpKind) (rest : List (ℕ × OpKind)) (after : AtomicRegister)
      (effects : List Effect) (head : s.todo p = op :: rest)
      (invoked : (s.nodes p).invoke op = some (after,effects))
      (nodes : next.nodes = Function.update s.nodes p after)
      (todo : next.todo = Function.update s.todo p rest) (inits : next.inits = s.inits)
      (runs : next.runs = s.runs)
      (flight : inflight next = inflight s + (effects.map (carried p p)).sum)
      (trace : next.trace = s.trace ++ effects.map (p,after.currentRunId,·)) :
      Stepped cfg s next (.invoke p)
  | deliver (x : Packet n) (after : AtomicRegister) (effects : List Effect)
      (moved : Delivered s next x after effects) : Stepped cfg s next (.deliver x)
  | forward (p : Fin n) (msg : AtomicRegisterMessage) (nodes : next.nodes = s.nodes)
      (todo : next.todo = s.todo) (inits : next.inits = s.inits) (runs : next.runs = s.runs)
      (flight : inflight next = inflight s) (trace : next.trace = s.trace) :
      Stepped cfg s next (.forward p msg)

theorem init_effects (node : AtomicRegister) (run pid nodes : ℕ) :
    (node.receiveInit run pid nodes).1 = node.newIteration run pid nodes ∧
      ((node.receiveInit run pid nodes).2 = [] ∨
        (node.receiveInit run pid nodes).2 = [.initAck run]) := by
  unfold AtomicRegister.receiveInit
  split
  · exact ⟨rfl,.inr rfl⟩
  · exact ⟨rfl,.inl rfl⟩

theorem stepped_init (moved : step cfg s (.init p run) = some next) :
    Stepped cfg s next (.init p run) := by
  unfold step at moved
  dsimp only at moved
  split at moved
  · cases moved
  · rename_i fresh
    cases moved
    obtain ⟨node,effects⟩ := init_effects (s.nodes p) run (rankOf p) n
    refine .init p run fresh ?_ rfl rfl rfl ?_ ?_
    · rw [← node]
      rfl
    · refine (commit_inflight s p p _).trans ?_
      rcases effects with none | one
      · simp [none]
      · simp [one,carried]
    · rcases effects with none | one
      · exact .inl (by simp [System.commit,none])
      · exact .inr (by simp [System.commit,one,node,AtomicRegister.newIteration])

theorem stepped_run (moved : step cfg s (.run p) = some next) : Stepped cfg s next (.run p) := by
  unfold step at moved
  dsimp only at moved
  split at moved
  · cases moved
  · rename_i free
    rw [not_or,not_exists] at free
    cases moved
    exact .run p free.1 (fun q => not_not.mp (free.2 q)) rfl rfl rfl rfl rfl rfl

theorem stepped_invoke (moved : step cfg s (.invoke p) = some next) :
    Stepped cfg s next (.invoke p) := by
  unfold step at moved
  dsimp only at moved
  split at moved
  · cases moved
  · rename_i op rest head
    obtain ⟨⟨after,effects⟩,invoked,rfl⟩ := Option.map_eq_some_iff.mp moved
    exact .invoke p op rest after effects head invoked rfl rfl rfl rfl
      (commit_inflight s p p (after,effects)) rfl

theorem stepped_deliver (moved : step cfg s (.deliver x) = some next) :
    Stepped cfg s next (.deliver x) := by
  unfold step at moved
  dsimp only at moved
  split at moved
  · rename_i present
    obtain ⟨⟨after,effects⟩,handled,rfl⟩ := Option.map_eq_some_iff.mp moved
    refine .deliver x after effects
      ⟨Multiset.mem_add.mpr (.inl present),handled,rfl,rfl,rfl,rfl,?_,rfl⟩
    rw [commit_inflight]
    unfold inflight
    rw [Multiset.erase_add_left_pos _ present]
  · cases moved

theorem stepped_forward (moved : step cfg s (.forward p msg) = some next) :
    Stepped cfg s next (.forward p msg) := by
  unfold step at moved
  dsimp only at moved
  split at moved
  · rename_i present
    cases moved
    refine .forward p msg rfl rfl rfl rfl ?_ rfl
    unfold inflight
    dsimp only
    conv_rhs => rw [← Multiset.cons_erase present,Multiset.cons_bind]
    rw [add_assoc]
  · cases moved

theorem step_stepped (moved : step cfg s action = some next) : Stepped cfg s next action := by
  cases action with
  | init p run => exact stepped_init moved
  | run p => exact stepped_run moved
  | invoke p => exact stepped_invoke moved
  | deliver x => exact stepped_deliver moved
  | forward p msg => exact stepped_forward moved

-- What the nodes of a run rely on: their own data, and that messages of a run
-- exist only after every node has handled its Init.
structure Sane (cfg : Config n) (s : System n) : Prop where
  size : ∀ p, (s.nodes p).numKeys = cfg.numKeys
  current : ∀ p run, (p,run) ∈ s.inits → (p,(s.nodes p).currentRunId) ∈ s.inits ∧
    (s.nodes p).n = n ∧ (s.nodes p).rank = rankOf p
  registers : ∀ p run, (p,run) ∈ s.inits → ∀ key < cfg.numKeys, ∃ reg list,
    (s.nodes p).registerState key = some reg ∧ (s.nodes p).registerReadlist key = some list
  flight : ∀ x ∈ inflight s, (∀ q, (q,x.msg.runId) ∈ s.inits) ∧ x.msg.key < cfg.numKeys
  runs : ∀ p run, (p,run) ∈ s.runs → ∀ q, (q,run) ∈ s.inits
  todo : ∀ p, s.todo p <:+ cfg.workload (s.nodes p).currentRunId p ∧
    (s.todo p ≠ [] → (p,(s.nodes p).currentRunId) ∈ s.runs)

theorem initial_sane : Sane cfg (System.initial cfg) where
  size _ := rfl
  current p run member := by simp [System.initial] at member
  registers p run member := by simp [System.initial] at member
  flight x member := by simp [inflight,System.initial] at member
  runs p run member := by simp [System.initial] at member
  todo p := ⟨List.nil_suffix,fun some => absurd rfl some⟩

-- A handler leaves the static data of its node alone.
structure Kept (s after : AtomicRegister) : Prop where
  numKeys : after.numKeys = s.numKeys
  currentRunId : after.currentRunId = s.currentRunId
  n : after.n = s.n
  rank : after.rank = s.rank
  state : ∀ key reg, s.registerState key = some reg → ∃ reg, after.registerState key = some reg
  lists : ∀ key list, s.registerReadlist key = some list →
    ∃ list, after.registerReadlist key = some list

theorem update_some {α : Type*} {f : ℕ → Option α} {key : ℕ} {a : α} (old : f key = some a) (at' : ℕ) (b : α) :
    ∃ c, Function.update f at' (some b) key = some c := by
  by_cases same : key = at'
  · subst same
    exact ⟨b,by simp⟩
  · exact ⟨a,by rw [Function.update_of_ne same,old]⟩

theorem settled_kept {node after : AtomicRegister} {reg : AtomicRegisterState} {list : Readlist}
    (settled : Settled node key reg list effect after effects) : Kept node after := by
  obtain ⟨stamps,rfl⟩ := settled.node
  exact ⟨rfl,rfl,rfl,rfl,fun _ _ old => update_some old _ _,fun _ _ old => update_some old _ _⟩

theorem touched_kept (node : AtomicRegister) (key : ℕ) (reg : AtomicRegisterState)
    (list : Readlist) (stamps : List KVTimestamp) : Kept node {node with
      registerState := Function.update node.registerState key (some reg)
      registerReadlist := Function.update node.registerReadlist key (some list)
      timestamps := stamps} :=
  ⟨rfl,rfl,rfl,rfl,fun _ _ old => update_some old _ _,fun _ _ old => update_some old _ _⟩

theorem kept_refl (node : AtomicRegister) : Kept node node :=
  ⟨rfl,rfl,rfl,rfl,fun _ reg old => ⟨reg,old⟩,fun _ list old => ⟨list,old⟩⟩

-- Both outcomes of a delivery: the message belongs to the current run of its
-- receiver, or it does not.
theorem delivered (sane : Sane cfg s) (present : x ∈ inflight s)
    (handled : (s.nodes x.dst).receiveNetwork x.msg = some (after,effects)) :
    (x.msg.runId = (s.nodes x.dst).currentRunId ∧ ∃ reg list,
      (s.nodes x.dst).registerState x.msg.key = some reg ∧
      (s.nodes x.dst).registerReadlist x.msg.key = some list ∧
      Handles (s.nodes x.dst) x.msg reg list after effects) ∨
    (x.msg.runId ≠ (s.nodes x.dst).currentRunId ∧ after = s.nodes x.dst ∧
      (effects = [] ∧ (∀ w, x.msg ≠ .write w) ∨ ∃ w, x.msg = .write w ∧
        effects = [.reply (.ack {runId := w.runId,key := w.key,rid := w.rid})])) := by
  by_cases current : x.msg.runId = (s.nodes x.dst).currentRunId
  · obtain ⟨ready,small⟩ := sane.flight x present
    obtain ⟨reg,list,state,lists⟩ := sane.registers x.dst _ (ready x.dst) _ small
    exact .inl ⟨current,reg,list,state,lists,receive_handles current state lists handled⟩
  · exact .inr ⟨current,receive_other current handled⟩

theorem delivered_kept (sane : Sane cfg s) (present : x ∈ inflight s)
    (handled : (s.nodes x.dst).receiveNetwork x.msg = some (after,effects)) :
    Kept (s.nodes x.dst) after ∧ ∀ e ∈ effects, Concerns x.msg.runId x.msg.key e := by
  rcases delivered sane present handled with ⟨_,reg,list,_,_,reg',list',effect,here,settled⟩ |
    ⟨_,rfl,⟨rfl,_⟩ | ⟨w,same,rfl⟩⟩
  · exact ⟨settled_kept settled,settled.concerns here.concerns⟩
  · exact ⟨kept_refl _,by simp⟩
  · refine ⟨kept_refl _,fun e member => ?_⟩
    rw [List.mem_singleton.mp member,same]
    exact ⟨rfl,rfl⟩

theorem invoked_kept (sane : Sane cfg s) (head : s.todo p = op :: rest)
    (invoked : (s.nodes p).invoke op = some (after,effects)) :
    ∃ reg list value stamps, (s.nodes p).registerState op.1 = some reg ∧
      (s.nodes p).registerReadlist op.1 = some list ∧ op.1 < cfg.numKeys ∧
      (p,(s.nodes p).currentRunId) ∈ s.runs ∧
      after = {s.nodes p with
        registerState := Function.update (s.nodes p).registerState op.1
          (some (beginOp op.2 (s.nodes p).rank reg))
        registerReadlist := Function.update (s.nodes p).registerReadlist op.1 (some [])
        timestamps := stamps} ∧
      effects = [.stamp ⟨op.1,invocation op.2,value,(s.nodes p).rank⟩,.bcast (.read
        ⟨(s.nodes p).currentRunId,op.1,(beginOp op.2 (s.nodes p).rank reg).rid⟩)] := by
  obtain ⟨suffix,started⟩ := sane.todo p
  have begun := started (by simp [head])
  have small := cfg.known _ p op (suffix.subset (by simp [head]))
  obtain ⟨reg,list,state,lists⟩ := sane.registers p _ (sane.runs p _ begun p) _ small
  obtain ⟨value,stamps,node,sent⟩ := invoke_eq state lists invoked
  exact ⟨reg,list,value,stamps,state,lists,small,begun,node,sent⟩

theorem kept_update (kept : Kept (s.nodes p) after)
    (nodes : next.nodes = Function.update s.nodes p after) (q : Fin n) :
    Kept (s.nodes q) (next.nodes q) := by
  rw [nodes]
  by_cases same : q = p
  · subst same
    rwa [Function.update_self]
  · rw [Function.update_of_ne same]
    exact kept_refl _

-- Steps that leave the Inits alone are sane if their messages are.
theorem sane_kept (sane : Sane cfg s) (kept : ∀ q, Kept (s.nodes q) (next.nodes q))
    (inits : next.inits = s.inits)
    (runs : ∀ p run, (p,run) ∈ next.runs → ∀ q, (q,run) ∈ s.inits)
    (todo : ∀ q, next.todo q <:+ cfg.workload (s.nodes q).currentRunId q ∧
      (next.todo q ≠ [] → (q,(s.nodes q).currentRunId) ∈ next.runs))
    (flight : ∀ x ∈ inflight next, x ∈ inflight s ∨
      (∀ q, (q,x.msg.runId) ∈ s.inits) ∧ x.msg.key < cfg.numKeys) : Sane cfg next where
  size q := (kept q).numKeys.trans (sane.size q)
  current q run member := by
    rw [inits] at member ⊢
    rw [(kept q).currentRunId,(kept q).n,(kept q).rank]
    exact sane.current q run member
  registers q run member key small := by
    obtain ⟨reg,list,state,lists⟩ := sane.registers q run (inits ▸ member) key small
    obtain ⟨reg',state'⟩ := (kept q).state key reg state
    obtain ⟨list',lists'⟩ := (kept q).lists key list lists
    exact ⟨reg',list',state',lists'⟩
  flight x member := by
    rw [inits]
    rcases flight x member with old | new
    · exact sane.flight x old
    · exact new
  runs p run member := by
    rw [inits]
    exact runs p run member
  todo q := by
    rw [(kept q).currentRunId]
    exact todo q

theorem init_sane (sane : Sane cfg s) (moved : step cfg s (.init p run) = some next) :
    Sane cfg next := by
  cases step_stepped moved with
  | init _ _ fresh nodes todo inits runs flight trace =>
    refine ⟨?_,?_,?_,?_,?_,?_⟩
    · intro q
      by_cases same : q = p
      · subst same
        rw [nodes,Function.update_self]
        exact sane.size q
      · rw [nodes,Function.update_of_ne same]
        exact sane.size q
    · intro q run' member
      rw [inits] at member ⊢
      by_cases same : q = p
      · subst same
        rw [nodes,Function.update_self]
        exact ⟨by simp [AtomicRegister.newIteration],rfl,rfl⟩
      · rw [nodes,Function.update_of_ne same]
        have old : (q,run') ∈ s.inits := by simpa [same] using member
        obtain ⟨now,rest⟩ := sane.current q run' old
        exact ⟨List.mem_append_left _ now,rest⟩
    · intro q run' member key small
      rw [inits] at member
      by_cases same : q = p
      · subst same
        rw [nodes,Function.update_self]
        exact ⟨.new,[],by simp [AtomicRegister.newIteration,sane.size,small],
          by simp [AtomicRegister.newIteration,sane.size,small]⟩
      · rw [nodes,Function.update_of_ne same]
        exact sane.registers q run' (by simpa [same] using member) key small
    · intro x member
      rw [inits]
      obtain ⟨ready,small⟩ := sane.flight x (flight ▸ member)
      exact ⟨fun q => List.mem_append_left _ (ready q),small⟩
    · intro q run' member q'
      rw [inits]
      exact List.mem_append_left _ (sane.runs q run' (runs ▸ member) q')
    · intro q
      rw [todo,runs]
      by_cases same : q = p
      · subst same
        simp
      · rw [nodes,Function.update_of_ne same,Function.update_of_ne same]
        exact sane.todo q

theorem run_sane (sane : Sane cfg s) (moved : step cfg s (.run p) = some next) :
    Sane cfg next := by
  cases step_stepped moved with
  | run _ first ready nodes todo inits runs flight trace =>
    have kept : Kept (s.nodes p)
        ((s.nodes p).beginOperations (cfg.workload (s.nodes p).currentRunId p)) :=
      ⟨rfl,rfl,rfl,rfl,fun _ reg old => ⟨reg,old⟩,fun _ list old => ⟨list,old⟩⟩
    refine sane_kept sane (kept_update kept nodes) inits ?_ ?_ fun x member => .inl (flight ▸ member)
    · intro q run member
      rw [runs,List.mem_append,List.mem_singleton] at member
      rcases member with old | new
      · exact sane.runs q run old
      · cases new
        exact ready
    · intro q
      rw [todo,runs]
      by_cases same : q = p
      · subst same
        simp
      · rw [Function.update_of_ne same]
        obtain ⟨suffix,started⟩ := sane.todo q
        exact ⟨suffix,fun some => List.mem_append_left _ (started some)⟩

theorem step_sane (sane : Sane cfg s) (moved : step cfg s action = some next) : Sane cfg next := by
  cases step_stepped moved with
  | init p run fresh nodes todo inits runs flight trace => exact init_sane sane moved
  | run p first ready nodes todo inits runs flight trace => exact run_sane sane moved
  | invoke p op rest after effects head invoked nodes todo inits runs flight trace =>
    obtain ⟨reg,list,value,stamps,state,lists,small,begun,rfl,rfl⟩ := invoked_kept sane head invoked
    refine sane_kept sane (kept_update (touched_kept _ _ _ _ _) nodes) inits (runs ▸ sane.runs) ?_ ?_
    · intro q
      rw [todo,runs]
      by_cases same : q = p
      · subst same
        rw [Function.update_self]
        exact ⟨(List.suffix_cons op rest).trans (head ▸ (sane.todo q).1),fun _ => begun⟩
      · rw [Function.update_of_ne same]
        exact sane.todo q
    · intro x member
      rw [flight,Multiset.mem_add] at member
      rcases member with old | new
      · exact .inl old
      · refine .inr ?_
        obtain ⟨e,inside,same⟩ := mem_carried new
        have sent : x.msg = .read
            ⟨(s.nodes p).currentRunId,op.1,(beginOp op.2 (s.nodes p).rank reg).rid⟩ := by
          rcases same with rfl | rfl
          · simpa using inside
          · simp at inside
        rw [sent]
        exact ⟨sane.runs p _ begun,small⟩
  | deliver x after effects here =>
    obtain ⟨kept,concerns⟩ := delivered_kept sane here.present here.handled
    refine sane_kept sane (kept_update kept here.nodes) here.inits (here.runs ▸ sane.runs)
      (by rw [here.todo,here.runs]; exact sane.todo) fun y member => ?_
    rw [here.flight,Multiset.mem_add] at member
    rcases member with old | new
    · exact .inl (Multiset.mem_of_mem_erase old)
    · obtain ⟨e,inside,same⟩ := mem_carried new
      have about := concerns e inside
      have both : y.msg.runId = x.msg.runId ∧ y.msg.key = x.msg.key := by
        rcases same with rfl | rfl <;> exact about
      rw [both.1,both.2]
      exact .inr (sane.flight x here.present)
  | forward p msg nodes todo inits runs flight trace =>
    refine sane_kept sane (fun q => by rw [nodes]; exact kept_refl _) inits (runs ▸ sane.runs)
      (by rw [todo,runs]; exact sane.todo) fun x member => .inl (flight ▸ member)

theorem reached_sane (path : Reached cfg guard s) : Sane cfg s := by
  induction path with
  | initial => exact initial_sane
  | step prior allowed moved ih => exact step_sane ih moved

theorem collect_total (n rank : ℕ) (reg : AtomicRegisterState) (list : Readlist) (v : Value) :
    ∃ result, collect n rank reg list v = some result := by
  unfold collect
  dsimp only
  split
  · split
    · exact ⟨_,rfl⟩
    · have listed : (v.senderRank,v.triple) ∈ insertReply list v.senderRank v.triple :=
        List.mem_cons_self
      obtain ⟨best,found⟩ := RegisterOrder.maxReply_isSome listed
      rw [found]
      exact ⟨_,rfl⟩
  · exact ⟨_,rfl⟩

theorem receiveNetwork_total {node : AtomicRegister} (state : node.registerState msg.key = some reg)
    (lists : node.registerReadlist msg.key = some list) :
    ∃ result, node.receiveNetwork msg = some result := by
  cases msg with
  | read r =>
    change node.registerState r.key = some reg at state
    simp only [AtomicRegister.receiveNetwork,AtomicRegister.receiveRead,state]
    split <;> exact ⟨_,rfl⟩
  | value v =>
    change node.registerState v.key = some reg at state
    change node.registerReadlist v.key = some list at lists
    obtain ⟨⟨reg',list',outcome⟩,collected⟩ := collect_total node.n node.rank reg list v
    simp only [AtomicRegister.receiveNetwork,AtomicRegister.receiveValue,state,lists,collected,
      Option.bind_eq_bind,Option.bind_some]
    split
    · split
      · cases outcome <;> exact ⟨_,rfl⟩
      · exact ⟨_,rfl⟩
    · exact ⟨_,rfl⟩
  | write w =>
    change node.registerState w.key = some reg at state
    simp only [AtomicRegister.receiveNetwork,AtomicRegister.receiveWrite,state]
    split <;> exact ⟨_,rfl⟩
  | ack a =>
    change node.registerState a.key = some reg at state
    simp only [AtomicRegister.receiveNetwork,AtomicRegister.receiveAck,state,
      Option.bind_eq_bind,Option.bind_some]
    repeat' split
    all_goals exact ⟨_,rfl⟩

-- No handler of a message panics: its registers exist, and a quorum is not empty.
theorem deliver_total (path : Reached cfg guard s) (present : x ∈ s.net) :
    ∃ next, step cfg s (.deliver x) = some next := by
  have sane := reached_sane path
  obtain ⟨ready,small⟩ := sane.flight x (Multiset.mem_add.mpr (.inl present))
  obtain ⟨reg,list,state,lists⟩ := sane.registers x.dst _ (ready x.dst) _ small
  obtain ⟨result,done⟩ := receiveNetwork_total state lists
  dsimp only [step]
  rw [if_pos present,done]
  exact ⟨_,rfl⟩

-- The source invokes the operations of a run in one handler. Invoking them one by
-- one, with nothing in between, is the same.
section Operations

theorem invoke_same {node : AtomicRegister} (done : node.invoke op = some (after,effects)) :
    after.variant = node.variant ∧ after.currentRunId = node.currentRunId := by
  have present : ∃ reg list, node.registerState op.1 = some reg ∧
      node.registerReadlist op.1 = some list := by
    cases state : node.registerState op.1 with
    | none =>
      obtain ⟨key,kind⟩ := op
      cases kind <;>
        simp [AtomicRegister.invoke,AtomicRegister.invokeRead,AtomicRegister.invokeWrite,state] at done
    | some reg =>
      cases lists : node.registerReadlist op.1 with
      | some list => exact ⟨reg,list,rfl,rfl⟩
      | none =>
        obtain ⟨key,kind⟩ := op
        cases kind <;>
          simp [AtomicRegister.invoke,AtomicRegister.invokeRead,AtomicRegister.invokeWrite,lists]
            at done
  obtain ⟨reg,list,state,lists⟩ := present
  obtain ⟨_,_,rfl,_⟩ := invoke_eq state lists done
  exact ⟨rfl,rfl⟩

theorem invokeAll_same {node : AtomicRegister}
    (done : AtomicRegister.invokeAll operations node = some (after,effects)) :
    after.variant = node.variant ∧ after.currentRunId = node.currentRunId := by
  induction operations generalizing node effects with
  | nil =>
    cases done
    exact ⟨rfl,rfl⟩
  | cons op rest ih =>
    obtain ⟨⟨middle,first⟩,invoked,more⟩ := Option.bind_eq_some_iff.mp done
    obtain ⟨⟨last,later⟩,all,equal⟩ := Option.bind_eq_some_iff.mp more
    cases equal
    obtain ⟨variant,run⟩ := invoke_same invoked
    obtain ⟨variant',run'⟩ := ih all
    exact ⟨variant'.trans variant,run'.trans run⟩

theorem invokeAll_steps [∀ n reg list v b, Decidable (guard n reg list v b)]
    (waiting : s.todo p = operations)
    (done : AtomicRegister.invokeAll operations (s.nodes p) = some (after,effects)) :
    execute cfg guard s (List.replicate operations.length (.invoke p)) =
      some {s.commit p p (after,effects) with todo := Function.update s.todo p []} := by
  induction operations generalizing s after effects with
  | nil =>
    cases done
    have same : Function.update s.todo p [] = s.todo := by
      rw [← waiting,Function.update_eq_self]
    simp [execute,System.commit,same]
  | cons op rest ih =>
    obtain ⟨⟨middle,first⟩,invoked,more⟩ := Option.bind_eq_some_iff.mp done
    obtain ⟨⟨last,later⟩,all,equal⟩ := Option.bind_eq_some_iff.mp more
    cases equal
    obtain ⟨variant,run⟩ := invokeAll_same all
    have moved : step cfg s (.invoke p) = some {s.commit p p (middle,first) with
        todo := Function.update s.todo p rest} := by
      simp [step,waiting,invoked]
    rw [List.length_cons,List.replicate_succ,execute,if_pos (by simp [Allowed]),moved,
      Option.bind_some,ih (by simp) (by simpa [System.commit] using all)]
    simp [System.commit,variant,run,add_assoc]

theorem operationsOf_counts (rank numReads numWrites : ℕ) :
    (AtomicRegister.operationsOf rank numReads numWrites).countP AtomicRegister.isRead = numReads ∧
      (AtomicRegister.operationsOf rank numReads numWrites).countP AtomicRegister.isWrite =
        numWrites := by
  unfold AtomicRegister.operationsOf
  split <;>
    simp [List.countP_map,Function.comp_def,AtomicRegister.isRead,AtomicRegister.isWrite]

-- The keys of a run are as a configuration wants them.
theorem operationsOf_keys (rank numReads numWrites : ℕ) :
    ((AtomicRegister.operationsOf rank numReads numWrites).map Prod.fst).Nodup ∧
      ∀ op ∈ AtomicRegister.operationsOf rank numReads numWrites, op.1 < numReads + numWrites := by
  have nodup (a b : ℕ) : ((List.range a).map id ++ (List.range b).map (a + ·)).Nodup := by
    refine List.nodup_append.mpr ⟨by simpa using List.nodup_range,?_,?_⟩
    · exact List.nodup_range.map fun _ _ same => Nat.add_left_cancel same
    · intro left low right high
      simp only [List.map_id,List.mem_range,List.mem_map] at low high
      omega
  unfold AtomicRegister.operationsOf
  split
  · refine ⟨by simpa [Function.comp_def] using nodup numReads numWrites,?_⟩
    intro op listed
    simp only [List.mem_append,List.mem_map,List.mem_range] at listed
    rcases listed with ⟨k,low,rfl⟩ | ⟨k,low,rfl⟩
    all_goals
      dsimp only
      omega
  · refine ⟨by simpa [Function.comp_def] using nodup numWrites numReads,?_⟩
    intro op listed
    simp only [List.mem_append,List.mem_map,List.mem_range] at listed
    rcases listed with ⟨k,low,rfl⟩ | ⟨k,low,rfl⟩
    all_goals
      dsimp only
      omega

theorem invokeOperations_eq (node : AtomicRegister) (numReads numWrites : ℕ) :
    node.invokeOperations numReads numWrites =
      AtomicRegister.invokeAll (AtomicRegister.operationsOf node.rank numReads numWrites)
        (node.beginOperations (AtomicRegister.operationsOf node.rank numReads numWrites)) := by
  obtain ⟨reads,writes⟩ := operationsOf_counts node.rank numReads numWrites
  unfold AtomicRegister.invokeOperations AtomicRegister.beginOperations
  rw [reads,writes]

-- The handler of Run in the source, as steps of the system.
theorem invokeOperations_steps [∀ n reg list v b, Decidable (guard n reg list v b)]
    (fresh : (p,(s.nodes p).currentRunId) ∉ s.runs)
    (ready : ∀ q, (q,(s.nodes p).currentRunId) ∈ s.inits)
    (workload : cfg.workload (s.nodes p).currentRunId p =
      AtomicRegister.operationsOf (s.nodes p).rank numReads numWrites)
    (done : (s.nodes p).invokeOperations numReads numWrites = some (after,effects)) :
    execute cfg guard s (.run p :: List.replicate (numReads + numWrites) (.invoke p)) =
      some {s.commit p p (after,effects) with
        todo := Function.update s.todo p []
        runs := s.runs ++ [(p,(s.nodes p).currentRunId)]} := by
  have size : (AtomicRegister.operationsOf (s.nodes p).rank numReads numWrites).length =
      numReads + numWrites := by
    unfold AtomicRegister.operationsOf
    split <;> simp [Nat.add_comm]
  have moved : step cfg s (.run p) = some {s with
      nodes := Function.update s.nodes p ((s.nodes p).beginOperations
        (AtomicRegister.operationsOf (s.nodes p).rank numReads numWrites))
      todo := Function.update s.todo p
        (AtomicRegister.operationsOf (s.nodes p).rank numReads numWrites)
      runs := s.runs ++ [(p,(s.nodes p).currentRunId)]} := by
    dsimp only [step]
    rw [if_neg (by simp [fresh,ready]),workload]
  rw [execute,if_pos (by simp [Allowed]),moved,Option.bind_some,← size]
  rw [invokeOperations_eq] at done
  rw [invokeAll_steps (Function.update_self ..) (by simpa using done)]
  simp [System.commit]

end Operations

end KompicsBenches.RegisterSteps
