import KompicsBenches.RegisterRuns

namespace KompicsBenches.RegisterResponses
open RegisterNode RegisterCell RegisterOrder RegisterSystem RegisterHandlers RegisterSteps RegisterSim
variable {n : ℕ} {cfg : Config n} {guard : Guard} {s next : System n} {c : Cell n}

def isInvocation (p : Fin n) : RegisterCell.Event n → Bool
  | .invoked p' _ => p' = p
  | _ => false

def finished : Phase → Bool
  | .done _ _ _ => true
  | _ => false

def begun : Phase → Bool
  | .idle => false
  | _ => true

theorem finished_iff {phase : Phase} : finished phase = true ↔ ∃ kind w out, phase = .done kind w out := by
  cases phase <;> simp [finished]

theorem begun_iff {phase : Phase} : begun phase = true ↔ phase ≠ .idle := by
  cases phase <;> simp [begun]

-- One invocation and one response for each operation, read off its phase.
theorem cell_once (path : RegisterCell.Reached guard n c) (p : Fin n) :
    c.trace.countP (isInvocation p) = (begun (c.phase p)).toNat ∧
      c.trace.countP (isAnswer p) = (finished (c.phase p)).toNat := by
  induction path with
  | initial => exact ⟨rfl,rfl⟩
  | @step before after prior step ih =>
    cases step_grows step with
    | same kept closed fresh =>
      have first : begun (after.phase p) = begun (before.phase p) := by
        rw [Bool.eq_iff_iff,begun_iff,begun_iff,ne_eq,ne_eq,fresh p]
      have last : finished (after.phase p) = finished (before.phase p) := by
        rw [Bool.eq_iff_iff,finished_iff,finished_iff]
        constructor
        · intro after
          obtain ⟨kind,w,out,done⟩ := after
          exact ⟨kind,w,out,closed p kind w out done⟩
        · intro earlier
          obtain ⟨kind,w,out,done⟩ := earlier
          exact ⟨kind,w,out,done_step step done⟩
      rw [kept,first,last]
      exact ih
    | invoked q kind fresh started list others kept =>
      rw [kept,List.countP_append,List.countP_append,ih.1,ih.2]
      by_cases same : q = p
      · subst same
        simp [fresh,started,begun,finished,isInvocation,isAnswer]
      · simp [others p (Ne.symm same),isInvocation,isAnswer,same]
    | answered q kind w out known pending done others kept =>
      rw [kept,List.countP_append,List.countP_append,ih.1,ih.2]
      by_cases same : q = p
      · subst same
        have open' : finished (before.phase q) = false := by
          rw [← Bool.not_eq_true,finished_iff]
          rintro ⟨kind',w',out',early⟩
          rw [early] at known
          cases known
          exact pending w' out' early
        have started : begun (before.phase q) = true := by
          rw [begun_iff]
          rintro idle
          rw [idle] at known
          cases known
        rw [open',started,done]
        simp [begun,finished,isInvocation,isAnswer]
      · simp [others p (Ne.symm same),isInvocation,isAnswer,same]

theorem responds_once (path : RegisterSystem.Reached cfg guard s) (run key : ℕ) (p : Fin n) :
    (s.events run key).countP (isAnswer p) ≤ (s.events run key).countP (isInvocation p) ∧
      (s.events run key).countP (isInvocation p) ≤ 1 := by
  obtain ⟨c,cell,sim⟩ := reached_sim path run key
  rw [← sim.events,(cell_once cell p).1,(cell_once cell p).2]
  cases c.phase p <;> simp [begun,finished]

def response : OpKind → KVOperation
  | .read => .readResponse
  | .write => .writeResponse

def isResponse (p : Fin n) (run : ℕ) (kind : OpKind) : Fin n × ℕ × Effect → Bool
  | (p',run',.stamp event) => p' = p ∧ run' = run ∧ event.operation = response kind
  | _ => false

def isDoneOf (p : Fin n) (run : ℕ) (entry : Fin n × ℕ × Effect) : Bool :=
  entry.1 = p ∧ entry.2.1 = run ∧ isDone entry.2.2 = true

def responses (s : System n) (p : Fin n) (run : ℕ) (kind : OpKind) : ℕ :=
  s.trace.countP (isResponse p run kind)

def dones (s : System n) (p : Fin n) (run : ℕ) : ℕ := s.trace.countP (isDoneOf p run)

def counter (node : AtomicRegister) : OpKind → ℕ
  | .read => node.readCount
  | .write => node.writeCount

-- Effects that neither respond nor report the end of the run.
def speaks : Effect → Bool
  | .stamp event => event.operation = .readResponse || event.operation = .writeResponse
  | .done | .testDone _ => true
  | _ => false

theorem silent_response {e : Effect} (silent : speaks e = false) (p q : Fin n) (run run' : ℕ)
    (kind : OpKind) : isResponse p run kind (q,run',e) = false := by
  cases e with
  | stamp event =>
    cases kind <;> simp_all [speaks,isResponse,response]
  | bcast msg => rfl
  | reply msg => rfl
  | initAck run => rfl
  | done => rfl
  | testDone stamps => rfl

theorem silent_done {e : Effect} (silent : speaks e = false) (p q : Fin n) (run run' : ℕ) :
    isDoneOf p run (q,run',e) = false := by
  cases e <;> simp_all [speaks,isDoneOf,isDone]

theorem silent_answer {e : Effect} (silent : speaks e = false) (p q : Fin n) (run run' key : ℕ) :
    ∀ event ∈ eventOf run key (q,run',e), isAnswer p event = false := by
  intro event member
  cases e with
  | stamp stamped =>
    unfold eventOf at member
    dsimp only at member
    split at member
    · cases operation : stamped.operation <;> simp_all [speaks,isAnswer] <;> cases member <;> rfl
    · cases member
  | bcast msg => cases member
  | reply msg => cases member
  | initAck run => cases member
  | done => cases member
  | testDone stamps => cases member

structure Quiet (s next : System n) : Prop where
  responses : ∀ p run kind, responses next p run kind = responses s p run kind
  dones : ∀ p run, dones next p run = dones s p run
  answered : ∀ p run key, next.answered p run key = s.answered p run key

theorem quiet_append {effects : List Effect} (silent : ∀ e ∈ effects, speaks e = false)
    (trace : next.trace = s.trace ++ effects.map (q,run',·)) : Quiet s next := by
  refine ⟨fun p run kind => ?_,fun p run => ?_,fun p run key => ?_⟩
  · unfold responses
    rw [trace,List.countP_append,List.countP_map,add_eq_left,List.countP_eq_zero]
    exact fun e member => by simp [silent_response (silent e member)]
  · unfold dones
    rw [trace,List.countP_append,List.countP_map,add_eq_left,List.countP_eq_zero]
    exact fun e member => by simp [silent_done (silent e member)]
  · unfold System.answered
    rw [events_append trace,List.any_append,Bool.or_eq_left_iff_imp]
    intro found
    obtain ⟨event,member,named⟩ := List.any_eq_true.mp found
    obtain ⟨e,inside,same⟩ := List.mem_filterMap.mp member
    rw [silent_answer (silent e inside) p q run run' key event same] at named
    cases named

theorem quiet_same (trace : next.trace = s.trace) : Quiet s next := by
  refine ⟨fun p run kind => ?_,fun p run => ?_,fun p run key => ?_⟩
  · unfold responses
    rw [trace]
  · unfold dones
    rw [trace]
  · unfold System.answered System.events
    rw [trace]

theorem local_effect {reg reg' : AtomicRegisterState} {list list' : Readlist}
    (handled : Local size rank reg list msg reg' list' effect) :
    (∀ e ∈ effect, speaks e = false ∧ ∀ event, e ≠ .stamp event) ∨
      ∃ kind out, effect = some (.stamp ⟨msg.key,response kind,some out,rank⟩) := by
  cases handled with
  | answer v current many reading unanimous => exact .inr ⟨.read,_,rfl⟩
  | completeRead a current many reading => exact .inr ⟨.read,_,rfl⟩
  | completeWrite a current many writing => exact .inr ⟨.write,_,rfl⟩
  | _ => exact .inl (by simp [speaks])

theorem unstamped_events {effects : List Effect}
    (unstamped : ∀ e ∈ effects, ∀ event, e ≠ .stamp event)
    (trace : next.trace = s.trace ++ effects.map (q,run',·)) (run key : ℕ) :
    next.events run key = s.events run key := by
  rw [events_append trace,List.filterMap_eq_nil_iff.mpr,List.append_nil]
  intro e member
  cases e with
  | stamp event => exact absurd rfl (unstamped _ member event)
  | _ => rfl

theorem silent_answers {effect : Option Effect} (silent : ∀ e ∈ effect, speaks e = false) :
    answersRead effect = false ∧ answersWrite effect = false := by
  cases effect with
  | none => exact ⟨rfl,rfl⟩
  | some e =>
    have quiet := silent e rfl
    cases e with
    | stamp event => simpa [speaks,answersRead,answersWrite] using quiet
    | _ => exact ⟨rfl,rfl⟩

-- A step in which node `p` responds to its operation on `key`.
structure Responded (s next : System n) (p : Fin n) (run key : ℕ) (kind : OpKind) : Prop where
  current : (s.nodes p).currentRunId = run
  responses : ∀ p' run' kind', responses next p' run' kind' = responses s p' run' kind' +
    if p' = p ∧ run' = run ∧ kind' = kind then 1 else 0
  dones : ∀ p' run', dones next p' run' = dones s p' run' + if p' = p ∧ run' = run ∧
    counter (next.nodes p) .read = 0 ∧ counter (next.nodes p) .write = 0 then 1 else 0
  events : ∃ out, ∀ run' key', next.events run' key' = s.events run' key' ++
    if run' = run ∧ key' = key then [.answered p kind out] else []
  counter : ∀ kind', counter (next.nodes p) kind' =
    if kind' = kind then AtomicRegister.pred64 (counter (s.nodes p) kind')
    else counter (s.nodes p) kind'

theorem stamped_event (p : Fin n) (run run' key key' : ℕ) (kind : OpKind) (out rank : ℕ) :
    eventOf run' key' (p,run,.stamp ⟨key,response kind,some out,rank⟩) =
      if run' = run ∧ key' = key then some (.answered p kind out) else none := by
  by_cases same : run' = run ∧ key' = key
  · obtain ⟨rfl,rfl⟩ := same
    cases kind <;> simp [eventOf,response]
  · rw [if_neg same]
    exact if_neg fun both => same ⟨both.1.symm,both.2.symm⟩

theorem stamped_response (p p' : Fin n) (run run' key : ℕ) (kind kind' : OpKind) (out rank : ℕ) :
    isResponse p' run' kind' (p,run,.stamp ⟨key,response kind,some out,rank⟩) =
      decide (p' = p ∧ run' = run ∧ kind' = kind) := by
  have one : response kind = response kind' ↔ kind' = kind := by
    cases kind <;> cases kind' <;> simp [response]
  refine decide_eq_decide.mpr ⟨?_,?_⟩
  · intro left
    obtain ⟨node,same,equal⟩ := left
    exact ⟨node.symm,same.symm,one.mp equal⟩
  · intro right
    obtain ⟨node,same,equal⟩ := right
    exact ⟨node.symm,same.symm,one.mpr equal⟩

theorem stamped_done (p p' : Fin n) (run run' : ℕ) (event : KVTimestamp) :
    isDoneOf p' run' (p,run,.stamp event) = false := by
  simp [isDoneOf,isDone]

theorem done_response {e : Effect} (done : isDone e = true) (p q : Fin n) (run run' : ℕ)
    (kind : OpKind) : isResponse p run kind (q,run',e) = false := by
  cases e <;> first | rfl | cases done

theorem settled_responded {reg : AtomicRegisterState} {list : Readlist}
    (moved : Delivered s next x after effects)
    (settled : Settled (s.nodes x.dst) key reg list
      (some (.stamp ⟨key,response kind,some out,rank⟩)) after effects) :
    Responded s next x.dst (s.nodes x.dst).currentRunId key kind := by
  have kept := settled_kept settled
  obtain ⟨tail,rfl,quiet,size⟩ := settled.effects
  obtain ⟨stamps,node⟩ := settled.node
  have mine : next.nodes x.dst = after := by rw [moved.nodes,Function.update_self]
  have trace := moved.trace
  rw [kept.currentRunId] at trace
  have counts (kind' : OpKind) : counter (next.nodes x.dst) kind' =
      if kind' = kind then AtomicRegister.pred64 (counter (s.nodes x.dst) kind')
      else counter (s.nodes x.dst) kind' := by
    rw [mine,node]
    cases kind <;> cases kind' <;> rfl
  have zero : tail.length = if counter (next.nodes x.dst) .read = 0 ∧
      counter (next.nodes x.dst) .write = 0 then 1 else 0 := by
    rw [size,mine]
    refine if_congr ⟨fun both => both.2,fun both => ⟨?_,both⟩⟩ rfl rfl
    cases kind
    · exact .inl rfl
    · exact .inr rfl
  refine ⟨rfl,?_,?_,⟨out,?_⟩,counts⟩
  · intro p' run' kind'
    have rest : tail.countP (isResponse p' run' kind' ∘ (x.dst,(s.nodes x.dst).currentRunId,·)) = 0 := by
      refine List.countP_eq_zero.mpr fun e inside => ?_
      simp [done_response (quiet e inside)]
    unfold RegisterResponses.responses
    rw [trace,List.countP_append,List.countP_map,List.countP_append,rest]
    simp only [Option.toList_some,List.countP_singleton,Function.comp_apply,stamped_response,
      decide_eq_true_eq,add_zero]
  · intro p' run'
    have rest : tail.countP (isDoneOf p' run' ∘ (x.dst,(s.nodes x.dst).currentRunId,·)) =
        if p' = x.dst ∧ run' = (s.nodes x.dst).currentRunId then tail.length else 0 := by
      split
      · rename_i same
        refine List.countP_eq_length.mpr fun e inside => ?_
        simp [isDoneOf,same,quiet e inside]
      · rename_i other
        refine List.countP_eq_zero.mpr fun e inside => ?_
        simp only [isDoneOf,Function.comp_apply,decide_eq_true_eq]
        rintro ⟨rfl,rfl,_⟩
        exact other ⟨rfl,rfl⟩
    unfold RegisterResponses.dones
    rw [trace,List.countP_append,List.countP_map,List.countP_append,rest,zero]
    simp only [Option.toList_some,List.countP_singleton,Function.comp_apply,stamped_done,
      Bool.false_eq_true,if_false,zero_add,ite_and]
  · intro run' key'
    have unseen : tail.filterMap (fun e => eventOf run' key' (x.dst,(s.nodes x.dst).currentRunId,e)) =
        [] :=
      List.filterMap_eq_nil_iff.mpr fun e inside => eventOf_done (quiet e inside) _
    rw [events_append trace,List.filterMap_append,unseen,List.append_nil]
    rw [Option.toList_some,List.filterMap_cons,stamped_event]
    by_cases same : run' = (s.nodes x.dst).currentRunId ∧ key' = key
    · rw [if_pos same,if_pos same]
      rfl
    · rw [if_neg same,if_neg same]
      rfl

-- What a delivery does to responses, reports and counters.
theorem delivered_responds (sane : Sane cfg s) (moved : Delivered s next x after effects) :
    (Quiet s next ∧ (∀ run key, next.events run key = s.events run key) ∧
      ∀ kind, counter after kind = counter (s.nodes x.dst) kind) ∨
      ∃ key kind, Responded s next x.dst (s.nodes x.dst).currentRunId key kind := by
  rcases delivered sane moved.present moved.handled with
    ⟨_,reg,list,_,_,reg',list',effect,here,settled⟩ | ⟨_,rfl,sent⟩
  · rcases local_effect here with quiet | ⟨kind,out,rfl⟩
    · left
      have silent : ∀ e ∈ effect, speaks e = false := fun e member => (quiet e member).1
      obtain ⟨reads,writes⟩ := silent_answers silent
      obtain ⟨tail,rfl,_,size⟩ := settled.effects
      obtain ⟨stamps,node⟩ := settled.node
      have empty : tail = [] := List.eq_nil_of_length_eq_zero (by simpa [reads,writes] using size)
      subst empty
      refine ⟨quiet_append (by simpa using silent) moved.trace,
        unstamped_events (by simpa using fun e member => (quiet e member).2) moved.trace,
        fun kind => ?_⟩
      rw [node]
      cases kind
      · exact if_neg (by simp [reads])
      · exact if_neg (by simp [writes])
    · exact .inr ⟨x.msg.key,kind,settled_responded moved settled⟩
  · have quiet : ∀ e ∈ effects, speaks e = false ∧ ∀ event, e ≠ .stamp event := by
      rcases sent with ⟨rfl,_⟩ | ⟨w,_,rfl⟩
      · simp
      · simp [speaks]
    exact .inl ⟨quiet_append (fun e member => (quiet e member).1) moved.trace,
      unstamped_events (fun e member => (quiet e member).2) moved.trace,fun _ => rfl⟩

theorem countP_insert {α : Type*} [DecidableEq α] {list : List α} {a : α} {f f' : α → Bool}
    (nodup : list.Nodup) (member : a ∈ list) (off : f a = false)
    (on : ∀ b ∈ list, f' b = (f b || decide (b = a))) : list.countP f' = list.countP f + 1 := by
  induction list with
  | nil => cases member
  | cons b rest ih =>
    obtain ⟨fresh,distinct⟩ := List.nodup_cons.mp nodup
    have later : ∀ x ∈ rest, f' x = (f x || decide (x = a)) :=
      fun x inside => on x (List.mem_cons_of_mem _ inside)
    have here := on b (List.mem_cons_self ..)
    rw [List.countP_cons,List.countP_cons]
    rcases List.mem_cons.mp member with rfl | inside
    · have same : rest.countP f' = rest.countP f := by
        refine List.countP_congr fun x inside => ?_
        have other : x ≠ a := fun equal => fresh (equal ▸ inside)
        rw [later x inside,decide_eq_false other,Bool.or_false]
      simp [same,here,off]
    · have other : b ≠ a := fun equal => fresh (equal ▸ inside)
      rw [ih distinct inside later,here,decide_eq_false other,Bool.or_false]
      omega

-- The operations of a list that respond, and the whole list.
theorem all_counted {answered : ℕ → Bool} {operations : List (ℕ × OpKind)} :
    (∀ op ∈ operations, answered op.1 = true) ↔ ∀ kind,
      operations.countP (fun op => answered op.1 && decide (op.2 = kind)) =
        operations.countP fun op => decide (op.2 = kind) := by
  have filtered (kind : OpKind) :
      operations.countP (fun op => answered op.1 && decide (op.2 = kind)) =
        operations.countP (fun op => decide (op.2 = kind)) ↔
      ∀ op ∈ operations, op.2 = kind → answered op.1 = true := by
    rw [← List.countP_filter,List.countP_eq_length_filter (l := operations),List.countP_eq_length]
    simp only [List.mem_filter,decide_eq_true_eq,and_imp]
  constructor
  · exact fun all kind => (filtered kind).mpr fun op member _ => all op member
  · exact fun counts op member => (filtered op.2).mp (counts op.2) op member rfl

-- Responses against the workload: which operations have responded, how many
-- are left, and whether the node has reported the end of its run.
structure Tally (cfg : Config n) (s : System n) : Prop where
  invoked : ∀ p run key kind, .invoked p kind ∈ s.events run key → (key,kind) ∈ cfg.workload run p
  responded : ∀ p run kind, responses s p run kind = (cfg.workload run p).countP fun op =>
    s.answered p run op.1 && decide (op.2 = kind)
  counts : ∀ p kind, (p,(s.nodes p).currentRunId) ∈ s.runs →
    counter (s.nodes p) kind + responses s p (s.nodes p).currentRunId kind =
      (cfg.workload (s.nodes p).currentRunId p).countP fun op => decide (op.2 = kind)
  reported : ∀ p run, dones s p run = if cfg.workload run p ≠ [] ∧
    ∀ op ∈ cfg.workload run p, s.answered p run op.1 = true then 1 else 0

theorem initial_tally : Tally cfg (System.initial cfg) where
  invoked p run key kind member := by cases member
  responded p run kind := by simp [responses,System.initial,System.answered,System.events]
  counts p kind member := by cases member
  reported p run := by
    refine (if_neg fun both => ?_).symm
    obtain ⟨busy,all⟩ := both
    obtain ⟨op,member⟩ := List.exists_mem_of_ne_nil _ busy
    cases all op member

theorem quiet_tally (tally : Tally cfg s) (quiet : Quiet s next)
    (invoked : ∀ p run key kind, .invoked p kind ∈ next.events run key →
      (key,kind) ∈ cfg.workload run p)
    (counts : ∀ p kind, (p,(next.nodes p).currentRunId) ∈ next.runs →
      counter (next.nodes p) kind + responses s p (next.nodes p).currentRunId kind =
        (cfg.workload (next.nodes p).currentRunId p).countP fun op => decide (op.2 = kind)) :
    Tally cfg next where
  invoked := invoked
  responded p run kind := by
    simp only [quiet.responses,quiet.answered]
    exact tally.responded p run kind
  counts p kind member := by
    rw [quiet.responses]
    exact counts p kind member
  reported p run := by
    simp only [quiet.dones,quiet.answered]
    exact tally.reported p run

-- The operation that responds was invoked, is in the workload and had not
-- responded before.
theorem responded_open (path : RegisterSystem.Reached cfg guard s)
    (path' : RegisterSystem.Reached cfg guard next) (tally : Tally cfg s)
    (now : Responded s next p run key kind) :
    (p,run) ∈ s.runs ∧ (key,kind) ∈ cfg.workload run p ∧ s.answered p run key = false := by
  obtain ⟨out,events⟩ := now.events
  have grown : next.events run key = s.events run key ++ [.answered p kind out] := by
    rw [events,if_pos ⟨rfl,rfl⟩]
  obtain ⟨c',cell',sim'⟩ := reached_sim path' run key
  obtain ⟨w,done⟩ := ((reached_traced cell').answered p kind out).mp (by
    rw [sim'.events,grown]
    simp)
  have invoked : .invoked p kind ∈ s.events run key := by
    have known : .invoked p kind ∈ c'.trace :=
      ((reached_traced cell').invoked p kind).mpr (by rw [done]; rfl)
    rw [sim'.events,grown] at known
    simpa using known
  refine ⟨?_,tally.invoked p run key kind invoked,?_⟩
  · obtain ⟨c,cell,sim⟩ := reached_sim path run key
    by_contra missing
    have idle := sim.waiting p (.inl missing)
    rw [← sim.events,(reached_traced cell).invoked,idle] at invoked
    cases invoked
  · obtain ⟨less,one⟩ := responds_once path' run key p
    have once := less.trans one
    rw [grown,List.countP_append] at once
    have none : (s.events run key).countP (isAnswer p) = 0 := by
      simpa [isAnswer] using once
    unfold System.answered
    rw [← Bool.not_eq_true,List.any_eq_true]
    rintro ⟨event,member,found⟩
    exact List.countP_eq_zero.mp none event member found

theorem responded_answered (now : Responded s next p run key kind) (p' : Fin n) (run' key' : ℕ) :
    next.answered p' run' key' =
      (s.answered p' run' key' || decide (p' = p ∧ run' = run ∧ key' = key)) := by
  obtain ⟨out,events⟩ := now.events
  unfold System.answered
  rw [events,List.any_append]
  by_cases same : run' = run ∧ key' = key
  · simp [same,isAnswer,eq_comm]
  · simp [same]

theorem responded_count (tally : Tally cfg s) (now : Responded s next p run key kind)
    (member : (key,kind) ∈ cfg.workload run p) (fresh : s.answered p run key = false)
    (p' : Fin n) (run' : ℕ) (kind' : OpKind) : responses next p' run' kind' =
      (cfg.workload run' p').countP fun op => next.answered p' run' op.1 && decide (op.2 = kind') := by
  have keys := cfg.once run p
  have found (op : ℕ × OpKind) (inside : op ∈ cfg.workload run p) (same : op.1 = key) :
      op = (key,kind) := List.inj_on_of_nodup_map keys inside member same
  rw [now.responses,tally.responded]
  by_cases here : p' = p ∧ run' = run
  · obtain ⟨rfl,rfl⟩ := here
    by_cases same : kind' = kind
    · subst same
      rw [if_pos ⟨rfl,rfl,rfl⟩]
      refine (countP_insert keys.of_map member (by simp [fresh]) fun op inside => ?_).symm
      rw [responded_answered now]
      by_cases named : op.1 = key
      · simp [found op inside named]
      · have other : op ≠ (key,kind') := fun equal => named (by rw [equal])
        simp [named,other]
    · rw [if_neg fun both => same both.2.2,add_zero]
      refine List.countP_congr fun op inside => ?_
      rw [responded_answered now]
      by_cases named : op.1 = key
      · have other : op.2 ≠ kind' := by
          rw [found op inside named]
          exact Ne.symm same
        simp [other]
      · simp [named]
  · rw [if_neg fun both => here ⟨both.1,both.2.1⟩,add_zero]
    refine List.countP_congr fun op inside => ?_
    have other : ¬(p' = p ∧ run' = run ∧ op.1 = key) := fun both => here ⟨both.1,both.2.1⟩
    rw [responded_answered now,decide_eq_false other,Bool.or_false]

theorem pred64_pos (positive : 0 < count) : AtomicRegister.pred64 count + 1 = count := by
  unfold AtomicRegister.pred64
  rw [if_neg (by omega)]
  omega

-- The counter of a response is not zero before it.
theorem responded_positive (tally : Tally cfg s) (now : Responded s next p run key kind)
    (begun : (p,run) ∈ s.runs) (member : (key,kind) ∈ cfg.workload run p)
    (fresh : s.answered p run key = false) : 0 < counter (s.nodes p) kind := by
  have total := tally.counts p kind (now.current ▸ begun)
  rw [now.current] at total
  have bound : responses next p run kind ≤
      (cfg.workload run p).countP fun op => decide (op.2 = kind) := by
    rw [responded_count tally now member fresh]
    exact List.countP_mono_left fun op _ both => (Bool.and_eq_true_iff.mp both).2
  rw [now.responses,if_pos ⟨rfl,rfl,rfl⟩] at bound
  omega

theorem responded_tally (path : RegisterSystem.Reached cfg guard s)
    (path' : RegisterSystem.Reached cfg guard next) (tally : Tally cfg s)
    (now : Responded s next p run key kind)
    (current : ∀ q, (next.nodes q).currentRunId = (s.nodes q).currentRunId)
    (others : ∀ q, q ≠ p → next.nodes q = s.nodes q) (runs : next.runs = s.runs) :
    Tally cfg next := by
  obtain ⟨begun,member,fresh⟩ := responded_open path path' tally now
  have counted := responded_count tally now member fresh
  have counts : ∀ q kind', (q,(next.nodes q).currentRunId) ∈ next.runs →
      counter (next.nodes q) kind' + responses next q (next.nodes q).currentRunId kind' =
        (cfg.workload (next.nodes q).currentRunId q).countP fun op => decide (op.2 = kind') := by
    intro q kind' inside
    rw [current,runs] at inside
    have before := tally.counts q kind' inside
    rw [current,now.responses]
    by_cases same : q = p
    · subst same
      rw [now.counter]
      by_cases equal : kind' = kind
      · subst equal
        have positive := responded_positive tally now begun member fresh
        rw [if_pos rfl,if_pos ⟨rfl,now.current,rfl⟩]
        have lower := pred64_pos positive
        omega
      · rwa [if_neg equal,if_neg fun both => equal both.2.2,add_zero]
    · rwa [others q same,if_neg fun both => same both.1,add_zero]
  refine ⟨?_,counted,counts,?_⟩
  · intro q run' key' kind' inside
    obtain ⟨out,events⟩ := now.events
    refine tally.invoked q run' key' kind' ?_
    rw [events,List.mem_append] at inside
    refine inside.resolve_right fun new => ?_
    split at new <;> simp at new
  · intro q run'
    rw [now.dones,tally.reported]
    by_cases here : q = p ∧ run' = run
    · obtain ⟨rfl,rfl⟩ := here
      have before : ¬∀ op ∈ cfg.workload run' q, s.answered q run' op.1 = true := by
        intro all
        have done := all (key,kind) member
        rw [fresh] at done
        cases done
      -- Both counters are zero exactly when every operation has responded.
      have left (kind' : OpKind) : counter (next.nodes q) kind' = 0 ↔
          (cfg.workload run' q).countP (fun op => next.answered q run' op.1 && decide (op.2 = kind')) =
            (cfg.workload run' q).countP fun op => decide (op.2 = kind') := by
        have total := counts q kind' (by rw [current,runs,now.current]; exact begun)
        rw [current,now.current] at total
        rw [← counted]
        omega
      rw [if_neg fun both => before both.2,zero_add]
      refine if_congr ?_ rfl rfl
      rw [all_counted,left,left]
      constructor
      · rintro ⟨_,_,reads,writes⟩
        refine ⟨List.ne_nil_of_mem member,fun kind' => ?_⟩
        cases kind'
        · exact reads
        · exact writes
      · intro both
        exact ⟨rfl,rfl,both.2 .read,both.2 .write⟩
    · rw [if_neg (c := q = p ∧ _) fun both => here ⟨both.1,both.2.1⟩,add_zero]
      refine if_congr (and_congr_right fun _ => forall₂_congr fun op _ => ?_) rfl rfl
      have other : ¬(q = p ∧ run' = run ∧ op.1 = key) := fun both => here ⟨both.1,both.2.1⟩
      rw [responded_answered now,decide_eq_false other,Bool.or_false]

theorem unstarted (path : RegisterSystem.Reached cfg guard s) (missing : (p,run) ∉ s.runs)
    (key : ℕ) : s.answered p run key = false := by
  obtain ⟨c,cell,sim⟩ := reached_sim path run key
  unfold System.answered
  rw [← Bool.not_eq_true,List.any_eq_true,← sim.events]
  rintro ⟨event,member,found⟩
  cases event with
  | invoked p' kind => cases found
  | answered p' kind out =>
    obtain rfl : p' = p := of_decide_eq_true found
    obtain ⟨w,done⟩ := ((reached_traced cell).answered p' kind out).mp member
    rw [sim.waiting p' (.inl missing)] at done
    cases done

theorem init_tally (sane : Sane cfg s) (tally : Tally cfg s)
    (moved : step cfg s (.init p run) = some next) : Tally cfg next := by
  cases step_stepped moved with
  | init _ _ fresh nodes todo inits runs flight trace =>
    obtain ⟨effects,unstamped,more⟩ : ∃ effects : List Effect,
        (∀ e ∈ effects, speaks e = false ∧ ∀ event, e ≠ .stamp event) ∧
        next.trace = s.trace ++ effects.map (p,run,·) := by
      rcases trace with same | more
      · exact ⟨[],by simp,by simp [same]⟩
      · exact ⟨[.initAck run],by simp [speaks],more⟩
    refine quiet_tally tally (quiet_append (fun e member => (unstamped e member).1) more) ?_ ?_
    · intro q run' key kind inside
      rw [unstamped_events (fun e member => (unstamped e member).2) more] at inside
      exact tally.invoked q run' key kind inside
    · intro q kind begun
      by_cases same : q = p
      · subst same
        rw [nodes,Function.update_self,runs] at begun
        exact absurd (sane.runs q run begun q) fresh
      · rw [nodes,Function.update_of_ne same] at begun ⊢
        exact tally.counts q kind (runs ▸ begun)

theorem run_tally (path : RegisterSystem.Reached cfg guard s) (tally : Tally cfg s)
    (moved : step cfg s (.run p) = some next) : Tally cfg next := by
  cases step_stepped moved with
  | run _ first ready nodes todo inits runs flight trace =>
    refine quiet_tally tally (quiet_same trace) ?_ ?_
    · intro q run' key kind inside
      refine tally.invoked q run' key kind ?_
      unfold System.events at inside ⊢
      rwa [trace] at inside
    · intro q kind begun
      by_cases same : q = p
      · subst same
        have none : responses s q (s.nodes q).currentRunId kind = 0 := by
          rw [tally.responded]
          exact List.countP_eq_zero.mpr fun op _ => by simp [unstarted path first]
        rw [nodes,Function.update_self]
        cases kind <;> exact congrArg (_ + ·) none
      · rw [nodes,Function.update_of_ne same] at begun ⊢
        rw [runs,List.mem_append] at begun
        exact tally.counts q kind (begun.resolve_right (by simp [same]))

theorem invoke_tally (sane : Sane cfg s) (tally : Tally cfg s)
    (moved : step cfg s (.invoke p) = some next) : Tally cfg next := by
  cases step_stepped moved with
  | invoke _ op rest after effects head invoked nodes todo inits runs flight trace =>
    obtain ⟨reg,list,value,stamps,state,lists,small,begun,rfl,rfl⟩ := invoked_kept sane head invoked
    obtain ⟨key,kind⟩ := op
    have inside : (key,kind) ∈ cfg.workload (s.nodes p).currentRunId p :=
      (sane.todo p).1.subset (by simp [head])
    refine quiet_tally tally (quiet_append ?_ trace) ?_ ?_
    · cases kind <;> simp [speaks,invocation]
    · intro q run' key' kind' member
      rw [events_append trace,List.mem_append] at member
      rcases member with old | new
      · exact tally.invoked q run' key' kind' old
      · -- The invocation is the first operation left to do.
        by_cases same : (s.nodes p).currentRunId = run' ∧ key = key'
        · obtain ⟨rfl,rfl⟩ := same
          obtain ⟨rfl,rfl⟩ : q = p ∧ kind' = kind := by
            cases kind <;> simpa [eventOf,invocation] using new
          exact inside
        · cases kind <;> simp [eventOf,invocation,same] at new
    · intro q kind' started
      by_cases same : q = p
      · subst same
        rw [nodes,Function.update_self] at started ⊢
        cases kind'
        · exact tally.counts q .read (runs ▸ started)
        · exact tally.counts q .write (runs ▸ started)
      · rw [nodes,Function.update_of_ne same] at started ⊢
        exact tally.counts q kind' (runs ▸ started)

theorem step_tally (path : RegisterSystem.Reached cfg guard s)
    (path' : RegisterSystem.Reached cfg guard next) (tally : Tally cfg s)
    (moved : step cfg s action = some next) : Tally cfg next := by
  have sane := reached_sane path
  cases step_stepped moved with
  | init p run fresh nodes todo inits runs flight trace => exact init_tally sane tally moved
  | run p first ready nodes todo inits runs flight trace => exact run_tally path tally moved
  | invoke p op rest after effects head invoked nodes todo inits runs flight trace =>
    exact invoke_tally sane tally moved
  | deliver x after effects arrived =>
    have kept := (delivered_kept sane arrived.present arrived.handled).1
    have current (q : Fin n) : (next.nodes q).currentRunId = (s.nodes q).currentRunId :=
      (kept_update kept arrived.nodes q).currentRunId
    rcases delivered_responds sane arrived with ⟨quiet,events,counts⟩ | ⟨key,kind,now⟩
    · refine quiet_tally tally quiet (fun q run key kind inside => ?_) fun q kind begun => ?_
      · exact tally.invoked q run key kind (events run key ▸ inside)
      · rw [current,arrived.runs] at begun
        rw [current]
        by_cases same : q = x.dst
        · subst same
          rw [arrived.nodes,Function.update_self,counts]
          exact tally.counts _ kind begun
        · rw [arrived.nodes,Function.update_of_ne same]
          exact tally.counts q kind begun
    · refine responded_tally path path' tally now current (fun q other => ?_) arrived.runs
      rw [arrived.nodes,Function.update_of_ne other]
  | forward p msg nodes todo inits runs flight trace =>
    refine quiet_tally tally (quiet_same trace) ?_ ?_
    · intro q run key kind inside
      refine tally.invoked q run key kind ?_
      unfold System.events at inside ⊢
      rwa [trace] at inside
    · intro q kind begun
      rw [nodes] at begun ⊢
      exact tally.counts q kind (runs ▸ begun)

theorem reached_tally (path : RegisterSystem.Reached cfg guard s) : Tally cfg s := by
  induction path with
  | initial => exact initial_tally
  | step prior allowed moved ih => exact step_tally prior (prior.step allowed moved) ih moved

theorem allowed_unguarded (s : System n) (action : Action n) : Allowed unguarded s action := by
  unfold Allowed
  split
  · split
    · exact fun _ _ => trivial
    · trivial
  · trivial

theorem response_step (path : RegisterSystem.Reached cfg unguarded s)
    (moved : step cfg s action = some next) (more : responses s p run kind < responses next p run kind) :
    0 < counter (s.nodes p) kind := by
  have tally := reached_tally path
  have path' := path.step (allowed_unguarded s action) moved
  have loud (quiet : Quiet s next) : 0 < counter (s.nodes p) kind := by
    rw [quiet.responses] at more
    exact absurd more (lt_irrefl _)
  have sane := reached_sane path
  cases step_stepped moved with
  | init p run fresh nodes todo inits runs flight trace =>
    rcases trace with same | more
    · exact loud (quiet_same same)
    · have silent : ∀ e ∈ [Effect.initAck run], speaks e = false := by simp [speaks]
      exact loud (quiet_append silent more)
  | run p first ready nodes todo inits runs flight trace => exact loud (quiet_same trace)
  | invoke p op rest after effects head invoked nodes todo inits runs flight trace =>
    obtain ⟨reg,list,value,stamps,state,lists,small,begun,rfl,rfl⟩ := invoked_kept sane head invoked
    refine loud (quiet_append ?_ trace)
    obtain ⟨key,kind⟩ := op
    cases kind <;> simp [speaks,invocation]
  | deliver x after effects arrived =>
    rcases delivered_responds sane arrived with ⟨quiet,_⟩ | ⟨key,kind',now⟩
    · exact loud quiet
    · obtain ⟨begun,member,fresh⟩ := responded_open path path' tally now
      rw [now.responses] at more
      by_cases same : p = x.dst ∧ run = (s.nodes x.dst).currentRunId ∧ kind = kind'
      · obtain ⟨rfl,rfl,rfl⟩ := same
        exact responded_positive tally now begun member fresh
      · rw [if_neg same,add_zero] at more
        exact absurd more (lt_irrefl _)
  | forward p msg nodes todo inits runs flight trace => exact loud (quiet_same trace)

-- One response for each operation, counters that never pass zero, and one
-- report in the step in which the last operation of a run responds.
theorem operations_respond_once (path : RegisterSystem.Reached cfg unguarded s) :
    (∀ run key p, (s.events run key).countP (isAnswer p) ≤ (s.events run key).countP (isInvocation p) ∧
      (s.events run key).countP (isInvocation p) ≤ 1) ∧
    (∀ p kind, (p,(s.nodes p).currentRunId) ∈ s.runs →
      counter (s.nodes p) kind + responses s p (s.nodes p).currentRunId kind =
        (cfg.workload (s.nodes p).currentRunId p).countP fun op => decide (op.2 = kind)) ∧
    (∀ action next p run kind, step cfg s action = some next →
      responses s p run kind < responses next p run kind → 0 < counter (s.nodes p) kind) ∧
    ∀ p run, dones s p run = if cfg.workload run p ≠ [] ∧
      ∀ op ∈ cfg.workload run p, s.answered p run op.1 = true then 1 else 0 :=
  ⟨responds_once path,(reached_tally path).counts,
    fun _ _ _ _ _ moved more => response_step path moved more,(reached_tally path).reported⟩

theorem linear_run_reports : ∃ s, RegisterSystem.Reached (RegisterRuns.small .actor) unguarded s ∧
    dones s 0 1 = 1 ∧ dones s 2 1 = 0 := by
  obtain ⟨s,path,same⟩ := RegisterRuns.executed (RegisterRuns.small .actor) unguarded
    RegisterRuns.linearRun (fun s => (s.answered 0 1 0,s.answered 2 1 0)) (true,false)
    (by decide +kernel)
  rw [Prod.mk.injEq] at same
  obtain ⟨_,_,_,reported⟩ := operations_respond_once path
  refine ⟨s,path,?_,?_⟩
  · simpa [RegisterRuns.small,same.1] using reported 0 1
  · simpa [RegisterRuns.small,same.2] using reported 2 1

end KompicsBenches.RegisterResponses
