import KompicsBenches.StreamPartitions
import KompicsBenches.GuardedRuns

namespace KompicsBenches.StreamBoundary

open BenchHelpers GuardedRuns

-- Where a partition is in the iteration of its master.
inductive Stage where
  | fresh
  | spawned
  | called
  | starting
  | asked
  | streaming
  | ended
  | resetting
  | flushing
  | flushed
  | done
  | stopping
  | stopped

def Stage.life : Stage → Life
  | .fresh => .absent
  | .spawned => .spawned
  | .called => .called
  | .starting => .starting
  | .asked => .waiting
  | .streaming => .running
  | .ended | .resetting | .flushing | .flushed | .done | .stopping | .stopped => .gone

def Stage.flow : Stage → Flow
  | .fresh | .spawned | .called | .starting | .done => .calm
  | .asked => .asked
  | .streaming | .ended => .streaming
  | .resetting => .resetting
  | .flushing => .flushing
  | .flushed => .flushed
  | .stopping => .stopping
  | .stopped => .stopped

structure At (part : Partition) (k : ℕ) (stage : Stage) : Prop where
  lane : LaneAt part.lane k stage.life
  flow : FlowAt part.stream stage.flow

-- What a partition does by itself, and what it tells the master.
inductive Advance (i : Fin n) (k : ℕ) : Stage → Stage → List (ToMaster n) → Prop where
  | stay : Advance i k stage stage []
  | called : Advance i k .called .starting []
  | start : Advance i k .starting .asked []
  | ready : Advance i k .asked .streaming []
  | window : Advance i k .streaming .ended [.token .ok (.sink i k),.exit (.sink i k)]
  | reset : Advance i k .resetting .flushing []
  | flush : Advance i k .flushing .flushed []
  | flushed : Advance i k .flushed .done [.token .flushed (.source i)]
  | stop : Advance i k .stopping .stopped [.exit (.source i)]

section Partitions
variable {part part' : Partition} {i : Fin n} {stage : Stage} {lane : Lane} {sent : List (ToMaster n)}

theorem flow_advance (step : FlowStep i stage.flow next sent) (kept : LaneAt lane k stage.life) :
    ∃ stage' : Stage, Advance i k stage stage' sent ∧ stage'.flow = next ∧ LaneAt lane k stage'.life := by
  generalize here : stage.flow = now at step
  cases step with
  | stay => exact ⟨stage,.stay,here,kept⟩
  | ready =>
    cases stage with
    | asked =>
      obtain ⟨w,shell,sink,starts,_,rest⟩ := kept
      exact ⟨.streaming,.ready,rfl,w,shell,⟨0,sink⟩,starts,rest⟩
    | _ => cases here
  | reset =>
    cases stage with
    | resetting => exact ⟨.flushing,.reset,rfl,kept⟩
    | _ => cases here
  | flush =>
    cases stage with
    | flushing => exact ⟨.flushed,.flush,rfl,kept⟩
    | _ => cases here
  | flushed =>
    cases stage with
    | flushed => exact ⟨.done,.flushed,rfl,kept⟩
    | _ => cases here
  | stop =>
    cases stage with
    | stopping => exact ⟨.stopped,.stop,rfl,kept⟩
    | _ => cases here

theorem yields_stage (kept : LaneAt part.lane k stage.life) (step : FlowStep i stage.flow next sent)
    (yields : Yields i part msg next sent) (done : part.sourceTakes i msg = (part',sent')) :
    ∃ stage', Advance i k stage stage' sent' ∧ At part' k stage' := by
  obtain ⟨_,taken,same,flow⟩ := yields
  cases taken.symm.trans done
  obtain ⟨stage',advance,rfl,lane⟩ := flow_advance step kept
  exact ⟨stage',advance,same ▸ lane,flow⟩

theorem stage_busy (calm : stage.flow ≠ .calm) (asked : stage.flow ≠ .asked) :
    stage.life = .running ∨ stage.life = .gone := by
  cases stage with
  | fresh | spawned | called | starting | done => exact (calm rfl).elim
  | asked => exact (asked rfl).elim
  | streaming => exact .inl rfl
  | ended | resetting | flushing | flushed | stopping | stopped => exact .inr rfl

theorem event_stage (held : At part k stage) (here : part.events = msg :: rest) :
    ∃ stage', Advance i k stage stage' [] ∧ At ({ part with events := rest }.windowerTakes p msg) k stage' := by
  let told : Partition := { part with events := rest }
  have flow : FlowAt ⟨told.source,told.toSource,told.replies,msg :: told.events⟩ stage.flow := here ▸ held.flow
  have lane : LaneAt told.lane k stage.life := held.lane
  obtain ⟨next,step,flow',lane'⟩ := event_steps (i := i) (p := p) flow lane stage_busy
  obtain ⟨stage',advance,rfl,lane''⟩ := flow_advance step lane'
  exact ⟨stage',advance,lane'',flow'⟩

theorem order_stage (held : At part k stage) (here : part.orders j = msg :: rest)
    (orderly : msg = .start j → ∀ earlier < j, .wstop ∉ part.orders earlier) :
    ∃ stage', Advance i k stage stage' [] ∧ At ((part.pop j rest).windowerTakes p msg) k stage' := by
  obtain ⟨⟨w,shell,keeps⟩,flow⟩ := held
  obtain ⟨rfl,⟨rfl,known,mine⟩ | ⟨rfl,rfl,starting⟩⟩ := order_inv shell keeps here
  · obtain ⟨w',taken,lane⟩ := wstop_lane (p := p) shell keeps known mine
    rw [taken]
    exact ⟨stage,.stay,lane,flow⟩
  · cases stage with
    | starting =>
      obtain ⟨w',taken,lane⟩ := start_lane (p := p) shell keeps (orderly rfl)
      rw [taken]
      have replies : part.replies = [] := flow.replies
      refine ⟨.asked,.start,lane,flow.source,flow.told,⟨p.batchSize,?_⟩,flow.events⟩
      simp [Partition.stream,replies]
    | _ => cases starting

theorem start_stage (held : At part k stage) (some : part.starts j ≠ 0)
    (done : { part with starts := Function.update part.starts j (part.starts j - 1) }.sinkTakes p i j .start =
      (part',sent)) : ∃ stage', Advance i k stage stage' sent ∧ At part' k stage' := by
  obtain ⟨⟨w,shell,keeps⟩,flow⟩ := held
  obtain ⟨rfl,called⟩ := starts_inv shell keeps some
  cases stage with
  | called =>
    obtain ⟨_,taken,same,lane⟩ := call_lane p i shell keeps
    cases taken.symm.trans done
    exact ⟨.starting,.called,lane,same ▸ flow⟩
  | _ => cases called

theorem window_stage (held : At part k stage) (here : part.windows j = ts :: rest)
    (done : { part with windows := Function.update part.windows j rest }.sinkTakes p i j (.window ts) = (part',sent)) :
    ∃ stage', Advance i k stage stage' sent ∧ At part' k stage' := by
  obtain ⟨_,_,taken,same,⟨rfl,lane⟩ | ⟨rfl,running,lane⟩⟩ := window_lane p i held.lane here
  · cases taken.symm.trans done
    exact ⟨stage,.stay,lane,same ▸ held.flow⟩
  · cases taken.symm.trans done
    have flow := held.flow
    cases stage with
    | streaming => exact ⟨.ended,.window,lane,same ▸ flow⟩
    | _ => cases running

theorem arrive_stage (held : At part k stage)
    (orderly : ∀ j, arrival = .sinkWindower j → (part.orders j).head? = some (.start j) →
      ∀ earlier < j, .wstop ∉ part.orders earlier)
    (done : part.arrive p i arrival = some (part',sent)) :
    ∃ stage', Advance i k stage stage' sent ∧ At part' k stage' := by
  have lane : LaneAt part.lane k stage.life := held.lane
  cases arrival with
  | masterSource =>
    dsimp only [Partition.arrive] at done
    split at done
    · cases done
    · rename_i msg rest here
      let told : Partition := { part with toSource := rest }
      have flow : FlowAt ⟨told.source,msg :: told.toSource,told.replies,told.events⟩ stage.flow := here ▸ held.flow
      obtain ⟨next,_,step,yields⟩ := told_steps (i := i) flow
      have kept : LaneAt told.lane k stage.life := lane
      exact yields_stage kept step yields (Option.some.inj done)
  | sourceSource =>
    dsimp only [Partition.arrive] at done
    split at done
    · cases done
    · let told : Partition := { part with nexts := part.nexts - 1 }
      have flow : FlowAt told.stream stage.flow := held.flow
      have kept : LaneAt told.lane k stage.life := lane
      exact yields_stage kept .stay (next_yields flow) (Option.some.inj done)
  | windowerSource =>
    dsimp only [Partition.arrive] at done
    split at done
    · cases done
    · rename_i msg rest here
      let told : Partition := { part with replies := rest }
      have flow : FlowAt ⟨told.source,told.toSource,msg :: told.replies,told.events⟩ stage.flow := here ▸ held.flow
      obtain ⟨next,_,step,yields⟩ := reply_steps (i := i) flow
      have kept : LaneAt told.lane k stage.life := lane
      exact yields_stage kept step yields (Option.some.inj done)
  | sourceWindower =>
    dsimp only [Partition.arrive] at done
    split at done
    · cases done
    · rename_i msg rest here
      cases done
      exact event_stage held here
  | sinkWindower j =>
    dsimp only [Partition.arrive] at done
    split at done
    · cases done
    · rename_i msg rest here
      cases done
      refine order_stage held here ?_
      rintro rfl
      exact orderly j rfl (by rw [here]; rfl)
  | masterSink j =>
    dsimp only [Partition.arrive] at done
    split at done
    · cases done
    · rename_i some
      exact start_stage held some (Option.some.inj done)
  | windowerSink j =>
    dsimp only [Partition.arrive] at done
    split at done
    · cases done
    · rename_i ts rest here
      exact window_stage held here (Option.some.inj done)

theorem spawn_stage (held : At part k .fresh) : At (part.spawn k) k .spawned := by
  obtain ⟨⟨w,shell,absent,unknown⟩,flow⟩ := held
  refine ⟨⟨w,shell.own rfl ?_,?_,absent.2.1,absent.2.2.1,absent.2.2.2,unknown⟩,flow⟩
  · intro j other
    simp [Partition.lane,Partition.spawn,Function.update_of_ne other]
  · simp [Partition.lane,Partition.spawn]

theorem call_stage (held : At part k .spawned) : At (part.call k) k .called := by
  obtain ⟨⟨w,shell,sink,starts,rest⟩,flow⟩ := held
  have starts_part : part.starts k = 0 := starts
  refine ⟨⟨w,shell.own rfl ?_,sink,?_,rest⟩,flow⟩
  · intro j other
    simp [Partition.lane,Partition.call,Function.update_of_ne other]
  · simp [Partition.lane,Partition.call,starts_part]

theorem reset_stage (held : At part k .ended) : At (part.tell .reset) k .resetting := by
  have told : part.toSource = [] := held.flow.told
  refine ⟨held.lane,held.flow.source,?_,held.flow.replies,held.flow.events⟩
  simp [Partition.stream,Partition.tell,told,Stage.flow,Flow.told]

theorem stop_stage (held : At part k .done) : At (part.tell .stop) k .stopping := by
  have told : part.toSource = [] := held.flow.told
  refine ⟨held.lane,held.flow.source,?_,held.flow.replies,held.flow.events⟩
  simp [Partition.stream,Partition.tell,told,Stage.flow,Flow.told]

theorem next_stage (held : At part k .done) : At part (k + 1) .fresh := by
  obtain ⟨⟨w,shell,ended⟩,flow⟩ := held
  refine ⟨⟨w,⟨shell.windower,shell.running,?_,?_,?_⟩,shell.later _ (Nat.lt_succ_self k),?_⟩,flow⟩
  · exact fun j known => (shell.known j known).trans (Nat.le_succ k)
  · intro j earlier
    rcases Nat.lt_succ_iff_lt_or_eq.mp earlier with before | rfl
    · exact shell.earlier j before
    · exact ended
  · exact fun j later => shell.later j (Nat.lt_of_succ_lt later)
  · intro known
    exact Nat.not_succ_le_self k (shell.known _ known)

theorem setup_stage : At .setup 0 .fresh := by
  refine ⟨⟨⟨none,0,0,0,false⟩,⟨rfl,rfl,?_,?_,?_⟩,⟨rfl,rfl,rfl,rfl⟩,by simp⟩,⟨_,rfl,rfl,rfl⟩,rfl,rfl,rfl⟩
  · rintro j ⟨⟩
  · intro j earlier
    exact (Nat.not_lt_zero j earlier).elim
  · exact fun j _ => ⟨rfl,rfl,rfl,rfl⟩

theorem stage_safe (held : At part k stage) : part.source ≠ .crashed ∧ part.windower ≠ .crashed := by
  obtain ⟨⟨w,shell,_⟩,flow⟩ := held
  refine ⟨?_,?_⟩
  · intro crashed
    have source : stage.flow.Keeps part.source := flow.source
    rw [crashed] at source
    cases stage with
    | stopped => cases source
    | _ =>
      obtain ⟨_,alive,_⟩ := source
      cases alive
  · intro crashed
    cases crashed.symm.trans shell.windower

end Partitions

def Stage.Working : Stage → Prop
  | .called | .starting | .asked | .streaming => True
  | _ => False

def Stage.Clearing : Stage → Prop
  | .resetting | .flushing | .flushed => True
  | _ => False

-- What the master still has to take from the sink and from the source of a partition.
inductive Due (i : Fin n) (k : ℕ) : Phase n → Stage → List (ToMaster n) → List (ToMaster n) → Prop where
  | fresh : Due i k .idle .fresh [] []
  | spawned : Due i k .prepared .spawned [] []
  | working (member : .sink i k ∈ pids) (working : stage.Working) : Due i k (.awaitOk pids) stage [] []
  | reported (member : .sink i k ∈ pids) :
      Due i k (.awaitOk pids) .ended [.token .ok (.sink i k),.exit (.sink i k)] []
  | heard (absent : .sink i k ∉ pids) : Due i k (.awaitOk pids) .ended [.exit (.sink i k)] []
  | ran : Due i k .ran .ended [.exit (.sink i k)] []
  | exiting (member : .sink i k ∈ pids) (clearing : stage.Clearing) :
      Due i k (.awaitExits pids lastIteration) stage [.exit (.sink i k)] []
  | exitingFlushed (member : .sink i k ∈ pids) :
      Due i k (.awaitExits pids lastIteration) .done [.exit (.sink i k)] [.token .flushed (.source i)]
  | exited (absent : .sink i k ∉ pids) (clearing : stage.Clearing) :
      Due i k (.awaitExits pids lastIteration) stage [] []
  | exitedFlushed (absent : .sink i k ∉ pids) :
      Due i k (.awaitExits pids lastIteration) .done [] [.token .flushed (.source i)]
  | clearing (member : .source i ∈ pids) (clearing : stage.Clearing) :
      Due i k (.awaitFlushed pids lastIteration) stage [] []
  | flushed (member : .source i ∈ pids) :
      Due i k (.awaitFlushed pids lastIteration) .done [] [.token .flushed (.source i)]
  | cleared (absent : .source i ∉ pids) : Due i k (.awaitFlushed pids lastIteration) .done [] []
  | stopping (member : .source i ∈ pids) : Due i k (.awaitStops pids) .stopping [] []
  | stopped (member : .source i ∈ pids) : Due i k (.awaitStops pids) .stopped [] [.exit (.source i)]
  | gone (absent : .source i ∉ pids) : Due i k (.awaitStops pids) .stopped [] []
  | finished : Due i k .finished .stopped [] []

section Dues
variable {i : Fin n} {phase : Phase n} {stage stage' : Stage} {sent ofSink ofSource : List (ToMaster n)}

theorem advance_sender (advance : Advance i k stage stage' sent) :
    ∀ signal ∈ sent, signal.sender = .sink i k ∨ signal.sender = .source i := by
  intro signal member
  cases advance with
  | stay | called | start | ready | reset | flush => cases member
  | window =>
    simp only [List.mem_cons,List.not_mem_nil,or_false] at member
    rcases member with rfl | rfl
    · exact .inl rfl
    · exact .inl rfl
  | flushed | stop =>
    rw [List.mem_singleton.mp member]
    exact .inr rfl

theorem due_advance (due : Due i k phase stage ofSink ofSource) (advance : Advance i k stage stage' sent) :
    Due i k phase stage' (ofSink ++ sent.filter (Signal.sender · = .sink i k))
      (ofSource ++ sent.filter (Signal.sender · = .source i)) := by
  cases advance with
  | stay => simpa using due
  | called | start | ready =>
    cases due with
    | working member _ => exact .working member trivial
    | exiting _ clearing => cases clearing
    | exited _ clearing => cases clearing
    | clearing _ clearing => cases clearing
  | window =>
    simp only [List.filter_cons,List.filter_nil,Signal.sender,decide_true,reduceCtorEq,decide_false,if_true,
      Bool.false_eq_true,if_false]
    cases due with
    | working member _ => exact .reported member
    | exiting _ clearing => cases clearing
    | exited _ clearing => cases clearing
    | clearing _ clearing => cases clearing
  | reset | flush =>
    cases due with
    | working _ working => cases working
    | exiting member _ => exact .exiting member trivial
    | exited absent _ => exact .exited absent trivial
    | clearing member _ => exact .clearing member trivial
  | flushed =>
    simp only [List.filter_cons,List.filter_nil,Signal.sender,decide_true,reduceCtorEq,decide_false,if_true,
      Bool.false_eq_true,if_false]
    cases due with
    | working _ working => cases working
    | exiting member _ => exact .exitingFlushed member
    | exited absent _ => exact .exitedFlushed absent
    | clearing member _ => exact .flushed member
  | stop =>
    simp only [List.filter_cons,List.filter_nil,Signal.sender,decide_true,reduceCtorEq,decide_false,if_true,
      Bool.false_eq_true,if_false]
    cases due with
    | working _ working => cases working
    | exiting _ clearing => cases clearing
    | exited _ clearing => cases clearing
    | clearing _ clearing => cases clearing
    | stopping member => exact .stopped member

end Dues

def System.pending (s : System n) (pid : Pid n) : List (ToMaster n) := s.inbox.pending Signal.sender pid

def Phase.Waits (k : ℕ) : Phase n → Prop
  | .awaitOk pids | .awaitExits pids _ => pids.Sublist (sinks n k)
  | .awaitFlushed pids _ | .awaitStops pids => pids.Sublist (sources n)
  | .failed => False
  | .idle | .prepared | .ran | .finished => True

-- With the exits of the sinks in the mailbox before the first `flushed`.
structure Held (s : System n) : Prop where
  stages : ∀ i, ∃ stage, At (s.parts i) s.iteration stage ∧
    Due i s.iteration s.phase stage (s.pending (.sink i s.iteration)) (s.pending (.source i))
  others : ∀ i k, k ≠ s.iteration → s.pending (.sink i k) = []
  addressed : s.inbox.Addressed Signal.sender
  waits : s.phase.Waits s.iteration
  late : s.inbox.mailbox.Pairwise fun early late => early.carries .flushed = true → ∀ i k, late ≠ .exit (.sink i k)
  drained : ∀ signal ∈ s.inbox.mailbox, signal.carries .flushed = true →
    ∀ i, s.inbox.channel (.sink i s.iteration) = []

section Systems
variable {s next : System n} {signal : ToMaster n} {p : Params}

theorem Held.mailbox_due (held : Held s) (member : signal ∈ s.inbox.mailbox) :
    ∃ i stage ofSink ofSource, Due i s.iteration s.phase stage ofSink ofSource ∧ (signal ∈ ofSink ∨ signal ∈ ofSource) := by
  have pending : signal ∈ s.pending signal.sender := Inbox.mem_pending member
  cases sender : signal.sender with
  | source i =>
    rw [sender] at pending
    obtain ⟨stage,_,due⟩ := held.stages i
    exact ⟨i,stage,_,_,due,.inr pending⟩
  | sink i k =>
    rw [sender] at pending
    by_cases same : k = s.iteration
    · subst same
      obtain ⟨stage,_,due⟩ := held.stages i
      exact ⟨i,stage,_,_,due,.inl pending⟩
    · rw [held.others i k same] at pending
      cases pending

theorem Held.channel_other (held : Held s) (other : k ≠ s.iteration) (i : Fin n) :
    s.inbox.channel (.sink i k) = [] :=
  (List.append_eq_nil_iff.mp (held.others i k other)).2

-- No `flushed` is in the mailbox as long as a sink has something to tell.
theorem Held.not_flushed (held : Held s) (due : Due i s.iteration s.phase .streaming ofSink ofSource)
    (member : signal ∈ s.inbox.mailbox) : signal.carries .flushed = false := by
  obtain ⟨j,stage,_,_,due',among⟩ := held.mailbox_due member
  generalize s.phase = phase at due due'
  cases due with
  | exiting _ clearing => cases clearing
  | exited _ clearing => cases clearing
  | clearing _ clearing => cases clearing
  | working =>
    cases due' with
    | working => simp at among
    | reported =>
      simp only [List.mem_cons,List.not_mem_nil,or_false] at among
      rcases among with rfl | rfl
      · rfl
      · rfl
    | heard =>
      simp only [List.mem_cons,List.not_mem_nil,or_false] at among
      rw [among]
      rfl

theorem moves_held (held : Held s)
    (orderly : ∀ j, arrival = .sinkWindower j → ((s.parts i).orders j).head? = some (.start j) →
      ∀ earlier < j, .wstop ∉ (s.parts i).orders earlier)
    (done : (s.parts i).arrive p i arrival = some (part',sent)) : Held (s.moves i (part',sent)) := by
  obtain ⟨stage,at_stage,due⟩ := held.stages i
  obtain ⟨stage',advance,at_stage'⟩ := arrive_stage at_stage orderly done
  have nothing (pid : Pid n) (sink : pid ≠ .sink i s.iteration) (source : pid ≠ .source i) :
      sent.filter (Signal.sender · = pid) = [] := by
    rw [List.filter_eq_nil_iff]
    intro signal member named
    have same : signal.sender = pid := of_decide_eq_true named
    rcases advance_sender advance signal member with ofSink | ofSource
    · exact sink (same.symm.trans ofSink)
    · exact source (same.symm.trans ofSource)
  have pending_other (pid : Pid n) (sink : pid ≠ .sink i s.iteration) (source : pid ≠ .source i) :
      (s.moves i (part',sent)).pending pid = s.pending pid := by
    refine (Inbox.pending_send pid).trans ?_
    rw [nothing pid sink source,List.append_nil]
    rfl
  exact {
    stages := by
      intro j
      by_cases same : j = i
      · subst same
        refine ⟨stage',?_,?_⟩
        · have here : (s.moves j (part',sent)).parts j = part' := Function.update_self _ _ _
          rw [here]
          exact at_stage'
        · have sink : (s.moves j (part',sent)).pending (.sink j s.iteration) = _ := Inbox.pending_send _
          have source : (s.moves j (part',sent)).pending (.source j) = _ := Inbox.pending_send _
          have kept := due_advance due advance
          exact sink ▸ source ▸ kept
      · obtain ⟨other,at_other,due_other⟩ := held.stages j
        refine ⟨other,?_,?_⟩
        · have here : (s.moves i (part',sent)).parts j = s.parts j := Function.update_of_ne same _ _
          rw [here]
          exact at_other
        · have sink := pending_other (.sink j s.iteration) (by simp [same]) (by simp)
          have source := pending_other (.source j) (by simp) (by simp [same])
          exact sink ▸ source ▸ due_other
    others := by
      intro j k other
      rw [pending_other _ (by simp [show k ≠ s.iteration from other]) (by simp)]
      exact held.others j k other
    addressed := held.addressed.send
    waits := held.waits
    late := held.late
    drained := by
      intro signal member flushed j
      have before := held.drained signal member flushed j
      have quiet : sent.filter (Signal.sender · = .sink j s.iteration) = [] := by
        cases advance with
        | window =>
          rw [held.not_flushed due member] at flushed
          cases flushed
        | stay | called | start | ready | reset | flush => rfl
        | flushed | stop => simp [Signal.sender]
      exact List.append_eq_nil_iff.mpr ⟨before,quiet⟩ }

theorem deliver_held (held : Held s) (orderly : Orderly s (.deliver pid))
    (done : s.inbox.deliver pid = some inbox) : Held { s with inbox := inbox } := by
  have kept (other : Pid n) : ({ s with inbox := inbox } : System n).pending other = s.pending other :=
    Inbox.pending_deliver held.addressed done other
  have smaller (other : Pid n) (empty : s.inbox.channel other = []) : inbox.channel other = [] :=
    List.eq_nil_of_subset_nil (empty ▸ Inbox.deliver_channel_subset done other)
  obtain ⟨signal,rest,here,same⟩ := Inbox.deliver_inv done
  have mailbox : inbox.mailbox = s.inbox.mailbox ++ [signal] := by rw [same]
  have named : signal.sender = pid := held.addressed pid signal (here ▸ List.mem_cons_self)
  exact {
    stages := by
      intro i
      obtain ⟨stage,at_stage,due⟩ := held.stages i
      refine ⟨stage,at_stage,?_⟩
      rw [kept,kept]
      exact due
    others := by
      intro i k other
      rw [kept]
      exact held.others i k other
    addressed := held.addressed.deliver done
    waits := held.waits
    late := by
      have fresh : ∀ early ∈ s.inbox.mailbox, ∀ late ∈ [signal], early.carries .flushed = true →
          ∀ i k, late ≠ .exit (.sink i k) := by
        rintro early member late last flushed i k rfl
        rw [← List.mem_singleton.mp last] at named
        have sender : pid = .sink i k := named.symm
        have channel : s.inbox.channel (.sink i k) = signal :: rest := sender ▸ here
        by_cases same : k = s.iteration
        · subst same
          cases channel.symm.trans (held.drained early member flushed i)
        · cases channel.symm.trans (held.channel_other same i)
      have appended := List.pairwise_append.mpr ⟨held.late,List.pairwise_singleton _ signal,fresh⟩
      rw [← mailbox] at appended
      exact appended
    drained := by
      intro other member flushed i
      refine smaller _ ?_
      have among : other ∈ s.inbox.mailbox ++ [signal] := mailbox ▸ member
      rcases List.mem_append.mp among with old | last
      · exact held.drained other old flushed i
      · refine orderly ?_ i
        rw [here,← List.mem_singleton.mp last]
        exact flushed }

-- What the master does between its receives touches no mailbox.
theorem Held.act (held : Held s) {parts : Fin n → Partition} {phase : Phase n}
    (stages : ∀ i stage ofSink ofSource, At (s.parts i) s.iteration stage →
      Due i s.iteration s.phase stage ofSink ofSource →
      ∃ stage', At (parts i) s.iteration stage' ∧ Due i s.iteration phase stage' ofSink ofSource)
    (waits : phase.Waits s.iteration) : Held { s with parts := parts, phase := phase } where
  stages := by
    intro i
    obtain ⟨stage,at_stage,due⟩ := held.stages i
    exact stages i stage _ _ at_stage due
  others := held.others
  addressed := held.addressed
  waits := waits
  late := held.late
  drained := held.drained

theorem sink_member (i : Fin n) (k : ℕ) : .sink i k ∈ sinks n k :=
  List.mem_map.mpr ⟨i,List.mem_finRange i,rfl⟩

theorem source_member (i : Fin n) : .source i ∈ sources n := List.mem_map.mpr ⟨i,List.mem_finRange i,rfl⟩

theorem prepare_held (held : Held s) (done : masterPrepareIteration s = some next) : Held next := by
  unfold masterPrepareIteration at done
  split at done
  · rename_i idle
    cases done
    refine held.act ?_ trivial
    intro i stage ofSink ofSource at_stage due
    rw [idle] at due
    cases due with
    | fresh => exact ⟨.spawned,spawn_stage at_stage,.spawned⟩
  · cases done

theorem run_held (held : Held s) (done : masterRunIteration s = some next) : Held next := by
  unfold masterRunIteration at done
  split at done
  · rename_i prepared
    cases done
    refine held.act ?_ (List.Sublist.refl _)
    intro i stage ofSink ofSource at_stage due
    rw [prepared] at due
    cases due with
    | spawned => exact ⟨.called,call_stage at_stage,.working (sink_member i s.iteration) trivial⟩
  · cases done

theorem cleanup_held (held : Held s) (done : masterCleanupIteration s lastIteration = some next) : Held next := by
  unfold masterCleanupIteration at done
  split at done
  · rename_i ran
    cases done
    refine held.act ?_ (List.Sublist.refl _)
    intro i stage ofSink ofSource at_stage due
    rw [ran] at due
    cases due with
    | ran => exact ⟨.resetting,reset_stage at_stage,.exiting (sink_member i s.iteration) trivial⟩
  · cases done

theorem sinks_nodup (n k : ℕ) : (sinks n k).Nodup := by
  refine (List.nodup_finRange n).map ?_
  intro i j same
  cases same
  rfl

theorem sources_nodup (n : ℕ) : (sources n).Nodup := by
  refine (List.nodup_finRange n).map ?_
  intro i j same
  cases same
  rfl

def Phase.less (pid : Pid n) : Phase n → Phase n
  | .awaitOk pids => .awaitOk (pids.erase pid)
  | .awaitExits pids lastIteration => .awaitExits (pids.erase pid) lastIteration
  | .awaitFlushed pids lastIteration => .awaitFlushed (pids.erase pid) lastIteration
  | .awaitStops pids => .awaitStops (pids.erase pid)
  | phase => phase

theorem less_waits {phase : Phase n} (waits : phase.Waits k) (pid : Pid n) : (phase.less pid).Waits k := by
  cases phase with
  | awaitOk | awaitExits | awaitFlushed | awaitStops => exact List.erase_sublist.trans waits
  | idle | prepared | ran | finished | failed => exact waits

theorem Due.other (due : Due i k phase stage ofSink ofSource) (sink : .sink i k ≠ pid) (source : .source i ≠ pid) :
    Due i k (phase.less pid) stage ofSink ofSource := by
  cases due with
  | fresh => exact .fresh
  | spawned => exact .spawned
  | ran => exact .ran
  | finished => exact .finished
  | working member working => exact .working ((List.mem_erase_of_ne sink).mpr member) working
  | reported member => exact .reported ((List.mem_erase_of_ne sink).mpr member)
  | heard absent => exact .heard fun member => absent (List.mem_of_mem_erase member)
  | exiting member clearing => exact .exiting ((List.mem_erase_of_ne sink).mpr member) clearing
  | exitingFlushed member => exact .exitingFlushed ((List.mem_erase_of_ne sink).mpr member)
  | exited absent clearing => exact .exited (fun member => absent (List.mem_of_mem_erase member)) clearing
  | exitedFlushed absent => exact .exitedFlushed fun member => absent (List.mem_of_mem_erase member)
  | clearing member clearing => exact .clearing ((List.mem_erase_of_ne source).mpr member) clearing
  | flushed member => exact .flushed ((List.mem_erase_of_ne source).mpr member)
  | cleared absent => exact .cleared fun member => absent (List.mem_of_mem_erase member)
  | stopping member => exact .stopping ((List.mem_erase_of_ne source).mpr member)
  | stopped member => exact .stopped ((List.mem_erase_of_ne source).mpr member)
  | gone absent => exact .gone fun member => absent (List.mem_of_mem_erase member)

-- A signal that is taken leaves one partition with less to wait for.
theorem Held.take (held : Held s) (waiting : s.phase = phase) (member : signal ∈ s.inbox.mailbox)
    (own : ∀ i stage ofSink ofSource, Due i s.iteration phase stage ofSink ofSource →
      (signal.sender = .sink i s.iteration → signal ∈ ofSink →
        Due i s.iteration (phase.less signal.sender) stage (ofSink.erase signal) ofSource) ∧
      (signal.sender = .source i → signal ∈ ofSource →
        Due i s.iteration (phase.less signal.sender) stage ofSink (ofSource.erase signal))) :
    Held { s with phase := phase.less signal.sender, inbox := s.inbox.take signal } := by
  subst waiting
  have pending (pid : Pid n) : ({ s with phase := s.phase.less signal.sender, inbox := s.inbox.take signal } :
      System n).pending pid = if signal.sender = pid then (s.pending pid).erase signal else s.pending pid :=
    Inbox.pending_take member pid
  have among : signal ∈ s.pending signal.sender := Inbox.mem_pending member
  exact {
    stages := by
      intro i
      obtain ⟨stage,at_stage,due⟩ := held.stages i
      obtain ⟨ofSink,ofSource⟩ := own i stage _ _ due
      refine ⟨stage,at_stage,?_⟩
      rw [pending,pending]
      by_cases sink : signal.sender = .sink i s.iteration
      · rw [if_pos sink,if_neg (by simp [sink])]
        exact ofSink sink (sink ▸ among)
      · rw [if_neg sink]
        by_cases source : signal.sender = .source i
        · rw [if_pos source]
          exact ofSource source (source ▸ among)
        · rw [if_neg source]
          exact due.other (Ne.symm sink) (Ne.symm source)
    others := by
      intro i k other
      have nothing := held.others i k other
      rw [pending,nothing]
      simp
    addressed := held.addressed
    waits := less_waits held.waits _
    late := held.late.sublist List.erase_sublist
    drained := fun other later => held.drained other (List.mem_of_mem_erase later) }

theorem next_held (held : Held s) (waiting : s.phase = .awaitFlushed [] lastIteration) :
    Held { s with phase := .idle, iteration := s.iteration + 1 } := by
  have done (i : Fin n) : At (s.parts i) s.iteration .done ∧ s.pending (.sink i s.iteration) = [] ∧
      s.pending (.source i) = [] := by
    obtain ⟨stage,at_stage,due⟩ := held.stages i
    rw [waiting] at due
    generalize s.pending (.sink i s.iteration) = ofSink, s.pending (.source i) = ofSource at due ⊢
    cases due with
    | clearing member _ => cases member
    | flushed member => cases member
    | cleared => exact ⟨at_stage,rfl,rfl⟩
  have nothing (i : Fin n) (k : ℕ) : s.pending (.sink i k) = [] := by
    by_cases same : k = s.iteration
    · rw [same]
      exact (done i).2.1
    · exact held.others i k same
  exact {
    stages := by
      intro i
      refine ⟨.fresh,next_stage (done i).1,?_⟩
      have sink : ({ s with phase := .idle, iteration := s.iteration + 1 } : System n).pending
        (.sink i (s.iteration + 1)) = [] := nothing i _
      have source : ({ s with phase := .idle, iteration := s.iteration + 1 } : System n).pending (.source i) = [] :=
        (done i).2.2
      rw [sink,source]
      exact .fresh
    others := fun i k _ => nothing i k
    addressed := held.addressed
    waits := trivial
    late := held.late
    drained := fun _ _ _ i => (List.append_eq_nil_iff.mp (nothing i _)).2 }

theorem flushed_held (held : Held s) (waiting : s.phase = .awaitFlushed [] lastIteration) :
    Held (s.flushed lastIteration) := by
  unfold System.flushed
  split
  · refine held.act ?_ (List.Sublist.refl _)
    intro i stage ofSink ofSource at_stage due
    rw [waiting] at due
    cases due with
    | clearing member _ => cases member
    | flushed member => cases member
    | cleared => exact ⟨.stopping,stop_stage at_stage,.stopping (source_member i)⟩
  · exact next_held held waiting

theorem await_held {received : Received Token (Pid n)} {again : List (Pid n) → Phase n} {after : System n}
    (done : s.await received again after = some next) (ok : received = .ok → Held after) (sound : received ≠ .error)
    (taken : ∀ pids signal, received = .next pids signal →
      Held { s with phase := again pids, inbox := s.inbox.take signal }) : Held next := by
  cases received with
  | waits => cases done
  | ok =>
    cases done
    exact ok rfl
  | error => exact (sound rfl).elim
  | next pids signal =>
    cases done
    exact taken pids signal rfl

theorem Held.waits_in (held : Held s) (waiting : s.phase = phase) : phase.Waits s.iteration := by
  rw [← waiting]
  exact held.waits

theorem receive_ok (held : Held s) (waiting : s.phase = .awaitOk pids) (done : receive s = some next) :
    Held next := by
  have within : pids.Sublist (sinks n s.iteration) := held.waits_in waiting
  have once := within.nodup (sinks_nodup n s.iteration)
  simp only [receive,waiting] at done
  refine await_held done ?_ ?_ ?_
  · intro received
    have last := awaitAll_ok received
    refine held.act ?_ trivial
    intro i stage ofSink ofSource at_stage due
    rw [waiting,last] at due
    cases due with
    | working member _ => cases member
    | reported member => cases member
    | heard => exact ⟨.ended,at_stage,.ran⟩
  · intro received
    obtain ⟨pid,absent,member⟩ := awaitAll_error received
    obtain ⟨i,stage,_,_,due,among⟩ := held.mailbox_due member
    rw [waiting] at due
    cases due with
    | working => simp at among
    | reported here =>
      have same : pid = .sink i s.iteration := by simpa using among
      exact absent (same ▸ here)
    | heard => simp at among
  · intro pids' signal received
    obtain ⟨pid,here,rfl,rfl,member⟩ := awaitAll_next received
    refine held.take waiting member ?_
    intro i stage ofSink ofSource due
    cases due with
    | working | heard => exact ⟨by simp,by simp⟩
    | reported =>
      refine ⟨?_,by simp⟩
      rintro named -
      cases named
      rw [List.erase_cons_head]
      exact .heard once.not_mem_erase

theorem Due.missing (due : Due i k (.awaitExits pids lastIteration) stage ofSink ofSource)
    (here : .sink i k ∈ pids) : ofSink = [.exit (.sink i k)] := by
  cases due with
  | exiting | exitingFlushed => rfl
  | exited absent => exact (absent here).elim
  | exitedFlushed absent => exact (absent here).elim

-- The exit of a sink that is still missing is in the mailbox by then, and before any `flushed`.
theorem flushed_not_first (held : Held s) (waiting : s.phase = .awaitExits pids lastIteration)
    (some : pids ≠ []) (mailbox : s.inbox.mailbox = .token .flushed pid :: rest) : False := by
  have within : pids.Sublist (sinks n s.iteration) := held.waits_in waiting
  obtain ⟨missing,here⟩ := List.exists_mem_of_ne_nil pids some
  obtain ⟨i,_,named⟩ := List.mem_map.mp (within.subset here)
  subst named
  obtain ⟨stage,_,due⟩ := held.stages i
  rw [waiting] at due
  have member : .token .flushed pid ∈ s.inbox.mailbox := mailbox ▸ List.mem_cons_self
  have channel := held.drained _ member rfl i
  have all : s.pending (.sink i s.iteration) = s.inbox.mailbox.filter (Signal.sender · = .sink i s.iteration) := by
    rw [System.pending,Inbox.pending,channel,List.append_nil]
  have present : .exit (.sink i s.iteration) ∈ s.inbox.mailbox := by
    refine List.mem_of_mem_filter (p := (Signal.sender · = .sink i s.iteration)) ?_
    rw [← all,due.missing here]
    exact List.mem_cons_self
  have late := held.late
  rw [mailbox] at late present
  rcases List.mem_cons.mp present with first | later
  · cases first
  · exact (List.pairwise_cons.mp late).1 _ later rfl i s.iteration rfl

theorem first_exit (held : Held s) (waiting : s.phase = .awaitExits pids lastIteration) (some : pids ≠ [])
    (mailbox : s.inbox.mailbox = signal :: rest) : ∃ pid ∈ pids, signal = .exit pid := by
  have member : signal ∈ s.inbox.mailbox := mailbox ▸ List.mem_cons_self
  obtain ⟨i,stage,ofSink,ofSource,due,among⟩ := held.mailbox_due member
  rw [waiting] at due
  rcases among with sink | source
  · by_cases here : .sink i s.iteration ∈ pids
    · rw [due.missing here] at sink
      exact ⟨_,here,List.mem_singleton.mp sink⟩
    · cases due with
      | exiting here' => exact (here here').elim
      | exitingFlushed here' => exact (here here').elim
      | exited | exitedFlushed => cases sink
  · cases due with
    | exiting | exited => cases source
    | exitingFlushed | exitedFlushed =>
      rw [List.mem_singleton.mp source] at mailbox
      exact (flushed_not_first held waiting some mailbox).elim

theorem receive_exits (held : Held s) (waiting : s.phase = .awaitExits pids lastIteration)
    (done : receive s = some next) : Held next := by
  have within : pids.Sublist (sinks n s.iteration) := held.waits_in waiting
  have once := within.nodup (sinks_nodup n s.iteration)
  simp only [receive,waiting] at done
  refine await_held done ?_ ?_ ?_
  · intro received
    have last := awaitExitAll_ok received
    refine held.act ?_ (List.Sublist.refl _)
    intro i stage ofSink ofSource at_stage due
    rw [waiting,last] at due
    cases due with
    | exiting member _ => cases member
    | exitingFlushed member => cases member
    | exited _ clearing => exact ⟨stage,at_stage,.clearing (source_member i) clearing⟩
    | exitedFlushed => exact ⟨.done,at_stage,.flushed (source_member i)⟩
  · intro received
    obtain ⟨some,signal,rest,mailbox,wrong⟩ := awaitExitAll_error received
    obtain ⟨pid,member,exit⟩ := first_exit held waiting some mailbox
    exact (wrong pid member exit).elim
  · intro pids' signal received
    obtain ⟨pid,here,rfl,rfl,member⟩ := awaitExitAll_next received
    refine held.take waiting member ?_
    intro i stage ofSink ofSource due
    cases due with
    | exited | exitedFlushed => exact ⟨by simp,by simp⟩
    | exiting _ clearing =>
      refine ⟨?_,by simp⟩
      rintro named -
      cases named
      rw [List.erase_cons_head]
      exact .exited once.not_mem_erase clearing
    | exitingFlushed =>
      refine ⟨?_,by simp⟩
      rintro named -
      cases named
      rw [List.erase_cons_head]
      exact .exitedFlushed once.not_mem_erase

theorem receive_flushed (held : Held s) (waiting : s.phase = .awaitFlushed pids lastIteration)
    (done : receive s = some next) : Held next := by
  have within : pids.Sublist (sources n) := held.waits_in waiting
  have once := within.nodup (sources_nodup n)
  simp only [receive,waiting] at done
  refine await_held done ?_ ?_ ?_
  · intro received
    rw [awaitAll_ok received] at waiting
    exact flushed_held held waiting
  · intro received
    obtain ⟨pid,absent,member⟩ := awaitAll_error received
    obtain ⟨i,stage,_,_,due,among⟩ := held.mailbox_due member
    rw [waiting] at due
    cases due with
    | clearing => simp at among
    | flushed here =>
      have same : pid = .source i := by simpa using among
      exact absent (same ▸ here)
    | cleared => simp at among
  · intro pids' signal received
    obtain ⟨pid,here,rfl,rfl,member⟩ := awaitAll_next received
    refine held.take waiting member ?_
    intro i stage ofSink ofSource due
    cases due with
    | clearing | cleared => exact ⟨by simp,by simp⟩
    | flushed =>
      refine ⟨by simp,?_⟩
      rintro named -
      cases named
      rw [List.erase_cons_head]
      exact .cleared once.not_mem_erase

theorem receive_stops (held : Held s) (waiting : s.phase = .awaitStops pids) (done : receive s = some next) :
    Held next := by
  have within : pids.Sublist (sources n) := held.waits_in waiting
  have once := within.nodup (sources_nodup n)
  simp only [receive,waiting] at done
  refine await_held done ?_ ?_ ?_
  · intro received
    have last := awaitExitAll_ok received
    refine held.act ?_ trivial
    intro i stage ofSink ofSource at_stage due
    rw [waiting,last] at due
    cases due with
    | stopping member => cases member
    | stopped member => cases member
    | gone => exact ⟨.stopped,at_stage,.finished⟩
  · intro received
    obtain ⟨some,signal,rest,mailbox,wrong⟩ := awaitExitAll_error received
    have member : signal ∈ s.inbox.mailbox := mailbox ▸ List.mem_cons_self
    obtain ⟨i,stage,_,_,due,among⟩ := held.mailbox_due member
    rw [waiting] at due
    cases due with
    | stopping => simp at among
    | stopped here =>
      rcases among with other | exit
      · cases other
      · exact (wrong _ here (List.mem_singleton.mp exit)).elim
    | gone => simp at among
  · intro pids' signal received
    obtain ⟨pid,here,rfl,rfl,member⟩ := awaitExitAll_next received
    refine held.take waiting member ?_
    intro i stage ofSink ofSource due
    cases due with
    | stopping | gone => exact ⟨by simp,by simp⟩
    | stopped =>
      refine ⟨by simp,?_⟩
      rintro named -
      cases named
      rw [List.erase_cons_head]
      exact .gone once.not_mem_erase

theorem receive_held (held : Held s) (done : receive s = some next) : Held next := by
  cases waiting : s.phase with
  | awaitOk pids => exact receive_ok held waiting done
  | awaitExits pids lastIteration => exact receive_exits held waiting done
  | awaitFlushed pids lastIteration => exact receive_flushed held waiting done
  | awaitStops pids => exact receive_stops held waiting done
  | idle | prepared | ran | finished | failed =>
    simp only [receive,waiting] at done
    cases done

theorem step_held (held : Held s) (orderly : Orderly s action) (done : step p s action = some next) : Held next := by
  cases action with
  | masterPrepareIteration => exact prepare_held held done
  | masterRunIteration => exact run_held held done
  | masterCleanupIteration lastIteration => exact cleanup_held held done
  | receive => exact receive_held held done
  | deliver pid =>
    obtain ⟨inbox,delivered,rfl⟩ := Option.map_eq_some_iff.mp done
    exact deliver_held held orderly delivered
  | arrive i arrival =>
    obtain ⟨⟨part',sent⟩,arrived,rfl⟩ := Option.map_eq_some_iff.mp done
    refine moves_held held ?_ arrived
    rintro j rfl
    exact orderly

theorem start_held (n : ℕ) : Held (.start n) where
  stages := fun _ => ⟨.fresh,setup_stage,.fresh⟩
  others := fun _ _ _ => rfl
  addressed := Inbox.addressed_empty
  waits := trivial
  late := .nil
  drained := by
    rintro signal ⟨⟩

theorem held_safe (held : Held s) : s.RaceFree := by
  refine ⟨fun failed => held.waits_in failed,fun i => ?_⟩
  · obtain ⟨_,at_stage,_⟩ := held.stages i
    exact stage_safe at_stage

def receives : ℕ → System n → Option (System n)
  | 0,s => some s
  | count + 1,s => (receive s).bind (receives count)

-- A windower is gone, or some receives from here the master gets an error.
def System.Fails (s : System n) : Prop :=
  (∃ i, (s.parts i).windower = .crashed) ∨ ∃ count last, receives count s = some last ∧ last.phase = .failed

theorem error_fails (waiting : s.phase = .awaitExits pids lastIteration)
    (wrong : awaitExitAll pids s.inbox.mailbox = .error) :
    ∃ count last, receives count s = some last ∧ last.phase = .failed := by
  refine ⟨1,{ s with phase := .failed },?_,rfl⟩
  simp [receives,receive,waiting,wrong,System.await]

theorem early_start_fails (held : Held s) (first : ((s.parts i).orders k).head? = some (.start k))
    (earlier : j < k) (owed : .wstop ∈ (s.parts i).orders j)
    (done : (s.parts i).arrive p i (.sinkWindower k) = some (part',sent)) : part'.windower = .crashed := by
  obtain ⟨stage,⟨⟨w,shell,keeps⟩,_⟩,_⟩ := held.stages i
  obtain ⟨rest,here⟩ : ∃ rest, (s.parts i).orders k = .start k :: rest := List.head?_eq_some_iff.mp first
  obtain ⟨_,⟨other,_⟩ | ⟨_,same,_⟩⟩ := order_inv shell keeps here
  · cases other
  · have gone := shell.earlier j (same ▸ earlier)
    have orders : (s.parts i).orders j = if w.downstream = some j then [.wstop] else [] := gone.2.2
    have known : w.downstream = some j := by
      by_contra other
      rw [orders,if_neg other] at owed
      cases owed
    have runs : w.running = true := by rw [shell.running,known]; rfl
    have windower : (s.parts i).windower = .alive w := shell.windower
    have handled : windowerHandle p w (.start k) = none := by rw [windowerHandle,if_pos runs]
    simp only [Partition.arrive,here] at done
    cases done
    simp only [Partition.windowerTakes,windower,handled]

-- Behind a `flushed`, the exit of a sink that the master waits for comes too late.
theorem flushed_first_fails (waiting : s.phase = .awaitExits pids lastIteration)
    (mailbox : s.inbox.mailbox = before ++ .token .flushed source :: after) (missing : pid ∈ pids)
    (late : .exit pid ∉ before) : ∃ count last, receives count s = some last ∧ last.phase = .failed := by
  induction before generalizing s pids with
  | nil =>
    have wrong : awaitExitAll pids s.inbox.mailbox = .error := by
      rw [mailbox]
      exact awaitExitAll_token (List.ne_nil_of_mem missing) after
    exact error_fails waiting wrong
  | cons first before ih =>
    have some_pid : pids ≠ [] := List.ne_nil_of_mem missing
    cases first with
    | token other sent =>
      have wrong : awaitExitAll pids s.inbox.mailbox = .error := by
        rw [mailbox]
        exact awaitExitAll_token some_pid _
      exact error_fails waiting wrong
    | exit other =>
      have answer : awaitExitAll pids s.inbox.mailbox =
          if other ∈ pids then .next (pids.erase other) (.exit other) else .error := by
        rw [mailbox]
        exact awaitExitAll_exit some_pid _
      by_cases here : other ∈ pids
      · rw [if_pos here] at answer
        have different : pid ≠ other := by
          rintro rfl
          exact late List.mem_cons_self
        let left : System n := { s with
          phase := .awaitExits (pids.erase other) lastIteration
          inbox := s.inbox.take (.exit other) }
        have mailbox' : left.inbox.mailbox = before ++ .token .flushed source :: after := by
          simp only [left,Inbox.take,mailbox]
          exact List.erase_cons_head _ _
        obtain ⟨count,last,run,failed⟩ := ih (s := left) rfl mailbox' ((List.mem_erase_of_ne different).mpr missing)
          fun member => late (List.mem_cons_of_mem _ member)
        refine ⟨count + 1,last,?_,failed⟩
        have taken : receive s = some left := by
          simp only [receive,waiting,answer]
          rfl
        rw [receives,taken]
        exact run
      · rw [if_neg here] at answer
        exact error_fails waiting answer

theorem Due.flushed_phase (due : Due i k phase stage ofSink ofSource)
    (among : signal ∈ ofSink ∨ signal ∈ ofSource) (flushed : signal.carries .flushed = true) :
    ∃ pids lastIteration, phase = .awaitExits pids lastIteration ∨ phase = .awaitFlushed pids lastIteration := by
  cases due with
  | fresh | spawned | working | stopping | gone | finished => simp at among
  | reported | heard | ran | stopped =>
    simp only [List.mem_cons,List.not_mem_nil,or_false,false_or] at among
    rcases among with rfl | rfl <;> cases flushed
  | exiting | exitingFlushed | exited | exitedFlushed => exact ⟨_,_,.inl rfl⟩
  | clearing | flushed | cleared => exact ⟨_,_,.inr rfl⟩

theorem Due.owed_exit (due : Due i k phase stage ofSink ofSource)
    (waiting : phase = .awaitExits pids lastIteration ∨ phase = .awaitFlushed pids lastIteration)
    (owed : ofSink ≠ []) : phase = .awaitExits pids lastIteration ∧ .sink i k ∈ pids ∧ ofSink = [.exit (.sink i k)] := by
  rcases waiting with rfl | rfl
  · cases due with
    | exiting member | exitingFlushed member => exact ⟨rfl,member,rfl⟩
    | exited | exitedFlushed => exact (owed rfl).elim
  · cases due with
    | clearing | flushed | cleared => exact (owed rfl).elim

theorem early_flushed_fails (held : Held s) (head : (s.inbox.channel source).head?.any (Signal.carries .flushed) = true)
    (owed : s.inbox.channel (.sink i s.iteration) ≠ []) (done : s.inbox.deliver source = some inbox) :
    ({ s with inbox := inbox } : System n).Fails := by
  obtain ⟨signal,rest,here,rfl⟩ := Inbox.deliver_inv done
  have flushed : signal.carries .flushed = true := by simpa [here] using head
  have among : signal ∈ s.pending source := List.mem_append_right _ (here ▸ List.mem_cons_self)
  obtain ⟨pids,lastIteration,waiting⟩ : ∃ pids lastIteration,
      s.phase = .awaitExits pids lastIteration ∨ s.phase = .awaitFlushed pids lastIteration := by
    cases source with
    | source j =>
      obtain ⟨_,_,due⟩ := held.stages j
      exact due.flushed_phase (.inr among) flushed
    | sink j k =>
      by_cases same : k = s.iteration
      · subst same
        obtain ⟨_,_,due⟩ := held.stages j
        exact due.flushed_phase (.inl among) flushed
      · rw [held.others j k same] at among
        cases among
  obtain ⟨_,_,due⟩ := held.stages i
  have some_owed : s.pending (.sink i s.iteration) ≠ [] := fun nothing => owed (List.append_eq_nil_iff.mp nothing).2
  obtain ⟨exits,member,pending⟩ := due.owed_exit waiting some_owed
  have missing : .exit (.sink i s.iteration) ∉ s.inbox.mailbox := by
    intro inside
    rcases List.append_eq_singleton_iff.mp pending with ⟨none_there,_⟩ | ⟨_,none_coming⟩
    · have filtered : .exit (.sink i s.iteration) ∈
          s.inbox.mailbox.filter (Signal.sender · = .sink i s.iteration) :=
        List.mem_filter.mpr ⟨inside,decide_eq_true rfl⟩
      rw [none_there] at filtered
      cases filtered
    · exact owed none_coming
  have first : s.inbox.mailbox ++ [signal] = s.inbox.mailbox ++ .token .flushed signal.sender :: [] := by
    rw [← carries_inv flushed]
  exact .inr (flushed_first_fails exits first member missing)

-- The two orders are needed: a step against them from a run that has kept them fails.
theorem disorderly_fails (path : Reached (step p) Orderly (.start n) s) (against : ¬Orderly s action)
    (done : step p s action = some next) : next.Fails := by
  have held : Held s := path.invariant Held (start_held n) fun _ _ _ held orderly done => step_held held orderly done
  cases action with
  | masterPrepareIteration | masterRunIteration | masterCleanupIteration | receive => exact (against trivial).elim
  | deliver pid =>
    obtain ⟨head,owed⟩ := Classical.not_imp.mp against
    obtain ⟨i,owed⟩ := not_forall.mp owed
    obtain ⟨inbox,delivered,rfl⟩ := Option.map_eq_some_iff.mp done
    exact early_flushed_fails held head owed delivered
  | arrive i arrival =>
    cases arrival with
    | masterSource | sourceSource | windowerSource | sourceWindower | masterSink | windowerSink =>
      exact (against trivial).elim
    | sinkWindower k =>
      obtain ⟨first,owed⟩ := Classical.not_imp.mp against
      obtain ⟨j,owed⟩ := not_forall.mp owed
      obtain ⟨earlier,owed⟩ := Classical.not_imp.mp owed
      obtain ⟨⟨part',sent⟩,arrived,rfl⟩ := Option.map_eq_some_iff.mp done
      have crashed := early_start_fails held first earlier (not_not.mp owed) arrived
      have here : (s.moves i (part',sent)).parts i = part' := Function.update_self _ _ _
      exact .inl ⟨i,by rw [here,crashed]⟩

end Systems

-- Whatever else is in any order, these two orders make the boundary safe.
theorem boundary_race_free (path : Reached (step p) Orderly (.start n) s) : s.RaceFree := by
  refine held_safe (path.invariant Held (start_held n) ?_)
  intro s action next held orderly done
  exact step_held held orderly done

-- One partition from the start of an iteration to its end, with one window for each sink.
def throughIteration (k : ℕ) : List (Action 1) :=
  [.masterPrepareIteration,.masterRunIteration,.arrive 0 (.masterSink k),.arrive 0 (.sinkWindower k),
    .arrive 0 .windowerSource,.arrive 0 .sourceWindower,.arrive 0 .sourceSource,.arrive 0 .sourceWindower,
    .arrive 0 (.windowerSink k),.deliver (.sink 0 k),.receive,.receive]

def cleanup (lastIteration : Bool) : List (Action 1) :=
  [.masterCleanupIteration lastIteration,.arrive 0 .masterSource,.arrive 0 .sourceWindower,.arrive 0 .windowerSource]

def awaitEnd (k : ℕ) : List (Action 1) :=
  [.deliver (.sink 0 k),.receive,.receive,.deliver (.source 0),.receive,.receive]

def stopSource : List (Action 1) := [.arrive 0 .masterSource,.deliver (.source 0),.receive,.receive]

theorem two_iterations_race_free : ∃ s, Reached (step ⟨4,1,1,1⟩) Orderly (.start 1) s ∧
    (s.phase = .finished ∧ s.iteration = 1) ∧ s.RaceFree := by
  let wstop : Action 1 := .arrive 0 (.sinkWindower 0)
  let events := throughIteration 0 ++ cleanup false ++ awaitEnd 0 ++ [wstop] ++
    throughIteration 1 ++ cleanup true ++ awaitEnd 1 ++ stopSource
  obtain ⟨s,path,holds⟩ : ∃ s, Reached (step ⟨4,1,1,1⟩) Orderly (.start 1) s ∧
      decide (s.phase = .finished ∧ s.iteration = 1) = true := runs_check events (by decide +kernel)
  exact ⟨s,path,of_decide_eq_true holds,boundary_race_free path⟩

def AnyOrder (_ : System n) (_ : Action n) : Prop := True

instance (s : System n) (action : Action n) : Decidable (AnyOrder s action) := inferInstanceAs (Decidable True)

-- `flushed` in the mailbox before the exit of the sink ends `await_exit_all`; a `wstop`
-- later than the next `start` finds the windower running.
theorem boundary_races :
    (∃ s, Reached (step ⟨4,1,1,1⟩) AnyOrder (.start 1) s ∧ s.phase = .failed ∧ ¬s.RaceFree) ∧
      ∃ s, Reached (step ⟨4,1,1,1⟩) AnyOrder (.start 1) s ∧ (s.parts 0).windower = .crashed ∧ ¬s.RaceFree := by
  refine ⟨?_,?_⟩
  · let flushed : List (Action 1) := [.deliver (.source 0),.receive]
    let events := throughIteration 0 ++ cleanup false ++ flushed
    obtain ⟨s,path,holds⟩ : ∃ s, Reached (step ⟨4,1,1,1⟩) AnyOrder (.start 1) s ∧
        decide (s.phase = .failed) = true := runs_check events (by decide +kernel)
    have failed := of_decide_eq_true holds
    exact ⟨s,path,failed,fun safe => safe.1 failed⟩
  · let started : List (Action 1) :=
      [.masterPrepareIteration,.masterRunIteration,.arrive 0 (.masterSink 1),.arrive 0 (.sinkWindower 1)]
    let events := throughIteration 0 ++ cleanup false ++ awaitEnd 0 ++ started
    obtain ⟨s,path,holds⟩ : ∃ s, Reached (step ⟨4,1,1,1⟩) AnyOrder (.start 1) s ∧
        decide ((s.parts 0).windower = .crashed) = true := runs_check events (by decide +kernel)
    have crashed := of_decide_eq_true holds
    exact ⟨s,path,crashed,fun safe => (safe.2 0).2 crashed⟩

end KompicsBenches.StreamBoundary
