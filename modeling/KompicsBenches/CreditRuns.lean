import KompicsBenches.StreamingWindows

namespace KompicsBenches.StreamingWindows

open GuardedRuns

variable {p : Params} {s after : System}

-- A handled event gives its credit to the count or, with the count, to a `Ready`;
-- a windower that has stopped drops it.
structure Took (p : Params) (before after : Windower) (readies : List SourceMsg) (aggregates : List Aggregate) :
    Prop where
  running : after.running = before.running
  downstream : after.downstream = before.downstream
  credit : before.running = true →
    after.receivedSinceReady + (readies.map SourceMsg.credit).sum = before.receivedSinceReady + 1
  bound : after.receivedSinceReady ≤ p.readyMark
  kinds : ∀ msg ∈ readies, msg.isReady = true
  sinks : ∀ a ∈ aggregates, before.downstream = some a.sink

theorem manageReady_spec (p : Params) (w : Windower) : ∃ received readies,
    w.manageReady p = ({ w with receivedSinceReady := received },readies) ∧
      received + (readies.map SourceMsg.credit).sum = w.receivedSinceReady + 1 ∧ received ≤ p.readyMark ∧
        ∀ msg ∈ readies, msg.isReady = true := by
  unfold Windower.manageReady
  dsimp only
  split
  · refine ⟨_,_,rfl,by simp [SourceMsg.credit],Nat.zero_le _,?_⟩
    intro msg member
    cases List.mem_singleton.mp member
    rfl
  · refine ⟨_,_,rfl,by simp,by omega,?_⟩
    intro msg member
    cases member

theorem closeWindow_spec (p : Params) {w : Windower} (known : w.downstream.isSome) (ts : ℕ) :
    ∃ (closed : Windower) (aggregates : List Aggregate), w.closeWindow p ts = some (closed,aggregates) ∧
      closed.running = w.running ∧ closed.downstream = w.downstream ∧
        closed.receivedSinceReady = w.receivedSinceReady ∧ ∀ a ∈ aggregates, w.downstream = some a.sink := by
  obtain ⟨sink,path⟩ := Option.isSome_iff_exists.mp known
  unfold Windower.closeWindow Windower.triggerWindow
  split
  · split
    · exact ⟨_,_,rfl,rfl,rfl,rfl,by simp⟩
    · rw [path]
      exact ⟨_,_,rfl,rfl,rfl,rfl,by simp⟩
  · exact ⟨_,_,rfl,rfl,rfl,rfl,by simp⟩

theorem event_spec (p : Params) {w : Windower} (running : w.running = true) (known : w.downstream.isSome)
    (sender : Option ℕ) (ts : ℕ) : ∃ after readies aggregates,
      w.receive p sender (.event ts) = some (after,readies,aggregates) ∧ Took p w after readies aggregates := by
  obtain ⟨closed,aggregates,done,same_running,same_path,same_count,sinks⟩ := closeWindow_spec p known ts
  obtain ⟨received,readies,ready,credit,bound,kind⟩ := manageReady_spec p
    { closed with currentWindow := closed.currentWindow + p.amplification }
  refine ⟨{ closed with currentWindow := closed.currentWindow + p.amplification, receivedSinceReady := received },
    readies,aggregates,?_,?_⟩
  · simp only [Windower.receive,running,if_true,done,Option.bind_eq_bind,Option.bind_some]
    rw [ready]
  · refine ⟨same_running,same_path,?_,bound,kind,sinks⟩
    intro _
    rw [← same_count]
    exact credit

-- The source turns credit into events and tells itself to go on while any is left.
structure Sent (before after : StreamSource) (events : List WindowerMsg) (nexts : List SourceMsg) : Prop where
  credit : after.remaining + events.length = before.remaining
  flushing : after.flushing = before.flushing
  downstream : after.downstream = before.downstream
  kinds : ∀ msg ∈ events, msg.isEvent = true
  tells : ∀ msg ∈ nexts, msg = .next
  driven : 0 < after.remaining → SourceMsg.next ∈ nexts

theorem send_spec {source : StreamSource} (known : source.downstream = true ∨ source.remaining = 0) :
    ∃ after events nexts, source.send = some (after,events,nexts) ∧ Sent source after events nexts := by
  unfold StreamSource.send
  split
  · rename_i left
    have path : source.downstream = true := known.resolve_right (by omega)
    rw [if_pos path]
    refine ⟨_,_,_,rfl,?_⟩
    constructor
    · simp only [List.length_singleton]
      omega
    · rfl
    · rfl
    · simp [WindowerMsg.isEvent]
    · intro msg member
      split at member
      · exact List.mem_singleton.mp member
      · cases member
    · intro more
      dsimp only at more
      rw [if_pos more]
      exact List.mem_singleton.mpr rfl
  · refine ⟨_,_,_,rfl,by simp,rfl,rfl,by simp,by simp,?_⟩
    intro more
    contradiction

-- The `Stop` of an iteration is still to come, under way or handled.
def Gate (s : System) : Prop :=
  if s.sink.stopSent then
    (s.control = [] ∧ s.windower.running = false) ∨ (∃ k, s.control = [(k,.stop)] ∧ s.windower.running = true)
  else s.control = [] ∧ s.windower.running = true

structure Quiet (source : StreamSource) (data : List WindowerMsg) (upstream mailbox : List SourceMsg) : Prop where
  flushing : source.flushing = false
  downstream : source.downstream = false
  remaining : source.remaining = 0
  data : data = []
  upstream : upstream = []
  mailbox : mailbox = []

-- The stages of an iteration. In the first one its `Start` is under way, behind
-- the `Stop` of the iteration before if that is.
structure Starting (s : System) : Prop where
  quiet : Quiet s.source s.data s.upstream s.mailbox
  sink : s.sink = ⟨0,false,false⟩
  replied : s.replied = false
  resetSent : s.resetSent = false
  control : (s.control = [(s.iteration,.start)] ∧ s.windower.running = false) ∨
    (∃ k, s.control = [(k,.stop),(s.iteration,.start)] ∧ s.windower.running = true)
  aggregates : ∀ a ∈ s.aggregates, a.sink < s.iteration
  downstream : ∀ k, s.windower.downstream = some k → k < s.iteration
  active : s.active = false

-- The `Start` is handled, the `Reset` is not. A source that has no `Ready` yet has
-- sent nothing, and the sink has nothing.
structure Streaming (p : Params) (s : System) : Prop where
  flushing : s.source.flushing = false
  replied : s.replied = false
  data : ∀ msg ∈ s.data, msg.isEvent = true
  upstream : ∀ msg ∈ s.upstream, msg.isReady = true
  mailbox : SourceMsg.flushed ∉ s.mailbox
  resets : s.mailbox.count .reset = if s.resetSent then 1 else 0
  credit : s.windower.running = true →
    s.source.remaining + s.eventsInFlight + s.windower.receivedSinceReady + s.creditInFlight = p.batchSize
  driven : 0 < s.source.remaining → SourceMsg.next ∈ s.mailbox
  unknown : s.source.downstream = false → s.source.remaining = 0 ∧ s.data = [] ∧ SourceMsg.next ∉ s.mailbox ∧
    s.sink.latched = false ∧ s.resetSent = false ∧ ∀ a ∈ s.aggregates, a.sink ≠ s.iteration
  downstream : s.windower.running = true → s.windower.downstream = some s.iteration
  active : s.active = s.windower.running
  gate : Gate s

-- The source drops everything until the answer to its `Flush`.
structure Drained (source : StreamSource) : Prop where
  flushing : source.flushing = true
  reply : source.replyOnFlushed = true
  downstream : source.downstream = false
  remaining : source.remaining = 0

def Stale (msg : SourceMsg) : Prop := msg = .next ∨ msg.isReady = true

-- Where the flush is: behind the events, behind what the windower sent before it,
-- or done. The flag says whether the master has its answer.
inductive Pipes (source : StreamSource) (data : List WindowerMsg) (upstream mailbox : List SourceMsg) : Bool → Prop where
  | flushing (drained : Drained source) (events : List WindowerMsg) (last : data = events ++ [.flush])
      (kinds : ∀ msg ∈ events, msg.isEvent = true) (travels : ∀ msg ∈ upstream, msg.isReady = true)
      (waits : ∀ msg ∈ mailbox, Stale msg) : Pipes source data upstream mailbox false
  | returning (drained : Drained source) (empty : data = []) (dropped : List SourceMsg)
      (last : mailbox ++ upstream = dropped ++ [.flushed]) (stale : ∀ msg ∈ dropped, Stale msg) :
      Pipes source data upstream mailbox false
  | rested (quiet : Quiet source data upstream mailbox) : Pipes source data upstream mailbox true

-- The `Reset` is handled.
structure Closing (s : System) : Prop where
  pipes : Pipes s.source s.data s.upstream s.mailbox s.replied
  resetSent : s.resetSent = true
  active : s.active = false
  gate : Gate s

structure Bounds (p : Params) (s : System) : Prop where
  received : s.windower.receivedSinceReady ≤ p.readyMark
  aggregates : ∀ a ∈ s.aggregates, a.sink ≤ s.iteration
  downstream : ∀ k, s.windower.downstream = some k → k ≤ s.iteration
  running : s.windower.running = true → s.windower.downstream.isSome

inductive Stage (p : Params) (s : System) : Prop where
  | starting (stage : Starting s)
  | streaming (stage : Streaming p s)
  | closing (stage : Closing s)

structure Inv (p : Params) (s : System) : Prop where
  bounds : Bounds p s
  stage : Stage p s

theorem start_inv (p : Params) : Inv p System.start where
  bounds := by
    constructor <;> simp [System.start]
  stage := by
    apply Stage.closing
    refine ⟨.rested ?_,rfl,rfl,.inl ⟨rfl,rfl⟩⟩
    constructor <;> rfl

theorem runIteration_inv (inv : Inv p s) (done : runIteration s = some after) : Inv p after := by
  unfold runIteration at done
  split at done
  · rename_i ready
    rw [Bool.and_eq_true] at ready
    cases done
    obtain ⟨bounds,stage⟩ := inv
    constructor
    · refine ⟨bounds.received,?_,?_,bounds.running⟩
      · intro a member
        exact Nat.le_succ_of_le (bounds.aggregates a member)
      · intro k path
        exact Nat.le_succ_of_le (bounds.downstream k path)
    · cases stage with
      | closing stage =>
        apply Stage.starting
        have gate := stage.gate
        rw [Gate,if_pos ready.2] at gate
        have quiet : Quiet s.source s.data s.upstream s.mailbox := by
          have pipes := stage.pipes
          rw [ready.1] at pipes
          cases pipes with
          | rested quiet => exact quiet
        refine ⟨quiet,rfl,rfl,rfl,?_,?_,?_,stage.active⟩
        · rcases gate with idle | ⟨k,pending,running⟩
          · refine .inl ⟨?_,idle.2⟩
            rw [idle.1]
            rfl
          · refine .inr ⟨k,?_,running⟩
            rw [pending]
            rfl
        · intro a member
          exact Nat.lt_succ_of_le (bounds.aggregates a member)
        · intro k path
          exact Nat.lt_succ_of_le (bounds.downstream k path)
      | starting stage | streaming stage =>
        rw [stage.replied] at ready
        exact absurd ready.1 Bool.false_ne_true
  · cases done

def Windower.stopped (w : Windower) : Windower :=
  { w with running := false, currentWindow := 0, downstream := none, windowStartTs := 0 }

def System.stopped (s : System) (control : List (ℕ × WindowerMsg)) : System :=
  { s with control := control, windower := s.windower.stopped, active := false }

theorem windows_stop (running : s.windower.running = true) (sender : Option ℕ) (rest : List (ℕ × WindowerMsg)) :
    ({ s with control := rest }).windows p sender .stop = some (s.stopped rest) := by
  simp [System.windows,Windower.receive,running,System.stopped,Windower.stopped]

theorem Bounds.stopped (bounds : Bounds p s) (rest : List (ℕ × WindowerMsg)) : Bounds p (s.stopped rest) := by
  refine ⟨bounds.received,bounds.aggregates,?_,?_⟩
  · intro k path
    cases path
  · intro running
    cases running

-- Past the first stage only a `Stop` may be under way from the sink.
theorem Gate.stops (gate : Gate s) (some_sent : s.control ≠ []) :
    control p s = some (s.stopped []) ∧ Gate (s.stopped []) := by
  unfold Gate at gate
  split at gate
  · rename_i sent
    rcases gate with ⟨empty,_⟩ | ⟨k,pending,running⟩
    · exact absurd empty some_sent
    · constructor
      · simp only [control,pending]
        exact windows_stop running (some k) []
      · rw [Gate,if_pos (by exact sent)]
        exact .inl ⟨rfl,rfl⟩
  · exact absurd gate.1 some_sent

theorem starting_control (bounds : Bounds p s) (stage : Starting s) : ∃ after, control p s = some after ∧ Inv p after := by
  rcases stage.control with ⟨pending,idle⟩ | ⟨k,pending,running⟩
  · refine ⟨_,by simp only [control,pending,System.windows,Windower.receive,idle]; rfl,?_⟩
    constructor
    · refine ⟨Nat.zero_le _,?_,?_,?_⟩
      · simpa using bounds.aggregates
      · intro k path
        cases path
        exact Nat.le_refl _
      · intro _
        rfl
    · apply Stage.streaming
      constructor
      · exact stage.quiet.flushing
      · exact stage.replied
      · simp [stage.quiet.data]
      · simp [stage.quiet.upstream,SourceMsg.isReady]
      · simp [stage.quiet.mailbox]
      · simp [stage.quiet.mailbox,stage.resetSent]
      · intro _
        simp [System.eventsInFlight,System.creditInFlight,stage.quiet.remaining,stage.quiet.data,stage.quiet.upstream,
          stage.quiet.mailbox,SourceMsg.credit]
      · simp [stage.quiet.remaining]
      · intro _
        refine ⟨stage.quiet.remaining,stage.quiet.data,by simp [stage.quiet.mailbox],by simp [stage.sink],
          stage.resetSent,?_⟩
        simpa using fun a member => Nat.ne_of_lt (stage.aggregates a member)
      · intro _
        rfl
      · rfl
      · simp [Gate,stage.sink]
  · refine ⟨s.stopped [(s.iteration,.start)],?_,bounds.stopped _,.starting ?_⟩
    · simp only [control,pending]
      exact windows_stop running (some k) _
    · refine ⟨stage.quiet,stage.sink,stage.replied,stage.resetSent,.inl ⟨rfl,rfl⟩,stage.aggregates,?_,rfl⟩
      intro k path
      cases path

theorem control_inv (inv : Inv p s) (some_sent : s.control ≠ []) : ∃ after, control p s = some after ∧ Inv p after := by
  obtain ⟨bounds,stage⟩ := inv
  cases stage with
  | starting stage => exact starting_control bounds stage
  | streaming stage =>
    obtain ⟨done,gate⟩ := stage.gate.stops some_sent
    refine ⟨_,done,bounds.stopped _,.streaming ?_⟩
    refine ⟨stage.flushing,stage.replied,stage.data,stage.upstream,stage.mailbox,stage.resets,?_,stage.driven,
      stage.unknown,?_,rfl,gate⟩
    · intro running
      cases running
    · intro running
      cases running
  | closing stage =>
    obtain ⟨done,gate⟩ := stage.gate.stops some_sent
    exact ⟨_,done,bounds.stopped _,.closing ⟨stage.pipes,stage.resetSent,rfl,gate⟩⟩

def System.took (s : System) (rest : List WindowerMsg) (w : Windower) (readies : List SourceMsg)
    (aggregates : List Aggregate) : System :=
  { s with
    data := rest
    windower := w
    upstream := s.upstream ++ readies
    aggregates := s.aggregates ++ aggregates }

theorem windows_event (bounds : Bounds p s) (rest : List WindowerMsg) (ts : ℕ) : ∃ w readies aggregates,
    ({ s with data := rest }).windows p none (.event ts) = some (s.took rest w readies aggregates) ∧
      Took p s.windower w readies aggregates := by
  cases running : s.windower.running with
  | true =>
    obtain ⟨w,readies,aggregates,done,took⟩ := event_spec p running (bounds.running running) none ts
    refine ⟨w,readies,aggregates,?_,took⟩
    simp [System.windows,done,System.took]
  | false =>
    refine ⟨s.windower,[],[],?_,?_⟩
    · simp [System.windows,Windower.receive,running,System.took]
    · refine ⟨rfl,rfl,?_,bounds.received,by simp,by simp⟩
      intro runs
      rw [running] at runs
      cases runs

section Events
variable {rest : List WindowerMsg} {w : Windower} {readies : List SourceMsg} {aggregates : List Aggregate}

theorem Took.bounds (took : Took p s.windower w readies aggregates) (bounds : Bounds p s) :
    Bounds p (s.took rest w readies aggregates) where
  received := took.bound
  aggregates := by
    intro a member
    rcases List.mem_append.mp member with old | new
    · exact bounds.aggregates a old
    · exact bounds.downstream a.sink (took.sinks a new)
  downstream := by
    intro k path
    exact bounds.downstream k (took.downstream ▸ path)
  running := by
    intro running
    dsimp only [System.took] at running ⊢
    rw [took.running] at running
    rw [took.downstream]
    exact bounds.running running

theorem Took.gate (took : Took p s.windower w readies aggregates) (gate : Gate s) :
    Gate (s.took rest w readies aggregates) := by
  unfold Gate at gate ⊢
  simp only [System.took,took.running]
  exact gate

theorem Took.upstream (took : Took p s.windower w readies aggregates)
    (upstream : ∀ msg ∈ s.upstream, msg.isReady = true) : ∀ msg ∈ s.upstream ++ readies, msg.isReady = true := by
  intro msg member
  rcases List.mem_append.mp member with old | new
  · exact upstream msg old
  · exact took.kinds msg new

theorem Took.streaming (took : Took p s.windower w readies aggregates) (stage : Streaming p s)
    (next_event : s.data = .event ts :: rest) : Streaming p (s.took rest w readies aggregates) where
  flushing := stage.flushing
  replied := stage.replied
  data := by
    intro msg member
    apply stage.data msg
    rw [next_event]
    exact List.mem_cons_of_mem _ member
  upstream := took.upstream stage.upstream
  mailbox := stage.mailbox
  resets := stage.resets
  credit := by
    intro running
    dsimp only [System.took] at running
    rw [took.running] at running
    have before := stage.credit running
    have counted := took.credit running
    simp only [System.eventsInFlight,System.creditInFlight,next_event,List.countP_cons,WindowerMsg.isEvent] at before
    simp only [System.took,System.eventsInFlight,System.creditInFlight,List.map_append,List.sum_append]
    simp only [if_true] at before
    omega
  driven := stage.driven
  unknown := by
    intro none_known
    have empty := (stage.unknown none_known).2.1
    rw [next_event] at empty
    cases empty
  downstream := by
    intro running
    dsimp only [System.took] at running ⊢
    rw [took.running] at running
    rw [took.downstream]
    exact stage.downstream running
  active := by
    dsimp only [System.took]
    rw [took.running]
    exact stage.active
  gate := took.gate stage.gate

end Events

-- The `Flush` is behind every event, and its answer behind every `Ready`.
theorem closing_data (bounds : Bounds p s) (stage : Closing s) (pending : s.data = msg :: rest) :
    ∃ after, data p s = some after ∧ Inv p after := by
  have pipes := stage.pipes
  generalize answered : s.replied = replied at pipes
  simp only [data,pending]
  cases pipes with
  | flushing drained events last kinds travels waits =>
    rw [pending] at last
    cases events with
    | nil =>
      cases last
      refine ⟨_,rfl,⟨bounds.received,by simpa using bounds.aggregates,bounds.downstream,bounds.running⟩,.closing ?_⟩
      refine ⟨?_,stage.resetSent,by simp [stage.active],stage.gate⟩
      dsimp only
      rw [answered]
      refine .returning drained rfl (s.mailbox ++ s.upstream) (by simp) ?_
      intro msg member
      rcases List.mem_append.mp member with waiting | traveling
      · exact waits msg waiting
      · exact .inr (travels msg traveling)
    | cons first events =>
      obtain ⟨rfl,others⟩ := List.cons.inj last
      rw [List.forall_mem_cons] at kinds
      cases msg with
      | event ts =>
        obtain ⟨w,readies,aggregates,result,took⟩ := windows_event bounds rest ts
        refine ⟨_,result,took.bounds bounds,.closing ⟨?_,stage.resetSent,stage.active,took.gate stage.gate⟩⟩
        dsimp only [System.took]
        rw [answered]
        exact .flushing drained events others kinds.2 (took.upstream travels) waits
      | start | stop | flush => cases kinds.1
  | returning drained empty =>
    rw [empty] at pending
    cases pending
  | rested quiet =>
    rw [quiet.data] at pending
    cases pending

theorem data_inv (inv : Inv p s) (some_sent : s.data ≠ []) : ∃ after, data p s = some after ∧ Inv p after := by
  obtain ⟨bounds,stage⟩ := inv
  cases pending : s.data with
  | nil => exact absurd pending some_sent
  | cons msg rest =>
    cases stage with
    | starting stage =>
      rw [stage.quiet.data] at pending
      cases pending
    | streaming stage =>
      have kind := stage.data msg (by rw [pending]; exact List.mem_cons_self)
      simp only [data,pending]
      cases msg with
      | event ts =>
        obtain ⟨w,readies,aggregates,result,took⟩ := windows_event bounds rest ts
        exact ⟨_,result,took.bounds bounds,.streaming (took.streaming stage pending)⟩
      | start | stop | flush => cases kind
    | closing stage => exact closing_data bounds stage pending

theorem Gate.same (gate : Gate s) (control : after.control = s.control) (sink : after.sink.stopSent = s.sink.stopSent)
    (running : after.windower.running = s.windower.running) : Gate after := by
  unfold Gate at gate ⊢
  rw [control,sink,running]
  exact gate

theorem arrive_inv (inv : Inv p s) (done : arrive s = some after) : Inv p after := by
  obtain ⟨bounds,stage⟩ := inv
  unfold arrive at done
  split at done
  · cases done
  · rename_i msg rest pending
    cases done
    refine ⟨⟨bounds.received,bounds.aggregates,bounds.downstream,bounds.running⟩,?_⟩
    cases stage with
    | starting stage =>
      rw [stage.quiet.upstream] at pending
      cases pending
    | streaming stage =>
      have kinds := stage.upstream
      rw [pending,List.forall_mem_cons] at kinds
      cases msg with
      | ready batchSize =>
        apply Stage.streaming
        refine ⟨stage.flushing,stage.replied,stage.data,kinds.2,?_,?_,?_,?_,?_,stage.downstream,stage.active,
          stage.gate.same rfl rfl rfl⟩
        · simp [stage.mailbox]
        · rw [List.count_append]
          simpa using stage.resets
        · intro running
          have before := stage.credit running
          simp only [System.eventsInFlight,System.creditInFlight,pending,List.map_cons,List.sum_cons] at before
          simp only [System.eventsInFlight,System.creditInFlight,List.map_append,List.sum_append,List.map_singleton,
            List.sum_singleton]
          omega
        · intro left
          exact List.mem_append_left _ (stage.driven left)
        · intro none_known
          obtain ⟨remaining,data,nexts,others⟩ := stage.unknown none_known
          exact ⟨remaining,data,by simp [nexts],others⟩
      | reset | next | flushed => cases kinds.1
    | closing stage =>
      refine .closing ⟨?_,stage.resetSent,stage.active,stage.gate.same rfl rfl rfl⟩
      have pipes := stage.pipes
      generalize s.replied = replied at pipes
      cases pipes with
      | flushing drained events last kinds travels waits =>
        rw [pending,List.forall_mem_cons] at travels
        refine .flushing drained events last kinds travels.2 ?_
        intro waiting member
        rcases List.mem_append.mp member with old | new
        · exact waits waiting old
        · cases List.mem_singleton.mp new
          exact .inr travels.1
      | returning drained empty dropped last stale =>
        refine .returning drained empty dropped ?_ stale
        rw [← last,pending,List.append_assoc]
        rfl
      | rested quiet =>
        rw [quiet.upstream] at pending
        cases pending

def System.sends (s : System) (rest : List SourceMsg) (source : StreamSource) (events : List WindowerMsg)
    (nexts : List SourceMsg) : System :=
  { s with source := source, data := s.data ++ events, mailbox := rest ++ nexts }

theorem Bounds.sends (bounds : Bounds p s) (rest : List SourceMsg) (source : StreamSource)
    (events : List WindowerMsg) (nexts : List SourceMsg) : Bounds p (s.sends rest source events nexts) :=
  ⟨bounds.received,bounds.aggregates,bounds.downstream,bounds.running⟩

-- A `Ready` or a `Next` handled by a source that knows the windower.
theorem Sent.streaming {base source : StreamSource} (sent : Sent base source events nexts) (stage : Streaming p s)
    (pending : s.mailbox = msg :: rest) (other : msg ≠ .reset) (flushing : base.flushing = false)
    (known : base.downstream = true) (remaining : base.remaining = s.source.remaining + msg.credit) :
    Streaming p (s.sends rest source events nexts) where
  flushing := sent.flushing.trans flushing
  replied := stage.replied
  data := by
    intro event member
    rcases List.mem_append.mp member with old | new
    · exact stage.data event old
    · exact sent.kinds event new
  upstream := stage.upstream
  mailbox := by
    intro member
    rcases List.mem_append.mp member with old | new
    · apply stage.mailbox
      rw [pending]
      exact List.mem_cons_of_mem _ old
    · cases sent.tells _ new
  resets := by
    have before := stage.resets
    have none_new : nexts.count .reset = 0 := by
      rw [List.count_eq_zero]
      intro member
      cases sent.tells _ member
    rw [pending,List.count_cons,if_neg (by simp [other])] at before
    simp only [System.sends,List.count_append,none_new]
    exact before
  credit := by
    intro running
    have before := stage.credit running
    have paid := sent.credit
    have events_count : events.countP WindowerMsg.isEvent = events.length := List.countP_eq_length.mpr sent.kinds
    have no_credit : (nexts.map SourceMsg.credit).sum = 0 := by
      apply List.sum_eq_zero
      intro credit member
      obtain ⟨msg,told,rfl⟩ := List.mem_map.mp member
      cases sent.tells msg told
      rfl
    simp only [System.eventsInFlight,System.creditInFlight,pending,List.map_cons,List.sum_cons] at before
    simp only [System.sends,System.eventsInFlight,System.creditInFlight,List.map_append,List.sum_append,
      List.countP_append,events_count,no_credit]
    omega
  driven := by
    intro left
    exact List.mem_append_right _ (sent.driven left)
  unknown := by
    intro none_known
    dsimp only [System.sends] at none_known
    rw [sent.downstream,known] at none_known
    cases none_known
  downstream := stage.downstream
  active := stage.active
  gate := stage.gate.same rfl rfl rfl

theorem source_eq {now : StreamSource} (pending : s.mailbox = msg :: rest)
    (result : s.source.receive msg = some (now,events,nexts)) : source s = some { s.sends rest now events nexts with
      replied := s.replied || msg = .flushed
      active := s.active && msg ≠ .reset } := by
  simp only [source,pending,result,System.sends]
  rfl

theorem streaming_source (bounds : Bounds p s) (stage : Streaming p s) (pending : s.mailbox = msg :: rest) :
    ∃ after, source s = some after ∧ Inv p after := by
  cases msg with
  | ready batchSize =>
    let base : StreamSource := { s.source with remaining := s.source.remaining + batchSize, downstream := true }
    obtain ⟨now,events,nexts,result,sent⟩ := send_spec (.inl rfl : base.downstream = true ∨ base.remaining = 0)
    refine ⟨s.sends rest now events nexts,?_,bounds.sends ..,.streaming ?_⟩
    · rw [source_eq pending (by rw [StreamSource.receive,if_neg (by simp [stage.flushing])]; exact result)]
      simp [System.sends]
    · exact sent.streaming stage pending (by simp) stage.flushing rfl rfl
  | next =>
    have known : s.source.downstream = true := by
      by_contra none_known
      apply (stage.unknown (Bool.not_eq_true _ ▸ none_known)).2.2.1
      rw [pending]
      exact List.mem_cons_self
    obtain ⟨now,events,nexts,result,sent⟩ := send_spec (.inl known)
    refine ⟨s.sends rest now events nexts,?_,bounds.sends ..,.streaming ?_⟩
    · rw [source_eq pending (by rw [StreamSource.receive,if_neg (by simp [stage.flushing])]; exact result)]
      simp [System.sends]
    · exact sent.streaming stage pending (by simp) stage.flushing known rfl
  | reset =>
    have resets := stage.resets
    rw [pending,List.count_cons_self] at resets
    have reset_sent : s.resetSent = true := by
      by_contra not_sent
      rw [if_neg not_sent] at resets
      omega
    have known : s.source.downstream = true := by
      by_contra none_known
      have not_sent := (stage.unknown (Bool.not_eq_true _ ▸ none_known)).2.2.2.2.1
      rw [reset_sent] at not_sent
      cases not_sent
    refine ⟨_,source_eq pending (by rw [StreamSource.receive,stage.flushing,known]; rfl),
      ⟨bounds.received,bounds.aggregates,bounds.downstream,bounds.running⟩,.closing ?_⟩
    rw [if_pos reset_sent] at resets
    refine ⟨?_,reset_sent,by simp,stage.gate.same rfl rfl rfl⟩
    dsimp only [System.sends]
    rw [stage.replied]
    refine .flushing ⟨rfl,rfl,rfl,rfl⟩ s.data rfl stage.data stage.upstream ?_
    · intro msg member
      rw [List.append_nil] at member
      cases msg with
      | next => exact .inl rfl
      | ready => exact .inr rfl
      | reset =>
        have positive := List.count_pos_iff.mpr member
        omega
      | flushed =>
        apply absurd _ stage.mailbox
        rw [pending]
        exact List.mem_cons_of_mem _ member
  | flushed =>
    apply absurd _ stage.mailbox
    rw [pending]
    exact List.mem_cons_self

-- While it flushes, the source drops what is not the answer to its `Flush`.
theorem drops (flushing : s.source.flushing = true) (stale : Stale msg)
    (pending : s.mailbox = msg :: rest) : source s = some (s.sends rest s.source [] []) := by
  cases msg with
  | next | ready =>
    rw [source_eq pending (by rw [StreamSource.receive,flushing]; rfl)]
    simp [System.sends]
  | reset | flushed => simp [Stale,SourceMsg.isReady] at stale

theorem closing_source (bounds : Bounds p s) (stage : Closing s) (pending : s.mailbox = msg :: rest) :
    ∃ after, source s = some after ∧ Inv p after := by
  have pipes := stage.pipes
  generalize answered : s.replied = replied at pipes
  cases pipes with
  | flushing drained events last kinds travels waits =>
    rw [pending,List.forall_mem_cons] at waits
    refine ⟨_,drops drained.flushing waits.1 pending,bounds.sends ..,
      .closing ⟨?_,stage.resetSent,stage.active,stage.gate.same rfl rfl rfl⟩⟩
    dsimp only [System.sends]
    rw [answered,List.append_nil,List.append_nil]
    exact .flushing drained events last kinds travels waits.2
  | returning drained empty dropped last stale =>
    rw [pending] at last
    cases dropped with
    | nil =>
      obtain ⟨rfl,nothing⟩ := List.cons.inj last
      obtain ⟨rfl,arrived⟩ := List.append_eq_nil_iff.mp nothing
      refine ⟨_,source_eq pending (by rw [StreamSource.receive,drained.flushing,drained.reply]; rfl),
        ⟨bounds.received,bounds.aggregates,bounds.downstream,bounds.running⟩,.closing ?_⟩
      refine ⟨?_,stage.resetSent,by simp [stage.active],stage.gate.same rfl rfl rfl⟩
      dsimp only [System.sends]
      rw [answered,empty]
      exact .rested ⟨rfl,drained.downstream,drained.remaining,rfl,arrived,rfl⟩
    | cons first dropped =>
      obtain ⟨rfl,others⟩ := List.cons.inj last
      rw [List.forall_mem_cons] at stale
      refine ⟨_,drops drained.flushing stale.1 pending,bounds.sends ..,
        .closing ⟨?_,stage.resetSent,stage.active,stage.gate.same rfl rfl rfl⟩⟩
      dsimp only [System.sends]
      rw [answered,List.append_nil,List.append_nil]
      exact .returning drained empty dropped others stale.2
  | rested quiet =>
    rw [quiet.mailbox] at pending
    cases pending

theorem source_inv (inv : Inv p s) (some_told : s.mailbox ≠ []) : ∃ after, source s = some after ∧ Inv p after := by
  obtain ⟨bounds,stage⟩ := inv
  cases pending : s.mailbox with
  | nil => exact absurd pending some_told
  | cons msg rest =>
    cases stage with
    | starting stage =>
      rw [stage.quiet.mailbox] at pending
      cases pending
    | streaming stage => exact streaming_source bounds stage pending
    | closing stage => exact closing_source bounds stage pending

-- Only a message of its own iteration changes the sink.
theorem Inv.drained (inv : Inv p s) {sink : StreamSink} (stops : sink.stopSent = s.sink.stopSent)
    (pending : s.aggregates = message :: rest) (other : message.sink ≠ s.iteration → sink = s.sink) :
    Inv p { s with sink := sink, aggregates := rest } := by
  obtain ⟨bounds,stage⟩ := inv
  have fewer {holds : Aggregate → Prop} (all : ∀ a ∈ s.aggregates, holds a) : ∀ a ∈ rest, holds a := by
    intro a member
    apply all a
    rw [pending]
    exact List.mem_cons_of_mem _ member
  have first : message ∈ s.aggregates := by
    rw [pending]
    exact List.mem_cons_self
  refine ⟨⟨bounds.received,fewer bounds.aggregates,bounds.downstream,bounds.running⟩,?_⟩
  cases stage with
  | starting stage =>
    have same := other (Nat.ne_of_lt (stage.aggregates message first))
    subst same
    exact .starting ⟨stage.quiet,stage.sink,stage.replied,stage.resetSent,stage.control,fewer stage.aggregates,
      stage.downstream,stage.active⟩
  | streaming stage =>
    refine .streaming ⟨stage.flushing,stage.replied,stage.data,stage.upstream,stage.mailbox,stage.resets,stage.credit,
      stage.driven,?_,stage.downstream,stage.active,stage.gate.same rfl stops rfl⟩
    intro none_known
    obtain ⟨remaining,data,nexts,latched,resetSent,old⟩ := stage.unknown none_known
    have same := other (old message first)
    subst same
    exact ⟨remaining,data,nexts,latched,resetSent,fewer old⟩
  | closing stage => exact .closing ⟨stage.pipes,stage.resetSent,stage.active,stage.gate.same rfl stops rfl⟩

theorem aggregate_inv (inv : Inv p s) (done : aggregate p s = some after) : Inv p after := by
  unfold aggregate at done
  split at done
  · cases done
  · rename_i message rest pending
    split at done
    · rename_i own
      cases done
      exact inv.drained rfl pending fun other => absurd own other
    · cases done
      exact inv.drained rfl pending fun _ => rfl

theorem Gate.pends (gate : Gate s) (not_sent : s.sink.stopSent = false) :
    Gate { s with sink := { s.sink with stopSent := true }, control := s.control ++ [(s.iteration,.stop)] } := by
  rw [Gate,not_sent,if_neg Bool.false_ne_true] at gate
  rw [Gate,if_pos rfl]
  refine .inr ⟨s.iteration,?_,gate.2⟩
  rw [gate.1]
  rfl

theorem stop_inv (inv : Inv p s) (done : stop s = some after) : Inv p after := by
  obtain ⟨bounds,stage⟩ := inv
  unfold stop at done
  split at done
  · rename_i ready
    rw [Bool.and_eq_true,Bool.not_eq_true'] at ready
    obtain ⟨latched,not_sent⟩ := ready
    cases done
    refine ⟨⟨bounds.received,bounds.aggregates,bounds.downstream,bounds.running⟩,?_⟩
    cases stage with
    | starting stage =>
      rw [stage.sink] at latched
      cases latched
    | streaming stage =>
      refine .streaming ⟨stage.flushing,stage.replied,stage.data,stage.upstream,stage.mailbox,stage.resets,stage.credit,
        stage.driven,?_,stage.downstream,stage.active,stage.gate.pends not_sent⟩
      intro none_known
      have unlatched := (stage.unknown none_known).2.2.2.1
      rw [latched] at unlatched
      cases unlatched
    | closing stage => exact .closing ⟨stage.pipes,stage.resetSent,stage.active,stage.gate.pends not_sent⟩
  · cases done

theorem reset_inv (inv : Inv p s) (done : reset s = some after) : Inv p after := by
  obtain ⟨bounds,stage⟩ := inv
  unfold reset at done
  split at done
  · rename_i ready
    rw [Bool.and_eq_true,Bool.not_eq_true'] at ready
    obtain ⟨latched,not_sent⟩ := ready
    cases done
    refine ⟨⟨bounds.received,bounds.aggregates,bounds.downstream,bounds.running⟩,?_⟩
    cases stage with
    | starting stage =>
      rw [stage.sink] at latched
      cases latched
    | streaming stage =>
      refine .streaming ⟨stage.flushing,stage.replied,stage.data,stage.upstream,?_,?_,?_,?_,?_,stage.downstream,
        stage.active,stage.gate.same rfl rfl rfl⟩
      · simp [stage.mailbox]
      · have before := stage.resets
        rw [not_sent,if_neg Bool.false_ne_true] at before
        simp [before]
      · intro running
        have before := stage.credit running
        simp only [System.eventsInFlight,System.creditInFlight] at before
        simpa [System.eventsInFlight,System.creditInFlight,SourceMsg.credit] using before
      · intro left
        exact List.mem_append_left _ (stage.driven left)
      · intro none_known
        have unlatched := (stage.unknown none_known).2.2.2.1
        rw [latched] at unlatched
        cases unlatched
    | closing stage =>
      rw [stage.resetSent] at not_sent
      cases not_sent
  · cases done

theorem step_inv (inv : Inv p s) (done : step p s event = some after) : Inv p after := by
  cases event with
  | runIteration => exact runIteration_inv inv done
  | control =>
    have some_sent : s.control ≠ [] := by
      intro empty
      simp [step,control,empty] at done
    obtain ⟨_,result,kept⟩ := control_inv inv some_sent
    cases result.symm.trans done
    exact kept
  | data =>
    have some_sent : s.data ≠ [] := by
      intro empty
      simp [step,data,empty] at done
    obtain ⟨_,result,kept⟩ := data_inv inv some_sent
    cases result.symm.trans done
    exact kept
  | arrive => exact arrive_inv inv done
  | source =>
    have some_told : s.mailbox ≠ [] := by
      intro empty
      simp [step,source,empty] at done
    obtain ⟨_,result,kept⟩ := source_inv inv some_told
    cases result.symm.trans done
    exact kept
  | aggregate => exact aggregate_inv inv done
  | stop => exact stop_inv inv done
  | reset => exact reset_inv inv done

theorem reached_inv (path : Reached (step p) (fun _ _ => True) System.start s) : Inv p s := by
  apply path.invariant
  · exact start_inv p
  · intro s event after inv _ done
    exact step_inv inv done

-- Between a `Start` and the next `Stop` or `Reset` the credit is all there and
-- moves on. No handler panics, and a `Start` finds nothing of an earlier iteration.
structure Flows (p : Params) (s : System) : Prop where
  conserved : s.active = true →
    s.source.remaining + s.eventsInFlight + s.windower.receivedSinceReady + s.creditInFlight = p.batchSize
  moves : s.active = true → 0 < s.eventsInFlight ∨ 0 < s.readiesInFlight ∨ 0 < s.pendingNexts
  fresh : ∀ sender rest, s.control = (sender,.start) :: rest →
    s.source.remaining = 0 ∧ s.data = [] ∧ s.upstream = [] ∧ s.mailbox = []
  control : s.control ≠ [] → (control p s).isSome
  data : s.data ≠ [] → (data p s).isSome
  source : s.mailbox ≠ [] → (source s).isSome

theorem credit_readies {msgs : List SourceMsg} (none_ready : msgs.countP SourceMsg.isReady = 0) :
    (msgs.map SourceMsg.credit).sum = 0 := by
  rw [List.countP_eq_zero] at none_ready
  apply List.sum_eq_zero
  intro credit member
  obtain ⟨msg,inside,rfl⟩ := List.mem_map.mp member
  cases msg with
  | ready batchSize => exact absurd rfl (none_ready _ inside)
  | reset | next | flushed => rfl

-- The count alone is at most half of a batch.
theorem Streaming.moves (stage : Streaming p s) (bounds : Bounds p s) (positive : 1 ≤ p.batchSize)
    (running : s.windower.running = true) : 0 < s.eventsInFlight ∨ 0 < s.readiesInFlight ∨ 0 < s.pendingNexts := by
  have credit := stage.credit running
  have bound := bounds.received
  unfold Params.readyMark at bound
  by_contra still
  rw [not_or,not_or,System.readiesInFlight,System.pendingNexts] at still
  have left : ¬0 < s.source.remaining := by
    intro left
    exact still.2.2 (List.count_pos_iff.mpr (stage.driven left))
  have waits : (s.mailbox.map SourceMsg.credit).sum = 0 := credit_readies (by omega)
  have travels : (s.upstream.map SourceMsg.credit).sum = 0 := credit_readies (by omega)
  rw [System.creditInFlight,waits,travels] at credit
  omega

theorem Gate.no_start (gate : Gate s) : s.control ≠ (sender,.start) :: rest := by
  intro pending
  unfold Gate at gate
  split at gate
  · rcases gate with idle | ⟨k,stops,_⟩
    · simp [pending] at idle
    · simp [pending] at stops
  · simp [pending] at gate

theorem credit_flows (positive : 1 ≤ p.batchSize) (path : Reached (step p) (fun _ _ => True) System.start s) :
    Flows p s := by
  have inv := reached_inv path
  have streams (active : s.active = true) : Streaming p s ∧ s.windower.running = true := by
    cases inv.stage with
    | streaming stage => exact ⟨stage,stage.active ▸ active⟩
    | starting stage | closing stage =>
      rw [stage.active] at active
      cases active
  constructor
  · intro active
    obtain ⟨stage,running⟩ := streams active
    exact stage.credit running
  · intro active
    obtain ⟨stage,running⟩ := streams active
    exact stage.moves inv.bounds positive running
  · intro sender rest pending
    cases inv.stage with
    | starting stage => exact ⟨stage.quiet.remaining,stage.quiet.data,stage.quiet.upstream,stage.quiet.mailbox⟩
    | streaming stage | closing stage => exact absurd pending stage.gate.no_start
  · intro some_sent
    obtain ⟨_,done,_⟩ := control_inv inv some_sent
    rw [done]
    rfl
  · intro some_sent
    obtain ⟨_,done,_⟩ := data_inv inv some_sent
    rw [done]
    rfl
  · intro some_told
    obtain ⟨_,done,_⟩ := source_inv inv some_told
    rw [done]
    rfl

-- One window of the first iteration, with a `Ready` and an event still under way
-- at its end, and the `Start` of the second.
def twoIterations : List Event :=
  [Event.runIteration,Event.control,Event.arrive,Event.source,Event.data,Event.source,Event.data,Event.aggregate,
    Event.reset,Event.stop,Event.source,Event.source,Event.control,Event.data,Event.data,Event.arrive,Event.arrive,
    Event.source,Event.source,Event.runIteration,Event.control]

theorem second_iteration_flows : ∃ s : System, Reached (step ⟨3,1,1,1⟩) (fun _ _ => True) System.start s ∧
    (s.iteration = 2 ∧ s.active = true ∧ s.upstream = [.ready 3]) ∧ Flows ⟨3,1,1,1⟩ s := by
  obtain ⟨s,path,holds⟩ : ∃ s : System, Reached (step ⟨3,1,1,1⟩) (fun _ _ => True) System.start s ∧
      decide (s.iteration = 2 ∧ s.active = true ∧ s.upstream = [.ready 3]) = true :=
    runs_check twoIterations (by decide)
  exact ⟨s,path,of_decide_eq_true holds,credit_flows (by decide) path⟩

end KompicsBenches.StreamingWindows
