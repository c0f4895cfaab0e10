import KompicsBenches.StreamBoundary

namespace KompicsBenches.StreamBoundary

open BenchHelpers

def SourceMsg.isReady : SourceMsg → Bool
  | .ready _ => true
  | _ => false

def WindowerMsg.isEvent : WindowerMsg → Bool
  | .event _ => true
  | _ => false

def Source.Quiet (source : Source) : Prop := source.remaining = 0 ∧ source.flushing = false
def Source.Flowing (source : Source) : Prop := source.downstream = true ∧ source.flushing = false
def Source.Draining (source : Source) : Prop :=
  source.remaining = 0 ∧ source.flushing = true ∧ source.replyOnFlushed = true

-- Nothing but events for the windower.
def Sent.Streams (sent : Sent) : Prop := (∀ msg ∈ sent.events, msg.isEvent = true) ∧ sent.replies = []

section Sources
variable {source : Source}

theorem send_flows (flowing : source.Flowing) :
    ∃ source' sent, sourceSend source = some (source',sent) ∧ source'.Flowing ∧ sent.Streams := by
  unfold sourceSend
  split
  · rw [if_pos flowing.1]
    exact ⟨_,_,rfl,flowing,by simp [Sent.Streams,WindowerMsg.isEvent]⟩
  · exact ⟨source,{},rfl,flowing,by simp [Sent.Streams]⟩

theorem iter_alive (done : sourceHandle source msg = some (source',sent)) (goes : msg ≠ .stop) :
    sourceIter source msg = (.alive source',sent) := by
  cases msg with
  | stop => exact (goes rfl).elim
  | ready batchSize => simp only [sourceIter,done]
  | next => simp only [sourceIter,done]
  | reset => simp only [sourceIter,done]
  | flushed => simp only [sourceIter,done]

theorem ready_flows (calm : source.flushing = false) (batchSize : ℕ) :
    ∃ source' sent, sourceIter source (.ready batchSize) = (.alive source',sent) ∧ source'.Flowing ∧ sent.Streams := by
  let asked := { source with remaining := source.remaining + batchSize, downstream := true }
  have flowing : asked.Flowing := ⟨rfl,calm⟩
  obtain ⟨source',sent,done,flows⟩ := send_flows flowing
  have handled : sourceHandle source (.ready batchSize) = some (source',sent) := by
    rw [sourceHandle,if_neg (by simp [calm])]
    exact done
  exact ⟨source',sent,iter_alive handled (by simp),flows⟩

theorem next_flows (flowing : source.Flowing) :
    ∃ source' sent, sourceIter source .next = (.alive source',sent) ∧ source'.Flowing ∧ sent.Streams := by
  obtain ⟨source',sent,done,flows⟩ := send_flows flowing
  have handled : sourceHandle source .next = some (source',sent) := by
    rw [sourceHandle,if_neg (by simp [flowing.2])]
    exact done
  exact ⟨source',sent,iter_alive handled (by simp),flows⟩

theorem next_quiet (quiet : source.Quiet) : sourceIter source .next = (.alive source,{}) :=
  iter_alive (by simp [sourceHandle,sourceSend,quiet.1,quiet.2]) (by simp)

theorem reset_drains (flowing : source.Flowing) :
    ∃ source', sourceIter source .reset = (.alive source',{ events := [.flush] }) ∧ source'.Draining :=
  ⟨_,iter_alive (by rw [sourceHandle,if_neg (by simp [flowing.2]),if_pos flowing.1]) (by simp),rfl,rfl,rfl⟩

theorem next_draining (draining : source.Draining) : sourceIter source .next = (.alive source,{}) :=
  iter_alive (by simp [sourceHandle,draining.2.1]) (by simp)

theorem ready_draining (draining : source.Draining) (batchSize : ℕ) :
    sourceIter source (.ready batchSize) = (.alive source,{}) :=
  iter_alive (by simp [sourceHandle,draining.2.1]) (by simp)

theorem flushed_quiets (draining : source.Draining) :
    ∃ source', sourceIter source .flushed = (.alive source',{ replies := [.flushed] }) ∧ source'.Quiet :=
  ⟨{ source with flushing := false, replyOnFlushed := false },
    iter_alive (by rw [sourceHandle,if_pos draining.2.1,if_pos draining.2.2]) (by simp),draining.1,rfl⟩

end Sources

section Windowers
variable {w : Windower}

theorem event_windows (p : Params) (known : w.downstream = some k) (ts : ℕ) :
    ∃ w' windows, windowerEvent p w ts = some (w',windows) ∧ w'.downstream = w.downstream ∧
      w'.running = w.running ∧ ∀ window ∈ windows, w.downstream = some window.downstream := by
  unfold windowerEvent windowerTriggerWindow
  split
  · exact ⟨_,[],rfl,rfl,rfl,by simp⟩
  · split
    · exact ⟨_,[],rfl,rfl,rfl,by simp⟩
    · rw [known]
      exact ⟨_,_,rfl,rfl,rfl,by simp⟩

theorem manageReady_kept (p : Params) (w : Windower) :
    (windowerManageReady p w).1.downstream = w.downstream ∧ (windowerManageReady p w).1.running = w.running ∧
      ∀ msg ∈ (windowerManageReady p w).2, msg.isReady = true := by
  unfold windowerManageReady
  dsimp only
  split
  · exact ⟨rfl,rfl,by simp [SourceMsg.isReady]⟩
  · exact ⟨rfl,rfl,by simp⟩

-- An event, dropped or not, leaves the windower with the sink it has.
theorem event_kept (p : Params) (known : w.running = w.downstream.isSome) (ts : ℕ) :
    ∃ w' replies windows, windowerHandle p w (.event ts) = some (w',replies,windows) ∧
      w'.downstream = w.downstream ∧ w'.running = w.running ∧ (∀ msg ∈ replies, msg.isReady = true) ∧
        ∀ window ∈ windows, w.downstream = some window.downstream := by
  cases sink : w.downstream with
  | none =>
    have idle : w.running = false := by rw [known,sink]; rfl
    exact ⟨w,[],[],by simp [windowerHandle,idle],sink,rfl,by simp,by simp⟩
  | some k =>
    have runs : w.running = true := by rw [known,sink]; rfl
    obtain ⟨middle,windows,done,same,still,mine⟩ := event_windows p sink ts
    obtain ⟨same',still',ready⟩ := manageReady_kept p middle
    refine ⟨_,_,windows,?_,same'.trans (same.trans sink),still'.trans still,ready,?_⟩
    · simp only [windowerHandle,runs,if_true,done]
      rfl
    · rw [← sink]
      exact mine

end Windowers

-- The two halves of a partition: around its source, and around its sinks.
structure Stream where
  source : Proc Source
  toSource : List SourceMsg
  replies : List SourceMsg
  events : List WindowerMsg

structure Lane where
  windower : Proc Windower
  sinks : ℕ → Proc ℕ
  starts : ℕ → ℕ
  windows : ℕ → List ℕ
  orders : ℕ → List WindowerMsg

def Partition.stream (part : Partition) : Stream := ⟨part.source,part.toSource,part.replies,part.events⟩
def Partition.lane (part : Partition) : Lane :=
  ⟨part.windower,part.sinks,part.starts,part.windows,part.orders⟩

inductive Flow where
  | calm
  | asked
  | streaming
  | resetting
  | flushing
  | flushed
  | stopping
  | stopped

def Flow.told : Flow → List SourceMsg
  | .resetting => [.reset]
  | .stopping => [.stop]
  | _ => []

def Flow.Keeps (proc : Proc Source) : Flow → Prop
  | .calm | .asked | .stopping => ∃ source : Source, proc = .alive source ∧ source.Quiet
  | .streaming | .resetting => ∃ source : Source, proc = .alive source ∧ source.Flowing
  | .flushing | .flushed => ∃ source : Source, proc = .alive source ∧ source.Draining
  | .stopped => proc = .exited

def Flow.Replies (replies : List SourceMsg) : Flow → Prop
  | .asked => ∃ batchSize, replies = [.ready batchSize]
  | .streaming | .resetting | .flushing => ∀ msg ∈ replies, msg.isReady = true
  | .flushed => ∃ readies, replies = readies ++ [.flushed] ∧ ∀ msg ∈ readies, msg.isReady = true
  | .calm | .stopping | .stopped => replies = []

def Flow.Events (events : List WindowerMsg) : Flow → Prop
  | .streaming | .resetting => ∀ msg ∈ events, msg.isEvent = true
  | .flushing => ∃ before, events = before ++ [.flush] ∧ ∀ msg ∈ before, msg.isEvent = true
  | .calm | .asked | .flushed | .stopping | .stopped => events = []

structure FlowAt (stream : Stream) (flow : Flow) : Prop where
  source : flow.Keeps stream.source
  told : stream.toSource = flow.told
  replies : flow.Replies stream.replies
  events : flow.Events stream.events

section Streams
variable {i : Fin n} {part : Partition} {source : Source}

theorem sourceTakes_alive (here : part.source = .alive source) (done : sourceIter source msg = (proc,sent)) :
    part.sourceTakes i msg =
      ({ part with source := proc, events := part.events ++ sent.events, nexts := part.nexts + sent.nexts },
        sent.replies.map (.token · (.source i)) ++ proc.exits (.source i)) := by
  simp only [Partition.sourceTakes,here,done]

theorem sourceTakes_gone (here : part.source = .exited) : part.sourceTakes i msg = (part,[]) := by
  simp only [Partition.sourceTakes,here]

-- What the source takes changes its half of the partition only.
def Yields (i : Fin n) (part : Partition) (msg : SourceMsg) (flow : Flow) (sent : List (ToMaster n)) : Prop :=
  ∃ part', part.sourceTakes i msg = (part',sent) ∧ part'.lane = part.lane ∧ FlowAt part'.stream flow

theorem Yields.quietly (here : part.source = .alive source) (done : sourceIter source msg = (.alive source,{}))
    (flow : FlowAt part.stream after) : Yields i part msg after [] := by
  refine ⟨_,sourceTakes_alive here done,rfl,⟨?_,flow.told,flow.replies,?_⟩⟩
  · have kept := flow.source
    simp only [Partition.stream,here] at kept
    exact kept
  · have kept := flow.events
    simp only [Partition.stream,List.append_nil]
    exact kept

theorem sourceTakes_streams (here : part.source = .alive source)
    (done : sourceIter source msg = (.alive source',sent)) (streams : sent.Streams) :
    part.sourceTakes i msg =
      ({ part with source := .alive source', events := part.events ++ sent.events, nexts := part.nexts + sent.nexts },
        []) := by
  rw [sourceTakes_alive here done,streams.2]
  rfl

theorem next_yields (flow : FlowAt part.stream now) : Yields i part .next now [] := by
  cases now with
  | calm | asked | stopping =>
    obtain ⟨source,here,quiet⟩ := flow.source
    exact .quietly here (next_quiet quiet) flow
  | streaming | resetting =>
    obtain ⟨source,here,flowing⟩ := flow.source
    obtain ⟨source',sent,done,flows,streams⟩ := next_flows flowing
    exact ⟨_,sourceTakes_streams here done streams,rfl,⟨_,rfl,flows⟩,flow.told,flow.replies,
      List.forall_mem_append.mpr ⟨flow.events,streams.1⟩⟩
  | flushing | flushed =>
    obtain ⟨source,here,draining⟩ := flow.source
    exact .quietly here (next_draining draining) flow
  | stopped => exact ⟨part,sourceTakes_gone flow.source,rfl,flow⟩

inductive FlowStep (i : Fin n) : Flow → Flow → List (ToMaster n) → Prop where
  | stay : FlowStep i now now []
  | ready : FlowStep i .asked .streaming []
  | reset : FlowStep i .resetting .flushing []
  | flush : FlowStep i .flushing .flushed []
  | flushed : FlowStep i .flushed .calm [.token .flushed (.source i)]
  | stop : FlowStep i .stopping .stopped [.exit (.source i)]

theorem isReady_inv (ready : SourceMsg.isReady msg = true) : ∃ batchSize, msg = .ready batchSize := by
  cases msg with
  | ready batchSize => exact ⟨batchSize,rfl⟩
  | next => cases ready
  | reset => cases ready
  | flushed => cases ready
  | stop => cases ready

theorem isEvent_inv (event : WindowerMsg.isEvent msg = true) : ∃ ts, msg = .event ts := by
  cases msg with
  | event ts => exact ⟨ts,rfl⟩
  | start downstream => cases event
  | wstop => cases event
  | flush => cases event

theorem told_steps (flow : FlowAt ⟨part.source,msg :: part.toSource,part.replies,part.events⟩ now) :
    ∃ next sent, FlowStep i now next sent ∧ Yields i part msg next sent := by
  have told : msg :: part.toSource = now.told := flow.told
  cases now with
  | calm | asked | streaming | flushing | flushed | stopped => cases told
  | resetting =>
    obtain ⟨rfl,rest⟩ := List.cons.inj told
    obtain ⟨source,here,flowing⟩ := flow.source
    obtain ⟨source',done,drains⟩ := reset_drains flowing
    exact ⟨_,_,.reset,_,sourceTakes_alive here done,rfl,⟨source',rfl,drains⟩,rest,flow.replies,part.events,rfl,
      flow.events⟩
  | stopping =>
    obtain ⟨rfl,rest⟩ := List.cons.inj told
    obtain ⟨source,here,_⟩ := flow.source
    have done : sourceIter source .stop = (.exited,{}) := rfl
    refine ⟨_,_,.stop,_,sourceTakes_alive here done,rfl,rfl,rest,flow.replies,?_⟩
    have events : part.events = [] := flow.events
    simp [Partition.stream,Flow.Events,events]

theorem ready_keeps (flow : FlowAt ⟨part.source,part.toSource,.ready batchSize :: part.replies,part.events⟩ now)
    (among : now = .streaming ∨ now = .resetting ∨ now = .flushing ∨ now = .flushed)
    (left : now.Replies part.replies) : Yields i part (.ready batchSize) now [] := by
  cases now with
  | calm | asked | stopping | stopped => simp at among
  | streaming | resetting =>
    obtain ⟨source,here,flowing⟩ := flow.source
    obtain ⟨source',sent,done,flows,streams⟩ := ready_flows flowing.2 batchSize
    exact ⟨_,sourceTakes_streams here done streams,rfl,⟨_,rfl,flows⟩,flow.told,left,
      List.forall_mem_append.mpr ⟨flow.events,streams.1⟩⟩
  | flushing | flushed =>
    obtain ⟨source,here,draining⟩ := flow.source
    exact .quietly here (ready_draining draining batchSize) ⟨flow.source,flow.told,left,flow.events⟩

theorem reply_steps (flow : FlowAt ⟨part.source,part.toSource,msg :: part.replies,part.events⟩ now) :
    ∃ next sent, FlowStep i now next sent ∧ Yields i part msg next sent := by
  have replies : now.Replies (msg :: part.replies) := flow.replies
  cases now with
  | calm | stopping | stopped => cases replies
  | asked =>
    obtain ⟨batchSize,same⟩ := replies
    obtain ⟨rfl,rest⟩ := List.cons.inj same
    obtain ⟨source,here,quiet⟩ := flow.source
    obtain ⟨source',sent,done,flows,streams⟩ := ready_flows quiet.2 batchSize
    have events : part.events = [] := flow.events
    refine ⟨_,_,.ready,_,sourceTakes_streams here done streams,rfl,⟨_,rfl,flows⟩,flow.told,?_,?_⟩
    · simp [Partition.stream,Flow.Replies,rest]
    · exact List.forall_mem_append.mpr ⟨by simp [events],streams.1⟩
  | streaming | resetting | flushing =>
    obtain ⟨batchSize,rfl⟩ := isReady_inv (replies msg List.mem_cons_self)
    exact ⟨_,_,.stay,ready_keeps flow (by simp) fun other member => replies other (List.mem_cons_of_mem _ member)⟩
  | flushed =>
    obtain ⟨readies,split,ready⟩ := replies
    cases readies with
    | nil =>
      obtain ⟨rfl,rest⟩ := List.cons.inj split
      obtain ⟨source,here,draining⟩ := flow.source
      obtain ⟨source',done,quiet⟩ := flushed_quiets draining
      have events : part.events = [] := flow.events
      refine ⟨_,_,.flushed,_,sourceTakes_alive here done,rfl,⟨source',rfl,quiet⟩,flow.told,rest,?_⟩
      simp [Partition.stream,Flow.Events,events]
    | cons first readies =>
      obtain ⟨rfl,rest⟩ := List.cons.inj split
      obtain ⟨batchSize,rfl⟩ := isReady_inv (ready _ List.mem_cons_self)
      exact ⟨_,_,.stay,ready_keeps flow (by simp) ⟨readies,rest,fun other member =>
        ready other (List.mem_cons_of_mem _ member)⟩⟩

end Streams

def Lane.Absent (lane : Lane) (k : ℕ) : Prop :=
  lane.sinks k = .absent ∧ lane.starts k = 0 ∧ lane.windows k = [] ∧ lane.orders k = []

-- A sink that is gone still owes its windower the `wstop`, until the windower has it.
def Lane.Gone (lane : Lane) (downstream : Option ℕ) (k : ℕ) : Prop :=
  lane.sinks k = .exited ∧ lane.starts k = 0 ∧ lane.orders k = if downstream = some k then [.wstop] else []

-- The life of the sink of the iteration.
inductive Life where
  | absent
  | spawned
  | called
  | starting
  | waiting
  | running
  | gone

def Life.Keeps (lane : Lane) (downstream : Option ℕ) (k : ℕ) : Life → Prop
  | .absent => lane.Absent k ∧ downstream ≠ some k
  | .spawned =>
    lane.sinks k = .alive 0 ∧ lane.starts k = 0 ∧ lane.windows k = [] ∧ lane.orders k = [] ∧ downstream ≠ some k
  | .called =>
    lane.sinks k = .alive 0 ∧ lane.starts k = 1 ∧ lane.windows k = [] ∧ lane.orders k = [] ∧ downstream ≠ some k
  | .starting =>
    lane.sinks k = .alive 0 ∧ lane.starts k = 0 ∧ lane.windows k = [] ∧ lane.orders k = [.start k] ∧
      downstream ≠ some k
  | .waiting =>
    lane.sinks k = .alive 0 ∧ lane.starts k = 0 ∧ lane.windows k = [] ∧ lane.orders k = [] ∧ downstream = some k
  | .running =>
    (∃ count, lane.sinks k = .alive count) ∧ lane.starts k = 0 ∧ lane.orders k = [] ∧ downstream = some k
  | .gone => lane.Gone downstream k

structure Shell (lane : Lane) (w : Windower) (k : ℕ) : Prop where
  windower : lane.windower = .alive w
  running : w.running = w.downstream.isSome
  known : ∀ j, w.downstream = some j → j ≤ k
  earlier : ∀ j < k, lane.Gone w.downstream j
  later : ∀ j, k < j → lane.Absent j

def LaneAt (lane : Lane) (k : ℕ) (life : Life) : Prop := ∃ w, Shell lane w k ∧ life.Keeps lane w.downstream k

section Lanes
variable {i : Fin n} {part : Partition} {w w' : Windower} {life : Life}

theorem windowerTakes_alive (here : part.windower = .alive w)
    (done : windowerHandle p w msg = some (w',replies,windows)) :
    part.windowerTakes p msg = { part with
      windower := .alive w'
      replies := part.replies ++ replies
      windows := fun k => part.windows k ++ (windows.filter (·.downstream = k)).map (·.ts) } := by
  simp only [Partition.windowerTakes,here,done]

theorem flush_lane (shell : Shell part.lane w k) : part.windowerTakes p .flush =
    { part with replies := part.replies ++ [.flushed] } := by
  have here : part.windower = .alive w := shell.windower
  have handled : windowerHandle p w .flush = some (w,[.flushed],[]) := rfl
  rw [windowerTakes_alive here handled]
  simp [here]

-- The windows of an event go to the sink that the windower has.
theorem event_lane (p : Params) (lane : LaneAt part.lane k life) (busy : life = .running ∨ life = .gone) (ts : ℕ) :
    ∃ w' replies windows, part.windowerTakes p (.event ts) =
        { part with windower := w', replies := part.replies ++ replies, windows := windows } ∧
      (∀ msg ∈ replies, msg.isReady = true) ∧
        LaneAt (part.windowerTakes p (.event ts)).lane k life := by
  obtain ⟨w,shell,keeps⟩ := lane
  obtain ⟨w',replies,windows,done,same,still,ready,mine⟩ := event_kept p shell.running ts
  have taken := windowerTakes_alive shell.windower done
  refine ⟨_,_,_,taken,ready,w',?_,?_⟩
  · rw [taken]
    refine ⟨rfl,by rw [still,same,shell.running],fun j known => shell.known j (same ▸ known),?_,?_⟩
    · intro j earlier
      rw [same]
      exact shell.earlier j earlier
    · intro j later
      obtain ⟨absent,starts,windows_j,orders⟩ := shell.later j later
      have none_j : windows.filter (·.downstream = j) = [] := by
        rw [List.filter_eq_nil_iff]
        intro window member named
        have known := shell.known _ (mine window member)
        have equal := of_decide_eq_true named
        omega
      have windows_part : part.windows j = [] := windows_j
      refine ⟨absent,starts,?_,orders⟩
      simp [Partition.lane,none_j,windows_part]
  · rw [taken,same]
    rcases busy with rfl | rfl
    · exact keeps
    · exact keeps

theorem event_steps (flow : FlowAt ⟨part.source,part.toSource,part.replies,msg :: part.events⟩ now)
    (lane : LaneAt part.lane k life) (busy : now ≠ .calm → now ≠ .asked → life = .running ∨ life = .gone) :
    ∃ next, FlowStep i now next [] ∧ FlowAt (part.windowerTakes p msg).stream next ∧
      LaneAt (part.windowerTakes p msg).lane k life := by
  have events : now.Events (msg :: part.events) := flow.events
  cases now with
  | calm | asked | flushed | stopping | stopped => cases events
  | streaming | resetting =>
    obtain ⟨ts,rfl⟩ := isEvent_inv (events msg List.mem_cons_self)
    obtain ⟨w',replies,windows,taken,ready,kept⟩ := event_lane p lane (busy (by simp) (by simp)) ts
    refine ⟨_,.stay,?_,kept⟩
    rw [taken]
    exact ⟨flow.source,flow.told,List.forall_mem_append.mpr ⟨flow.replies,ready⟩,fun other member =>
      events other (List.mem_cons_of_mem _ member)⟩
  | flushing =>
    obtain ⟨before,split,are⟩ := events
    cases before with
    | nil =>
      obtain ⟨rfl,rest⟩ := List.cons.inj split
      obtain ⟨w,shell,keeps⟩ := lane
      rw [flush_lane shell]
      exact ⟨_,.flush,⟨flow.source,flow.told,⟨part.replies,rfl,flow.replies⟩,rest⟩,w,shell,keeps⟩
    | cons first before =>
      obtain ⟨rfl,rest⟩ := List.cons.inj split
      obtain ⟨ts,rfl⟩ := isEvent_inv (are _ List.mem_cons_self)
      obtain ⟨w',replies,windows,taken,ready,kept⟩ := event_lane p lane (busy (by simp) (by simp)) ts
      refine ⟨_,.stay,?_,kept⟩
      rw [taken]
      exact ⟨flow.source,flow.told,List.forall_mem_append.mpr ⟨flow.replies,ready⟩,before,rest,fun other member =>
        are other (List.mem_cons_of_mem _ member)⟩

theorem order_inv (shell : Shell lane w k) (keeps : life.Keeps lane w.downstream k)
    (here : lane.orders j = msg :: rest) :
    rest = [] ∧ (msg = .wstop ∧ w.downstream = some j ∧ (j = k → life = .gone) ∨
      msg = .start k ∧ j = k ∧ life = .starting) := by
  have gone_inv (gone : lane.Gone w.downstream j) : rest = [] ∧ msg = .wstop ∧ w.downstream = some j := by
    have orders := here.symm.trans gone.2.2
    split at orders
    · rename_i known
      cases orders
      exact ⟨rfl,rfl,known⟩
    · cases orders
  rcases Nat.lt_trichotomy j k with earlier | rfl | later
  · obtain ⟨last,wstop,known⟩ := gone_inv (shell.earlier j earlier)
    exact ⟨last,.inl ⟨wstop,known,fun same => (Nat.ne_of_lt earlier same).elim⟩⟩
  · cases life with
    | absent => cases here.symm.trans keeps.1.2.2.2
    | spawned | called | waiting => cases here.symm.trans keeps.2.2.2.1
    | running => cases here.symm.trans keeps.2.2.1
    | starting =>
      cases here.symm.trans keeps.2.2.2.1
      exact ⟨rfl,.inr ⟨rfl,rfl,rfl⟩⟩
    | gone =>
      obtain ⟨last,wstop,known⟩ := gone_inv keeps
      exact ⟨last,.inl ⟨wstop,known,fun _ => rfl⟩⟩
  · cases here.symm.trans (shell.later j later).2.2.2

def Partition.pop (part : Partition) (k : ℕ) (rest : List WindowerMsg) : Partition :=
  { part with orders := Function.update part.orders k rest }

theorem gone_stopped {lane : Lane} (gone : lane.Gone (some j) k) (windower : Proc Windower) :
    ({ lane with windower := windower, orders := Function.update lane.orders j [] } : Lane).Gone none k := by
  refine ⟨gone.1,gone.2.1,?_⟩
  by_cases same : k = j
  · subst same
    simp
  · have orders := gone.2.2
    rw [if_neg fun eq => same (Option.some.inj eq).symm] at orders
    simp [Function.update_of_ne same,orders]

theorem wstop_lane (shell : Shell part.lane w k) (keeps : life.Keeps part.lane w.downstream k)
    (known : w.downstream = some j) (mine : j = k → life = .gone) :
    ∃ w', (part.pop j []).windowerTakes p .wstop = { part.pop j [] with windower := .alive w' } ∧
      LaneAt { part.lane with windower := .alive w', orders := Function.update part.orders j [] } k life := by
  have runs : w.running = true := by rw [shell.running,known]; rfl
  have below : j ≤ k := shell.known j known
  let stopped : Windower := { w with downstream := none, running := false, windowStartTs := 0, currentWindow := 0 }
  refine ⟨stopped,?_,stopped,?_,?_⟩
  · have here : (part.pop j []).windower = .alive w := shell.windower
    have handled : windowerHandle p w .wstop = some (stopped,[],[]) := by
      rw [windowerHandle,if_pos runs]
    rw [windowerTakes_alive here handled]
    simp
  · exact {
      windower := rfl
      running := rfl
      known := by
        rintro other ⟨⟩
      earlier := fun other earlier => gone_stopped (known ▸ shell.earlier other earlier) _
      later := by
        intro other later
        have absent := shell.later other later
        refine ⟨absent.1,absent.2.1,absent.2.2.1,?_⟩
        exact (Function.update_of_ne (by omega) _ _).trans absent.2.2.2 }
  · by_cases same : j = k
    · rw [mine same] at keeps ⊢
      exact gone_stopped (known ▸ keeps) _
    · have orders : Function.update part.orders j [] k = part.orders k := Function.update_of_ne (Ne.symm same) _ _
      rw [known] at keeps
      cases life with
      | absent =>
        refine ⟨⟨keeps.1.1,keeps.1.2.1,keeps.1.2.2.1,?_⟩,by simp⟩
        exact orders.trans keeps.1.2.2.2
      | spawned | called | starting =>
        exact ⟨keeps.1,keeps.2.1,keeps.2.2.1,orders.trans keeps.2.2.2.1,by simp⟩
      | waiting => exact (same (Option.some.inj keeps.2.2.2.2)).elim
      | running => exact (same (Option.some.inj keeps.2.2.2)).elim
      | gone => exact gone_stopped keeps _

theorem start_lane (shell : Shell part.lane w k) (keeps : Life.starting.Keeps part.lane w.downstream k)
    (orderly : ∀ earlier < k, .wstop ∉ part.orders earlier) :
    ∃ w', (part.pop k []).windowerTakes p (.start k) =
        { part.pop k [] with windower := .alive w', replies := part.replies ++ [.ready p.batchSize] } ∧
      LaneAt { part.lane with windower := .alive w', orders := Function.update part.orders k [] } k .waiting := by
  have stopped : w.downstream = none := by
    cases known : w.downstream with
    | none => rfl
    | some j =>
      have below : j ≤ k := shell.known j known
      have other : j ≠ k := fun same => keeps.2.2.2.2 (same ▸ known)
      have before : j < k := by omega
      have orders : part.orders j = [.wstop] := (shell.earlier j before).2.2.trans (if_pos known)
      have member : .wstop ∈ part.orders j := by simp [orders]
      exact (orderly j before member).elim
  have idle : w.running = false := by rw [shell.running,stopped]; rfl
  let started : Windower := { w with downstream := some k, running := true, receivedSinceReady := 0 }
  refine ⟨started,?_,started,?_,?_⟩
  · have here : (part.pop k []).windower = .alive w := shell.windower
    have handled : windowerHandle p w (.start k) = some (started,[.ready p.batchSize],[]) := by
      rw [windowerHandle,if_neg (by simp [idle])]
    rw [windowerTakes_alive here handled]
    simp [Partition.pop]
  · exact {
      windower := rfl
      running := rfl
      known := fun j known => (Option.some.inj known).ge
      earlier := by
        intro j earlier
        have gone := shell.earlier j earlier
        have orders := gone.2.2
        rw [if_neg (by simp [stopped])] at orders
        refine ⟨gone.1,gone.2.1,?_⟩
        rw [if_neg fun same => Nat.ne_of_gt earlier (Option.some.inj same)]
        exact (Function.update_of_ne (by omega) _ _).trans orders
      later := by
        intro j later
        have absent := shell.later j later
        refine ⟨absent.1,absent.2.1,absent.2.2.1,?_⟩
        exact (Function.update_of_ne (by omega) _ _).trans absent.2.2.2 }
  · exact ⟨keeps.1,keeps.2.1,keeps.2.2.1,Function.update_self _ _ _,rfl⟩

theorem sinkTakes_alive (here : part.sinks k = .alive count)
    (done : sinkHandle p k count msg = (proc,orders,replies)) :
    part.sinkTakes p i k msg =
      ({ part with
          sinks := Function.update part.sinks k proc
          orders := Function.update part.orders k (part.orders k ++ orders) },
        replies.map (.token · (.sink i k)) ++ proc.exits (.sink i k)) := by
  simp only [Partition.sinkTakes,here,done]

theorem starts_inv (shell : Shell lane w k) (keeps : life.Keeps lane w.downstream k) (here : lane.starts j ≠ 0) :
    j = k ∧ life = .called := by
  rcases Nat.lt_trichotomy j k with earlier | rfl | later
  · exact (here (shell.earlier j earlier).2.1).elim
  · refine ⟨rfl,?_⟩
    cases life with
    | called => rfl
    | absent => exact (here keeps.1.2.1).elim
    | spawned | starting | waiting | running | gone => exact (here keeps.2.1).elim
  · exact (here (shell.later j later).2.1).elim

-- What changes at the sink of the iteration does not touch the other sinks.
theorem Shell.own {lane lane' : Lane} (shell : Shell lane w k) (windower : lane'.windower = lane.windower)
    (other : ∀ j, j ≠ k → lane'.sinks j = lane.sinks j ∧ lane'.starts j = lane.starts j ∧
      lane'.windows j = lane.windows j ∧ lane'.orders j = lane.orders j) : Shell lane' w k where
  windower := windower.trans shell.windower
  running := shell.running
  known := shell.known
  earlier := by
    intro j earlier
    obtain ⟨sinks,starts,_,orders⟩ := other j (by omega)
    have gone := shell.earlier j earlier
    exact ⟨sinks.trans gone.1,starts.trans gone.2.1,orders.trans gone.2.2⟩
  later := by
    intro j later
    obtain ⟨sinks,starts,windows,orders⟩ := other j (by omega)
    have absent := shell.later j later
    exact ⟨sinks.trans absent.1,starts.trans absent.2.1,windows.trans absent.2.2.1,orders.trans absent.2.2.2⟩

theorem call_lane (p : Params) (i : Fin n) (shell : Shell part.lane w k)
    (keeps : Life.called.Keeps part.lane w.downstream k) :
    ∃ part', ({ part with starts := Function.update part.starts k (part.starts k - 1) } : Partition).sinkTakes
        p i k .start = (part',[]) ∧ part'.stream = part.stream ∧ LaneAt part'.lane k .starting := by
  obtain ⟨sink,starts,windows,orders,known⟩ := keeps
  let called : Partition := { part with starts := Function.update part.starts k (part.starts k - 1) }
  have here : called.sinks k = .alive 0 := sink
  have done : sinkHandle p k 0 .start = (.alive 0,[.start k],[]) := rfl
  refine ⟨_,sinkTakes_alive here done,rfl,w,shell.own rfl ?_,?_⟩
  · intro j other
    simp [Partition.lane,called,Function.update_of_ne other]
  · have starts_part : part.starts k = 1 := starts
    have orders_part : part.orders k = [] := orders
    refine ⟨?_,?_,windows,?_,known⟩
    · simp [Partition.lane]
    · simp [Partition.lane,called,starts_part]
    · simp [Partition.lane,called,orders_part]

theorem windows_inv (shell : Shell lane w k) (keeps : life.Keeps lane w.downstream k)
    (here : lane.windows j = ts :: rest) : j ≤ k ∧ (j = k → life = .running ∨ life = .gone) := by
  refine ⟨?_,?_⟩
  · by_contra! later
    cases here.symm.trans (shell.later j later).2.2.1
  · rintro rfl
    cases life with
    | absent => cases here.symm.trans keeps.1.2.2.1
    | spawned | called | starting | waiting => cases here.symm.trans keeps.2.2.1
    | running => exact .inl rfl
    | gone => exact .inr rfl

theorem popped_lane {lane : Lane} (shell : Shell lane w k) (keeps : life.Keeps lane w.downstream k)
    (here : lane.windows j = ts :: rest) :
    Shell { lane with windows := Function.update lane.windows j rest } w k ∧
      life.Keeps { lane with windows := Function.update lane.windows j rest } w.downstream k := by
  obtain ⟨below,mine⟩ := windows_inv shell keeps here
  refine ⟨⟨shell.windower,shell.running,shell.known,shell.earlier,?_⟩,?_⟩
  · intro other later
    have absent := shell.later other later
    exact ⟨absent.1,absent.2.1,(Function.update_of_ne (by omega) _ _).trans absent.2.2.1,absent.2.2.2⟩
  · by_cases same : j = k
    · rcases mine same with rfl | rfl
      · exact keeps
      · exact keeps
    · have windows : Function.update lane.windows j rest k = lane.windows k := Function.update_of_ne (Ne.symm same) _ _
      cases life with
      | absent => exact ⟨⟨keeps.1.1,keeps.1.2.1,windows.trans keeps.1.2.2.1,keeps.1.2.2.2⟩,keeps.2⟩
      | spawned | called | starting | waiting =>
        exact ⟨keeps.1,keeps.2.1,windows.trans keeps.2.2.1,keeps.2.2.2⟩
      | running => exact keeps
      | gone => exact keeps

-- Only the sink of the iteration is there to count a window, and its last one ends it.
theorem window_lane (p : Params) (i : Fin n) (lane : LaneAt part.lane k life)
    (here : part.windows j = ts :: rest) :
    ∃ part' sent, ({ part with windows := Function.update part.windows j rest } : Partition).sinkTakes
        p i j (.window ts) = (part',sent) ∧ part'.stream = part.stream ∧
      (sent = [] ∧ LaneAt part'.lane k life ∨
        sent = [.token .ok (.sink i k),.exit (.sink i k)] ∧ life = .running ∧ LaneAt part'.lane k .gone) := by
  obtain ⟨w,shell,keeps⟩ := lane
  obtain ⟨below,mine⟩ := windows_inv shell keeps here
  obtain ⟨shell',keeps'⟩ := popped_lane shell keeps here
  have nothing (exited : part.sinks j = .exited) : ({ part with windows := Function.update part.windows j rest } :
      Partition).sinkTakes p i j (.window ts) = ({ part with windows := Function.update part.windows j rest },[]) := by
    simp only [Partition.sinkTakes,exited]
  rcases Nat.lt_or_eq_of_le below with earlier | rfl
  · exact ⟨_,_,nothing (shell.earlier j earlier).1,rfl,.inl ⟨rfl,w,shell',keeps'⟩⟩
  · rcases mine rfl with rfl | rfl
    · obtain ⟨⟨count,sink⟩,starts,orders,known⟩ := keeps
      have orders_part : part.orders j = [] := orders
      by_cases last : count + 1 = p.numWindows
      · have done : sinkHandle p j count (.window ts) = (.exited,[.wstop],[.ok]) := by
          rw [sinkHandle,if_pos last]
        refine ⟨_,_,sinkTakes_alive sink done,rfl,.inr ⟨rfl,rfl,w,shell'.own rfl ?_,?_⟩⟩
        · intro other different
          simp [Partition.lane,Function.update_of_ne different]
        · refine ⟨?_,starts,?_⟩
          · simp [Partition.lane]
          · rw [if_pos known]
            simp [Partition.lane,orders_part]
      · have done : sinkHandle p j count (.window ts) = (.alive (count + 1),[],[]) := by
          rw [sinkHandle,if_neg last]
        refine ⟨_,_,sinkTakes_alive sink done,rfl,.inl ⟨rfl,w,shell'.own rfl ?_,?_⟩⟩
        · intro other different
          simp [Partition.lane,Function.update_of_ne different]
        · refine ⟨⟨count + 1,?_⟩,starts,?_,known⟩
          · simp [Partition.lane]
          · simp [Partition.lane,orders_part]
    · exact ⟨_,_,nothing keeps.1,rfl,.inl ⟨rfl,w,shell',keeps'⟩⟩

end Lanes

end KompicsBenches.StreamBoundary
