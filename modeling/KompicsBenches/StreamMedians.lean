import KompicsBenches.CreditRuns
import KompicsBenches.WindowMedians

namespace KompicsBenches.StreamMedians

open GuardedRuns
open StreamingWindows (Params SourceMsg StreamSource StreamSink)
open WindowMedians

-- The streaming windows with the values in them. `drawn` is what the source has drawn
-- in this iteration, `reported` what its sink has got.
structure System where
  source : StreamSource
  windower : Windower
  sink : StreamSink
  iteration : ℕ
  control : List (ℕ × StreamingWindows.WindowerMsg)
  data : List WindowerMsg
  upstream : List SourceMsg
  mailbox : List SourceMsg
  aggregates : List WindowAggregate
  resetSent : Bool
  replied : Bool
  active : Bool
  drawn : List (ℕ × Int64)
  reported : List WindowAggregate

def System.start : System where
  source := ⟨false,0,0,false,false⟩
  windower := .new
  sink := ⟨0,false,true⟩
  iteration := 0
  control := []
  data := []
  upstream := []
  mailbox := []
  aggregates := []
  resetSent := true
  replied := true
  active := false
  drawn := []
  reported := []

-- A source that sends an event draws its value.
inductive Event where
  | runIteration
  | control
  | data
  | arrive
  | source (value : Int64)
  | aggregate
  | stop
  | reset

def WindowerMsg.valued (partitionId : ℕ) (value : Int64) : StreamingWindows.WindowerMsg → WindowerMsg
  | .start => .start
  | .stop => .stop
  | .event ts => .event ts partitionId value
  | .flush => .flush

section Steps
variable (p : Params) (partitionId : ℕ)

def runIteration (s : System) : Option System :=
  if s.replied && s.sink.stopSent then
    let iteration := s.iteration + 1
    some { s with
      sink := ⟨0,false,false⟩
      iteration := iteration
      control := s.control ++ [(iteration,.start)]
      resetSent := false
      replied := false
      drawn := []
      reported := [] }
  else none

def System.windows (s : System) (sender : Option ℕ) (msg : WindowerMsg) : Option System := do
  let (windower,readies,aggregates) ← s.windower.receive p sender msg
  some { s with
    windower := windower
    upstream := s.upstream ++ readies
    aggregates := s.aggregates ++ aggregates
    active := msg = .start || (s.active && msg ≠ .stop) }

-- What goes over the connections of the sinks has no value.
def control (s : System) : Option System :=
  match s.control with
  | [] => none
  | (sender,msg) :: rest => ({ s with control := rest }).windows p (some sender) (WindowerMsg.valued partitionId 0 msg)

def data (s : System) : Option System :=
  match s.data with
  | [] => none
  | msg :: rest => ({ s with data := rest }).windows p none msg

def arrive (s : System) : Option System :=
  match s.upstream with
  | [] => none
  | msg :: rest => some { s with upstream := rest, mailbox := s.mailbox ++ [msg] }

def source (s : System) (value : Int64) : Option System :=
  match s.mailbox with
  | [] => none
  | msg :: rest => do
    let (source,events,nexts) ← s.source.receive msg
    some { s with
      source := source
      data := s.data ++ events.map (WindowerMsg.valued partitionId value)
      mailbox := rest ++ nexts
      replied := s.replied || msg = .flushed
      active := s.active && msg ≠ .reset
      drawn := s.drawn ++ List.replicate (events.countP StreamingWindows.WindowerMsg.isEvent) (partitionId,value) }

def aggregate (s : System) : Option System :=
  match s.aggregates with
  | [] => none
  | message :: rest =>
    if message.sink = s.iteration then
      some { s with sink := s.sink.receive p, aggregates := rest, reported := s.reported ++ [message] }
    else some { s with aggregates := rest }

def stop (s : System) : Option System :=
  if s.sink.latched && !s.sink.stopSent then
    some { s with sink := { s.sink with stopSent := true }, control := s.control ++ [(s.iteration,.stop)] }
  else none

def reset (s : System) : Option System :=
  if s.sink.latched && !s.resetSent then some { s with mailbox := s.mailbox ++ [.reset], resetSent := true }
  else none

def step (s : System) : Event → Option System
  | .runIteration => runIteration s
  | .control => control p partitionId s
  | .data => data p s
  | .arrive => arrive s
  | .source value => source partitionId s value
  | .aggregate => aggregate p s
  | .stop => stop s
  | .reset => reset s

end Steps

-- The streaming windows without the values.
def System.counts (s : System) : StreamingWindows.System where
  source := s.source
  windower := s.windower.counts
  sink := s.sink
  iteration := s.iteration
  control := s.control
  data := s.data.map WindowerMsg.counts
  upstream := s.upstream
  mailbox := s.mailbox
  aggregates := s.aggregates.map WindowAggregate.counts
  resetSent := s.resetSent
  replied := s.replied
  active := s.active

def Event.counts : Event → StreamingWindows.Event
  | .runIteration => .runIteration
  | .control => .control
  | .data => .data
  | .arrive => .arrive
  | .source _ => .source
  | .aggregate => .aggregate
  | .stop => .stop
  | .reset => .reset

section Simulation
variable {p : Params} {partitionId : ℕ} {s next : System}

theorem valued_counts (partitionId : ℕ) (value : Int64) (msg : StreamingWindows.WindowerMsg) :
    (WindowerMsg.valued partitionId value msg).counts = msg := by
  cases msg <;> rfl

theorem windows_counts (s : System) (sender : Option ℕ) (msg : WindowerMsg) :
    (s.windows p sender msg).map System.counts = s.counts.windows p sender msg.counts := by
  have same : (msg.counts = .start ↔ msg = .start) ∧ (msg.counts = .stop ↔ msg = .stop) := by
    cases msg <;> simp [WindowerMsg.counts]
  unfold System.windows StreamingWindows.System.windows
  change _ = (s.windower.counts.receive p sender msg.counts).bind _
  rw [← receive_counts]
  cases s.windower.receive p sender msg with
  | none => rfl
  | some received => simp [System.counts,same]

-- Each step of the streaming windows is one of these without the values, and no value
-- stops a step.
theorem step_counts (p : Params) (partitionId : ℕ) (s : System) (event : Event) :
    (step p partitionId s event).map System.counts = StreamingWindows.step p s.counts event.counts := by
  obtain ⟨source,windower,sink,iteration,control,data,upstream,mailbox,aggregates,resetSent,replied,active,drawn,
    reported⟩ := s
  cases event with
  | runIteration =>
    show Option.map _ (if replied && sink.stopSent then _ else _) = if replied && sink.stopSent then _ else _
    split <;> rfl
  | control =>
    cases control with
    | nil => rfl
    | cons message rest =>
      refine (windows_counts _ _ _).trans ?_
      rw [valued_counts]
      rfl
  | data =>
    cases data with
    | nil => rfl
    | cons msg rest => exact windows_counts _ none msg
  | arrive => cases upstream <;> rfl
  | source value =>
    cases mailbox with
    | nil => rfl
    | cons msg rest =>
      show Option.map _ ((source.receive msg).bind _) = (source.receive msg).bind _
      cases source.receive msg with
      | none => rfl
      | some received =>
        have plain : (received.2.1.map (WindowerMsg.valued partitionId value)).map WindowerMsg.counts = received.2.1 := by
          rw [List.map_map]
          exact (List.map_congr_left fun msg _ => valued_counts partitionId value msg).trans (List.map_id _)
        simp [System.counts,plain]
  | aggregate =>
    cases aggregates with
    | nil => rfl
    | cons message rest =>
      show Option.map _ (if message.sink = iteration then _ else _) = if message.sink = iteration then _ else _
      split <;> rfl
  | stop =>
    show Option.map _ (if sink.latched && !sink.stopSent then _ else _) = if sink.latched && !sink.stopSent then _ else _
    split <;> rfl
  | reset =>
    show Option.map _ (if sink.latched && !resetSent then _ else _) = if sink.latched && !resetSent then _ else _
    split <;> rfl

theorem reached_counts (path : Reached (step p partitionId) (fun _ _ => True) System.start s) :
    Reached (StreamingWindows.step p) (fun _ _ => True) StreamingWindows.System.start s.counts := by
  induction path with
  | start => exact .start
  | @step s event next _ _ done ih =>
    have counted := step_counts p partitionId s event
    rw [done] at counted
    exact .step ih trivial counted.symm

end Simulation

-- What the sink of this iteration has got and what is on its way to it.
def System.sent (s : System) : List WindowAggregate := s.reported ++ s.aggregates.filter (·.sink = s.iteration)

def isEvent : WindowerMsg → Bool
  | .event _ _ _ => true
  | _ => false

-- The events of some values, numbered from `first` on.
def numbered (first : ℕ) (values : List (ℕ × Int64)) : List WindowerMsg :=
  (values.zipIdx first).map fun e => .event e.2 e.1.1 e.1.2

def Windows (p : Params) (drawn : List (ℕ × Int64)) (sent : List WindowAggregate) (k : ℕ) : Prop :=
  sent.map (fun m => (m.ts,m.value)) =
    (List.range k).map fun i => (i * p.windowSizeMs,median (windowValues p.windowSizeMs drawn i))

structure Valued (p : Params) (s : System) : Prop where
  idle : Idle s.windower
  clock : s.source.currentTs = if s.source.flushing || s.replied then 0 else s.drawn.length
  count : s.sink.windowCount = s.reported.length
  latched : s.sink.latched = true ↔ 1 ≤ p.numberOfWindows ∧ p.numberOfWindows ≤ s.reported.length
  early : (s.iteration,.start) ∈ s.control → s.drawn = []
  windows : ∃ k, Windows p s.drawn s.sent k ∧ k * p.windowSizeMs ≤ s.drawn.length
  filled : s.windower.downstream = some s.iteration → ∃ handled rest, s.drawn = handled ++ rest ∧
    s.data.filter isEvent = numbered handled.length rest ∧ Filled p s.iteration handled s.windower s.sent

section Invariant
variable {p : Params} {partitionId : ℕ} {s next : System}

theorem numbered_snoc (first : ℕ) (values : List (ℕ × Int64)) (e : ℕ × Int64) :
    numbered first (values ++ [e]) = numbered first values ++ [.event (first + values.length) e.1 e.2] := by
  simp [numbered,List.zipIdx_append]

theorem Windows.grow {drawn more : List (ℕ × Int64)} {sent : List WindowAggregate} {k : ℕ}
    (windows : Windows p drawn sent k) (inside : k * p.windowSizeMs ≤ drawn.length) :
    Windows p (drawn ++ more) sent k := by
  unfold Windows at windows ⊢
  rw [windows]
  apply List.map_congr_left
  intro i member
  have below : (i + 1) * p.windowSizeMs ≤ k * p.windowSizeMs :=
    Nat.mul_le_mul_right _ (List.mem_range.mp member)
  rw [windowValues_append (below.trans inside)]

-- What a source does with a message, as far as its clock goes.
inductive Ticks (before after : StreamSource) : SourceMsg → List StreamingWindows.WindowerMsg → Prop where
  | rests : msg ≠ .flushed → after.currentTs = before.currentTs → after.flushing = before.flushing → Ticks before after msg []
  | sends : msg ≠ .flushed → before.flushing = false → after.flushing = false → after.currentTs = before.currentTs + 1 →
      Ticks before after msg [.event before.currentTs]
  | flushes : after.flushing = true → after.currentTs = 0 → Ticks before after .reset [.flush]
  | flushed : before.flushing = true → after.flushing = false → after.currentTs = before.currentTs →
      Ticks before after .flushed []

theorem send_ticks {source after : StreamSource} {events : List StreamingWindows.WindowerMsg} {nexts : List SourceMsg}
    (some_ : msg ≠ .flushed) (calm : source.flushing = false) (done : source.send = some (after,events,nexts)) :
    Ticks source after msg events := by
  unfold StreamSource.send at done
  split at done
  · split at done
    · cases done
      exact .sends some_ calm calm rfl
    · cases done
  · cases done
    exact .rests some_ rfl rfl

theorem source_ticks {source after : StreamSource} {events : List StreamingWindows.WindowerMsg} {nexts : List SourceMsg}
    (done : source.receive msg = some (after,events,nexts)) : Ticks source after msg events := by
  cases msg with
  | ready batchSize =>
    simp only [StreamSource.receive] at done
    split at done
    · cases done
      exact .rests (by simp) rfl rfl
    · rename_i calm
      have sent : Ticks { source with remaining := source.remaining + batchSize, downstream := true } after
          (.ready batchSize) events := send_ticks (by simp) (by simpa using calm) done
      cases sent with
      | rests some_ same still => exact .rests some_ same still
      | sends some_ _ still tick => exact .sends some_ (by simpa using calm) still tick
  | next =>
    simp only [StreamSource.receive] at done
    split at done
    · cases done
      exact .rests (by simp) rfl rfl
    · rename_i calm
      exact send_ticks (by simp) (by simpa using calm) done
  | reset =>
    simp only [StreamSource.receive] at done
    split at done
    · cases done
    · split at done
      · cases done
        exact .flushes rfl rfl
      · cases done
  | flushed =>
    simp only [StreamSource.receive] at done
    split at done
    · rename_i asked
      rw [Bool.and_eq_true] at asked
      cases done
      exact .flushed asked.1 rfl rfl
    · cases done

theorem closeWindow_sinks {w closed : Windower} {ts : ℕ} {more : List WindowAggregate}
    (closes : w.closeWindow p ts partitionId = some (closed,more)) :
    closed.downstream = w.downstream ∧ ∀ m ∈ more, w.downstream = some m.sink := by
  unfold Windower.closeWindow at closes
  split at closes
  · obtain ⟨⟨cleared,aggregates⟩,triggered,rest⟩ := Option.bind_eq_some_iff.mp closes
    cases rest
    unfold Windower.triggerWindow at triggered
    split at triggered
    · cases triggered
      exact ⟨rfl,by simp⟩
    · obtain ⟨_,_,triggered⟩ := Option.bind_eq_some_iff.mp triggered
      obtain ⟨sink,known,triggered⟩ := Option.bind_eq_some_iff.mp triggered
      cases triggered
      exact ⟨rfl,by simpa using known⟩
  · cases closes
    exact ⟨rfl,by simp⟩

theorem event_sinks {w after : Windower} {sender : Option ℕ} {ts : ℕ} {value : Int64} {readies : List SourceMsg}
    {more : List WindowAggregate} (received : w.receive p sender (.event ts partitionId value) = some (after,readies,more)) :
    after.downstream = w.downstream ∧ ∀ m ∈ more, w.downstream = some m.sink := by
  simp only [Windower.receive] at received
  split at received
  · obtain ⟨⟨closed,aggregates⟩,closes,rest⟩ := Option.bind_eq_some_iff.mp received
    obtain ⟨same,sinks⟩ := closeWindow_sinks closes
    cases rest
    refine ⟨?_,sinks⟩
    rw [← same]
    unfold Windower.manageReady
    dsimp only
    split <;> rfl
  · cases received
    exact ⟨rfl,by simp⟩

-- Facts about the streaming windows without values.
section Plain
variable {plain : StreamingWindows.System}

theorem data_kinds (inv : StreamingWindows.Inv p plain) :
    ∀ msg ∈ plain.data, msg.isEvent = true ∨ msg = .flush := by
  intro msg inside
  cases inv.stage with
  | starting stage =>
    rw [stage.quiet.data] at inside
    cases inside
  | streaming stage => exact .inl (stage.data msg inside)
  | closing stage =>
    have pipes := stage.pipes
    generalize plain.replied = replied at pipes
    cases pipes with
    | flushing drained events last kinds =>
      rw [last] at inside
      rcases List.mem_append.mp inside with event | flush
      · exact .inl (kinds msg event)
      · exact .inr (List.mem_singleton.mp flush)
    | returning drained empty =>
      rw [empty] at inside
      cases inside
    | rested quiet =>
      rw [quiet.data] at inside
      cases inside

theorem starts_early (inv : StreamingWindows.Inv p plain) (start : (k,.start) ∈ plain.control) :
    StreamingWindows.Starting plain := by
  have ungated : ¬StreamingWindows.Gate plain := by
    intro gate
    unfold StreamingWindows.Gate at gate
    split at gate
    · rcases gate with ⟨none_sent,_⟩ | ⟨_,only,_⟩
      · rw [none_sent] at start
        cases start
      · rw [only] at start
        cases List.mem_singleton.mp start
    · rw [gate.1] at start
      cases start
  cases inv.stage with
  | starting stage => exact stage
  | streaming stage | closing stage => exact absurd stage.gate ungated

theorem replied_rests (inv : StreamingWindows.Inv p plain) (replied : plain.replied = true) :
    StreamingWindows.Quiet plain.source plain.data plain.upstream plain.mailbox := by
  cases inv.stage with
  | starting stage | streaming stage =>
    rw [stage.replied] at replied
    cases replied
  | closing stage =>
    have pipes := stage.pipes
    rw [replied] at pipes
    cases pipes with
    | rested quiet => exact quiet

theorem control_kinds (inv : StreamingWindows.Inv p plain) :
    ∀ message ∈ plain.control, message = (plain.iteration,.start) ∨ message.2 = .stop := by
  have gated : StreamingWindows.Gate plain → ∀ message ∈ plain.control, message.2 = .stop := by
    intro gate message inside
    unfold StreamingWindows.Gate at gate
    split at gate
    · rcases gate with ⟨none_sent,_⟩ | ⟨_,only,_⟩
      · rw [none_sent] at inside
        cases inside
      · rw [only] at inside
        rw [List.mem_singleton.mp inside]
    · rw [gate.1] at inside
      cases inside
  intro message inside
  cases inv.stage with
  | starting stage =>
    rcases stage.control with ⟨only,_⟩ | ⟨k,both,_⟩
    · rw [only] at inside
      exact .inl (List.mem_singleton.mp inside)
    · rw [both] at inside
      rcases List.mem_cons.mp inside with stop | start
      · rw [stop]
        exact .inr rfl
      · exact .inl (List.mem_singleton.mp start)
  | streaming stage | closing stage => exact .inr (gated stage.gate message inside)

end Plain

theorem valued_start : Valued p System.start := by
  refine ⟨fun _ => ⟨rfl,rfl⟩,rfl,rfl,?_,?_,⟨0,rfl,by simp⟩,?_⟩
  · simp [System.start]
    omega
  · intro inside
    cases inside
  · intro downstream
    cases downstream

theorem Valued.runIteration (valued : Valued p s) (inv : StreamingWindows.Inv p s.counts)
    (done : StreamMedians.runIteration s = some next) : Valued p next := by
  unfold StreamMedians.runIteration at done
  split at done
  · rename_i ready
    rw [Bool.and_eq_true] at ready
    cases done
    have quiet := replied_rests inv ready.1
    have zero := valued.clock
    rw [ready.1,Bool.or_true,if_pos rfl] at zero
    have none_sent : s.aggregates.filter (·.sink = s.iteration + 1) = [] := by
      rw [List.filter_eq_nil_iff]
      intro message inside same
      have below := inv.bounds.aggregates message.counts (List.mem_map_of_mem inside)
      have named : message.sink = s.iteration + 1 := of_decide_eq_true same
      simp only [WindowAggregate.counts,System.counts] at below
      omega
    refine ⟨valued.idle,?_,rfl,?_,fun _ => rfl,⟨0,?_,by simp⟩,?_⟩
    · have calm : s.source.flushing = false := quiet.flushing
      simp [zero,calm]
    · simp
      omega
    · simp [Windows,System.sent,none_sent]
    · intro downstream
      have below := inv.bounds.downstream (s.iteration + 1) downstream
      simp only [System.counts] at below
      omega
  · cases done

theorem Valued.arrive (valued : Valued p s) (done : StreamMedians.arrive s = some next) : Valued p next := by
  unfold StreamMedians.arrive at done
  split at done
  · cases done
  · cases done
    exact ⟨valued.idle,valued.clock,valued.count,valued.latched,valued.early,valued.windows,valued.filled⟩

theorem Valued.stop (valued : Valued p s) (done : StreamMedians.stop s = some next) : Valued p next := by
  unfold StreamMedians.stop at done
  split at done
  · cases done
    refine ⟨valued.idle,valued.clock,valued.count,valued.latched,?_,valued.windows,valued.filled⟩
    intro inside
    rcases List.mem_append.mp inside with old | new
    · exact valued.early old
    · cases List.mem_singleton.mp new
  · cases done

theorem Valued.reset (valued : Valued p s) (done : StreamMedians.reset s = some next) : Valued p next := by
  unfold StreamMedians.reset at done
  split at done
  · cases done
    exact ⟨valued.idle,valued.clock,valued.count,valued.latched,valued.early,valued.windows,valued.filled⟩
  · cases done

-- An aggregate that its sink takes was sent to it before.
theorem Valued.aggregate (valued : Valued p s) (done : StreamMedians.aggregate p s = some next) : Valued p next := by
  unfold StreamMedians.aggregate at done
  split at done
  · cases done
  · rename_i message rest pending
    have windows := valued.windows
    have filled := valued.filled
    split at done
    · rename_i mine
      cases done
      have same : s.sent = (s.reported ++ [message]) ++ rest.filter (·.sink = s.iteration) := by
        simp [System.sent,pending,mine]
      rw [same] at windows filled
      refine ⟨valued.idle,valued.clock,?_,?_,valued.early,windows,filled⟩
      · simp [StreamSink.receive,valued.count]
      · have before := valued.latched
        simp only [StreamSink.receive,Bool.or_eq_true,before,valued.count,decide_eq_true_eq,List.length_append,
          List.length_singleton]
        omega
    · rename_i other
      cases done
      have same : s.sent = s.reported ++ rest.filter (·.sink = s.iteration) := by
        simp [System.sent,pending,other]
      rw [same] at windows filled
      exact ⟨valued.idle,valued.clock,valued.count,valued.latched,valued.early,windows,filled⟩

-- A new event has the next number.
theorem Valued.source {value : Int64} (valued : Valued p s) (inv : StreamingWindows.Inv p s.counts)
    (done : StreamMedians.source partitionId s value = some next) : Valued p next := by
  unfold StreamMedians.source at done
  split at done
  · cases done
  · rename_i msg rest pending
    obtain ⟨⟨after,events,nexts⟩,received,sent⟩ := Option.bind_eq_some_iff.mp done
    cases sent
    have busy : s.counts.mailbox ≠ [] := by
      intro nothing
      rw [show s.counts.mailbox = s.mailbox from rfl,pending] at nothing
      cases nothing
    have late : s.replied = false := by
      cases replied : s.replied with
      | false => rfl
      | true => exact absurd (replied_rests inv replied).mailbox busy
    have started : (s.iteration,.start) ∉ s.control := fun start => busy (starts_early inv start).quiet.mailbox
    have clock := valued.clock
    obtain ⟨k,windows,inside⟩ := valued.windows
    have filled := valued.filled
    cases source_ticks received with
    | rests some_ same still =>
      refine ⟨valued.idle,?_,valued.count,valued.latched,fun start => absurd start started,⟨k,?_,?_⟩,?_⟩
      · simp [same,still,clock,some_]
      · simpa [System.sent] using windows
      · simpa using inside
      · simpa [System.sent] using filled
    | sends some_ calm still tick =>
      rw [calm,late,Bool.or_self,if_neg (by decide)] at clock
      refine ⟨valued.idle,?_,valued.count,valued.latched,fun start => absurd start started,⟨k,?_,?_⟩,?_⟩
      · simp [still,late,some_,tick,clock,StreamingWindows.WindowerMsg.isEvent]
      · exact windows.grow inside
      · simp only [List.length_append]
        omega
      · intro downstream
        obtain ⟨handled,waiting,drawn,queued,full⟩ := filled downstream
        refine ⟨handled,waiting ++ [(partitionId,value)],?_,?_,full⟩
        · simp [drawn,StreamingWindows.WindowerMsg.isEvent]
        · rw [numbered_snoc,List.filter_append,queued,clock,drawn,List.length_append]
          rfl
    | flushes flushing zero =>
      refine ⟨valued.idle,?_,valued.count,valued.latched,fun start => absurd start started,⟨k,?_,?_⟩,?_⟩
      · simp [flushing,zero]
      · simpa [System.sent,StreamingWindows.WindowerMsg.isEvent] using windows
      · simpa [StreamingWindows.WindowerMsg.isEvent] using inside
      · simpa [System.sent,StreamingWindows.WindowerMsg.isEvent,WindowerMsg.valued,isEvent] using filled
    | flushed flushing calm same =>
      rw [flushing,Bool.true_or,if_pos rfl] at clock
      refine ⟨valued.idle,?_,valued.count,valued.latched,fun start => absurd start started,⟨k,?_,?_⟩,?_⟩
      · simp [same,clock]
      · simpa [System.sent] using windows
      · simpa using inside
      · simpa [System.sent] using filled

theorem sent_more (s : System) (more : List WindowAggregate) :
    s.reported ++ (s.aggregates ++ more).filter (·.sink = s.iteration) =
      s.sent ++ more.filter (·.sink = s.iteration) := by
  simp [System.sent]

-- The windower handles the events in the order of their numbers.
theorem Valued.data (size : 0 < p.windowSizeMs) (amplified : 0 < p.amplification) (valued : Valued p s)
    (inv : StreamingWindows.Inv p s.counts) (done : StreamMedians.data p s = some next) : Valued p next := by
  unfold StreamMedians.data at done
  split at done
  · cases done
  · rename_i msg rest pending
    obtain ⟨⟨after,readies,more⟩,received,sent⟩ := Option.bind_eq_some_iff.mp done
    cases sent
    have idle := receive_idle valued.idle received
    have windows := valued.windows
    have filled := valued.filled
    rw [pending] at filled
    have kind := data_kinds inv msg.counts (by simp [System.counts,pending])
    cases msg with
    | start | stop => simp [WindowerMsg.counts,StreamingWindows.WindowerMsg.isEvent] at kind
    | flush =>
      cases received
      refine ⟨idle,valued.clock,valued.count,valued.latched,valued.early,?_,?_⟩
      · simpa [System.sent] using windows
      · simpa [System.sent,isEvent] using filled
    | event ts source value =>
      obtain ⟨same,sinks⟩ := event_sinks received
      by_cases mine : s.windower.downstream = some s.iteration
      · have all_mine : more.filter (·.sink = s.iteration) = more := by
          rw [List.filter_eq_self]
          intro m inside
          have known := (sinks m inside).symm.trans mine
          simpa using known
        obtain ⟨handled,waiting,drawn,queued,full⟩ := filled mine
        cases waiting with
        | nil => cases queued
        | cons e waiting =>
          obtain ⟨rfl,rfl,rfl⟩ : ts = handled.length ∧ source = e.1 ∧ value = e.2 := by
            simpa [isEvent,numbered] using (List.cons.inj queued).1
          obtain ⟨after',readies',more',received',full'⟩ := filled_event size amplified full none e.1 e.2
          rw [received'] at received
          cases received
          have whole : s.drawn = (handled ++ [e]) ++ waiting := by rw [drawn,List.append_assoc]; rfl
          have queue : rest.filter isEvent = numbered (handled ++ [e]).length waiting := by
            rw [List.length_append]
            exact (List.cons.inj queued).2
          have further : s.reported ++ (s.aggregates ++ more).filter (·.sink = s.iteration) = s.sent ++ more := by
            rw [sent_more,all_mine]
          have closed : ((handled ++ [e]).length - 1) / p.windowSizeMs * p.windowSizeMs ≤ (handled ++ [e]).length :=
            (Nat.div_mul_le_self _ _).trans (Nat.sub_le _ _)
          have grown : Windows p s.drawn (s.sent ++ more) (((handled ++ [e]).length - 1) / p.windowSizeMs) := by
            rw [whole]
            exact Windows.grow full'.sent closed
          have inside : ((handled ++ [e]).length - 1) / p.windowSizeMs * p.windowSizeMs ≤ s.drawn.length := by
            refine closed.trans ?_
            rw [whole]
            simp
          rw [← further] at grown full'
          exact ⟨idle,valued.clock,valued.count,valued.latched,valued.early,⟨_,grown,inside⟩,
            fun _ => ⟨_,_,whole,queue,full'⟩⟩
      · have none_mine : more.filter (·.sink = s.iteration) = [] := by
          rw [List.filter_eq_nil_iff]
          intro m inside named
          exact mine (by rw [sinks m inside,of_decide_eq_true named])
        have unchanged : s.reported ++ (s.aggregates ++ more).filter (·.sink = s.iteration) = s.sent := by
          rw [sent_more,none_mine,List.append_nil]
        rw [← unchanged] at windows
        exact ⟨idle,valued.clock,valued.count,valued.latched,valued.early,windows,
          fun downstream => absurd (same ▸ downstream) mine⟩

theorem Valued.control (valued : Valued p s) (inv : StreamingWindows.Inv p s.counts)
    (done : StreamMedians.control p partitionId s = some next) : Valued p next := by
  unfold StreamMedians.control at done
  split at done
  · cases done
  · rename_i sender msg rest pending
    obtain ⟨⟨after,readies,more⟩,received,sent⟩ := Option.bind_eq_some_iff.mp done
    cases sent
    have idle := receive_idle valued.idle received
    have windows := valued.windows
    have early : (s.iteration,.start) ∈ rest → s.drawn = [] := fun start =>
      valued.early (pending ▸ List.mem_cons_of_mem _ start)
    have inside : (sender,msg) ∈ s.counts.control := by
      show (sender,msg) ∈ s.control
      rw [pending]
      exact List.mem_cons_self
    rcases control_kinds inv (sender,msg) inside with first | rfl
    · obtain ⟨rfl,rfl⟩ := Prod.mk.inj first
      have starting := starts_early inv inside
      have none_drawn : s.drawn = [] := valued.early inside
      have none_sent : s.sent = [] := by
        have zero : s.sink = ⟨0,false,false⟩ := starting.sink
        have none_reported : s.reported = [] := by
          apply List.length_eq_zero_iff.mp
          rw [← valued.count,zero]
        have none_mine : s.aggregates.filter (·.sink = s.iteration) = [] := by
          rw [List.filter_eq_nil_iff]
          intro m there named
          have below := starting.aggregates m.counts (List.mem_map_of_mem there)
          have same : m.sink = s.iteration := of_decide_eq_true named
          exact absurd below (by simp [WindowAggregate.counts,System.counts,same])
        simp [System.sent,none_reported,none_mine]
      have no_data : s.data = [] := List.map_eq_nil_iff.mp starting.quiet.data
      simp only [WindowerMsg.valued,Windower.receive] at received
      split at received
      · cases received
      · rename_i stopped
        cases received
        obtain ⟨empty,zero⟩ := valued.idle (by simpa using stopped)
        refine ⟨idle,valued.clock,valued.count,valued.latched,early,?_,fun _ => ⟨[],[],none_drawn,?_,?_⟩⟩
        · simpa [System.sent] using windows
        · simp [no_data,numbered]
        · rw [System.sent] at none_sent
          simp only [System.sent,List.append_nil,none_sent]
          refine ⟨rfl,rfl,?_,?_,by simp⟩
          · simpa [System.counts] using zero
          · simpa [System.counts,amplify] using empty
    · simp only [WindowerMsg.valued,Windower.receive] at received
      split at received
      · cases received
        refine ⟨idle,valued.clock,valued.count,valued.latched,early,?_,fun downstream => ?_⟩
        · simpa [System.sent] using windows
        · cases downstream
      · cases received

theorem Valued.step (size : 0 < p.windowSizeMs) (amplified : 0 < p.amplification) (valued : Valued p s)
    (inv : StreamingWindows.Inv p s.counts) {event : Event} (done : StreamMedians.step p partitionId s event = some next) :
    Valued p next := by
  cases event with
  | runIteration => exact valued.runIteration inv done
  | control => exact valued.control inv done
  | data => exact valued.data size amplified inv done
  | arrive => exact valued.arrive done
  | source value => exact valued.source inv done
  | aggregate => exact valued.aggregate done
  | stop => exact valued.stop done
  | reset => exact valued.reset done

end Invariant

section Runs
variable {p : Params} {partitionId : ℕ} {s : System}

theorem reached_valued (size : 0 < p.windowSizeMs) (amplified : 0 < p.amplification)
    (path : Reached (step p partitionId) (fun _ _ => True) System.start s) :
    StreamingWindows.Inv p s.counts ∧ Valued p s := by
  induction path with
  | start => exact ⟨StreamingWindows.start_inv p,valued_start⟩
  | @step s event next before _ done ih =>
    exact ⟨StreamingWindows.reached_inv (reached_counts (.step before trivial done)),
      ih.2.step size amplified ih.1 done⟩

theorem Windows.first {drawn : List (ℕ × Int64)} {sent reported : List WindowAggregate} {k : ℕ}
    (windows : Windows p drawn sent k) (begins : reported <+: sent) :
    reported.length ≤ k ∧ Windows p drawn reported reported.length := by
  obtain ⟨rest,rfl⟩ := begins
  have length : reported.length + rest.length = k := by
    have same := congrArg List.length windows
    simpa using same
  refine ⟨by omega,?_⟩
  have left := congrArg (List.take reported.length) windows
  rw [List.map_append,List.take_left' (by simp),← List.map_take,List.take_range,Nat.min_eq_left (by omega)] at left
  exact left

-- The sink of every iteration gets the first windows of what the source draws, one after
-- the other, and the latch falls with the last one asked for.
theorem stream_medians (size : 0 < p.windowSizeMs) (amplified : 0 < p.amplification)
    (path : Reached (step p partitionId) (fun _ _ => True) System.start s) :
    s.reported.map (fun m => (m.ts,m.value)) = (List.range s.reported.length).map
      (fun i => (i * p.windowSizeMs,median (windowValues p.windowSizeMs s.drawn i))) ∧
    s.reported.length * p.windowSizeMs ≤ s.drawn.length ∧
    (s.sink.latched = true ↔ 1 ≤ p.numberOfWindows ∧ p.numberOfWindows ≤ s.reported.length) ∧
    (s.control ≠ [] → (control p partitionId s).isSome) ∧ (s.data ≠ [] → (data p s).isSome) ∧
    (s.mailbox ≠ [] → ∀ value, (source partitionId s value).isSome) := by
  obtain ⟨inv,valued⟩ := reached_valued size amplified path
  obtain ⟨k,windows,inside⟩ := valued.windows
  obtain ⟨fewer,first⟩ := windows.first (List.prefix_append s.reported _)
  have goes (event : Event) (able : (StreamingWindows.step p s.counts event.counts).isSome) :
      (step p partitionId s event).isSome := by
    rw [← step_counts p partitionId] at able
    simpa using able
  refine ⟨first,(Nat.mul_le_mul_right _ fewer).trans inside,valued.latched,?_,?_,?_⟩
  · intro some_sent
    obtain ⟨_,done,_⟩ := StreamingWindows.control_inv inv some_sent
    exact goes .control (Option.isSome_of_eq_some done)
  · intro some_sent
    obtain ⟨_,done,_⟩ := StreamingWindows.data_inv inv (fun nothing => some_sent (List.map_eq_nil_iff.mp nothing))
    exact goes .data (Option.isSome_of_eq_some done)
  · intro some_told value
    obtain ⟨_,done,_⟩ := StreamingWindows.source_inv inv some_told
    exact goes (.source value) (Option.isSome_of_eq_some done)

def oneWindow : List Event :=
  [.runIteration,.control,.arrive,.source 5,.data,.source 7,.data,.aggregate]

theorem stream_medians_one : ∃ s : System, Reached (step ⟨3,1,1,1⟩ 0) (fun _ _ => True) System.start s ∧
    s.reported.length = 1 ∧ s.sink.latched = true := by
  have ran : ∃ s, runs (step ⟨3,1,1,1⟩ 0) (fun _ _ => True) System.start oneWindow = some s ∧ s.reported.length = 1 := by
    simp [runs,oneWindow,step,runIteration,control,arrive,source,data,aggregate,System.windows,System.start,
      Windower.receive,Windower.new,WindowerMsg.valued,StreamSource.receive,StreamSource.send,Windower.closeWindow,
      Windower.windowEnd,Windower.manageReady,Params.readyMark,Windower.triggerWindow,sortUnstable,middle]
  obtain ⟨s,done,one⟩ := ran
  have path := runs_reached .start done
  exact ⟨s,path,one,(stream_medians (by decide) (by decide) path).2.2.1.mpr (by simp [one])⟩

end Runs

end KompicsBenches.StreamMedians
