import KompicsBenches.SlidingWindow

namespace KompicsBenches.PingPong

open SlidingWindow GuardedRuns

structure StaticPing where
  deriving DecidableEq, Repr

structure StaticPong where
  deriving DecidableEq, Repr

structure Ping where
  index : ℕ
  deriving DecidableEq, Repr

structure Pong where
  index : ℕ
  deriving DecidableEq, Repr

def StaticPonger.receiveNetwork (_ : StaticPing) : StaticPong := ⟨⟩

def Ponger.receiveNetwork (ping : Ping) : Pong := ⟨ping.index⟩

-- The fields of both pingers. The latch is for one pair.
structure Pinger where
  latch : ℕ
  count : ℕ
  pipeline : ℕ
  sentCount : ℕ
  recvCount : ℕ
  deriving DecidableEq, Repr

section Kompact
variable {M : Type} (ping : ℕ → M)

def Pinger.create (count pipeline : ℕ) : Pinger := ⟨1,count,pipeline,0,0⟩

-- The loop of `receive_local`, with the rounds that `pipelined` leaves.
def Pinger.fill : ℕ → Pinger → Pinger × List M
  | 0,pinger => (pinger,[])
  | left + 1,pinger =>
    if pinger.sentCount < pinger.count then
      let (filled,pings) := fill left { pinger with sentCount := pinger.sentCount + 1 }
      (filled,ping pinger.sentCount :: pings)
    else (pinger,[])

def Pinger.receiveLocal (pinger : Pinger) : Option (Pinger × List M × ℕ) :=
  let (filled,pings) := pinger.fill ping pinger.pipeline
  some (filled,pings,0)

-- `none` stands for a panic.
def Pinger.receiveNetwork (pinger : Pinger) : Option (Pinger × List M × ℕ) :=
  let pinger := { pinger with recvCount := pinger.recvCount + 1 }
  if pinger.recvCount < pinger.count then
    if pinger.sentCount < pinger.count then
      some ({ pinger with sentCount := pinger.sentCount + 1 },[ping pinger.sentCount],0)
    else some (pinger,[],0)
  else if pinger.latch = 0 then none
  else some ({ pinger with latch := pinger.latch - 1 },[],1)

end Kompact

def Kompact.staticPinger : Requester Pinger StaticPing where
  start := Pinger.receiveLocal fun _ => ⟨⟩
  answer := Pinger.receiveNetwork fun _ => ⟨⟩

def Kompact.pinger : Requester Pinger Ping where
  start := Pinger.receiveLocal Ping.mk
  answer := Pinger.receiveNetwork Ping.mk

namespace Erlang

-- Where the process is: before `start`, in a `receive` of the second or the third
-- clause of the run function, or gone. `sentCount` is the one it goes on with.
inductive PingerProcess where
  | waiting
  | receiving (sentCount recvCount : ℕ)
  | gone
  deriving DecidableEq, Repr

section Processes
variable {M : Type} (ping : ℕ → M) (msgCount : ℕ)

def pingerRun (sentCount recvCount : ℕ) : PingerProcess × List M × ℕ :=
  if msgCount ≤ recvCount then (.gone,[],1)
  else if msgCount ≤ sentCount then (.receiving sentCount recvCount,[],0)
  else (.receiving (sentCount + 1) recvCount,[ping sentCount],0)

-- The first argument is what the pipeline leaves: `Pipeline - SentCount`.
def pingerPipe : ℕ → ℕ → ℕ → PingerProcess × List M × ℕ
  | 0,sentCount,recvCount => pingerRun ping msgCount sentCount recvCount
  | left + 1,sentCount,recvCount =>
    if sentCount < msgCount then
      let (process,pings,signals) := pingerPipe left (sentCount + 1) recvCount
      (process,ping sentCount :: pings,signals)
    else pingerRun ping msgCount sentCount recvCount

-- `none` stands for a throw. A process that is gone gets its messages all the same.
def handleStart (pipeline : ℕ) : PingerProcess → Option (PingerProcess × List M × ℕ)
  | .waiting => some (pingerPipe ping msgCount pipeline 0 0)
  | .receiving _ _ => none
  | .gone => some (.gone,[],0)

def handlePong : PingerProcess → Option (PingerProcess × List M × ℕ)
  | .waiting => none
  | .receiving sentCount recvCount => some (pingerRun ping msgCount sentCount (recvCount + 1))
  | .gone => some (.gone,[],0)

end Processes

def staticPinger (msgCount pipeline : ℕ) : Requester PingerProcess StaticPing where
  start := handleStart (fun _ => ⟨⟩) msgCount pipeline
  answer := handlePong (fun _ => ⟨⟩) msgCount

def pinger (msgCount pipeline : ℕ) : Requester PingerProcess Ping where
  start := handleStart Ping.mk msgCount pipeline
  answer := handlePong Ping.mk msgCount

def staticPonger (_ : StaticPing) : StaticPong := ⟨⟩

def ponger (ping : Ping) : Pong := ⟨ping.index⟩

end Erlang

section Windows
variable {M : Type} {ping : ℕ → M} {count pipeline : ℕ}

theorem fill_between (pinger : Pinger) (left : ℕ) (few : pinger.sentCount ≤ pinger.count) :
    pinger.fill ping left = ({ pinger with sentCount := min pinger.count (pinger.sentCount + left) },
      between ping pinger.sentCount (min pinger.count (pinger.sentCount + left))) := by
  induction left generalizing pinger with
  | zero =>
    rw [Nat.add_zero,Nat.min_eq_right few,between_nil ping le_rfl]
    rfl
  | succ left ih =>
    rw [Pinger.fill]
    split
    · rename_i more
      rw [ih { pinger with sentCount := pinger.sentCount + 1 } more]
      dsimp only
      rw [show pinger.sentCount + 1 + left = pinger.sentCount + (left + 1) by omega,
        between_cons ping (show pinger.sentCount < _ by omega)]
    · rename_i all
      rw [show min pinger.count (pinger.sentCount + (left + 1)) = pinger.sentCount by omega,between_nil ping le_rfl]

-- The window of the Kompact pingers is the pipeline.
theorem kompact_windowed (count pipeline : ℕ) (some_message : 1 ≤ count) (some_pipeline : 1 ≤ pipeline) :
    Windowed ⟨Pinger.receiveLocal ping,Pinger.receiveNetwork ping⟩ ping count pipeline (Pinger.create count pipeline)
      fun pinger handled => pinger = ⟨if handled = count then 0 else 1,count,pipeline,min count (pipeline + handled),handled⟩ where
  start := by
    refine ⟨_,?_,rfl⟩
    simp only [Pinger.receiveLocal,Pinger.create]
    rw [fill_between _ _ (Nat.zero_le _),if_neg (by omega)]
    simp
  answer := by
    rintro _ handled rfl more
    simp only [Pinger.receiveNetwork]
    rw [if_neg (show ¬handled = count by omega)]
    by_cases last : handled + 1 = count
    · refine ⟨_,?_,rfl⟩
      rw [if_neg (by omega),if_neg Nat.one_ne_zero,if_pos last,if_pos last,between_nil ping (by omega),
        show min count (pipeline + handled) = min count (pipeline + (handled + 1)) by omega]
    · refine ⟨_,?_,rfl⟩
      rw [if_pos (by omega),if_neg last,if_neg last]
      split
      · rename_i unsent
        rw [between_cons ping (by omega),between_nil ping (by omega),
          show min count (pipeline + handled) + 1 = min count (pipeline + (handled + 1)) by omega]
      · rename_i all
        rw [between_nil ping (by omega),
          show min count (pipeline + handled) = min count (pipeline + (handled + 1)) by omega]

-- The third clause of the run function sends before it receives: one ping more than
-- the pipeline.
theorem pipe_between (left sent : ℕ) (few : sent ≤ count) (some_message : 1 ≤ count) :
    Erlang.pingerPipe ping count left sent 0 = (.receiving (min count (sent + left + 1)) 0,
      between ping sent (min count (sent + left + 1)),0) := by
  induction left generalizing sent with
  | zero =>
    rw [Erlang.pingerPipe,Erlang.pingerRun,if_neg (by omega)]
    split
    · rename_i all
      rw [show min count (sent + 0 + 1) = sent by omega,between_nil ping le_rfl]
    · rename_i more
      rw [show min count (sent + 0 + 1) = sent + 1 by omega,between_cons ping (Nat.lt_succ_self sent),
        between_nil ping le_rfl]
  | succ left ih =>
    rw [Erlang.pingerPipe]
    split
    · rename_i more
      rw [ih (sent + 1) more]
      dsimp only
      rw [show sent + 1 + left + 1 = sent + (left + 1) + 1 by omega,between_cons ping (show sent < _ by omega)]
    · rename_i all
      rw [Erlang.pingerRun,if_neg (by omega),if_pos (by omega),
        show min count (sent + (left + 1) + 1) = sent by omega,between_nil ping le_rfl]

theorem erlang_windowed (count pipeline : ℕ) (some_message : 1 ≤ count) :
    Windowed ⟨Erlang.handleStart ping count pipeline,Erlang.handlePong ping count⟩ ping count (pipeline + 1)
      .waiting fun process handled =>
        process = if handled = count then .gone else .receiving (min count (pipeline + 1 + handled)) handled where
  start := by
    refine ⟨_,?_,rfl⟩
    simp only [Erlang.handleStart]
    rw [pipe_between pipeline 0 (Nat.zero_le _) some_message,if_neg (by omega),Nat.zero_add,Nat.add_zero]
  answer := by
    rintro _ handled rfl more
    rw [if_neg (show ¬handled = count by omega)]
    simp only [Erlang.handlePong,Erlang.pingerRun]
    by_cases last : handled + 1 = count
    · refine ⟨_,?_,rfl⟩
      rw [if_pos last,if_pos last,if_pos (by omega),between_nil ping (by omega)]
    · refine ⟨_,?_,rfl⟩
      rw [if_neg last,if_neg last,if_neg (by omega)]
      split
      · rename_i all
        rw [between_nil ping (by omega),
          show min count (pipeline + 1 + handled) = min count (pipeline + 1 + (handled + 1)) by omega]
      · rename_i unsent
        rw [between_cons ping (by omega),between_nil ping (by omega),
          show min count (pipeline + 1 + handled) + 1 = min count (pipeline + 1 + (handled + 1)) by omega]

end Windows

-- The four pingers with their pongers.
def Kompact.Paces (count pipeline : ℕ) : Prop :=
  (∀ s : System Pinger StaticPing StaticPong,
    Reached (step Kompact.staticPinger StaticPonger.receiveNetwork) (fun _ _ => True)
      (initial (Pinger.create count pipeline)) s → Paced Kompact.staticPinger (fun _ => ⟨⟩) count pipeline s) ∧
  ∀ s : System Pinger Ping Pong,
    Reached (step Kompact.pinger Ponger.receiveNetwork) (fun _ _ => True) (initial (Pinger.create count pipeline)) s →
      Paced Kompact.pinger Ping.mk count pipeline s

def Erlang.Paces (count pipeline bound : ℕ) : Prop :=
  (∀ s : System PingerProcess StaticPing StaticPong,
    Reached (step (staticPinger count pipeline) staticPonger) (fun _ _ => True) (initial .waiting) s →
      Paced (staticPinger count pipeline) (fun _ => ⟨⟩) count bound s) ∧
  ∀ s : System PingerProcess Ping Pong,
    Reached (step (pinger count pipeline) ponger) (fun _ _ => True) (initial .waiting) s →
      Paced (pinger count pipeline) Ping.mk count bound s


theorem erlang_paces_iff (count pipeline bound : ℕ) (some_message : 1 ≤ count) :
    Erlang.Paces count pipeline bound ↔ min count (pipeline + 1) ≤ bound := by
  have some_window : 1 ≤ pipeline + 1 := Nat.succ_pos pipeline
  constructor
  · rintro ⟨paced,-⟩
    exact (paced_iff some_message some_window bound (erlang_windowed count pipeline some_message)).mp paced
  · intro fits
    constructor
    · exact (paced_iff some_message some_window bound (erlang_windowed count pipeline some_message)).mpr fits
    · exact (paced_iff some_message some_window bound (erlang_windowed count pipeline some_message)).mpr fits

-- The Erlang pingers keep one ping more under way than the pipeline allows, when
-- there are enough of them.
theorem pipeline_kept_iff (count pipeline : ℕ) (some_message : 1 ≤ count) (some_pipeline : 1 ≤ pipeline) :
    Kompact.Paces count pipeline ∧ Erlang.Paces count pipeline (pipeline + 1) ∧
      (Erlang.Paces count pipeline pipeline ↔ count ≤ pipeline) := by
  refine ⟨⟨?_,?_⟩,?_,?_⟩
  · exact (paced_iff some_message some_pipeline pipeline (kompact_windowed count pipeline some_message some_pipeline)).mpr
      (Nat.min_le_right _ _)
  · exact (paced_iff some_message some_pipeline pipeline (kompact_windowed count pipeline some_message some_pipeline)).mpr
      (Nat.min_le_right _ _)
  · exact (erlang_paces_iff count pipeline _ some_message).mpr (Nat.min_le_right _ _)
  · rw [erlang_paces_iff count pipeline _ some_message]
    omega

-- Two pings and a pipeline of one: both are sent before the first pong.
theorem erlang_pipeline_exceeded : ∃ s : System Erlang.PingerProcess Ping Pong,
    Reached (step (Erlang.pinger 2 1) Erlang.ponger) (fun _ _ => True) (initial .waiting) s ∧
      s.sent.length = 2 ∧ s.handled = 0 ∧ ¬Erlang.Paces 2 1 1 := by
  obtain ⟨s,path,out⟩ : ∃ s : System Erlang.PingerProcess Ping Pong,
      Reached (step (Erlang.pinger 2 1) Erlang.ponger) (fun _ _ => True) (initial .waiting) s ∧
        decide (s.sent.length = 2 ∧ s.handled = 0) = true :=
    runs_check [.start] (by decide)
  obtain ⟨two,none_handled⟩ := of_decide_eq_true out
  refine ⟨s,path,two,none_handled,?_⟩
  rintro ⟨-,paced⟩
  have bound := (paced s path).bound
  omega

theorem three_pings_two_out : Kompact.Paces 3 2 ∧ Erlang.Paces 3 2 3 ∧ ¬Erlang.Paces 3 2 2 := by
  obtain ⟨kompact,erlang,fits⟩ := pipeline_kept_iff 3 2 (by decide) (by decide)
  refine ⟨kompact,erlang,?_⟩
  rw [fits]
  decide

end KompicsBenches.PingPong
