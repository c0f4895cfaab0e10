import KompicsBenches.GuardedRuns
import KompicsBenches.Custody

namespace KompicsBenches.Chameneos

inductive ChameneosColour where
  | red
  | yellow
  | blue
  | faded
  deriving DecidableEq, Repr

def ChameneosColour.forId (i : ℕ) : ChameneosColour :=
  match i % 3 with
  | 0 => .red
  | 1 => .yellow
  | _ => .blue

def ChameneosColour.complement : ChameneosColour → ChameneosColour → ChameneosColour
  | .red,.red => .red
  | .red,.yellow => .blue
  | .red,.blue => .yellow
  | .red,.faded => .faded
  | .yellow,.red => .blue
  | .yellow,.yellow => .yellow
  | .yellow,.blue => .red
  | .yellow,.faded => .faded
  | .blue,.red => .yellow
  | .blue,.yellow => .red
  | .blue,.blue => .blue
  | .blue,.faded => .faded
  | .faded,_ => .faded

-- The references to the chameneos are their numbers.
inductive MallMsg (n : ℕ) where
  | meetingCount (count : UInt64)
  | meet (colour : ChameneosColour) (chameneo : Fin n)
  deriving DecidableEq, Repr

-- In the mixed version `exit` is the event of the port.
inductive ChameneoMsg (n : ℕ) where
  | meet (colour : ChameneosColour) (chameneo : Fin n)
  | change (colour : ChameneosColour)
  | exit
  deriving DecidableEq, Repr

inductive Envelope (n : ℕ) where
  | mall (msg : MallMsg n)
  | chameneo (i : Fin n) (msg : ChameneoMsg n)
  deriving DecidableEq, Repr

-- The number of chameneos is `n`. Only the mixed version has `sentExit`.
structure ChameneosMallActor (n : ℕ) where
  numMeetings : UInt64
  latch : ℕ
  waitingChameneo : Option (Fin n)
  sumMeetings : UInt64
  meetingsCount : UInt64
  numFaded : ℕ
  sentExit : Bool
  deriving DecidableEq, Repr

structure ChameneoActor where
  colour : ChameneosColour
  meetings : UInt64
  deriving DecidableEq, Repr

section Handlers
variable {n : ℕ}

def ChameneosMallActor.create (n : ℕ) (numMeetings : UInt64) : ChameneosMallActor n :=
  ⟨numMeetings,1,none,0,0,0,false⟩

-- The versions differ in what a chameneo gets that comes too late for a meeting.
-- `none` stands for a panic: the latch is down already.
def ChameneosMallActor.receive
    (late : ChameneosMallActor n → Fin n → ChameneosMallActor n × List (Envelope n))
    (m : ChameneosMallActor n) : MallMsg n → Option (ChameneosMallActor n × List (Envelope n))
  | .meetingCount count =>
    let m := { m with numFaded := m.numFaded + 1, sumMeetings := m.sumMeetings + count }
    if m.numFaded = n then
      if m.latch = 0 then none else some ({ m with latch := m.latch - 1 },[])
    else some (m,[])
  | .meet colour chameneo =>
    if m.meetingsCount < m.numMeetings then
      match m.waitingChameneo with
      | some other => some ({ m with waitingChameneo := none, meetingsCount := m.meetingsCount + 1 },
          [.chameneo other (.meet colour chameneo)])
      | none => some ({ m with waitingChameneo := some chameneo },[])
    else some (late m chameneo)

def ActorChameneos.late (m : ChameneosMallActor n) (chameneo : Fin n) :
    ChameneosMallActor n × List (Envelope n) :=
  (m,[.chameneo chameneo .exit])

-- The port is connected to all chameneos.
def MixedChameneos.late (m : ChameneosMallActor n) (_ : Fin n) : ChameneosMallActor n × List (Envelope n) :=
  if m.sentExit then (m,[])
  else ({ m with sentExit := true },(List.finRange n).map fun i => .chameneo i .exit)

def ChameneoActor.receive (i : Fin n) (c : ChameneoActor) : ChameneoMsg n → ChameneoActor × List (Envelope n)
  | .meet otherColour chameneo =>
    let colour := c.colour.complement otherColour
    (⟨colour,c.meetings + 1⟩,[.chameneo chameneo (.change colour),.mall (.meet colour i)])
  | .change newColour => (⟨newColour,c.meetings + 1⟩,[.mall (.meet newColour i)])
  | .exit => ({ c with colour := .faded },[.mall (.meetingCount c.meetings)])

end Handlers

-- `exited` are those that called `suicide`. It only sends them the kill, so that
-- they may handle more messages until they are dead. `counted` are the senders of
-- the counts; nothing reads it.
structure System (n : ℕ) where
  mall : ChameneosMallActor n
  chameneos : Fin n → ChameneoActor
  started : Finset (Fin n)
  exited : Finset (Fin n)
  dead : Finset (Fin n)
  net : Multiset (Envelope n)
  counted : Multiset (Fin n)

inductive Event (n : ℕ) where
  | start (i : Fin n)
  | deliver (x : Envelope n)
  | die (i : Fin n)
  deriving DecidableEq, Repr

section Steps
variable {n : ℕ} (late : ChameneosMallActor n → Fin n → ChameneosMallActor n × List (Envelope n))

def System.start (n : ℕ) (numMeetings : UInt64) : System n where
  mall := .create n numMeetings
  chameneos i := ⟨.forId i,0⟩
  started := ∅
  exited := ∅
  dead := ∅
  net := 0
  counted := 0

def onStart (s : System n) (i : Fin n) : Option (System n) :=
  if i ∈ s.started then none
  else some { s with
    started := insert i s.started
    net := s.net + {.mall (.meet (s.chameneos i).colour i)} }

def System.toMall (s : System n) (msg : MallMsg n) : Option (System n) := do
  let (mall,sends) ← s.mall.receive late msg
  some { s with mall := mall, net := s.net.erase (.mall msg) + sends }

-- A component that has not started yet keeps its messages, and a dead one gets none.
def System.toChameneo (s : System n) (i : Fin n) (msg : ChameneoMsg n) : Option (System n) :=
  if i ∈ s.dead then some { s with net := s.net.erase (.chameneo i msg) }
  else if i ∈ s.started then
    let (chameneo,sends) := (s.chameneos i).receive i msg
    some { s with
      chameneos := Function.update s.chameneos i chameneo
      exited := if msg = .exit then insert i s.exited else s.exited
      net := s.net.erase (.chameneo i msg) + sends
      counted := if msg = .exit then i ::ₘ s.counted else s.counted }
  else none

def step (s : System n) : Event n → Option (System n)
  | .start i => onStart s i
  | .deliver x =>
    if x ∈ s.net then
      match x with
      | .mall msg => s.toMall late msg
      | .chameneo i msg => s.toChameneo i msg
    else none
  | .die i => if i ∈ s.exited then some { s with dead := insert i s.dead } else none

end Steps

end KompicsBenches.Chameneos
