import KompicsBenches.StoppingRule

namespace KompicsBenches.MasterClients

open StoppingRule (State)

def maxAttempts : ℕ := 5

inductive ClientState where
  | checkingIn
  | ready
  | running
  | stopped
  deriving DecidableEq, Repr

-- What a client asks of its active benchmark.
inductive BenchCall where
  | setup
  | prepareIteration
  | cleanupIteration (lastIteration : Bool)
  deriving DecidableEq, Repr

inductive Command where
  | setup
  | cleanup (final : Bool)
  | shutdown
  deriving DecidableEq, Repr

structure SetupResponse where
  success : Bool
  data : String
  deriving DecidableEq, Repr

structure Client where
  state : ClientState
  calls : List BenchCall
  deriving DecidableEq, Repr

-- `outcome` is what the lookup of the label and the setup of the instance give:
-- the data of the client or the text of the error. A benchmark that is still
-- running is dropped first.
def Client.setup (c : Client) (outcome : Except String String) : Client × SetupResponse :=
  let c := if c.state ≠ .ready then { c with state := .ready } else c
  match outcome with
  | .ok data =>
    ({ c with state := .running, calls := c.calls ++ [.setup,.prepareIteration] },⟨true,data⟩)
  | .error text => (c,⟨false,text⟩)

-- `none` is the panic on an invalid state.
def Client.cleanup (c : Client) (final : Bool) : Option Client :=
  match c.state with
  | .running =>
    if final then some { c with state := .ready, calls := c.calls ++ [.cleanupIteration true] }
    else some { c with calls := c.calls ++ [.cleanupIteration false,.prepareIteration] }
  | _ => none

def Client.shutdown (c : Client) : Client := { c with state := .stopped }

-- The process of a client. `waiting` for the response to its check-in, and
-- `commands` that its service has queued.
structure Node where
  client : Client
  checkinAttempts : ℕ
  waiting : Bool
  exited : Bool
  panicked : Bool
  commands : List Command
  deriving DecidableEq, Repr

-- `awaited` are the entries whose response the running benchmark joins on.
structure Master (ι : Type) where
  state : State
  waitFor : ℕ
  clients : List ι
  checkInQueue : List ι
  awaited : List ι
  isFinal : Bool

structure System (ι : Type) where
  master : Master ι
  nodes : ι → Node
  checkIns : List (ι × ℕ)
  answers : List (ι × ℕ)
  rpcs : List (ι × Command)

def Node.start : Node := ⟨⟨.checkingIn,[]⟩,0,false,false,false,[]⟩

def System.start {ι : Type} (waitFor : ℕ) : System ι :=
  ⟨⟨.init,waitFor,[],[],[],false⟩,fun _ => .start,[],[],[]⟩

inductive Event (ι : Type) where
  | checkin (i : ι)
  | arrive (i : ι) (attempt : ℕ)
  | connected (i : ι)
  | refused (i : ι)
  | handleCheckIn
  | request
  | deliver (i : ι) (command : Command)
  | execute (i : ι) (data : String)
  | collected
  | iteration (isFinal : Bool)
  | cleaned
  deriving DecidableEq, Repr

section Steps
variable {ι : Type} [DecidableEq ι]

-- The attempts of a client count up, and a new one starts only when the last
-- one is over.
def checkin (i : ι) (s : System ι) : Option (System ι) :=
  let node := s.nodes i
  if node.client.state = .checkingIn ∧ node.waiting = false ∧ node.exited = false then
    let attempt := node.checkinAttempts + 1
    let node := { node with checkinAttempts := attempt, waiting := true }
    some { s with nodes := Function.update s.nodes i node, checkIns := s.checkIns ++ [(i,attempt)] }
  else none

-- The handler of the master's service.
def arrive (i : ι) (attempt : ℕ) (s : System ι) : Option (System ι) :=
  if (i,attempt) ∈ s.checkIns then
    let s := { s with checkIns := s.checkIns.erase (i,attempt), answers := s.answers ++ [(i,attempt)] }
    if s.master.state = .init then
      some { s with master := { s.master with checkInQueue := s.master.checkInQueue ++ [i] } }
    else some s
  else none

def connected (i : ι) (s : System ι) : Option (System ι) :=
  let node := s.nodes i
  if node.waiting = true ∧ (i,node.checkinAttempts) ∈ s.answers then
    if node.client.state = .checkingIn then
      let node := { node with waiting := false, client := { node.client with state := .ready } }
      some { s with nodes := Function.update s.nodes i node }
    else none
  else none

-- The client sees an error, whether or not its check-in arrived.
def refused (i : ι) (s : System ι) : Option (System ι) :=
  let node := s.nodes i
  if node.waiting = true then
    let exited := !(node.checkinAttempts < maxAttempts)
    let node := { node with waiting := false, exited := exited }
    some { s with nodes := Function.update s.nodes i node }
  else none

def Master.checkInHandler (m : Master ι) (i : ι) : Master ι :=
  if m.state = .init then
    let clients := m.clients ++ [i]
    if clients.length = m.waitFor then { m with clients := clients, state := .ready }
    else { m with clients := clients }
  else m

omit [DecidableEq ι] in
@[simp] theorem Master.checkInHandler_waitFor (m : Master ι) (i : ι) :
    (m.checkInHandler i).waitFor = m.waitFor := by
  unfold Master.checkInHandler
  by_cases early : m.state = .init
  · simp only [early,if_true]
    split <;> rfl
  · simp [early]

def handleCheckIn (s : System ι) : Option (System ι) :=
  match s.master.state,s.master.checkInQueue with
  | .init,i :: rest => some { s with master := ({ s.master with checkInQueue := rest }).checkInHandler i }
  | _,_ => none

-- Send one command to each entry and wait for the responses.
def System.broadcast (s : System ι) (command : Command) : System ι :=
  { s with
    rpcs := s.rpcs ++ s.master.clients.map (fun i => (i,command))
    master := { s.master with awaited := s.master.clients } }

def request (s : System ι) : Option (System ι) := do
  let state ← State.cas .ready .setup s.master.state
  some (({ s with master := { s.master with state := state } } : System ι).broadcast .setup)

def deliver (i : ι) (command : Command) (s : System ι) : Option (System ι) :=
  let node := s.nodes i
  if (i,command) ∈ s.rpcs ∧ node.exited = false then
    let node := { node with commands := node.commands ++ [command] }
    some { s with rpcs := s.rpcs.erase (i,command), nodes := Function.update s.nodes i node }
  else none

-- The loop over the commands, entered once the check-in is through. Every
-- setup of the benchmark succeeds here.
def execute (i : ι) (data : String) (s : System ι) : Option (System ι) :=
  let node := s.nodes i
  if node.client.state = .checkingIn ∨ node.client.state = .stopped ∨ node.panicked = true then none
  else
    match node.commands with
    | [] => none
    | command :: rest =>
      let node := { node with commands := rest }
      let replied := { s with master := { s.master with awaited := s.master.awaited.erase i } }
      match command with
      | .setup =>
        let (client,_) := node.client.setup (.ok data)
        some { replied with nodes := Function.update s.nodes i { node with client := client } }
      | .cleanup final =>
        match node.client.cleanup final with
        | some client =>
          some { replied with nodes := Function.update s.nodes i { node with client := client } }
        | none => some { s with nodes := Function.update s.nodes i { node with panicked := true } }
      | .shutdown =>
        some { s with nodes := Function.update s.nodes i { node with client := node.client.shutdown } }

def collected (s : System ι) : Option (System ι) :=
  if s.master.awaited = [] then do
    let state ← State.cas .setup .run s.master.state
    some { s with master := { s.master with state := state } }
  else none

-- An iteration of the benchmark and the cleanup after it. Which one is final is
-- left open.
def iteration (isFinal : Bool) (s : System ι) : Option (System ι) := do
  let state ← State.cas .run .cleanup s.master.state
  some (({ s with master := { s.master with state := state, isFinal := isFinal } } : System ι).broadcast
    (.cleanup isFinal))

def cleaned (s : System ι) : Option (System ι) :=
  if s.master.awaited = [] then
    if s.master.isFinal then do
      let _ ← State.cas .cleanup .finished s.master.state
      some { s with master := { s.master with state := .ready } }
    else do
      let state ← State.cas .cleanup .run s.master.state
      some { s with master := { s.master with state := state } }
  else none

def step (s : System ι) : Event ι → Option (System ι)
  | .checkin i => checkin i s
  | .arrive i attempt => arrive i attempt s
  | .connected i => connected i s
  | .refused i => refused i s
  | .handleCheckIn => handleCheckIn s
  | .request => request s
  | .deliver i command => deliver i command s
  | .execute i data => execute i data s
  | .collected => collected s
  | .iteration isFinal => iteration isFinal s
  | .cleaned => cleaned s

end Steps

end KompicsBenches.MasterClients
