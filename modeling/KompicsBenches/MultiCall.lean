import KompicsBenches.GuardedRuns
import KompicsBenches.Mailboxes

namespace KompicsBenches.MultiCall
open GuardedRuns

-- What reaches the process that collects the replies to one call. The call has a tag
-- of its own, and every monitor and timer a reference.
inductive Message (ν κ : Type) where
  | down (monitor : ℕ)
  | reply (tag : ℕ) (node : ν) (content : κ)
  | timeout (timer : ℕ)
  deriving DecidableEq, Repr

-- The clauses of the receive.
inductive Taken (κ : Type) where
  | down
  | reply (content : κ)
  | timeout
  deriving DecidableEq, Repr

-- `expired` is the loop of `rec_nodes_rest`, which a timeout leads to. Without a
-- timer the call waits for ever.
structure Middleman (ν κ : Type) where
  tag : ℕ
  timer : Option ℕ
  monitors : List (ν × ℕ)
  badnodes : List ν
  replies : List (ν × κ)
  expired : Bool
  mailbox : List (Message ν κ)
  deriving DecidableEq, Repr

section Code
variable {ν κ : Type} [DecidableEq ν] [DecidableEq κ]

omit [DecidableEq ν] in
-- Every node gets a monitor, and the list of the monitors is the reverse of the nodes'.
def sendNodes : List ν → ℕ → List (ν × ℕ) → List (ν × ℕ)
  | [],_,monitors => monitors
  | node :: tail,ref,monitors => sendNodes tail (ref + 1) ((node,ref) :: monitors)

def Middleman.start (tag : ℕ) (timer : Option ℕ) (nodes : List ν) : Middleman ν κ :=
  ⟨tag,timer,sendNodes nodes 0 [],[],[],false,[]⟩

def pattern (tag : ℕ) (timer : Option ℕ) (node : ν) (monitor : ℕ) : Message ν κ → Option (Taken κ)
  | .down other => if other = monitor then some .down else none
  | .reply other sender content => if other = tag ∧ sender = node then some (.reply content) else none
  | .timeout other => if timer = some other then some .timeout else none

def unmonitor (monitor : ℕ) (mailbox : List (Message ν κ)) : List (Message ν κ) := mailbox.erase (.down monitor)

-- The loop of `rec_nodes_rest` does not listen to the timer any more.
def Middleman.listens (m : Middleman ν κ) : Option ℕ := if m.expired then none else m.timer

-- One round for the first monitor, `none` while it waits. Behind the timeout it
-- waits no longer (`after 0`).
def Middleman.recNodes (m : Middleman ν κ) : Option (Middleman ν κ) :=
  match m.monitors with
  | [] => none
  | (node,monitor) :: tail =>
    match Selective.receive (pattern m.tag m.listens node monitor) m.mailbox with
    | some (.down,mailbox) => some { m with monitors := tail, badnodes := node :: m.badnodes, mailbox := mailbox }
    | some (.reply content,mailbox) =>
      some { m with monitors := tail, replies := (node,content) :: m.replies, mailbox := unmonitor monitor mailbox }
    | some (.timeout,mailbox) =>
      some { m with
        monitors := tail, badnodes := node :: m.badnodes, expired := true, mailbox := unmonitor monitor mailbox }
    | none =>
      if m.expired then
        some { m with monitors := tail, badnodes := node :: m.badnodes, mailbox := unmonitor monitor m.mailbox }
      else none

def Middleman.result (m : Middleman ν κ) : Option (List (ν × κ) × List ν) :=
  if m.monitors = [] then some (m.replies,m.badnodes) else none

inductive Event (ν κ : Type) where
  | deliver (message : Message ν κ)
  | receive
  deriving DecidableEq, Repr

-- Messages come at any time and in any order. The process is gone once it has its
-- result, and what comes then is lost.
def Middleman.step (m : Middleman ν κ) : Event ν κ → Option (Middleman ν κ)
  | .deliver message => if m.monitors = [] then some m else some { m with mailbox := m.mailbox ++ [message] }
  | .receive => m.recNodes

def delivered (events : List (Event ν κ)) : List (Message ν κ) :=
  events.filterMap fun
    | .deliver message => some message
    | .receive => none

end Code

end KompicsBenches.MultiCall
