import KompicsBenches.RegisterLinear

namespace KompicsBenches.RegisterSystem
open RegisterNode RegisterCell RegisterLinear

-- One operation at most for each node and key of a run. Keys are `u64`.
structure Config (n : ℕ) where
  variant : Variant
  numKeys : ℕ
  testing : Bool
  workload : ℕ → Fin n → List (ℕ × OpKind)
  once : ∀ run p, ((workload run p).map Prod.fst).Nodup
  known : ∀ run p, ∀ op ∈ workload run p, op.1 < numKeys
  small : numKeys < 2 ^ 64

-- `requests` waits at the broadcast components of the component variant.
-- `inits` and `runs` record the Init and Run messages handled so far, `trace`
-- what every node has done, with the run it was in.
structure System (n : ℕ) where
  nodes : Fin n → AtomicRegister
  todo : Fin n → List (ℕ × OpKind)
  net : Multiset (Packet n)
  requests : Multiset (Fin n × AtomicRegisterMessage)
  inits : List (Fin n × ℕ)
  runs : List (Fin n × ℕ)
  trace : List (Fin n × ℕ × Effect)

def System.initial (cfg : Config n) : System n where
  nodes := fun _ => .with cfg.variant cfg.numKeys cfg.testing
  todo := fun _ => []
  net := 0
  requests := 0
  inits := []
  runs := []
  trace := []

-- An actor broadcasts by itself, a component asks its broadcast component.
def sends (variant : Variant) (p src : Fin n) : Effect → Multiset (Packet n)
  | .bcast msg => if variant = .actor then packets p msg else 0
  | .reply msg => {⟨p,src,msg⟩}
  | _ => 0

def asks (variant : Variant) (p : Fin n) : Effect → Multiset (Fin n × AtomicRegisterMessage)
  | .bcast msg => if variant = .comp then {(p,msg)} else 0
  | _ => 0

def System.commit (s : System n) (p src : Fin n) (result : AtomicRegister × List Effect) :
    System n :=
  {s with
    nodes := Function.update s.nodes p result.1
    net := s.net + (result.2.map (sends result.1.variant p src)).sum
    requests := s.requests + (result.2.map (asks result.1.variant p)).sum
    trace := s.trace ++ result.2.map (p,result.1.currentRunId,·)}

inductive Action (n : ℕ) where
  | init (p : Fin n) (run : ℕ)
  | run (p : Fin n)
  | invoke (p : Fin n)
  | deliver (x : Packet n)
  | forward (p : Fin n) (msg : AtomicRegisterMessage)
  deriving DecidableEq

-- Every node handles the Init of a run at most once and runs only after all
-- nodes have handled it. The operations of `invoke_operations` are invoked one
-- by one, so that deliveries may fall between them. `none` is a step that
-- cannot happen, or a panic.
def step (cfg : Config n) (s : System n) : Action n → Option (System n)
  | .init p run =>
    if (p,run) ∈ s.inits then none
    else
      let result := (s.nodes p).receiveInit run (rankOf p) n
      some {s.commit p p result with
        inits := s.inits ++ [(p,run)],todo := Function.update s.todo p []}
  | .run p =>
    let node := s.nodes p
    let run := node.currentRunId
    if (p,run) ∈ s.runs ∨ ∃ q, (q,run) ∉ s.inits then none
    else
      let operations := cfg.workload run p
      some {s with
        nodes := Function.update s.nodes p (node.beginOperations operations)
        todo := Function.update s.todo p operations
        runs := s.runs ++ [(p,run)]}
  | .invoke p =>
    match s.todo p with
    | [] => none
    | op :: rest =>
      ((s.nodes p).invoke op).map fun result =>
        {s.commit p p result with todo := Function.update s.todo p rest}
  | .deliver x =>
    if x ∈ s.net then
      ((s.nodes x.dst).receiveNetwork x.msg).map fun result =>
        {s with net := s.net.erase x}.commit x.dst x.src result
    else none
  | .forward p msg =>
    if (p,msg) ∈ s.requests then
      some {s with requests := s.requests.erase (p,msg),net := s.net + packets p msg}
    else none

def writeSent (p : Fin n) (run key : ℕ) : Fin n × ℕ × Effect → Bool
  | (p',run',.bcast (.write w)) => p' = p ∧ run' = run ∧ w.key = key
  | _ => false

-- The events of one key in one run.
def eventOf (run key : ℕ) : Fin n × ℕ × Effect → Option (Event n)
  | (p,run',.stamp event) =>
    if run' = run ∧ event.key = key then
      match event.operation with
      | .readInvokation => some (.invoked p .read)
      | .writeInvokation => some (.invoked p .write)
      | .readResponse => some (.answered p .read (event.value.getD 0))
      | .writeResponse => some (.answered p .write (event.value.getD 0))
    else none
  | _ => none

def isAnswer (p : Fin n) : Event n → Bool
  | .answered p' _ _ => p' = p
  | _ => false

namespace System
variable (s : System n)

def events (run key : ℕ) : List (Event n) := s.trace.filterMap (eventOf run key)

def history (run key : ℕ) : Histories.History (Fin n) ℕ := (s.events run key).map toHistory

def answered (p : Fin n) (run key : ℕ) : Bool := (s.events run key).any (isAnswer p)

-- The operation has broadcast its Write and has not responded.
def imposing (p : Fin n) (run key : ℕ) : Bool :=
  s.trace.any (writeSent p run key) && !s.answered p run key

end System

-- The guard at a Value that its receiver takes into account.
def Allowed (guard : Guard) (s : System n) : Action n → Prop
  | .deliver ⟨_,p,.value v⟩ =>
    match (s.nodes p).registerState v.key,(s.nodes p).registerReadlist v.key with
    | some reg,some list => v.runId = (s.nodes p).currentRunId → v.rid = reg.rid →
        guard n reg list v (s.imposing p v.runId v.key)
    | _,_ => True
  | _ => True

inductive Reached (cfg : Config n) (guard : Guard) : System n → Prop where
  | initial : Reached cfg guard (.initial cfg)
  | step : Reached cfg guard s → Allowed guard s action → step cfg s action = some next →
      Reached cfg guard next

section Run
variable (cfg : Config n) (guard : Guard) [∀ n reg list v b, Decidable (guard n reg list v b)]

instance (s : System n) (action : Action n) : Decidable (Allowed guard s action) := by
  unfold Allowed
  split
  · split <;> infer_instance
  · infer_instance

def execute (s : System n) : List (Action n) → Option (System n)
  | [] => some s
  | action :: rest =>
    if Allowed guard s action then (step cfg s action).bind (execute · rest) else none

variable {cfg guard}

theorem execute_reached (path : Reached cfg guard s) (done : execute cfg guard s actions = some next) :
    Reached cfg guard next := by
  induction actions generalizing s with
  | nil =>
    cases done
    exact path
  | cons action rest ih =>
    unfold execute at done
    split at done
    · rename_i allowed
      obtain ⟨middle,moved,more⟩ := Option.bind_eq_some_iff.mp done
      exact ih (path.step allowed moved) more
    · cases done

end Run

end KompicsBenches.RegisterSystem
