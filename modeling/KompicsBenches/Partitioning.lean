import KompicsBenches.GuardedRuns
import KompicsBenches.Stages

namespace KompicsBenches.Partitioning

open GuardedRuns Stages

-- A node is named by its place in `nodes`: the master's own node comes first, those
-- of its `m` clients follow.
structure Init (m : ℕ) where
  pid : ℕ
  initId : ℕ
  nodes : List (Fin (m + 1))
  initData : Option (List UInt8)
  deriving DecidableEq

inductive PartitioningActorMsg (m : ℕ) (τ : Type) where
  | init (i : Init m)
  | initAck (initId : ℕ)
  | run
  | done
  | testDone (timestamps : List τ)
  deriving DecidableEq

inductive IterationControlMsg where
  | prepare (initData : Option (List UInt8))
  | run
  deriving DecidableEq

-- A partitioning actor is named by its iteration.
inductive Letter (m : ℕ) (τ : Type) where
  | toNode (p : Fin (m + 1)) (sender : ℕ) (msg : PartitioningActorMsg m τ)
  | toActor (actor : ℕ) (msg : PartitioningActorMsg m τ)
  deriving DecidableEq

-- The latches and the promise are shared with the thread that waits for them.
-- `fulfilled` is what it gets from the promise.
structure PartitioningActor (m : ℕ) (τ : Type) where
  prepareLatch : ℕ
  finishedLatch : Option ℕ
  initId : ℕ
  n : ℕ
  nodes : List (Fin (m + 1))
  initAckCount : ℕ
  doneCount : ℕ
  testPromise : Option Unit
  testResults : List τ
  fulfilled : Option (List τ)

-- What is left of a node here: what an `Init` sets and whether the operations of its
-- run are still going on.
structure Node (τ : Type) where
  currentRunId : ℕ
  rank : ℕ
  n : ℕ
  master : Option ℕ
  busy : Bool
  recorded : List τ

section Handlers
variable {m : ℕ} {τ : Type}

def decrement (latch : ℕ) : Option ℕ := if latch = 0 then none else some (latch - 1)

namespace PartitioningActor

def create (prepareLatch : ℕ) (finishedLatch : Option ℕ) (initId : ℕ) (nodes : List (Fin (m + 1)))
    (testPromise : Option Unit) : PartitioningActor m τ :=
  ⟨prepareLatch,finishedLatch,initId,0,nodes,0,0,testPromise,[],none⟩

variable (actor : PartitioningActor m τ)

def receiveLocal : IterationControlMsg → PartitioningActor m τ × List (Letter m τ)
  | .prepare initData =>
    let init (r : ℕ) : Init m := ⟨r + 1,actor.initId,actor.nodes,initData⟩
    ({ actor with n := actor.nodes.length },
      actor.nodes.zipIdx.map fun ranked => .toNode ranked.1 actor.initId (.init (init ranked.2)))
  | .run => (actor,actor.nodes.map fun node => .toNode node actor.initId .run)

-- `none` is a panic.
def receiveNetwork : PartitioningActorMsg m τ → Option (PartitioningActor m τ)
  | .initAck _ => do
    let actor := { actor with initAckCount := actor.initAckCount + 1 }
    if actor.initAckCount = actor.n then
      let latch ← decrement actor.prepareLatch
      some { actor with prepareLatch := latch }
    else some actor
  | .done => do
    let actor := { actor with doneCount := actor.doneCount + 1 }
    if actor.doneCount = actor.n then
      let latch ← actor.finishedLatch
      let latch ← decrement latch
      some { actor with finishedLatch := some latch }
    else some actor
  | .testDone td => do
    let actor := { actor with doneCount := actor.doneCount + 1, testResults := actor.testResults ++ td }
    if actor.doneCount = actor.n then
      let _ ← actor.testPromise
      some { actor with testPromise := none, fulfilled := some actor.testResults }
    else some actor
  -- "Got unexpected msg"
  | .init _ | .run => some actor

end PartitioningActor

namespace Node
variable (node : Node τ)

def fresh : Node τ := ⟨0,0,0,none,false,[]⟩

def receiveNetwork (sender : ℕ) : PartitioningActorMsg m τ → Node τ × List (Letter m τ)
  | .init i =>
    let node := { node with currentRunId := i.initId, n := i.nodes.length, rank := i.pid, master := some sender }
    (node,[.toActor sender (.initAck node.currentRunId)])
  | .run => ({ node with busy := true },[])
  -- "Got unexpected message PartitioningActorMsg"
  | .initAck _ | .done | .testDone _ => (node,[])

-- All operations have responded. `none` is a panic.
def sendDone (testing : Bool) (timestamps : List τ) : Option (Node τ × List (Letter m τ)) := do
  let master ← node.master
  let msg := if testing then .testDone timestamps else .done
  some ({ node with busy := false, recorded := timestamps },[.toActor master msg])

end Node

end Handlers

-- Where the main thread of the master is. It waits for a latch or a promise while it
-- is preparing or running.
inductive Phase where
  | idle
  | preparing
  | running
  deriving DecidableEq

-- `initId` counts the iterations that were prepared.
structure System (m : ℕ) (τ : Type) where
  initId : ℕ
  phase : Phase
  actor : Option (PartitioningActor m τ)
  control : List IterationControlMsg
  nodes : Fin (m + 1) → Node τ
  net : Multiset (Letter m τ)
  panicked : Bool

inductive Event (m : ℕ) (τ : Type) where
  | prepareIteration
  | runIteration
  | cleanupIteration
  | handle
  | deliver (letter : Letter m τ)
  | complete (p : Fin (m + 1)) (timestamps : List τ)

namespace System
variable {m : ℕ} {τ : Type} [DecidableEq τ]

def start : System m τ := ⟨0,.idle,none,[],fun _ => .fresh,0,false⟩

def prepared (actor : PartitioningActor m τ) : Bool := actor.prepareLatch = 0

-- finished_latch.wait(), or the future of the promise in a test
def finished (actor : PartitioningActor m τ) : Bool := actor.finishedLatch = some 0 || actor.fulfilled.isSome

variable (testing : Bool) (initData : Option (List UInt8)) (s : System m τ)

-- The node of the master is created anew, the others stay.
def prepareIteration : System m τ :=
  let actor : PartitioningActor m τ := .create 1 (if testing then none else some 1) s.initId (List.finRange (m + 1))
    (if testing then some () else none)
  { s with
    initId := s.initId + 1
    phase := .preparing
    actor := some actor
    control := [.prepare initData]
    nodes := Function.update s.nodes 0 .fresh }

def deliver : Letter m τ → System m τ
  | .toNode p sender msg =>
    let (node,sent) := (s.nodes p).receiveNetwork sender msg
    { s with nodes := Function.update s.nodes p node, net := s.net + (sent : Multiset (Letter m τ)) }
  | .toActor iteration msg =>
    match s.actor with
    | some actor =>
      if actor.initId = iteration then
        match actor.receiveNetwork msg with
        | some actor => { s with actor := some actor }
        | none => { s with panicked := true }
      else s
    | none => s

def step : Event m τ → Option (System m τ)
  | .prepareIteration => if s.phase = .idle then some (s.prepareIteration testing initData) else none
  | .runIteration =>
    if s.phase = .preparing ∧ s.actor.any prepared then
      some { s with phase := .running, control := s.control ++ [.run] }
    else none
  | .cleanupIteration =>
    if s.phase = .running ∧ s.actor.any finished then
      some { s with phase := .idle, actor := none, control := [] }
    else none
  | .handle =>
    match s.actor,s.control with
    | some actor,msg :: rest =>
      let (actor,sent) := actor.receiveLocal msg
      some { s with actor := some actor, control := rest, net := s.net + (sent : Multiset (Letter m τ)) }
    | _,_ => none
  | .deliver letter =>
    if letter ∈ s.net then some ({ s with net := s.net.erase letter }.deliver letter) else none
  | .complete p timestamps =>
    if (s.nodes p).busy then
      match ((s.nodes p).sendDone testing timestamps : Option (Node τ × List (Letter m τ))) with
      | some (node,sent) =>
        some { s with nodes := Function.update s.nodes p node, net := s.net + (sent : Multiset (Letter m τ)) }
      | none => some { s with panicked := true }
    else none

end System

variable {m : ℕ} {τ : Type}

-- The way of one node through an iteration.
inductive Stage (τ : Type) where
  | idle
  | asked
  | acked
  | ready
  | told
  | busy
  | reported (timestamps : List τ)
  | finished (timestamps : List τ)

namespace Stage

def prepares : Stage τ → Prop
  | .asked | .acked | .ready => True
  | _ => False

def runs : Stage τ → Prop
  | .told | .busy | .reported _ | .finished _ => True
  | _ => False

def acknowledged : Stage τ → Bool
  | .ready => true
  | _ => false

def ended : Stage τ → Bool
  | .finished _ => true
  | _ => false

def results : Stage τ → Multiset τ
  | .finished timestamps => timestamps
  | _ => 0

-- The steps of an iteration that the node has behind it.
def steps : Stage τ → ℕ
  | .idle | .asked => 0
  | .acked => 1
  | .ready | .told => 2
  | .busy => 3
  | .reported _ => 4
  | .finished _ => 5

end Stage

section Course
variable (testing : Bool) (initData : Option (List UInt8)) (k : ℕ)

def letters (p : Fin (m + 1)) : Stage τ → Multiset (Letter m τ)
  | .asked => {.toNode p k (.init ⟨p + 1,k,List.finRange (m + 1),initData⟩)}
  | .acked => {.toActor k (.initAck k)}
  | .told => {.toNode p k .run}
  | .reported timestamps => {.toActor k (if testing then .testDone timestamps else .done)}
  | _ => 0

-- A node that has handled the `Init` of iteration `k`.
structure Ready (p : Fin (m + 1)) (node : Node τ) : Prop where
  currentRunId : node.currentRunId = k
  rank : node.rank = p + 1
  n : node.n = m + 1
  master : node.master = some k

def At (p : Fin (m + 1)) (node : Node τ) : Stage τ → Prop
  | .idle | .asked => node.busy = false
  | .acked | .ready | .told => Ready k p node ∧ node.busy = false
  | .busy => Ready k p node ∧ node.busy = true
  | .reported timestamps | .finished timestamps => Ready k p node ∧ node.busy = false ∧ node.recorded = timestamps

def created : PartitioningActor m τ :=
  .create 1 (if testing then none else some 1) k (List.finRange (m + 1)) (if testing then some () else none)

def preparing (acks : ℕ) : PartitioningActor m τ :=
  { (created testing k : PartitioningActor m τ) with
    n := m + 1
    initAckCount := acks
    prepareLatch := if acks = m + 1 then 0 else 1 }

def running (dones : ℕ) (results : List τ) : PartitioningActor m τ :=
  { (preparing testing k (m + 1) : PartitioningActor m τ) with
    doneCount := dones
    testResults := results
    finishedLatch := if testing then none else some (if dones = m + 1 then 0 else 1)
    testPromise := if testing ∧ dones ≠ m + 1 then some () else none
    fulfilled := if testing ∧ dones = m + 1 then some results else none }

def period (m : ℕ) : ℕ := 5 * (m + 1) + 5

def stepsOf (stage : Fin (m + 1) → Stage τ) : ℕ := counted (fun _ => Stage.steps) stage

-- Where an iteration is, after `elapsed` steps since the first one.
inductive Progress (stage : Fin (m + 1) → Stage τ) : ℕ → System m τ → Prop where
  | idle : (∀ p, stage p = .idle) → Progress stage (k * period m) ⟨k,.idle,none,[],nodes,net,false⟩
  | created : (∀ p, stage p = .idle) → Progress stage (k * period m + 1)
      ⟨k + 1,.preparing,some (created testing k),[.prepare initData],nodes,net,false⟩
  | preparing : (∀ p, (stage p).prepares) → Progress stage (k * period m + 2 + stepsOf stage)
      ⟨k + 1,.preparing,some (preparing testing k (number (·.acknowledged) stage)),[],nodes,net,false⟩
  | prepared : (∀ p, stage p = .ready) → Progress stage (k * period m + 3 + stepsOf stage)
      ⟨k + 1,.running,some (preparing testing k (m + 1)),[.run],nodes,net,false⟩
  | running (results : List τ) : (∀ p, (stage p).runs) → (testing = true → results = counted (fun _ => Stage.results) stage) →
      Progress stage (k * period m + 4 + stepsOf stage)
        ⟨k + 1,.running,some (running testing k (number (·.ended) stage) results),[],nodes,net,false⟩

structure Course (stage : Fin (m + 1) → Stage τ) (elapsed : ℕ) (s : System m τ) : Prop where
  progress : Progress testing initData k stage elapsed s
  net : s.net = inFlight (letters testing initData k) stage
  nodes : ∀ p, At k p (s.nodes p) (stage p)

end Course

section Moves
variable {testing : Bool} {initData : Option (List UInt8)} {k elapsed : ℕ} {stage : Fin (m + 1) → Stage τ}
  {p : Fin (m + 1)} {new : Stage τ} {s : System m τ} {x : Letter m τ}

theorem stepsOf_update (new : Stage τ) (before : stage p = old) (one : new.steps = old.steps + 1) :
    stepsOf (Function.update stage p new) = stepsOf stage + 1 := by
  have moved := counted_update (fun _ => Stage.steps) stage p new
  rw [before,one] at moved
  unfold stepsOf
  omega

theorem forall_update (new : Stage τ) {holds : Stage τ → Prop} (all : ∀ q, holds (stage q)) (this : holds new) :
    ∀ q, holds (Function.update stage p new q) := by
  intro q
  by_cases same : q = p
  · subst same
    rwa [Function.update_self]
  · rw [Function.update_of_ne same]
    exact all q

theorem at_update {nodes : Fin (m + 1) → Node τ} {node : Node τ} (others : ∀ q, At k q (nodes q) (stage q))
    (this : At k p node new) : ∀ q, At k q (Function.update nodes p node q) (Function.update stage p new q) := by
  intro q
  by_cases same : q = p
  · subst same
    simpa using this
  · simpa [Function.update_of_ne same] using others q

theorem at_moved {nodes : Fin (m + 1) → Node τ} (others : ∀ q, At k q (nodes q) (stage q))
    (this : At k p (nodes p) new) : ∀ q, At k q (nodes q) (Function.update stage p new q) := by
  have still := at_update others this
  rwa [Function.update_eq_self] at still

theorem mem_letters (inside : x ∈ letters testing initData k p (stage p)) :
    (stage p = .asked ∧ x = .toNode p k (.init ⟨p + 1,k,List.finRange (m + 1),initData⟩)) ∨
    (stage p = .acked ∧ x = .toActor k (.initAck k)) ∨ (stage p = .told ∧ x = .toNode p k .run) ∨
    ∃ timestamps, stage p = .reported timestamps ∧
      x = .toActor k (if testing then .testDone timestamps else .done) := by
  cases here : stage p with
  | asked => exact .inl ⟨rfl,by simpa [here,letters] using inside⟩
  | acked => exact .inr (.inl ⟨rfl,by simpa [here,letters] using inside⟩)
  | told => exact .inr (.inr (.inl ⟨rfl,by simpa [here,letters] using inside⟩))
  | reported timestamps => exact .inr (.inr (.inr ⟨timestamps,rfl,by simpa [here,letters] using inside⟩))
  | _ => simp [here,letters] at inside

-- A node handles a letter, or ends its run, and the others stay where they are.
theorem Progress.node (progress : Progress testing initData k stage elapsed s) (new : Stage τ) (before : stage p = old)
    (one : new.steps = old.steps + 1) (prepares : new.prepares ↔ old.prepares) (runs : new.runs ↔ old.runs)
    (active : old.prepares ∨ old.runs) (acknowledged : new.acknowledged = old.acknowledged)
    (ended : new.ended = old.ended) (results : new.results = old.results)
    (nodes : Fin (m + 1) → Node τ) (net : Multiset (Letter m τ)) :
    Progress testing initData k (Function.update stage p new) (elapsed + 1) { s with nodes := nodes, net := net } := by
  have steps := stepsOf_update new before one
  have acks : number (fun at_stage => at_stage.acknowledged) (Function.update stage p new) =
      number (fun at_stage => at_stage.acknowledged) stage := number_same (by rw [before,acknowledged])
  have dones : number (fun at_stage => at_stage.ended) (Function.update stage p new) =
      number (fun at_stage => at_stage.ended) stage := number_same (by rw [before,ended])
  have all : counted (fun _ => Stage.results) (Function.update stage p new) = counted (fun _ => Stage.results) stage := by
    have moved := counted_update (fun _ => Stage.results) stage p new
    rw [before,results] at moved
    exact add_right_cancel moved
  cases progress with
  | idle resting | created resting =>
    rw [resting p] at before
    subst before
    rcases active with none_yet | none_yet <;> cases none_yet
  | preparing asking =>
    have still : new.prepares := prepares.mpr (before ▸ asking p)
    rw [← acks,add_assoc,← steps]
    exact .preparing (forall_update new asking still)
  | prepared resting =>
    rw [resting p] at before
    subst before
    cases new <;> simp [Stage.steps,Stage.prepares] at one prepares
  | running gathered working same =>
    have still : new.runs := runs.mpr (before ▸ working p)
    rw [← dones,add_assoc,← steps]
    exact .running gathered (forall_update new working still) (fun test => (same test).trans all.symm)

theorem Course.initialised [DecidableEq τ] (course : Course testing initData k stage elapsed s)
    (here : stage p = .asked) :
    Course testing initData k (Function.update stage p .acked) (elapsed + 1)
      (System.deliver { s with net := s.net.erase (.toNode p k (.init ⟨p + 1,k,List.finRange (m + 1),initData⟩)) }
        (.toNode p k (.init ⟨p + 1,k,List.finRange (m + 1),initData⟩))) := by
  have calm : (s.nodes p).busy = false := by
    have before := course.nodes p
    rw [here] at before
    exact before
  have only : letters testing initData k p (stage p) =
      {.toNode p k (.init ⟨p + 1,k,List.finRange (m + 1),initData⟩)} := by rw [here]; rfl
  refine ⟨course.progress.node .acked here rfl Iff.rfl Iff.rfl (.inl trivial) rfl rfl rfl _ _,?_,?_⟩
  · simp only [System.deliver,Node.receiveNetwork,course.net]
    exact inFlight_move .acked only
  · exact at_update course.nodes ⟨⟨rfl,rfl,by simp,rfl⟩,calm⟩

theorem Course.started [DecidableEq τ] (course : Course testing initData k stage elapsed s)
    (here : stage p = .told) :
    Course testing initData k (Function.update stage p .busy) (elapsed + 1)
      (System.deliver { s with net := s.net.erase (.toNode p k .run) } (.toNode p k .run)) := by
  have before := course.nodes p
  rw [here] at before
  have only : letters testing initData k p (stage p) = {.toNode p k .run} := by rw [here]; rfl
  refine ⟨course.progress.node .busy here rfl Iff.rfl Iff.rfl (.inr trivial) rfl rfl rfl _ _,?_,?_⟩
  · simp only [System.deliver,Node.receiveNetwork,course.net]
    exact inFlight_move .busy only
  · exact at_update course.nodes ⟨⟨before.1.currentRunId,before.1.rank,before.1.n,before.1.master⟩,rfl⟩

theorem Course.completed (course : Course testing initData k stage elapsed s) (timestamps : List τ)
    (active : (s.nodes p).busy = true) : stage p = .busy ∧ ∃ node : Node τ,
    (s.nodes p).sendDone testing timestamps =
      some (node,[(.toActor k (if testing then .testDone timestamps else .done) : Letter m τ)]) ∧
    Course testing initData k (Function.update stage p (.reported timestamps)) (elapsed + 1) { s with
      nodes := Function.update s.nodes p node
      net := s.net + {.toActor k (if testing then .testDone timestamps else .done)} } := by
  have before := course.nodes p
  have here : stage p = .busy := by
    cases at_stage : stage p <;> simp_all [At]
  rw [here] at before
  have silent : letters testing initData k p (stage p) = 0 := by rw [here]; rfl
  refine ⟨here,{ s.nodes p with busy := false, recorded := timestamps },?_,?_,?_,?_⟩
  · simp [Node.sendDone,before.1.master]
  · exact course.progress.node (.reported timestamps) here rfl Iff.rfl Iff.rfl (.inr trivial) rfl rfl rfl _ _
  · rw [course.net]
    exact inFlight_start (.reported timestamps) silent
  · exact at_update course.nodes
      ⟨⟨before.1.currentRunId,before.1.rank,before.1.n,before.1.master⟩,rfl,rfl⟩

theorem receive_ack {acks : ℕ} (few : acks < m + 1) (id : ℕ) :
    (preparing testing k acks : PartitioningActor m τ).receiveNetwork (.initAck id) = some (preparing testing k (acks + 1)) := by
  have up : acks ≠ m + 1 := by omega
  by_cases last : acks = m <;> simp [PartitioningActor.receiveNetwork,preparing,decrement,last,up]

theorem receive_done {dones : ℕ} (few : dones < m + 1) (results timestamps : List τ) :
    (running testing k dones results : PartitioningActor m τ).receiveNetwork
      (if testing then .testDone timestamps else .done) =
        some (running testing k (dones + 1) (if testing then results ++ timestamps else results)) := by
  have up : dones ≠ m + 1 := by omega
  cases testing <;> by_cases last : dones = m <;>
    simp [PartitioningActor.receiveNetwork,running,preparing,decrement,last,up]

@[simp]
theorem preparing_initId {acks : ℕ} : (preparing testing k acks : PartitioningActor m τ).initId = k := rfl

@[simp]
theorem running_initId {dones : ℕ} {results : List τ} :
    (running testing k dones results : PartitioningActor m τ).initId = k := rfl

theorem Course.gathered [DecidableEq τ] (course : Course testing initData k stage elapsed s) (here : stage p = .acked) :
    Course testing initData k (Function.update stage p .ready) (elapsed + 1)
      (System.deliver { s with net := s.net.erase (.toActor k (.initAck k)) } (.toActor k (.initAck k))) := by
  obtain ⟨progress,net,nodes⟩ := course
  have only : letters testing initData k p (stage p) = {.toActor k (.initAck k)} := by rw [here]; rfl
  have moved := inFlight_move .ready only
  have before := nodes p
  rw [here] at before
  cases progress with
  | idle resting | created resting | prepared resting =>
    rw [resting p] at here
    cases here
  | running results working =>
    have wrong := working p
    rw [here] at wrong
    cases wrong
  | preparing asking =>
    have up : number (fun at_stage => at_stage.acknowledged) (Function.update stage p .ready) =
        number (fun at_stage => at_stage.acknowledged) stage + 1 := number_up (by simp [here,Stage.acknowledged]) rfl
    have few : number (fun at_stage => at_stage.acknowledged) (Function.update stage p .ready) ≤ m + 1 :=
      number_le.trans (by simp)
    rw [up] at few
    simp only [System.deliver,preparing_initId,if_true,receive_ack few k]
    refine ⟨?_,?_,at_moved nodes before⟩
    · rw [← up,add_assoc,← stepsOf_update .ready here rfl]
      exact .preparing (forall_update .ready asking trivial)
    · simp only at net ⊢
      rw [net,← moved]
      exact (add_zero _).symm

theorem Course.ended [DecidableEq τ] (course : Course testing initData k stage elapsed s) {timestamps : List τ}
    (here : stage p = .reported timestamps) :
    Course testing initData k (Function.update stage p (.finished timestamps)) (elapsed + 1)
      (System.deliver { s with net := s.net.erase (.toActor k (if testing then .testDone timestamps else .done)) }
        (.toActor k (if testing then .testDone timestamps else .done))) := by
  obtain ⟨progress,net,nodes⟩ := course
  have only : letters testing initData k p (stage p) =
      {.toActor k (if testing then .testDone timestamps else .done)} := by rw [here]; rfl
  have moved := inFlight_move (.finished timestamps) only
  have before := nodes p
  rw [here] at before
  cases progress with
  | idle resting | created resting | prepared resting =>
    rw [resting p] at here
    cases here
  | preparing asking =>
    have wrong := asking p
    rw [here] at wrong
    cases wrong
  | running results working same =>
    have up : number (fun at_stage => at_stage.ended) (Function.update stage p (.finished timestamps)) =
        number (fun at_stage => at_stage.ended) stage + 1 := number_up (by simp [here,Stage.ended]) rfl
    have few : number (fun at_stage => at_stage.ended) (Function.update stage p (.finished timestamps)) ≤ m + 1 :=
      number_le.trans (by simp)
    have all : counted (fun _ => Stage.results) (Function.update stage p (.finished timestamps)) + 0 =
        counted (fun _ => Stage.results) stage + timestamps := by
      have added := counted_update (fun _ => Stage.results) stage p (.finished timestamps)
      rwa [here] at added
    rw [up] at few
    simp only [System.deliver,running_initId,if_true,receive_done few results timestamps]
    refine ⟨?_,?_,at_moved nodes before⟩
    · rw [← up,add_assoc,← stepsOf_update (.finished timestamps) here rfl]
      apply Progress.running _ (forall_update (.finished timestamps) working trivial)
      intro test
      rw [add_zero] at all
      rw [if_pos test,all,← same test,Multiset.coe_add]
    · simp only at net ⊢
      rw [net,← moved]
      exact (add_zero _).symm

theorem zipIdx_finRange (n : ℕ) : (List.finRange n).zipIdx = (List.finRange n).map fun p => (p,p.val) := by
  apply List.ext_getElem
  · simp
  · intro i _ _
    simp

theorem coe_finRange (f : Fin n → L) : ((List.finRange n).map f : Multiset L) = ∑ p, {f p} :=
  (Multiset.sum_map_singleton ((Finset.univ : Finset (Fin n)).val.map f)).symm.trans
    (by rw [Multiset.map_map]; rfl)

theorem receive_prepare : (created testing k : PartitioningActor m τ).receiveLocal (.prepare initData) =
    (preparing testing k 0,(List.finRange (m + 1)).map fun p =>
      .toNode p k (.init ⟨p + 1,k,List.finRange (m + 1),initData⟩)) := by
  simp [PartitioningActor.receiveLocal,preparing,created,PartitioningActor.create,zipIdx_finRange]

theorem receive_run : (preparing testing k (m + 1) : PartitioningActor m τ).receiveLocal .run =
    (running testing k 0 [],(List.finRange (m + 1)).map fun p => .toNode p k .run) := by
  cases testing <;> simp [PartitioningActor.receiveLocal,running,preparing,created,PartitioningActor.create]

theorem progress_asked (nodes : Fin (m + 1) → Node τ) (net : Multiset (Letter m τ)) :
    Progress testing initData k (fun _ => .asked) (k * period m + 2)
      ⟨k + 1,.preparing,some (preparing testing k 0),[],nodes,net,false⟩ := by
  have none_yet : number (fun at_stage => at_stage.acknowledged) (fun _ : Fin (m + 1) => (.asked : Stage τ)) = 0 :=
    number_none (by simp [Stage.acknowledged])
  have zero : stepsOf (fun _ : Fin (m + 1) => (.asked : Stage τ)) = 0 := by simp [stepsOf,counted,Stage.steps]
  have asking : ∀ p, ((fun _ : Fin (m + 1) => (.asked : Stage τ)) p).prepares := fun _ => trivial
  have start : Progress testing initData k _ _ ⟨k + 1,.preparing,_,[],nodes,net,false⟩ := .preparing asking
  rwa [none_yet,zero] at start

theorem progress_told (nodes : Fin (m + 1) → Node τ) (net : Multiset (Letter m τ)) :
    Progress testing initData k (fun _ => .told) (k * period m + 4 + 2 * (m + 1))
      ⟨k + 1,.running,some (running testing k 0 []),[],nodes,net,false⟩ := by
  have none_yet : number (fun at_stage => at_stage.ended) (fun _ : Fin (m + 1) => (.told : Stage τ)) = 0 :=
    number_none (by simp [Stage.ended])
  have two : stepsOf (fun _ : Fin (m + 1) => (.told : Stage τ)) = 2 * (m + 1) := by
    simp [stepsOf,counted,Stage.steps,Nat.mul_comm]
  have working : ∀ p, ((fun _ : Fin (m + 1) => (.told : Stage τ)) p).runs := fun _ => trivial
  have nothing : testing = true → (([] : List τ) : Multiset τ) =
      counted (fun _ => Stage.results) (fun _ : Fin (m + 1) => (.told : Stage τ)) := by
    intro _
    simp [counted,Stage.results]
  have start : Progress testing initData k _ _ ⟨k + 1,.running,_,[],nodes,net,false⟩ := .running [] working nothing
  rwa [none_yet,two] at start

theorem Course.handled [DecidableEq τ] (course : Course testing initData k stage elapsed s)
    (done : s.step testing initData .handle = some next) :
    ∃ stage, Course testing initData k stage (elapsed + 1) next := by
  obtain ⟨progress,net,nodes⟩ := course
  cases progress with
  | idle resting | preparing asking | running results working => cases done
  | created resting =>
    simp only [System.step,receive_prepare,Option.some.injEq] at done
    subst done
    have silent : inFlight (letters testing initData k) stage = 0 := inFlight_zero fun p => by rw [resting p]; rfl
    refine ⟨fun _ => .asked,progress_asked _ _,?_,?_⟩
    · simp only at net ⊢
      rw [net,silent,zero_add,coe_finRange]
      rfl
    · intro p
      have before := nodes p
      rw [resting p] at before
      exact before
  | prepared resting =>
    simp only [System.step,receive_run,Option.some.injEq] at done
    subst done
    have silent : inFlight (letters testing initData k) stage = 0 := inFlight_zero fun p => by rw [resting p]; rfl
    have two : stepsOf stage = 2 * (m + 1) := by
      simp [stepsOf,counted,resting,Stage.steps,Nat.mul_comm]
    rw [two,show k * period m + 3 + 2 * (m + 1) + 1 = k * period m + 4 + 2 * (m + 1) by omega]
    refine ⟨fun _ => .told,progress_told _ _,?_,?_⟩
    · simp only at net ⊢
      rw [net,silent,zero_add,coe_finRange]
      rfl
    · intro p
      have before := nodes p
      rw [resting p] at before
      exact before

theorem Course.prepareIteration [DecidableEq τ] (course : Course testing initData k stage elapsed s)
    (resting : s.phase = .idle) :
    Course testing initData k stage (elapsed + 1) (s.prepareIteration testing initData) := by
  obtain ⟨progress,net,nodes⟩ := course
  cases progress with
  | created _ | preparing _ | prepared _ | running _ _ => cases resting
  | idle idle =>
    refine ⟨.created idle,net,?_⟩
    intro p
    rw [idle p]
    by_cases same : p = 0
    · subst same
      simp [System.prepareIteration,At,Node.fresh]
    · have before := nodes p
      rw [idle p] at before
      simpa [System.prepareIteration,Function.update_of_ne same] using before

theorem all_ready (all : number (fun at_stage => at_stage.acknowledged) stage = m + 1) (p : Fin (m + 1)) : stage p = .ready := by
  have acknowledged := number_all.mp (all.trans (Fintype.card_fin (m + 1)).symm) p
  cases here : stage p <;> simp_all [Stage.acknowledged]

theorem all_finished (all : number (fun at_stage => at_stage.ended) stage = m + 1) (p : Fin (m + 1)) :
    ∃ timestamps, stage p = .finished timestamps := by
  have ended := number_all.mp (all.trans (Fintype.card_fin (m + 1)).symm) p
  cases here : stage p <;> simp_all [Stage.ended]

theorem prepared_iff {acks : ℕ} : System.prepared (preparing testing k acks : PartitioningActor m τ) = true ↔
    acks = m + 1 := by
  simp [System.prepared,preparing]

theorem finished_iff {dones : ℕ} {results : List τ} :
    System.finished (running testing k dones results : PartitioningActor m τ) = true ↔ dones = m + 1 := by
  cases testing <;> simp [System.finished,running]

theorem Course.runIteration [DecidableEq τ] (course : Course testing initData k stage elapsed s)
    (done : s.step testing initData .runIteration = some next) : Course testing initData k stage (elapsed + 1) next := by
  obtain ⟨progress,net,nodes⟩ := course
  simp only [System.step,Option.ite_none_right_eq_some,Option.some.injEq] at done
  obtain ⟨⟨waiting,latched⟩,rfl⟩ := done
  cases progress with
  | idle _ | prepared _ | running _ _ => cases waiting
  | created idle => simp [System.prepared,created,PartitioningActor.create] at latched
  | preparing asking =>
    have all := prepared_iff.mp latched
    have ready := all_ready all
    refine ⟨?_,net,nodes⟩
    rw [all,show k * period m + 2 + stepsOf stage + 1 = k * period m + 3 + stepsOf stage by omega]
    exact .prepared ready

theorem Course.cleanupIteration [DecidableEq τ] (course : Course testing initData k stage elapsed s)
    (done : s.step testing initData .cleanupIteration = some next) :
    Course testing initData (k + 1) (fun _ => .idle) (elapsed + 1) next := by
  obtain ⟨progress,net,nodes⟩ := course
  simp only [System.step,Option.ite_none_right_eq_some,Option.some.injEq] at done
  obtain ⟨⟨waiting,latched⟩,rfl⟩ := done
  cases progress with
  | idle _ | created _ | preparing _ => cases waiting
  | prepared ready =>
    cases testing <;> simp [System.finished,preparing,created,PartitioningActor.create] at latched
  | running results working =>
    have ended := all_finished (finished_iff.mp latched)
    have five : stepsOf stage = 5 * (m + 1) := by
      have each : ∀ p, (stage p).steps = 5 := by
        intro p
        obtain ⟨timestamps,here⟩ := ended p
        rw [here]
        rfl
      simp [stepsOf,counted,each,Nat.mul_comm]
    have silent : ∀ q, letters testing initData k q (stage q) = 0 := by
      intro q
      obtain ⟨timestamps,here⟩ := ended q
      rw [here]
      rfl
    have whole : k * period m + 4 + stepsOf stage + 1 = (k + 1) * period m := by
      rw [five,Nat.add_mul,Nat.one_mul]
      unfold period
      omega
    rw [whole]
    refine ⟨.idle fun _ => rfl,?_,?_⟩
    · simp only at net ⊢
      rw [net,inFlight_zero silent]
      exact (inFlight_zero fun _ => rfl).symm
    · intro p
      obtain ⟨timestamps,here⟩ := ended p
      have before := nodes p
      rw [here] at before
      exact before.2.1

end Moves

section Runs
variable [DecidableEq τ] {testing : Bool} {initData : Option (List UInt8)} {elapsed : ℕ} {s next : System m τ}
  {k : ℕ} {stage : Fin (m + 1) → Stage τ}

theorem Course.deliver (course : Course testing initData k stage elapsed s) {letter : Letter m τ}
    (present : letter ∈ s.net) :
    ∃ stage, Course testing initData k stage (elapsed + 1) (System.deliver { s with net := s.net.erase letter } letter) := by
  rw [course.net] at present
  obtain ⟨p,inside⟩ := mem_inFlight.mp present
  rcases mem_letters inside with ⟨here,rfl⟩ | ⟨here,rfl⟩ | ⟨here,rfl⟩ | ⟨timestamps,here,rfl⟩
  · exact ⟨_,course.initialised here⟩
  · exact ⟨_,course.gathered here⟩
  · exact ⟨_,course.started here⟩
  · exact ⟨_,course.ended here⟩

theorem Course.step (course : Course testing initData k stage elapsed s) {event : Event m τ}
    (done : s.step testing initData event = some next) : ∃ k stage, Course testing initData k stage (elapsed + 1) next := by
  cases event with
  | prepareIteration =>
    simp only [System.step,Option.ite_none_right_eq_some,Option.some.injEq] at done
    obtain ⟨resting,rfl⟩ := done
    exact ⟨k,stage,course.prepareIteration resting⟩
  | runIteration => exact ⟨k,stage,course.runIteration done⟩
  | cleanupIteration => exact ⟨k + 1,_,course.cleanupIteration done⟩
  | handle => exact ⟨k,course.handled done⟩
  | deliver letter =>
    simp only [System.step,Option.ite_none_right_eq_some,Option.some.injEq] at done
    obtain ⟨present,rfl⟩ := done
    exact ⟨k,course.deliver present⟩
  | complete p timestamps =>
    simp only [System.step,Option.ite_none_right_eq_some] at done
    obtain ⟨active,sent⟩ := done
    obtain ⟨_,node,answered,further⟩ := course.completed timestamps active
    rw [answered] at sent
    cases sent
    exact ⟨k,_,further⟩

omit [DecidableEq τ] in
theorem course_start (testing : Bool) (initData : Option (List UInt8)) :
    Course testing initData 0 (fun _ => .idle) 0 (System.start : System m τ) := by
  have start : Progress testing initData 0 (fun _ : Fin (m + 1) => (.idle : Stage τ)) (0 * period m) System.start :=
    .idle (fun _ => rfl)
  rw [Nat.zero_mul] at start
  exact ⟨start,(inFlight_zero fun _ => rfl).symm,fun _ => rfl⟩

theorem run_course (path : Reached (System.step testing initData) (fun _ _ => True) System.start s) :
    ∃ elapsed k stage, Course (m := m) (τ := τ) testing initData k stage elapsed s := by
  apply path.invariant fun s => ∃ elapsed k stage, Course (m := m) (τ := τ) testing initData k stage elapsed s
  · exact ⟨0,0,_,course_start testing initData⟩
  · intro s event next course _ done
    obtain ⟨elapsed,k,stage,course⟩ := course
    exact ⟨elapsed + 1,course.step done⟩

omit [DecidableEq τ] in
theorem Course.all_ready (course : Course testing initData k stage elapsed s) (p : Fin (m + 1)) (active : (stage p).runs) :
    s.initId = k + 1 ∧ ∀ q, Ready k q (s.nodes q) := by
  obtain ⟨progress,_,nodes⟩ := course
  cases progress with
  | idle resting | created resting | prepared resting =>
    rw [resting p] at active
    cases active
  | preparing asking =>
    have wrong := asking p
    cases here : stage p <;> simp_all [Stage.runs,Stage.prepares]
  | running results working =>
    refine ⟨rfl,fun q => ?_⟩
    have here := nodes q
    have at_work := working q
    cases at_stage : stage q with
    | idle | asked | acked | ready =>
      rw [at_stage] at at_work
      cases at_work
    | told | busy | reported _ | finished _ =>
      rw [at_stage] at here
      exact here.1

omit [DecidableEq τ] in
theorem Course.busy (course : Course testing initData k stage elapsed s) {p : Fin (m + 1)}
    (active : (s.nodes p).busy = true) : (stage p).runs := by
  have before := course.nodes p
  cases here : stage p with
  | told | busy | reported _ | finished _ => trivial
  | idle | asked | acked | ready => simp_all [At]

omit [DecidableEq τ] in
theorem Course.told (course : Course testing initData k stage elapsed s) {p : Fin (m + 1)}
    (present : .toNode p sender .run ∈ s.net) : (stage p).runs := by
  rw [course.net] at present
  obtain ⟨q,inside⟩ := mem_inFlight.mp present
  rcases mem_letters inside with ⟨_,same⟩ | ⟨_,same⟩ | ⟨here,same⟩ | ⟨_,_,same⟩
  · cases same
  · cases same
  · cases same
    rw [here]
    trivial
  · cases same

omit [DecidableEq τ] in
theorem Course.resting (course : Course testing initData k stage elapsed s) (resting : s.phase = .idle) :
    s.net = 0 ∧ s.control = [] ∧ ∀ p, (s.nodes p).busy = false := by
  obtain ⟨progress,net,nodes⟩ := course
  cases progress with
  | created _ | preparing _ | prepared _ | running _ _ => cases resting
  | idle idle =>
    refine ⟨net.trans (inFlight_zero fun p => by rw [idle p]; rfl),rfl,fun p => ?_⟩
    have before := nodes p
    rw [idle p] at before
    exact before

omit [DecidableEq τ] in
theorem Course.fulfilled (course : Course testing initData k stage elapsed s) {actor : PartitioningActor m τ}
    {results : List τ} (there : s.actor = some actor) (fulfilled : actor.fulfilled = some results) :
    (results : Multiset τ) = ∑ p, ((s.nodes p).recorded : Multiset τ) ∧ ∀ p, (s.nodes p).busy = false := by
  obtain ⟨progress,_,nodes⟩ := course
  cases progress with
  | idle _ => cases there
  | created _ =>
    cases there
    cases fulfilled
  | preparing _ | prepared _ =>
    cases there
    cases fulfilled
  | running gathered working same =>
    cases there
    simp only [running] at fulfilled
    split at fulfilled
    · rename_i last
      cases fulfilled
      have ended := all_finished last.2
      rw [same last.1]
      constructor
      · apply Finset.sum_congr rfl
        intro p _
        obtain ⟨timestamps,here⟩ := ended p
        have before := nodes p
        rw [here] at before ⊢
        rw [before.2.2]
        rfl
      · intro p
        obtain ⟨timestamps,here⟩ := ended p
        have before := nodes p
        rw [here] at before
        exact before.2.1
    · cases fulfilled

-- A node of an iteration runs only after all nodes were initialised for it, and the
-- next iteration begins when nothing of the last one is left.
theorem iteration_barrier (path : Reached (System.step testing initData) (fun _ _ => True) System.start s) :
    s.panicked = false ∧
    (∀ p : Fin (m + 1), ((s.nodes p).busy = true ∨ ∃ sender, .toNode p sender .run ∈ s.net) →
      ∃ k, s.initId = k + 1 ∧ ∀ q : Fin (m + 1), (s.nodes q).currentRunId = k ∧ (s.nodes q).rank = q + 1 ∧
        (s.nodes q).n = m + 1 ∧ (s.nodes q).master = some k) ∧
    (s.phase = .idle → s.net = 0 ∧ s.control = [] ∧ ∀ p, (s.nodes p).busy = false) ∧
    (∀ actor results, s.actor = some actor → actor.fulfilled = some results →
      (results : Multiset τ) = ∑ p, ((s.nodes p).recorded : Multiset τ) ∧ ∀ p, (s.nodes p).busy = false) := by
  obtain ⟨elapsed,k,stage,course⟩ := run_course path
  refine ⟨?_,?_,course.resting,fun _ _ => course.fulfilled⟩
  · cases course.progress <;> rfl
  · intro p active
    have running : (stage p).runs := by
      rcases active with busy | ⟨sender,present⟩
      · exact course.busy busy
      · exact course.told present
    obtain ⟨same,all⟩ := course.all_ready p running
    exact ⟨k,same,fun q => ⟨(all q).currentRunId,(all q).rank,(all q).n,(all q).master⟩⟩

def testEvents : List (Event 1 ℕ) :=
  let own : Fin 2 := ⟨0,by decide⟩
  let client : Fin 2 := ⟨1,by decide⟩
  let init (p : Fin 2) : Event 1 ℕ := .deliver (.toNode p 0 (.init ⟨p.val + 1,0,[own,client],none⟩))
  let acked : Event 1 ℕ := .deliver (.toActor 0 (.initAck 0))
  [.prepareIteration,.handle,init client,acked,init own,acked,.runIteration,.handle,
    .deliver (.toNode own 0 .run),.complete own [4],.deliver (.toNode client 0 .run),
    .deliver (.toActor 0 (.testDone [4])),.complete client [5,6],.deliver (.toActor 0 (.testDone [5,6]))]

theorem iteration_barrier_two : ∃ s : System 1 ℕ, Reached (System.step true none) (fun _ _ => True) System.start s ∧
    s.actor.bind (·.fulfilled) = some [4,5,6] ∧ ([4,5,6] : Multiset ℕ) = ∑ p, ((s.nodes p).recorded : Multiset ℕ) := by
  obtain ⟨s,path,fulfilled⟩ := runs_check testEvents
    (show (runs (System.step true none) (fun _ _ => True) System.start testEvents).map
      (fun s => s.actor.bind (·.fulfilled) == some [4,5,6]) = some true by decide)
  have results := eq_of_beq fulfilled
  obtain ⟨actor,there,promised⟩ := Option.bind_eq_some_iff.mp results
  exact ⟨s,path,results,((iteration_barrier path).2.2.2 actor _ there promised).1⟩

theorem Course.deliverable (course : Course testing initData k stage elapsed s) {p : Fin (m + 1)} {letter : Letter m τ}
    (inside : letter ∈ letters testing initData k p (stage p)) :
    ∃ event, (s.step testing initData event).isSome = true := by
  have present : letter ∈ s.net := by
    rw [course.net]
    exact mem_inFlight.mpr ⟨p,inside⟩
  exact ⟨.deliver letter,by simp [System.step,present]⟩

end Runs

end KompicsBenches.Partitioning
