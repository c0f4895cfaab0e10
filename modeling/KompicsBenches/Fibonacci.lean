import KompicsBenches.GuardedRuns
import KompicsBenches.Crowd

namespace KompicsBenches.Fibonacci

open GuardedRuns Custody

inductive FibonacciMsg where
  | request (n : UInt32)
  | response (value : UInt64)
deriving DecidableEq

inductive ResultTarget where
  | latch
  | parent (parent_ref : ℕ)
deriving DecidableEq

structure FibonacciActor where
  reportTo : ResultTarget
  result : UInt64
  numResponses : UInt8
deriving DecidableEq

def responseOne : FibonacciMsg := .response 1

def FibonacciActor.withTarget (reportTo : ResultTarget) : FibonacciActor := ⟨reportTo,0,0⟩

-- The actors of one iteration and its latch. What the first actor has computed when
-- it decrements the latch is dropped by the code and kept here.
structure System where
  crowd : Crowd FibonacciActor FibonacciMsg
  latch : ℕ
  reports : List FibonacciMsg
  panicked : Bool

namespace System

def sendResult (s : System) (self : ℕ) (actor : FibonacciActor) (response : FibonacciMsg) : System :=
  match actor.reportTo with
  | .parent parent_ref => { s with crowd := (s.crowd.send {(parent_ref,response)}).stop self }
  | .latch =>
    -- expect("Should decrement!")
    if s.latch = 0 then { s with panicked := true }
    else { s with crowd := s.crowd.stop self, latch := s.latch - 1, reports := s.reports ++ [response] }

def createAndTell (s : System) (self : ℕ) (n : UInt32) : System :=
  { s with
    crowd := (s.crowd.spawn (.withTarget (.parent self))).send {(s.crowd.actors.length,.request n)} }

def receiveLocal (s : System) (self : ℕ) (actor : FibonacciActor) : FibonacciMsg → System
  | .request n =>
    if n ≤ 2 then s.sendResult self actor responseOne
    else (s.createAndTell self (n - 1)).createAndTell self (n - 2)
  | .response value =>
    let actor := { actor with numResponses := actor.numResponses + 1, result := actor.result + value }
    let s := { s with crowd := s.crowd.become self actor }
    if actor.numResponses = 2 then s.sendResult self actor (.response actor.result) else s

-- Any letter on its way can be the next to be handled. What reaches a stopped actor
-- is a dead letter.
def step (s : System) (letter : ℕ × FibonacciMsg) : Option System :=
  if letter ∈ s.crowd.mail then
    let s := { s with crowd := s.crowd.take letter }
    match s.crowd.actor letter.1 with
    | some actor => some (s.receiveLocal letter.1 actor letter.2)
    | none => some s
  else none

-- prepare_iteration and the request of run_iteration
def runIteration (fib_number : UInt32) : System :=
  { crowd := ⟨[some (.withTarget .latch)],{(0,.request fib_number)}⟩
    latch := 1
    reports := []
    panicked := false }

abbrev Run (fib_number : UInt32) : System → Prop := Reached step (fun _ _ => True) (runIteration fib_number)

end System

-- What an actor answers when it handles its last message.
def FibonacciActor.Answers (actor : FibonacciActor) (value : UInt64) : FibonacciMsg → Prop
  | .request n => n ≤ 2 ∧ value = 1
  | .response added => actor.numResponses + 1 = 2 ∧ value = actor.result + added

-- All that the handling of one letter can do.
inductive Move (s : System) : ℕ × FibonacciMsg → System → Prop where
  | dead : s.crowd.actor i = none → Move s (i,msg) { s with crowd := s.crowd.take (i,msg) }
  | answer (parent_ref : ℕ) (value : UInt64) : s.crowd.actor i = some actor → actor.reportTo = .parent parent_ref →
      actor.Answers value msg →
      Move s (i,msg) { s with crowd := ((s.crowd.take (i,msg)).send {(parent_ref,.response value)}).stop i }
  | report (value : UInt64) : s.crowd.actor i = some actor → actor.reportTo = .latch → s.latch ≠ 0 →
      actor.Answers value msg →
      Move s (i,msg) { s with
        crowd := (s.crowd.take (i,msg)).stop i
        latch := s.latch - 1
        reports := s.reports ++ [.response value] }
  | panic (crowd : Crowd FibonacciActor FibonacciMsg) : s.crowd.actor i = some actor → actor.reportTo = .latch →
      s.latch = 0 → Move s (i,msg) { s with crowd := crowd, panicked := true }
  | split (n : UInt32) : s.crowd.actor i = some actor → ¬n ≤ 2 →
      Move s (i,.request n) { s with
        crowd := ((((s.crowd.take (i,.request n)).spawn (.withTarget (.parent i))).send
          {(s.crowd.actors.length,.request (n - 1))}).spawn (.withTarget (.parent i))).send
            {(s.crowd.actors.length + 1,.request (n - 2))} }
  | add (value : UInt64) : s.crowd.actor i = some actor → actor.numResponses + 1 ≠ 2 →
      Move s (i,.response value) { s with
        crowd := (s.crowd.take (i,.response value)).become i
          { actor with numResponses := actor.numResponses + 1, result := actor.result + value } }

variable {s next : System} {letter : ℕ × FibonacciMsg} {i : ℕ} {msg : FibonacciMsg} {actor : FibonacciActor}
  {fib_number : UInt32} {j : ℕ}

theorem sendResult_move {crowd : Crowd FibonacciActor FibonacciMsg} {holder : FibonacciActor} {value : UInt64}
    (live : s.crowd.actor i = some actor) (same : holder.reportTo = actor.reportTo) (answers : actor.Answers value msg)
    (stopped : ∀ letters, (crowd.send letters).stop i = ((s.crowd.take (i,msg)).send letters).stop i) :
    Move s (i,msg) ({ s with crowd := crowd }.sendResult i holder (.response value)) := by
  unfold System.sendResult
  rw [same]
  split
  · rename_i parent_ref target
    simp only [stopped]
    exact .answer parent_ref value live target answers
  · rename_i target
    split
    · rename_i down
      exact .panic crowd live target down
    · rename_i up
      have bare := stopped 0
      simp only [Crowd.send_zero] at bare
      simp only [bare]
      exact .report value live target up answers

theorem step_inv (done : s.step letter = some next) : letter ∈ s.crowd.mail ∧ Move s letter next := by
  obtain ⟨i,msg⟩ := letter
  unfold System.step at done
  split at done
  · rename_i present
    refine ⟨present,?_⟩
    simp only [Crowd.actor_take] at done
    split at done
    · rename_i actor live
      cases done
      cases msg with
      | request n =>
        simp only [System.receiveLocal]
        split
        · rename_i small
          have answers : actor.Answers 1 (.request n) := ⟨small,rfl⟩
          exact sendResult_move live rfl answers (fun _ => rfl)
        · rename_i large
          simpa [System.createAndTell] using Move.split n live large
      | response value =>
        simp only [System.receiveLocal]
        split
        · rename_i last
          have answers : actor.Answers (actor.result + value) (.response value) := ⟨last,rfl⟩
          exact sendResult_move live rfl answers (fun _ => Crowd.stop_send_become)
        · rename_i more
          exact .add value live more
    · rename_i lost
      cases done
      exact .dead lost
  · cases done

section Numbers
variable {n : UInt32}

def fibonacci (n : UInt32) : ℕ := Nat.fib (max n.toNat 1)

theorem fibonacci_small (small : n ≤ 2) : fibonacci n = 1 := by
  have bound : n.toNat ≤ 2 := UInt32.le_iff_toNat_le.mp small
  have cases : max n.toNat 1 = 1 ∨ max n.toNat 1 = 2 := by omega
  unfold fibonacci
  rcases cases with one | two
  · rw [one,Nat.fib_one]
  · rw [two,Nat.fib_two]

theorem fibonacci_split (large : ¬n ≤ 2) : fibonacci n = fibonacci (n - 1) + fibonacci (n - 2) := by
  have bound : 2 < n.toNat := by simpa [UInt32.le_iff_toNat_le] using large
  have first : (n - 1).toNat = n.toNat - 1 := UInt32.toNat_sub_of_le _ _ (UInt32.le_iff_toNat_le.mpr (by simp; omega))
  have second : (n - 2).toNat = n.toNat - 2 := UInt32.toNat_sub_of_le _ _ (UInt32.le_iff_toNat_le.mpr (by simp; omega))
  unfold fibonacci
  obtain ⟨k,size⟩ : ∃ k, n.toNat = k + 3 := ⟨n.toNat - 3,by omega⟩
  rw [first,second,size,Nat.max_eq_left (by omega),Nat.max_eq_left (by omega),Nat.max_eq_left (by omega),
    Nat.fib_add_two,add_comm]
  rfl

theorem fibonacci_pos : 0 < fibonacci n := Nat.fib_pos.mpr (by omega)

end Numbers

-- What is still owed to an actor: two responses for a request, one response by
-- each child, and the responses on their way.
def duty (i : ℕ) (letter : ℕ × FibonacciMsg) : ℕ :=
  if letter.1 = i then
    match letter.2 with
    | .request _ => 2
    | .response _ => 1
  else 0

def child (i : ℕ) (actor : FibonacciActor) : ℕ := if actor.reportTo = .parent i then 1 else 0

def owed (i : ℕ) (crowd : Crowd FibonacciActor FibonacciMsg) : ℕ := crowd.weight (child i) (duty i)

-- The number that a letter stands for.
def worth (letter : ℕ × FibonacciMsg) : UInt64 :=
  match letter.2 with
  | .request n => .ofNat (fibonacci n)
  | .response value => value

def total (crowd : Crowd FibonacciActor FibonacciMsg) : UInt64 := crowd.weight FibonacciActor.result worth

-- The letters that are still to be handled: a request causes `4 * fibonacci n - 3`
-- of them before its actor responds, and every child responds once.
def toHandle (letter : ℕ × FibonacciMsg) : ℕ :=
  match letter.2 with
  | .request n => 4 * fibonacci n - 3
  | .response _ => 1

def toRespond (actor : FibonacciActor) : ℕ := if actor.reportTo = .latch then 0 else 1

def remaining (crowd : Crowd FibonacciActor FibonacciMsg) : ℕ := crowd.weight toRespond toHandle

-- The actors that are still to be created.
def willCreate (letter : ℕ × FibonacciMsg) : ℕ :=
  match letter.2 with
  | .request n => 2 * fibonacci n - 2
  | .response _ => 0

def toCreate (crowd : Crowd FibonacciActor FibonacciMsg) : ℕ := crowd.weight (fun _ => 0) willCreate

section Weights
variable {M : Type*} [AddCommMonoid M] (ofActor : FibonacciActor → M) (ofLetter : ℕ × FibonacciMsg → M)
  {crowd : Crowd FibonacciActor FibonacciMsg}

theorem weight_answer (present : letter ∈ crowd.mail) (live : crowd.actor i = some actor) :
    (((crowd.take letter).send {new}).stop i).weight ofActor ofLetter + (ofActor actor + ofLetter letter) =
      crowd.weight ofActor ofLetter + ofLetter new := by
  have held : ((crowd.take letter).send {new}).actor i = some actor := live
  have stopped := Crowd.weight_stop ofActor ofLetter held
  rw [← add_assoc,stopped,Crowd.weight_send,carried_singleton,add_right_comm,Crowd.weight_take ofActor ofLetter present]

theorem weight_report (present : letter ∈ crowd.mail) (live : crowd.actor i = some actor) :
    ((crowd.take letter).stop i).weight ofActor ofLetter + (ofActor actor + ofLetter letter) =
      crowd.weight ofActor ofLetter := by
  have held : (crowd.take letter).actor i = some actor := live
  have stopped := Crowd.weight_stop ofActor ofLetter held
  rw [← add_assoc,stopped,Crowd.weight_take ofActor ofLetter present]

theorem weight_split (present : letter ∈ crowd.mail) (created : FibonacciActor) :
    (((((crowd.take letter).spawn created).send {first}).spawn created).send {second}).weight ofActor ofLetter +
        ofLetter letter =
      crowd.weight ofActor ofLetter + (ofActor created + ofLetter first) + (ofActor created + ofLetter second) := by
  rw [Crowd.weight_send,Crowd.weight_spawn,Crowd.weight_send,Crowd.weight_spawn,carried_singleton,carried_singleton,
    ← Crowd.weight_take ofActor ofLetter present]
  ac_rfl

theorem weight_add (present : letter ∈ crowd.mail) (live : crowd.actor i = some actor) (changed : FibonacciActor) :
    ((crowd.take letter).become i changed).weight ofActor ofLetter + (ofActor actor + ofLetter letter) =
      crowd.weight ofActor ofLetter + ofActor changed := by
  have held : (crowd.take letter).actor i = some actor := live
  rw [← add_assoc,Crowd.weight_become ofActor ofLetter held,add_right_comm,Crowd.weight_take ofActor ofLetter present]

end Weights

-- The actors form a tree in which everyone waits for what it is owed.
structure Owing (crowd : Crowd FibonacciActor FibonacciMsg) : Prop where
  live : ∀ i actor, crowd.actor i = some actor →
    owed i crowd + actor.numResponses.toNat = 2 ∧ actor.numResponses.toNat < 2
  blank : ∀ i actor, crowd.actor i = some actor → actor.numResponses = 0 → actor.result = 0
  gone : ∀ i, crowd.actor i = none → owed i crowd = 0
  above : ∀ i actor parent_ref, crowd.actor i = some actor → actor.reportTo = .parent parent_ref → parent_ref < i
  first : ∀ i actor, crowd.actor i = some actor → (actor.reportTo = .latch ↔ i = 0)

section Tree
variable {crowd after : Crowd FibonacciActor FibonacciMsg} {parent_ref : ℕ} {answer value : UInt64} {n : UInt32}

theorem duty_pos (letter : ℕ × FibonacciMsg) : 0 < duty letter.1 letter := by
  unfold duty
  rw [if_pos rfl]
  split <;> omega

theorem duty_other (other : j ≠ i) : duty j (i,msg) = 0 := if_neg (fun same => other same.symm)

-- There are no dead letters.
theorem Owing.addressee (owing : Owing crowd) (present : letter ∈ crowd.mail) :
    ∃ actor, crowd.actor letter.1 = some actor := by
  cases live : crowd.actor letter.1 with
  | some actor => exact ⟨actor,rfl⟩
  | none =>
    have nothing := owing.gone _ live
    have counted : duty letter.1 letter ≤ owed letter.1 crowd := Crowd.letter_le_weight present
    have positive := duty_pos letter
    omega

theorem Owing.no_dead_letter (owing : Owing crowd) (present : letter ∈ crowd.mail)
    (lost : crowd.actor letter.1 = none) : False := by
  obtain ⟨actor,live⟩ := owing.addressee present
  rw [lost] at live
  cases live

theorem Owing.parent (owing : Owing crowd) (live : crowd.actor i = some actor)
    (target : actor.reportTo = .parent parent_ref) : ∃ parent, crowd.actor parent_ref = some parent := by
  cases here : crowd.actor parent_ref with
  | some parent => exact ⟨parent,rfl⟩
  | none =>
    have nothing := owing.gone _ here
    have counted : child parent_ref actor ≤ owed parent_ref crowd := Crowd.actor_le_weight live
    simp only [child,if_pos target] at counted
    omega

-- Without the first actor there is no other.
theorem Owing.root_last (owing : Owing crowd) (stopped : crowd.actor 0 = none) (i : ℕ) : crowd.actor i = none := by
  induction i using Nat.strong_induction_on with
  | _ i ih =>
    cases live : crowd.actor i with
    | none => rfl
    | some actor =>
      cases target : actor.reportTo with
      | latch =>
        rw [(owing.first i actor live).mp target,stopped] at live
        cases live
      | parent parent_ref =>
        obtain ⟨parent,here⟩ := owing.parent live target
        rw [ih parent_ref (owing.above i actor parent_ref live target)] at here
        cases here

theorem Owing.silent (owing : Owing crowd) (stopped : crowd.actor 0 = none) : crowd.mail = 0 := by
  apply Multiset.eq_zero_of_forall_notMem
  intro letter present
  exact owing.no_dead_letter present (owing.root_last stopped _)

-- The last of the live actors waits for a letter.
theorem Owing.unfinished (owing : Owing crowd) (live : crowd.actor i = some actor) : crowd.mail ≠ 0 := by
  intro silent
  have bound : ∀ k, ∀ i actor, crowd.actors.length - i = k → crowd.actor i ≠ some actor := by
    intro k
    induction k using Nat.strong_induction_on with
    | _ k ih =>
      intro i actor size live
      obtain ⟨count,few⟩ := owing.live i actor live
      have some_owed : owed i crowd ≠ 0 := by omega
      rcases Crowd.counted some_owed with ⟨j,old,there,counts⟩ | ⟨letter,present,_⟩
      · have target : old.reportTo = .parent i := by
          by_contra other
          exact counts (if_neg other)
        have later := owing.above j old i there target
        have inside := Crowd.lt_of_actor there
        exact ih (crowd.actors.length - j) (by omega) j old rfl there
      · rw [silent] at present
        exact Multiset.notMem_zero letter present
  exact bound _ i actor rfl live

-- An actor that answers is owed nothing more.
theorem Owing.settled (owing : Owing crowd) (present : (i,msg) ∈ crowd.mail) (live : crowd.actor i = some actor)
    (answers : actor.Answers answer msg) : owed i crowd = duty i (i,msg) := by
  obtain ⟨count,few⟩ := owing.live i actor live
  have counted : duty i (i,msg) ≤ owed i crowd := Crowd.letter_le_weight present
  cases msg with
  | request n =>
    simp only [duty,if_pos] at counted ⊢
    omega
  | response added =>
    have last : actor.numResponses.toNat + 1 = 2 := by
      have same := congrArg UInt8.toNat answers.1
      simp only [UInt8.toNat_add] at same
      have one : (1 : UInt8).toNat = 1 := rfl
      have two : (2 : UInt8).toNat = 2 := rfl
      omega
    simp only [duty,if_pos] at counted ⊢
    omega

-- A letter and the actor that answers it stand for the same number as the answer.
theorem Owing.worth (owing : Owing crowd) (present : (i,msg) ∈ crowd.mail) (live : crowd.actor i = some actor)
    (answers : actor.Answers answer msg) : actor.result + worth (i,msg) = answer := by
  cases msg with
  | request n =>
    have counted : duty i (i,.request n) ≤ owed i crowd := Crowd.letter_le_weight present
    simp only [duty,if_pos] at counted
    have fresh : actor.numResponses = 0 := by
      apply UInt8.toNat_inj.mp
      change actor.numResponses.toNat = 0
      have count := (owing.live i actor live).1
      omega
    rw [owing.blank i actor live fresh,answers.2]
    simp [Fibonacci.worth,fibonacci_small answers.1]
  | response added => exact answers.2.symm

theorem Owing.stopped (owing : Owing crowd) (others : ∀ j, after.actor j = if j = i then none else crowd.actor j)
    (owes : ∀ j, owed j after + duty j (i,msg) = owed j crowd) (settled : owed i crowd = duty i (i,msg)) :
    Owing after := by
  have older : ∀ j old, after.actor j = some old → j ≠ i ∧ crowd.actor j = some old := by
    intro j old here
    rw [others] at here
    split at here
    · cases here
    · exact ⟨by assumption,here⟩
  refine ⟨?_,?_,?_,?_,?_⟩
  · intro j old here
    obtain ⟨other,before⟩ := older j old here
    have moved := owes j
    rw [duty_other other,add_zero] at moved
    rw [moved]
    exact owing.live j old before
  · intro j old here
    exact owing.blank j old (older j old here).2
  · intro j lost
    have moved := owes j
    by_cases same : j = i
    · subst same
      omega
    · rw [others,if_neg same] at lost
      have nothing := owing.gone j lost
      omega
  · intro j old ref here
    exact owing.above j old ref (older j old here).2
  · intro j old here
    exact owing.first j old (older j old here).2

theorem Owing.answered (owing : Owing crowd) (present : (i,msg) ∈ crowd.mail) (live : crowd.actor i = some actor)
    (target : actor.reportTo = .parent parent_ref) (answers : actor.Answers answer msg) :
    Owing (((crowd.take (i,msg)).send {(parent_ref,.response answer)}).stop i) := by
  have others : ∀ j, (((crowd.take (i,msg)).send {(parent_ref,.response answer)}).stop i).actor j =
      if j = i then none else crowd.actor j := fun j => Crowd.actor_stop
  apply owing.stopped others _ (owing.settled present live answers)
  intro j
  have moved : owed j (((crowd.take (i,msg)).send {(parent_ref,.response answer)}).stop i) +
      (child j actor + duty j (i,msg)) = owed j crowd + duty j (parent_ref,.response answer) :=
    weight_answer (child j) (duty j) present live
  have same : child j actor = duty j (parent_ref,.response answer) := by simp [child,duty,target]
  omega

theorem Owing.reported (owing : Owing crowd) (present : (i,msg) ∈ crowd.mail) (live : crowd.actor i = some actor)
    (target : actor.reportTo = .latch) (answers : actor.Answers answer msg) :
    Owing ((crowd.take (i,msg)).stop i) := by
  have others : ∀ j, ((crowd.take (i,msg)).stop i).actor j = if j = i then none else crowd.actor j :=
    fun j => Crowd.actor_stop
  apply owing.stopped others _ (owing.settled present live answers)
  intro j
  have moved : owed j ((crowd.take (i,msg)).stop i) + (child j actor + duty j (i,msg)) = owed j crowd :=
    weight_report (child j) (duty j) present live
  have none_above : child j actor = 0 := by simp [child,target]
  omega

theorem Owing.added (owing : Owing crowd) (present : (i,.response value) ∈ crowd.mail)
    (live : crowd.actor i = some actor) (more : actor.numResponses + 1 ≠ 2) :
    Owing ((crowd.take (i,.response value)).become i
      { actor with numResponses := actor.numResponses + 1, result := actor.result + value }) := by
  have here : (crowd.take (i,.response value)).actor i = some actor := live
  have others : ∀ j, ((crowd.take (i,.response value)).become i
      { actor with numResponses := actor.numResponses + 1, result := actor.result + value }).actor j =
        if j = i then some { actor with numResponses := actor.numResponses + 1, result := actor.result + value }
        else crowd.actor j := fun j => Crowd.actor_become here
  have owes : ∀ j, owed j ((crowd.take (i,.response value)).become i
      { actor with numResponses := actor.numResponses + 1, result := actor.result + value }) +
        duty j (i,.response value) = owed j crowd := by
    intro j
    have moved : owed j ((crowd.take (i,.response value)).become i
        { actor with numResponses := actor.numResponses + 1, result := actor.result + value }) +
          (child j actor + duty j (i,.response value)) = owed j crowd + child j actor :=
      weight_add (child j) (duty j) present live _
    omega
  obtain ⟨count,few⟩ := owing.live i actor live
  have one : (actor.numResponses + 1).toNat = actor.numResponses.toNat + 1 := by
    rw [UInt8.toNat_add]
    exact Nat.mod_eq_of_lt (by simp; omega)
  have below : actor.numResponses.toNat + 1 ≠ 2 := by
    intro two
    exact more (UInt8.toNat_inj.mp (one.trans two))
  refine ⟨?_,?_,?_,?_,?_⟩
  · intro j old there
    have moved := owes j
    rw [others] at there
    split at there
    · rename_i same
      subst same
      cases there
      simp only [duty,if_pos] at moved
      simp only [one]
      omega
    · rename_i other
      rw [duty_other other,add_zero] at moved
      rw [moved]
      exact owing.live j old there
  · intro j old there zero
    rw [others] at there
    split at there
    · cases there
      have none_yet := congrArg UInt8.toNat zero
      rw [one] at none_yet
      cases none_yet
    · exact owing.blank j old there zero
  · intro j lost
    rw [others] at lost
    split at lost
    · cases lost
    · have moved := owes j
      have nothing := owing.gone j lost
      omega
  · intro j old ref there target
    rw [others] at there
    split at there
    · rename_i same
      subst same
      cases there
      exact owing.above j actor ref live target
    · exact owing.above j old ref there target
  · intro j old there
    rw [others] at there
    split at there
    · rename_i same
      subst same
      cases there
      exact owing.first j actor live
    · exact owing.first j old there

theorem Owing.divided (owing : Owing crowd) (present : (i,.request n) ∈ crowd.mail)
    (live : crowd.actor i = some actor) :
    Owing (((((crowd.take (i,.request n)).spawn (.withTarget (.parent i))).send
      {(crowd.actors.length,.request (n - 1))}).spawn (.withTarget (.parent i))).send
        {(crowd.actors.length + 1,.request (n - 2))}) := by
  generalize afterwards : ((((crowd.take (i,.request n)).spawn (.withTarget (.parent i))).send
      {(crowd.actors.length,.request (n - 1))}).spawn (.withTarget (.parent i))).send
        {(crowd.actors.length + 1,.request (n - 2))} = after
  have inside : i < crowd.actors.length := Crowd.lt_of_actor live
  have others : ∀ j, after.actor j = if j = crowd.actors.length + 1 ∨ j = crowd.actors.length
      then some (.withTarget (.parent i)) else crowd.actor j := by
    intro j
    rw [← afterwards]
    simp only [Crowd.actor_send,Crowd.actor_spawn,Crowd.send_actors,Crowd.spawn_length,Crowd.take_actors,
      Crowd.actor_take]
    by_cases last : j = crowd.actors.length + 1 <;> by_cases first : j = crowd.actors.length <;> simp [last,first]
  have owes : ∀ j, owed j after =
      owed j crowd + (if j = crowd.actors.length + 1 ∨ j = crowd.actors.length then 2 else 0) := by
    intro j
    have moved : owed j after + duty j (i,.request n) =
        owed j crowd + (child j (.withTarget (.parent i)) + duty j (crowd.actors.length,.request (n - 1))) +
          (child j (.withTarget (.parent i)) + duty j (crowd.actors.length + 1,.request (n - 2))) := by
      rw [← afterwards]
      exact weight_split (child j) (duty j) present _
    simp only [child,duty,FibonacciActor.withTarget,ResultTarget.parent.injEq] at moved
    split <;> split_ifs at moved <;> omega
  have unborn : ∀ j, j = crowd.actors.length + 1 ∨ j = crowd.actors.length → owed j crowd = 0 := by
    intro j new
    apply owing.gone
    cases there : crowd.actor j with
    | none => rfl
    | some old =>
      have before := Crowd.lt_of_actor there
      omega
  refine ⟨?_,?_,?_,?_,?_⟩
  · intro j old there
    have moved := owes j
    rw [others] at there
    split at there
    · rename_i new
      cases there
      rw [if_pos new,unborn j new] at moved
      exact ⟨moved,Nat.zero_lt_two⟩
    · rename_i elder
      rw [if_neg elder] at moved
      rw [moved]
      exact owing.live j old there
  · intro j old there zero
    rw [others] at there
    split at there
    · cases there
      rfl
    · exact owing.blank j old there zero
  · intro j lost
    rw [others] at lost
    split at lost
    · cases lost
    · rename_i elder
      rw [owes,if_neg elder]
      exact owing.gone j lost
  · intro j old ref there target
    rw [others] at there
    split at there
    · cases there
      cases target
      omega
    · exact owing.above j old ref there target
  · intro j old there
    rw [others] at there
    split at there
    · cases there
      simp only [FibonacciActor.withTarget,reduceCtorEq,false_iff]
      omega
    · exact owing.first j old there

end Tree

structure Sound (fib_number : UInt32) (s : System) : Prop where
  owing : Owing s.crowd
  latch : s.latch = if (s.crowd.actor 0).isSome then 1 else 0
  once : s.latch + s.reports.length = 1
  answers : ∀ response ∈ s.reports, ∃ value, response = .response value
  value : total s.crowd + (s.reports.map fun response => worth (0,response)).sum = .ofNat (fibonacci fib_number)
  panicked : s.panicked = false

theorem sound_start : Sound fib_number (System.runIteration fib_number) := by
  have only : ∀ i actor, (System.runIteration fib_number).crowd.actor i = some actor →
      i = 0 ∧ actor = .withTarget .latch := by
    intro i actor live
    cases i with
    | zero => exact ⟨rfl,(Option.some.inj live).symm⟩
    | succ i => cases live
  have asked : ∀ i, owed i (System.runIteration fib_number).crowd = if i = 0 then 2 else 0 := by
    intro i
    by_cases zero : i = 0
    · subst zero
      rfl
    · have other : ¬0 = i := fun same => zero same.symm
      simp [owed,Crowd.weight,System.runIteration,child,duty,FibonacciActor.withTarget,other,zero]
  refine ⟨⟨?_,?_,?_,?_,?_⟩,rfl,rfl,(fun _ none_yet => by cases none_yet),?_,rfl⟩
  · intro i actor live
    obtain ⟨rfl,rfl⟩ := only i actor live
    exact ⟨asked 0,by decide⟩
  · intro i actor live _
    obtain ⟨rfl,rfl⟩ := only i actor live
    rfl
  · intro i lost
    rw [asked,if_neg]
    rintro rfl
    cases lost
  · intro i actor parent_ref live target
    obtain ⟨rfl,rfl⟩ := only i actor live
    cases target
  · intro i actor live
    obtain ⟨rfl,rfl⟩ := only i actor live
    simp [FibonacciActor.withTarget]
  · simp [total,Crowd.weight,System.runIteration,worth,FibonacciActor.withTarget]

theorem Sound.latch_up (sound : Sound fib_number s) (live : s.crowd.actor i = some actor)
    (target : actor.reportTo = .latch) : i = 0 ∧ s.latch = 1 := by
  have root := (sound.owing.first i actor live).mp target
  refine ⟨root,?_⟩
  rw [sound.latch,← root,live]
  rfl

theorem Sound.step (sound : Sound fib_number s) (done : s.step letter = some next) : Sound fib_number next := by
  obtain ⟨present,move⟩ := step_inv done
  obtain ⟨i,msg⟩ := letter
  cases move with
  | dead lost => exact (sound.owing.no_dead_letter present lost).elim
  | @answer _ actor _ parent_ref value live target answers =>
    have below := sound.owing.above i actor parent_ref live target
    refine ⟨sound.owing.answered present live target answers,?_,sound.once,sound.answers,?_,sound.panicked⟩
    · have inner : ¬0 = i := by omega
      simp only [Crowd.actor_stop,if_neg inner]
      exact sound.latch
    · have moved : total (((s.crowd.take (i,msg)).send {(parent_ref,.response value)}).stop i) +
          (actor.result + worth (i,msg)) = total s.crowd + worth (parent_ref,.response value) :=
        weight_answer FibonacciActor.result worth present live
      rw [sound.owing.worth present live answers] at moved
      have kept := add_right_cancel moved
      simp only [kept]
      exact sound.value
  | @report _ actor _ value live target _ answers =>
    obtain ⟨rfl,up⟩ := sound.latch_up live target
    have once := sound.once
    have none_yet : s.reports = [] := List.length_eq_zero_iff.mp (by omega)
    refine ⟨sound.owing.reported present live target answers,?_,?_,?_,?_,sound.panicked⟩
    · simp [Crowd.actor_stop,up]
    · simp [none_yet,up]
    · simp [none_yet]
    · have moved : total ((s.crowd.take (0,msg)).stop 0) + (actor.result + worth (0,msg)) = total s.crowd :=
        weight_report FibonacciActor.result worth present live
      rw [sound.owing.worth present live answers] at moved
      have value_before := sound.value
      simp only [none_yet,List.map_nil,List.sum_nil,add_zero] at value_before
      simp only [none_yet,List.nil_append,List.map_cons,List.map_nil,List.sum_cons,List.sum_nil,add_zero]
      rw [← value_before,← moved]
      rfl
  | @panic _ actor _ crowd live target down => cases down.symm.trans (sound.latch_up live target).2
  | @split _ actor n live large =>
    have inside : i < s.crowd.actors.length := Crowd.lt_of_actor live
    refine ⟨sound.owing.divided present live,?_,sound.once,sound.answers,?_,sound.panicked⟩
    · have first : ¬0 = s.crowd.actors.length := by omega
      simpa [Crowd.actor_spawn,first] using sound.latch
    · generalize afterwards : ((((s.crowd.take (i,.request n)).spawn (.withTarget (.parent i))).send
        {(s.crowd.actors.length,.request (n - 1))}).spawn (.withTarget (.parent i))).send
          {(s.crowd.actors.length + 1,.request (n - 2))} = after
      have moved : total after + worth (i,.request n) =
          total s.crowd + (0 + worth (s.crowd.actors.length,.request (n - 1))) +
            (0 + worth (s.crowd.actors.length + 1,.request (n - 2))) := by
        rw [← afterwards]
        exact weight_split FibonacciActor.result worth present _
      have parts : worth (i,.request n) = worth (s.crowd.actors.length,.request (n - 1)) +
          worth (s.crowd.actors.length + 1,.request (n - 2)) := by
        simp only [worth,fibonacci_split large,UInt64.ofNat_add]
      rw [zero_add,zero_add,add_assoc,← parts] at moved
      have kept := add_right_cancel moved
      simp only [kept]
      exact sound.value
  | @add _ actor value live more =>
    refine ⟨sound.owing.added present live more,?_,sound.once,sound.answers,?_,sound.panicked⟩
    · have here : (s.crowd.take (i,.response value)).actor i = some actor := live
      simp only [Crowd.actor_become here]
      split
      · rename_i same
        subst same
        simpa [live] using sound.latch
      · exact sound.latch
    · have moved : total ((s.crowd.take (i,.response value)).become i
          { actor with numResponses := actor.numResponses + 1, result := actor.result + value }) +
            (actor.result + worth (i,.response value)) = total s.crowd + (actor.result + value) :=
        weight_add FibonacciActor.result worth present live _
      have kept := add_right_cancel moved
      simp only [kept]
      exact sound.value

theorem answers_handle {answer : UInt64} (answers : actor.Answers answer msg) : toHandle (i,msg) = 1 := by
  cases msg with
  | request n => simp [toHandle,fibonacci_small answers.1]
  | response added => rfl

theorem answers_create {answer : UInt64} (answers : actor.Answers answer msg) : willCreate (i,msg) = 0 := by
  cases msg with
  | request n => simp [willCreate,fibonacci_small answers.1]
  | response added => rfl

-- Every letter that is handled leaves one fewer.
theorem remaining_step (sound : Sound fib_number s) (done : s.step letter = some next) :
    remaining next.crowd + 1 = remaining s.crowd := by
  obtain ⟨present,move⟩ := step_inv done
  obtain ⟨i,msg⟩ := letter
  cases move with
  | dead lost => exact (sound.owing.no_dead_letter present lost).elim
  | @answer _ actor _ parent_ref value live target answers =>
    have moved : remaining (((s.crowd.take (i,msg)).send {(parent_ref,.response value)}).stop i) +
        (toRespond actor + toHandle (i,msg)) = remaining s.crowd + 1 :=
      weight_answer toRespond toHandle present live
    have child : toRespond actor = 1 := by simp [toRespond,target]
    have handled : toHandle (i,msg) = 1 := answers_handle answers
    simp only
    omega
  | @report _ actor _ value live target _ answers =>
    have moved : remaining ((s.crowd.take (i,msg)).stop i) + (toRespond actor + toHandle (i,msg)) = remaining s.crowd :=
      weight_report toRespond toHandle present live
    have root : toRespond actor = 0 := if_pos target
    have handled : toHandle (i,msg) = 1 := answers_handle answers
    simp only
    omega
  | @panic _ actor _ crowd live target down => cases down.symm.trans (sound.latch_up live target).2
  | @split _ actor n live large =>
    generalize afterwards : ((((s.crowd.take (i,.request n)).spawn (.withTarget (.parent i))).send
      {(s.crowd.actors.length,.request (n - 1))}).spawn (.withTarget (.parent i))).send
        {(s.crowd.actors.length + 1,.request (n - 2))} = after
    have moved : remaining after + (4 * fibonacci n - 3) =
        remaining s.crowd + (1 + (4 * fibonacci (n - 1) - 3)) + (1 + (4 * fibonacci (n - 2) - 3)) := by
      rw [← afterwards]
      exact weight_split toRespond toHandle present _
    have parts := fibonacci_split large
    have first : 0 < fibonacci (n - 1) := fibonacci_pos
    have second : 0 < fibonacci (n - 2) := fibonacci_pos
    simp only
    omega
  | @add _ actor value live more =>
    have moved : remaining ((s.crowd.take (i,.response value)).become i
        { actor with numResponses := actor.numResponses + 1, result := actor.result + value }) +
          (toRespond actor + 1) = remaining s.crowd + toRespond actor :=
      weight_add toRespond toHandle present live _
    simp only
    omega

theorem created_step (sound : Sound fib_number s) (done : s.step letter = some next) :
    next.crowd.actors.length + toCreate next.crowd = s.crowd.actors.length + toCreate s.crowd := by
  obtain ⟨present,move⟩ := step_inv done
  obtain ⟨i,msg⟩ := letter
  cases move with
  | dead lost => exact (sound.owing.no_dead_letter present lost).elim
  | @answer _ actor _ parent_ref value live target answers =>
    have moved : toCreate (((s.crowd.take (i,msg)).send {(parent_ref,.response value)}).stop i) +
        (0 + willCreate (i,msg)) = toCreate s.crowd + 0 :=
      weight_answer (fun _ => 0) willCreate present live
    have small : willCreate (i,msg) = 0 := answers_create answers
    simp only [Crowd.stop_length,Crowd.send_actors,Crowd.take_actors]
    omega
  | @report _ actor _ value live target _ answers =>
    have moved : toCreate ((s.crowd.take (i,msg)).stop i) + (0 + willCreate (i,msg)) = toCreate s.crowd :=
      weight_report (fun _ => 0) willCreate present live
    have small : willCreate (i,msg) = 0 := answers_create answers
    simp only [Crowd.stop_length,Crowd.take_actors]
    omega
  | @panic _ actor _ crowd live target down => cases down.symm.trans (sound.latch_up live target).2
  | @split _ actor n live large =>
    generalize afterwards : ((((s.crowd.take (i,.request n)).spawn (.withTarget (.parent i))).send
      {(s.crowd.actors.length,.request (n - 1))}).spawn (.withTarget (.parent i))).send
        {(s.crowd.actors.length + 1,.request (n - 2))} = after
    have moved : toCreate after + (2 * fibonacci n - 2) =
        toCreate s.crowd + (0 + (2 * fibonacci (n - 1) - 2)) + (0 + (2 * fibonacci (n - 2) - 2)) := by
      rw [← afterwards]
      exact weight_split (fun _ => 0) willCreate present _
    have more : after.actors.length = s.crowd.actors.length + 2 := by simp [← afterwards]
    have parts := fibonacci_split large
    have first : 0 < fibonacci (n - 1) := fibonacci_pos
    have second : 0 < fibonacci (n - 2) := fibonacci_pos
    simp only [more]
    omega
  | @add _ actor value live more =>
    have moved : toCreate ((s.crowd.take (i,.response value)).become i
        { actor with numResponses := actor.numResponses + 1, result := actor.result + value }) +
          (0 + 0) = toCreate s.crowd + 0 :=
      weight_add (fun _ => 0) willCreate present live _
    simp only [Crowd.become_length,Crowd.take_actors]
    omega

section Runs

-- What an iteration starts with is what it comes to.
structure Course (fib_number : UInt32) (s : System) : Prop extends Sound fib_number s where
  created : s.crowd.actors.length + toCreate s.crowd = 2 * fibonacci fib_number - 1

theorem course_start : Course fib_number (System.runIteration fib_number) := by
  have positive : 0 < fibonacci fib_number := fibonacci_pos
  refine ⟨sound_start,?_⟩
  simp [toCreate,Crowd.weight,System.runIteration,willCreate]
  omega

theorem Course.step (course : Course fib_number s) (done : s.step letter = some next) : Course fib_number next :=
  ⟨course.toSound.step done,(created_step course.toSound done).trans course.created⟩

theorem run_course (path : System.Run fib_number s) : Course fib_number s :=
  path.invariant _ course_start fun _ _ _ course _ done => course.step done

theorem Course.live_root (course : Course fib_number s) (up : s.latch ≠ 0) : ∃ actor, s.crowd.actor 0 = some actor := by
  cases live : s.crowd.actor 0 with
  | some actor => exact ⟨actor,rfl⟩
  | none =>
    have latch := course.latch
    rw [live] at latch
    exact absurd latch up

theorem Course.stopped_root (course : Course fib_number s) (down : s.latch = 0) : s.crowd.actor 0 = none := by
  cases live : s.crowd.actor 0 with
  | none => rfl
  | some actor =>
    have latch := course.latch
    rw [live,down] at latch
    cases latch

def lettersOfThree : List (ℕ × FibonacciMsg) :=
  [(0,.request 3),(2,.request 1),(0,.response 1),(1,.request 2),(0,.response 1)]

theorem runs_remaining (events : List (ℕ × FibonacciMsg)) (sound : Sound fib_number s)
    (done : runs System.step (fun _ _ => True) s events = some next) :
    remaining next.crowd + events.length = remaining s.crowd := by
  induction events generalizing s with
  | nil =>
    cases done
    rfl
  | cons letter rest ih =>
    rw [runs,if_pos trivial] at done
    obtain ⟨middle,first,last⟩ := Option.bind_eq_some_iff.mp done
    have left := remaining_step sound first
    have more := ih (sound.step first) last
    rw [List.length_cons]
    omega

-- The number of letters of an iteration does not depend on the order in which they
-- are handled.
theorem fibonacci_letters (events : List (ℕ × FibonacciMsg))
    (done : runs System.step (fun _ _ => True) (System.runIteration fib_number) events = some s) :
    events.length ≤ 4 * Nat.fib (max fib_number.toNat 1) - 3 ∧
    (s.latch = 0 ↔ events.length = 4 * Nat.fib (max fib_number.toNat 1) - 3) := by
  have course := run_course (runs_reached .start done)
  have counted := runs_remaining events sound_start done
  have all : remaining (System.runIteration fib_number).crowd = 4 * fibonacci fib_number - 3 := by
    simp [remaining,Crowd.weight,System.runIteration,toHandle,toRespond,FibonacciActor.withTarget]
  rw [all] at counted
  change events.length ≤ 4 * fibonacci fib_number - 3 ∧ (s.latch = 0 ↔ events.length = 4 * fibonacci fib_number - 3)
  refine ⟨by omega,?_,?_⟩
  · intro down
    have stopped := course.stopped_root down
    have silent := course.owing.silent stopped
    have nothing : remaining s.crowd = 0 := by
      apply Crowd.weight_zero _ (by simp [silent])
      intro i old here
      rw [course.owing.root_last stopped] at here
      cases here
    omega
  · intro full
    by_contra up
    obtain ⟨actor,live⟩ := course.live_root up
    obtain ⟨letter,present⟩ := Multiset.exists_mem_of_ne_zero (course.owing.unfinished live)
    have counts : toHandle letter ≤ remaining s.crowd := Crowd.letter_le_weight present
    have positive : 0 < toHandle letter := by
      unfold toHandle
      split
      · rename_i n _
        have some_number : 0 < fibonacci n := fibonacci_pos
        omega
      · exact Nat.one_pos
    omega

theorem fibonacci_letters_three : ∃ s, System.Run 3 s ∧ (s.latch = 0 ↔ lettersOfThree.length = 5) := by
  obtain ⟨s,done⟩ : ∃ s, runs System.step (fun _ _ => True) (System.runIteration 3) lettersOfThree = some s :=
    Option.isSome_iff_exists.mp (by decide)
  exact ⟨s,runs_reached .start done,(fibonacci_letters lettersOfThree done).2⟩

end Runs

end KompicsBenches.Fibonacci
