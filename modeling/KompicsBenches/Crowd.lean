import KompicsBenches.Custody

namespace KompicsBenches

open Custody

-- Actors that are created while a system runs, numbered in the order of their
-- creation, and the letters on their way to them. A stopped actor leaves its
-- number behind.
structure Crowd (α μ : Type*) where
  actors : List (Option α)
  mail : Multiset (ℕ × μ)

namespace Crowd
variable {α μ : Type*}

section Operations
variable (crowd : Crowd α μ)

def actor (i : ℕ) : Option α := crowd.actors[i]?.join

def spawn (actor : α) : Crowd α μ := { crowd with actors := crowd.actors ++ [some actor] }

def become (i : ℕ) (actor : α) : Crowd α μ := { crowd with actors := crowd.actors.set i (some actor) }

def stop (i : ℕ) : Crowd α μ := { crowd with actors := crowd.actors.set i none }

def send (letters : Multiset (ℕ × μ)) : Crowd α μ := { crowd with mail := crowd.mail + letters }

def take [DecidableEq μ] (letter : ℕ × μ) : Crowd α μ := { crowd with mail := crowd.mail.erase letter }

end Operations

variable {crowd : Crowd α μ} {i j : ℕ} {actor old : α} {letter : ℕ × μ} {letters : Multiset (ℕ × μ)}

theorem actor_some : crowd.actor i = some old ↔ crowd.actors[i]? = some (some old) := by
  unfold Crowd.actor
  rw [Option.join_eq_some_iff]

theorem lt_of_actor (live : crowd.actor i = some old) : i < crowd.actors.length :=
  (List.getElem?_eq_some_iff.mp (actor_some.mp live)).1

@[simp]
theorem actor_send : (crowd.send letters).actor i = crowd.actor i := rfl

@[simp]
theorem actor_take [DecidableEq μ] : (crowd.take letter).actor i = crowd.actor i := rfl

@[simp]
theorem send_actors : (crowd.send letters).actors = crowd.actors := rfl

@[simp]
theorem take_actors [DecidableEq μ] : (crowd.take letter).actors = crowd.actors := rfl

@[simp]
theorem stop_length : (crowd.stop i).actors.length = crowd.actors.length := List.length_set

@[simp]
theorem become_length : (crowd.become i actor).actors.length = crowd.actors.length := List.length_set

@[simp]
theorem spawn_length : (crowd.spawn actor).actors.length = crowd.actors.length + 1 := by simp [spawn]

theorem actor_stop : (crowd.stop i).actor j = if j = i then none else crowd.actor j := by
  unfold Crowd.actor stop
  rw [List.getElem?_set]
  split
  · rename_i same
    subst same
    split <;> simp
  · rename_i other
    rw [if_neg (fun same => other same.symm)]

theorem actor_become (live : crowd.actor i = some old) :
    (crowd.become i actor).actor j = if j = i then some actor else crowd.actor j := by
  unfold Crowd.actor become
  rw [List.getElem?_set]
  split
  · rename_i same
    subst same
    simp [lt_of_actor live]
  · rename_i other
    rw [if_neg (fun same => other same.symm)]

theorem actor_spawn :
    (crowd.spawn actor).actor j = if j = crowd.actors.length then some actor else crowd.actor j := by
  unfold Crowd.actor spawn
  rw [List.getElem?_append]
  split
  · rename_i before
    rw [if_neg (Nat.ne_of_lt before)]
  · rename_i after
    split
    · rename_i same
      simp [same]
    · rename_i other
      rw [List.getElem?_eq_none (by simp; omega),List.getElem?_eq_none (by omega)]

theorem stop_send_become : ((crowd.become i actor).send letters).stop i = (crowd.send letters).stop i := by
  simp [stop,send,become]

@[simp]
theorem send_zero : crowd.send 0 = crowd := by simp [send]

-- A quantity of a crowd is a sum over its live actors and its letters.
section Weight
variable {M : Type*} [AddCommMonoid M]

def weight (ofActor : α → M) (ofLetter : ℕ × μ → M) (crowd : Crowd α μ) : M :=
  (crowd.actors.map (·.elim 0 ofActor)).sum + carried ofLetter crowd.mail

variable {ofActor : α → M} {ofLetter : ℕ × μ → M}

theorem sum_set (l : List (Option α)) (f : Option α → M) (here : l[i]? = some first) (new : Option α) :
    ((l.set i new).map f).sum + f first = (l.map f).sum + f new := by
  induction l generalizing i with
  | nil => cases here
  | cons head rest ih =>
    cases i with
    | zero =>
      cases here
      simp [add_comm,add_left_comm]
    | succ i =>
      simp only [List.set_cons_succ,List.map_cons,List.sum_cons,add_assoc,ih here]

variable (ofActor ofLetter)

theorem weight_send :
    (crowd.send letters).weight ofActor ofLetter = crowd.weight ofActor ofLetter + carried ofLetter letters := by
  simp [weight,send,add_assoc]

theorem weight_take [DecidableEq μ] (present : letter ∈ crowd.mail) :
    (crowd.take letter).weight ofActor ofLetter + ofLetter letter = crowd.weight ofActor ofLetter := by
  unfold weight take
  rw [add_assoc,add_comm (carried _ _),carried_erase ofLetter present]

theorem weight_spawn :
    (crowd.spawn actor).weight ofActor ofLetter = crowd.weight ofActor ofLetter + ofActor actor := by
  simp [weight,spawn,add_comm,add_left_comm]

theorem weight_become (live : crowd.actor i = some old) :
    (crowd.become i actor).weight ofActor ofLetter + ofActor old =
      crowd.weight ofActor ofLetter + ofActor actor := by
  have moved := sum_set crowd.actors (·.elim 0 ofActor) (actor_some.mp live) (some actor)
  simp only [Option.elim_some] at moved
  unfold weight become
  rw [add_right_comm,moved,add_right_comm]

theorem weight_stop (live : crowd.actor i = some old) :
    (crowd.stop i).weight ofActor ofLetter + ofActor old = crowd.weight ofActor ofLetter := by
  have moved := sum_set crowd.actors (·.elim 0 ofActor) (actor_some.mp live) none
  simp only [Option.elim_some,Option.elim_none,add_zero] at moved
  unfold weight stop
  rw [add_right_comm,moved]

variable {ofActor ofLetter}

theorem weight_zero (actors : ∀ i old, crowd.actor i = some old → ofActor old = 0)
    (letters : ∀ letter ∈ crowd.mail, ofLetter letter = 0) : crowd.weight ofActor ofLetter = 0 := by
  have stopped : ∀ term ∈ crowd.actors.map (·.elim 0 ofActor), term = 0 := by
    intro term inside
    obtain ⟨member,there,rfl⟩ := List.mem_map.mp inside
    cases member with
    | none => rfl
    | some old =>
      obtain ⟨i,here⟩ := List.mem_iff_getElem?.mp there
      exact actors i old (actor_some.mpr here)
  rw [weight,List.sum_eq_zero stopped,carried_eq_zero letters,add_zero]

end Weight

section Counts
variable {ofActor : α → ℕ} {ofLetter : ℕ × μ → ℕ}

theorem letter_le_weight (present : letter ∈ crowd.mail) : ofLetter letter ≤ crowd.weight ofActor ofLetter :=
  (load_le_carried present).trans (Nat.le_add_left _ _)

theorem actor_le_weight (live : crowd.actor i = some old) : ofActor old ≤ crowd.weight ofActor ofLetter := by
  have inside : ofActor old ∈ crowd.actors.map (·.elim 0 ofActor) :=
    List.mem_map.mpr ⟨some old,List.mem_of_getElem? (actor_some.mp live),rfl⟩
  exact (List.single_le_sum (fun _ _ => Nat.zero_le _) _ inside).trans (Nat.le_add_right _ _)

-- What is counted is somewhere.
theorem counted (some_weight : crowd.weight ofActor ofLetter ≠ 0) :
    (∃ i old, crowd.actor i = some old ∧ ofActor old ≠ 0) ∨ ∃ letter ∈ crowd.mail, ofLetter letter ≠ 0 := by
  by_contra nowhere
  push Not at nowhere
  exact some_weight (weight_zero nowhere.1 nowhere.2)

end Counts

end Crowd

end KompicsBenches
