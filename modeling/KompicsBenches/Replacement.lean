import Mathlib

namespace KompicsBenches.Replacement
variable {α : Type*}

-- Global replacement, leftmost first: a pattern says how much of a text it matches at its
-- beginning. What is matched is skipped one element at a time.
def replaceFrom (pattern : List α → Option ℕ) (by_ : List α) : ℕ → List α → List α
  | _, [] => []
  | skip + 1, _ :: xs => replaceFrom pattern by_ skip xs
  | 0, x :: xs =>
    match pattern (x :: xs) with
    | some n => by_ ++ replaceFrom pattern by_ (n - 1) xs
    | none => x :: replaceFrom pattern by_ 0 xs

def replaceAll (pattern : List α → Option ℕ) (by_ : List α) (xs : List α) : List α :=
  replaceFrom pattern by_ 0 xs

def literal [DecidableEq α] (text xs : List α) : Option ℕ := if text <+: xs then some text.length else none

section Rules
variable {pattern : List α → Option ℕ} {by_ xs : List α} {x : α} {n : ℕ}

theorem replaceFrom_drop (skip : ℕ) : replaceFrom pattern by_ skip xs = replaceAll pattern by_ (xs.drop skip) := by
  induction xs generalizing skip with
  | nil => simp [replaceAll,replaceFrom]
  | cons x xs ih =>
    cases skip with
    | zero => rfl
    | succ skip => exact ih skip

@[simp] theorem replaceAll_nil : replaceAll pattern by_ [] = [] := rfl

theorem replaceAll_match (found : pattern (x :: xs) = some (n + 1)) :
    replaceAll pattern by_ (x :: xs) = by_ ++ replaceAll pattern by_ (xs.drop n) := by
  rw [replaceAll,replaceFrom,found,← replaceFrom_drop]
  rfl

theorem replaceAll_miss (missing : pattern (x :: xs) = none) :
    replaceAll pattern by_ (x :: xs) = x :: replaceAll pattern by_ xs := by
  rw [replaceAll,replaceFrom,missing]
  rfl

-- A pattern for single elements.
theorem replaceAll_single {p : α → Bool} (single : ∀ x ∈ xs, ∀ rest,
    pattern (x :: rest) = if p x then some 1 else none) :
    replaceAll pattern by_ xs = xs.flatMap fun x => if p x then by_ else [x] := by
  induction xs with
  | nil => rfl
  | cons x xs ih =>
    rw [List.forall_mem_cons] at single
    have first := single.1 xs
    rw [List.flatMap_cons,← ih single.2]
    cases match_ : p x with
    | true =>
      rw [match_] at first
      exact replaceAll_match first
    | false =>
      rw [match_] at first
      exact replaceAll_miss first

end Rules

section Literals
variable [DecidableEq α] {text by_ xs : List α} {x y : α}

theorem replaceAll_text (some_ : text ≠ []) :
    replaceAll (literal text) by_ (text ++ xs) = by_ ++ replaceAll (literal text) by_ xs := by
  obtain ⟨y,rest,rfl⟩ := List.exists_cons_of_ne_nil some_
  have found : literal (y :: rest) (y :: (rest ++ xs)) = some (rest.length + 1) :=
    if_pos (List.prefix_append (y :: rest) xs)
  rw [List.cons_append,replaceAll_match found,List.drop_left]

theorem replaceAll_other (other : ¬text <+: x :: xs) :
    replaceAll (literal text) by_ (x :: xs) = x :: replaceAll (literal text) by_ xs :=
  replaceAll_miss (if_neg other)

theorem literal_single (x y : α) (rest : List α) :
    literal [x] (y :: rest) = if decide (y = x) then some 1 else none := by
  simp [literal,eq_comm]

-- What doubles one element is undone by what halves its pairs.
theorem replaceAll_halve (x : α) (xs : List α) :
    replaceAll (literal [x,x]) [x] (xs.flatMap fun y => if y = x then [x,x] else [y]) = xs := by
  induction xs with
  | nil => rfl
  | cons y xs ih =>
    rw [List.flatMap_cons]
    split
    · rename_i same
      rw [replaceAll_text (by simp),ih,same]
      rfl
    · rename_i different
      rw [List.singleton_append,replaceAll_other,ih]
      intro pair
      exact different (List.cons_prefix_cons.mp pair).1.symm

end Literals

end KompicsBenches.Replacement
