import Mathlib

namespace KompicsBenches.RelativeErrors

-- Operations on doubles are those of a field; the square root is a parameter, so that all
-- that comes before it can be evaluated.
section Statistics
variable {R : Type*} [Field R] (sqrt : R → R) (data : List R)

namespace Rust

def sampleSize : R := data.length
def sum : R := data.foldl (fun acc v => acc + v) 0
def sampleMean : R := sum data / sampleSize data

def sampleVariance : R :=
  let mean := sampleMean data
  let squares := data.foldl (fun acc sample =>
    let err := sample - mean
    acc + err * err) 0
  squares / (sampleSize data - 1)

def sampleStandardDeviation : R := sqrt (sampleVariance data)
def standardErrorMean : R := sampleStandardDeviation sqrt data / sqrt (sampleSize data)
def relativeErrorMean : R := standardErrorMean sqrt data / sampleMean data
def rse : R := relativeErrorMean sqrt data

end Rust

namespace Scala

def sampleSize : R := data.length
def sampleMean : R := data.foldl (fun acc v => acc + v) 0 / sampleSize data

def sampleVariance : R :=
  data.foldl (fun acc sample =>
    let err := sample - sampleMean data
    acc + err * err) 0 / (sampleSize data - 1)

def sampleStandardDeviation : R := sqrt (sampleVariance data)
def standardErrorOfTheMean : R := sampleStandardDeviation sqrt data / sqrt (sampleSize data)
def relativeErrorOfTheMean : R := standardErrorOfTheMean sqrt data / sampleMean data

end Scala

namespace Erlang

structure Stats (R : Type*) where
  sampleSize : ℕ
  sampleMean : R
  sampleVariance : R
  sampleStandardDeviation : R
  standardErrorOfTheMean : R
  relativeErrorOfTheMean : R
  deriving DecidableEq, Repr

-- `none` is `empty`.
def calculateStats : Option (Stats R) :=
  if data.isEmpty then none
  else
    let sampleSize := data.length
    let sampleMean := data.foldl (fun acc v => acc + v) 0 / (sampleSize : R)
    let sampleVariance := data.foldl (fun acc sample =>
      let err := sample - sampleMean
      acc + err * err) 0
    let sampleStandardDeviation := sqrt sampleVariance
    let standardErrorOfTheMean := sampleStandardDeviation / sqrt (sampleSize : R)
    let relativeErrorOfTheMean := standardErrorOfTheMean / sampleMean
    some ⟨sampleSize,sampleMean,sampleVariance,sampleStandardDeviation,standardErrorOfTheMean,
      relativeErrorOfTheMean⟩

-- `none` is a failed match.
def rse : Option R := (calculateStats sqrt data).map Stats.relativeErrorOfTheMean

end Erlang

def mean : R := data.sum / data.length

-- The squared errors of the samples.
def squaredErrors : R := (data.map fun x => (x - mean data) ^ 2).sum

variable {data}

theorem sum_left (data : List R) (f : R → R) (acc : R) : data.foldl (fun acc x => acc + f x) acc = acc + (data.map f).sum := by
  induction data generalizing acc with
  | nil => simp
  | cons x data ih => rw [List.foldl_cons,ih,List.map_cons,List.sum_cons,add_assoc]

theorem sampleMean_mean : Rust.sampleMean data = mean data := by
  have total := sum_left data (fun x => x) 0
  rw [List.map_id',zero_add] at total
  rw [Rust.sampleMean,Rust.sum,total]
  rfl

theorem squares_left (m : R) : data.foldl (fun acc sample => acc + (sample - m) * (sample - m)) 0 =
    (data.map fun x => (x - m) ^ 2).sum := by
  rw [sum_left,zero_add]
  simp only [sq]

theorem rust_rse : Rust.rse sqrt data =
    sqrt (squaredErrors data / (data.length - 1)) / sqrt data.length / mean data := by
  unfold Rust.rse Rust.relativeErrorMean Rust.standardErrorMean Rust.sampleStandardDeviation Rust.sampleVariance
  simp only [squares_left,sampleMean_mean]
  rfl

theorem scala_rse : Scala.relativeErrorOfTheMean sqrt data = Rust.rse sqrt data := rfl

-- The division by one less than the sample size is missing.
theorem erlang_rse (some_ : data ≠ []) : Erlang.rse sqrt data =
    some (sqrt (squaredErrors data) / sqrt data.length / mean data) := by
  have total : data.foldl (fun acc v => acc + v) 0 / (data.length : R) = mean data := sampleMean_mean
  rw [Erlang.rse,Erlang.calculateStats,if_neg (by simpa using some_)]
  simp only [total,squares_left]
  rfl

end Statistics

section Reals
variable {data : List ℝ}

noncomputable def rseTarget : ℝ := 1 / 10

-- All three report the same error, the one with this square, and accept the same results.
structure SameError (data : List ℝ) : Prop where
  scala : Scala.relativeErrorOfTheMean Real.sqrt data = Rust.rse Real.sqrt data
  erlang : Erlang.rse Real.sqrt data = some (Rust.rse Real.sqrt data)
  square : Rust.rse Real.sqrt data ^ 2 =
    (data.map fun x => (x - mean data) ^ 2).sum / ((data.length - 1) * data.length * mean data ^ 2)
  target : ∀ rse ∈ Erlang.rse Real.sqrt data, (rse ≤ rseTarget ↔ Rust.rse Real.sqrt data ≤ rseTarget)

theorem squaredErrors_nonneg (data : List ℝ) : 0 ≤ squaredErrors data := by
  apply List.sum_nonneg
  intro error member
  obtain ⟨x,_,rfl⟩ := List.mem_map.mp member
  exact sq_nonneg _

theorem equal_mean {x : ℝ} (equal : ∀ y ∈ data, y = x) (some_ : data ≠ []) : mean data = x := by
  have length : (data.length : ℝ) ≠ 0 := by exact_mod_cast (List.length_pos_iff.mpr some_).ne'
  rw [mean,List.eq_replicate_of_mem equal,List.sum_replicate,List.length_replicate,nsmul_eq_mul,
    mul_div_cancel_left₀ x length]

-- No errors at all: every sample is the mean.
theorem squaredErrors_zero (data : List ℝ) : squaredErrors data = 0 ↔ ∀ x ∈ data, ∀ y ∈ data, x = y := by
  constructor
  · intro zero
    have errors : ∀ error ∈ data.map fun x => (x - mean data) ^ 2, error = 0 := by
      intro error member
      refine List.all_zero_of_le_zero_le_of_sum_eq_zero ?_ zero member
      intro error member
      obtain ⟨x,_,rfl⟩ := List.mem_map.mp member
      exact sq_nonneg _
    have central : ∀ x ∈ data, x = mean data := by
      intro x member
      exact sub_eq_zero.mp (pow_eq_zero_iff two_ne_zero |>.mp (errors _ (List.mem_map_of_mem member)))
    intro x first y second
    rw [central x first,← central y second]
  · intro equal
    apply List.sum_eq_zero
    intro error member
    obtain ⟨x,inside,rfl⟩ := List.mem_map.mp member
    have central := equal_mean (fun y other => equal y other x inside) (List.ne_nil_of_mem inside)
    rw [central,sub_self,zero_pow two_ne_zero]

theorem mean_positive (some_ : data ≠ []) (positive : ∀ x ∈ data, 0 < x) : 0 < mean data := by
  have length : (0 : ℝ) < data.length := by exact_mod_cast List.length_pos_iff.mpr some_
  exact div_pos (List.sum_pos data positive some_) length

theorem rust_square (two : 2 ≤ data.length) : Rust.rse Real.sqrt data ^ 2 =
    squaredErrors data / ((data.length - 1) * data.length * mean data ^ 2) := by
  have size : (2 : ℝ) ≤ data.length := by exact_mod_cast two
  have variance : 0 ≤ squaredErrors data / ((data.length : ℝ) - 1) :=
    div_nonneg (squaredErrors_nonneg data) (by linarith)
  rw [rust_rse,div_pow,div_pow,Real.sq_sqrt variance,Real.sq_sqrt (by linarith),div_div,div_div]
  ring_nf

theorem square_roots {x n : ℝ} (nonneg : 0 ≤ x) (two : 2 ≤ n) :
    √x = √(x / (n - 1)) ↔ n = 2 ∨ x = 0 := by
  have positive : 0 < n - 1 := by linarith
  rw [Real.sqrt_inj nonneg (div_nonneg nonneg positive.le),eq_div_iff positive.ne']
  constructor
  · intro equal
    have factors : x * (n - 2) = 0 := by linarith
    rcases mul_eq_zero.mp factors with zero | zero
    · exact .inr zero
    · exact .inl (by linarith)
  · rintro (rfl | rfl)
    · ring
    · ring

-- The Erlang error is right only where dividing by one less than the sample size does
-- nothing.
theorem same_error_iff (two : 2 ≤ data.length) (positive : ∀ x ∈ data, 0 < x) :
    SameError data ↔ data.length = 2 ∨ ∀ x ∈ data, ∀ y ∈ data, x = y := by
  have some_ : data ≠ [] := List.ne_nil_of_length_pos (by omega)
  have size : (2 : ℝ) ≤ data.length := by exact_mod_cast two
  have scale : √(data.length : ℝ) ≠ 0 := Real.sqrt_ne_zero'.mpr (by linarith)
  have roots := square_roots (squaredErrors_nonneg data) size
  have count : (data.length : ℝ) = 2 ↔ data.length = 2 := by norm_cast
  rw [squaredErrors_zero,count] at roots
  have erlang : Erlang.rse Real.sqrt data = some (Rust.rse Real.sqrt data) ↔
      data.length = 2 ∨ ∀ x ∈ data, ∀ y ∈ data, x = y := by
    rw [erlang_rse _ some_,rust_rse,Option.some_inj,div_left_inj' (mean_positive some_ positive).ne',
      div_left_inj' scale,roots]
  constructor
  · intro same
    exact erlang.mp same.erlang
  · intro holds
    refine ⟨scala_rse _,erlang.mpr holds,rust_square two,?_⟩
    intro rse reported
    rw [erlang.mpr holds] at reported
    cases reported
    rfl

theorem same_error_two : SameError [1,3] := (same_error_iff (by decide) (by simp)).mpr (.inl rfl)

-- Three samples that Rust and Scala accept and Erlang does not.
theorem three_samples_differ : Rust.rse Real.sqrt [10,10,13] = 1 / 11 ∧
    (∃ rse, Erlang.rse Real.sqrt [10,10,13] = some rse ∧ rseTarget < rse) ∧ ¬SameError [10,10,13] := by
  have errors : squaredErrors ([10,10,13] : List ℝ) = 6 := by norm_num [squaredErrors,mean]
  have central : mean ([10,10,13] : List ℝ) = 11 := by norm_num [mean]
  have rust : Rust.rse Real.sqrt [10,10,13] = 1 / 11 := by
    rw [rust_rse,errors,central]
    norm_num
  have erlang : Erlang.rse Real.sqrt [10,10,13] = some (√6 / √3 / 11) := by
    rw [erlang_rse _ (List.cons_ne_nil _ _),errors,central]
    norm_num
  have large : rseTarget < √6 / √3 / 11 := by
    have root : (1.2 : ℝ) < √(6 / 3) := Real.lt_sqrt_of_sq_lt (by norm_num)
    rw [← Real.sqrt_div (by norm_num),rseTarget]
    linarith
  refine ⟨rust,⟨_,erlang,large⟩,?_⟩
  intro same
  have accepted := (same.target _ erlang).mpr (by rw [rust,rseTarget]; norm_num)
  exact large.not_ge accepted

end Reals

end KompicsBenches.RelativeErrors
