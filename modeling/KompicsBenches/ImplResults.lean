import KompicsBenches.Grouping

namespace KompicsBenches.ImplResults
open Grouping
variable {P D T S : Type*}

-- `none` is an exception: an index out of range or a failed assertion. A double is only
-- passed on, so its type is a parameter.
structure Impl2DResult (D : Type*) where
  implLabel : String
  params : List ℤ
  means : List D
  deriving DecidableEq, Repr

structure Impl3DResult (D : Type*) where
  implLabel : String
  params1 : List ℤ
  params2 : List ℤ
  means : List D
  deriving DecidableEq, Repr

structure ImplGroupedResult (P D : Type*) where
  implLabel : String
  params : List P
  means : List D
  deriving DecidableEq, Repr

-- The loop over the parameters with their indices, which looks up the mean of each.
def foreachIndexed (params : List P) (means : List D) (body : S → P → D → S) (s : S) : Option S :=
  params.zipIdx.foldlM (fun s e => (means[e.2]?).map (body s e.1)) s

namespace ImplGroupedResult

def map2D (r : ImplGroupedResult P D) (f : P → ℤ) : Impl2DResult D := ⟨r.implLabel,r.params.map f,r.means⟩

def map3D (r : ImplGroupedResult P D) (f : P → ℤ × ℤ) : Impl3DResult D :=
  ⟨r.implLabel,(r.params.map f).map Prod.fst,(r.params.map f).map Prod.snd,r.means⟩

-- A parameter and its mean are appended to two buffers.
def append (buffers : List P × List D) (e : P × D) : List P × List D := (buffers.1 ++ [e.1],buffers.2 ++ [e.2])

variable [DecidableEq T]

def groupBy (r : ImplGroupedResult P D) (grouper : P → T) : Option (AList fun _ : T => ImplGroupedResult P D) :=
  (foreachIndexed r.params r.means (fun builder p mean => put ([],[]) append builder (grouper p) (p,mean)) ∅).map
    (mapValues fun t => ⟨r.implLabel,t.1,t.2⟩)

def slices (r : ImplGroupedResult P D) (grouper : P → T) (mapper : P → ℤ) :
    Option (AList fun _ : T => Impl2DResult D) :=
  (r.groupBy grouper).map (mapValues fun group => group.map2D mapper)

def dices (r : ImplGroupedResult P D) (grouper : P → T) (mapper : P → ℤ × ℤ) :
    Option (AList fun _ : T => Impl3DResult D) :=
  (r.groupBy grouper).map (mapValues fun group => group.map3D mapper)

def sliceStep (r : ImplGroupedResult P D) (keep : P → Bool) (mapper : P → ℤ) (s : List ℤ × List D) (i : ℕ) :
    Option (List ℤ × List D) :=
  (r.params[i]?).bind fun p =>
    if keep p then (r.means[i]?).map fun mean => (s.1 ++ [mapper p],s.2 ++ [mean]) else some s

def diceStep (r : ImplGroupedResult P D) (keep : P → Bool) (mapper : P → ℤ × ℤ)
    (s : List ℤ × List ℤ × List D) (i : ℕ) : Option (List ℤ × List ℤ × List D) :=
  (r.params[i]?).bind fun p =>
    if keep p then
      (r.means[i]?).map fun mean => (s.1 ++ [(mapper p).1],s.2.1 ++ [(mapper p).2],s.2.2 ++ [mean])
    else some s

-- The loops run from 0 to the length of the parameters, and that included.
def slice (r : ImplGroupedResult P D) (keep : P → Bool) (mapper : P → ℤ) : Option (Impl2DResult D) :=
  if r.params.length = r.means.length then do
    let (newParams,newMeans) ← (List.range (r.params.length + 1)).foldlM (r.sliceStep keep mapper) ([],[])
    if newParams.length = newMeans.length then some ⟨r.implLabel,newParams,newMeans⟩ else none
  else none

def dice (r : ImplGroupedResult P D) (keep : P → Bool) (mapper : P → ℤ × ℤ) : Option (Impl3DResult D) :=
  if r.params.length = r.means.length then do
    let (newParams1,newParams2,newMeans) ←
      (List.range (r.params.length + 1)).foldlM (r.diceStep keep mapper) ([],[],[])
    if newParams1.length = newMeans.length ∧ newParams2.length = newMeans.length then
      some ⟨r.implLabel,newParams1,newParams2,newMeans⟩
    else none
  else none

-- The parameters that are kept, with their means.
def kept (r : ImplGroupedResult P D) (keep : P → Bool) : List (P × D) :=
  (r.params.zip r.means).filter fun e => keep e.1

def sliced (r : ImplGroupedResult P D) (keep : P → Bool) (mapper : P → ℤ) : Impl2DResult D :=
  ⟨r.implLabel,(r.kept keep).map fun e => mapper e.1,(r.kept keep).map Prod.snd⟩

def diced (r : ImplGroupedResult P D) (keep : P → Bool) (mapper : P → ℤ × ℤ) : Impl3DResult D :=
  ⟨r.implLabel,(r.kept keep).map fun e => (mapper e.1).1,(r.kept keep).map fun e => (mapper e.1).2,
    (r.kept keep).map Prod.snd⟩

end ImplGroupedResult

section Loops

theorem foreachIndexed_run (params : List P) (means : List D) (body : S → P → D → S) (s : S) :
    foreachIndexed params means body s =
      if params.length ≤ means.length then some ((params.zip means).foldl (fun s e => body s e.1 e.2) s)
      else none := by
  have offset : ∀ (params : List P) (k : ℕ) (s : S),
      (params.zipIdx k).foldlM (fun s e => (means[e.2]?).map (body s e.1)) s =
        if k + params.length ≤ k ⊔ means.length then
          some ((params.zip (means.drop k)).foldl (fun s e => body s e.1 e.2) s)
        else none := by
    intro params
    induction params with
    | nil =>
      intro k s
      simp
    | cons p params ih =>
      intro k s
      rw [List.zipIdx_cons,List.foldlM_cons]
      cases found : means[k]? with
      | none =>
        have short := List.getElem?_eq_none_iff.mp found
        rw [if_neg (by simp; omega)]
        rfl
      | some mean =>
        obtain ⟨bound,rfl⟩ := List.getElem?_eq_some_iff.mp found
        have same : k + 1 + params.length ≤ (k + 1) ⊔ means.length ↔
            k + (p :: params).length ≤ k ⊔ means.length := by
          rw [List.length_cons]
          omega
        rw [Option.map_some,Option.bind_eq_bind,Option.bind_some,ih,List.drop_eq_getElem_cons bound,
          List.zip_cons_cons,List.foldl_cons]
        simp only [same]
  have whole := offset params 0 s
  rw [Nat.zero_add,Nat.zero_max,List.drop_zero] at whole
  exact whole

-- The last round reads behind the end, whatever the others do.
theorem loop_panics {xs : List P} {body : S → ℕ → Option S} (s : S)
    (reads : ∀ s i, xs[i]? = none → body s i = none) :
    (List.range (xs.length + 1)).foldlM body s = none := by
  rw [List.range_succ,List.foldlM_append]
  cases (List.range xs.length).foldlM body s with
  | none => rfl
  | some last =>
    have read := reads last xs.length (List.getElem?_eq_none (Nat.le_refl _))
    simp [read]

end Loops

namespace ImplGroupedResult
variable {r : ImplGroupedResult P D}

theorem slice_panics (r : ImplGroupedResult P D) (keep : P → Bool) (mapper : P → ℤ) :
    r.slice keep mapper = none := by
  unfold slice
  split
  · rw [loop_panics]
    · rfl
    · intro s i missing
      rw [sliceStep,missing]
      rfl
  · rfl

theorem dice_panics (r : ImplGroupedResult P D) (keep : P → Bool) (mapper : P → ℤ × ℤ) :
    r.dice keep mapper = none := by
  unfold dice
  split
  · rw [loop_panics]
    · rfl
    · intro s i missing
      rw [diceStep,missing]
      rfl
  · rfl

variable [DecidableEq T]

theorem append_kept (xs : List (P × D)) : xs.foldl append ([],[]) = (xs.map Prod.fst,xs.map Prod.snd) := by
  induction xs using List.reverseRecOn with
  | nil => rfl
  | append_singleton xs x ih => simp [ih,append]

-- The group of a key: the parameters that have it, in order, each with its mean.
theorem groupBy_run (equal : r.params.length = r.means.length) (grouper : P → T) :
    ∃ groups, r.groupBy grouper = some groups ∧ ∀ t, groups.lookup t =
      if t ∈ r.params.map grouper then
        some ⟨r.implLabel,(r.kept fun p => grouper p = t).map Prod.fst,(r.kept fun p => grouper p = t).map Prod.snd⟩
      else none := by
  let keyed := (r.params.zip r.means).map fun e => (grouper e.1,e)
  have grouped : r.groupBy grouper = some (mapValues (fun t => ⟨r.implLabel,t.1,t.2⟩) (group ([],[]) append keyed)) := by
    rw [groupBy,foreachIndexed_run,if_pos equal.le,group,List.foldl_map]
    rfl
  have keys : keyed.map Prod.fst = r.params.map grouper := by
    rw [List.map_map]
    show (r.params.zip r.means).map (grouper ∘ Prod.fst) = _
    rw [← List.map_map,List.map_fst_zip equal.le]
  refine ⟨_,grouped,?_⟩
  intro t
  have members : (keyed.filter fun x => x.1 = t).map Prod.snd = r.kept fun p => grouper p = t := by
    rw [List.filter_map,List.map_map]
    exact List.map_id _
  rw [mapValues_lookup,group_lookup,keys]
  split
  · rw [total,members,append_kept]
    rfl
  · rfl

theorem slices_run (equal : r.params.length = r.means.length) (grouper : P → T) (mapper : P → ℤ) :
    ∃ groups, r.slices grouper mapper = some groups ∧ ∀ t, groups.lookup t =
      if t ∈ r.params.map grouper then some (r.sliced (fun p => grouper p = t) mapper) else none := by
  obtain ⟨groups,grouped,lookups⟩ := groupBy_run equal grouper
  refine ⟨_,by rw [slices,grouped]; rfl,?_⟩
  intro t
  rw [mapValues_lookup,lookups]
  split
  · simp [map2D,sliced]
  · rfl

theorem dices_run (equal : r.params.length = r.means.length) (grouper : P → T) (mapper : P → ℤ × ℤ) :
    ∃ groups, r.dices grouper mapper = some groups ∧ ∀ t, groups.lookup t =
      if t ∈ r.params.map grouper then some (r.diced (fun p => grouper p = t) mapper) else none := by
  obtain ⟨groups,grouped,lookups⟩ := groupBy_run equal grouper
  refine ⟨_,by rw [dices,grouped]; rfl,?_⟩
  intro t
  rw [mapValues_lookup,lookups]
  split
  · simp [map3D,diced]
  · rfl

-- The groups are the original pairs, each once.
theorem groups_partition (equal : r.params.length = r.means.length) (grouper : P → T) :
    ∃ groups, r.groupBy grouper = some groups ∧
      (groups.entries.flatMap fun e => e.2.params.zip e.2.means).Perm (r.params.zip r.means) := by
  obtain ⟨groups,grouped,lookups⟩ := groupBy_run equal grouper
  refine ⟨groups,grouped,?_⟩
  have pairs : (groups.entries.flatMap fun e => e.2.params.zip e.2.means) =
      groups.keys.flatMap fun t => (r.params.zip r.means).filter fun e => grouper e.1 = t := by
    rw [AList.keys,List.keys,List.flatMap_map]
    apply List.flatMap_congr
    intro e member
    have value := (lookups e.1).symm.trans (AList.mem_lookup_iff.mpr member)
    split at value
    · rw [← Option.some.inj value,List.zip_map']
      exact List.map_id _
    · cases value
  rw [pairs]
  apply keys_partition (fun e : P × D => grouper e.1) groups.keys_nodup
  intro e member
  have key : grouper e.1 ∈ r.params.map grouper := List.mem_map_of_mem (List.of_mem_zip member).1
  have present := (lookups (grouper e.1)).trans (if_pos key)
  rw [← AList.mem_keys,← AList.lookup_isSome,present]
  rfl

end ImplGroupedResult

section Filtering
variable [DecidableEq T]

-- What slicing is to be, for one result: the pairs that are kept, and the same from the groups.
structure Slicing (r : ImplGroupedResult P D) (keep : P → Bool) (grouper : P → T) (mapper : P → ℤ)
    (mapper3 : P → ℤ × ℤ) : Prop where
  slice : r.slice keep mapper = some (r.sliced keep mapper)
  dice : r.dice keep mapper3 = some (r.diced keep mapper3)
  slices : ∀ t, ((r.slices grouper mapper).bind fun groups => groups.lookup t) =
    r.slice (fun p => grouper p = t) mapper
  dices : ∀ t, ((r.dices grouper mapper3).bind fun groups => groups.lookup t) =
    r.dice (fun p => grouper p = t) mapper3
  partition : ∃ groups, r.groupBy grouper = some groups ∧
    (groups.entries.flatMap fun e => e.2.params.zip e.2.means).Perm (r.params.zip r.means)

-- Every call of `slice` and `dice` reads one element behind the last, also on an empty
-- result; `slices` and `dices` do not.
theorem slicing_never {r : ImplGroupedResult P D} (equal : r.params.length = r.means.length)
    (keep : P → Bool) (grouper : P → T) (mapper : P → ℤ) (mapper3 : P → ℤ × ℤ) :
    ¬Slicing r keep grouper mapper mapper3 ∧ r.slice keep mapper ≠ some (r.sliced keep mapper) ∧
      r.dice keep mapper3 ≠ some (r.diced keep mapper3) ∧ ∀ t ∈ r.params.map grouper,
        ((r.slices grouper mapper).bind fun groups => groups.lookup t) ≠ r.slice (fun p => grouper p = t) mapper ∧
        ((r.dices grouper mapper3).bind fun groups => groups.lookup t) ≠ r.dice (fun p => grouper p = t) mapper3 := by
  have slice : r.slice keep mapper ≠ some (r.sliced keep mapper) := by
    rw [r.slice_panics]
    exact (Option.some_ne_none _).symm
  have dice : r.dice keep mapper3 ≠ some (r.diced keep mapper3) := by
    rw [r.dice_panics]
    exact (Option.some_ne_none _).symm
  refine ⟨fun slicing => slice slicing.slice,slice,dice,?_⟩
  intro t key
  obtain ⟨groups,sliced,slices⟩ := ImplGroupedResult.slices_run equal grouper mapper
  obtain ⟨cubes,diced,dices⟩ := ImplGroupedResult.dices_run equal grouper mapper3
  rw [sliced,diced,r.slice_panics,r.dice_panics,Option.bind_some,Option.bind_some,slices,dices,if_pos key,if_pos key]
  exact ⟨Option.some_ne_none _,Option.some_ne_none _⟩

end Filtering

def runs : ImplGroupedResult ℤ ℕ := ⟨"impl",[1,2,4],[10,20,40]⟩

theorem slicing_never_runs : ¬Slicing runs (fun p => p < 3) (fun p => p) id (fun p => (p,p)) :=
  (slicing_never (by decide) (fun p => p < 3) (fun p => p) id (fun p => (p,p))).1

theorem slice_fails : runs.slice (fun _ => true) id = none ∧ runs.sliced (fun _ => true) id = ⟨"impl",[1,2,4],[10,20,40]⟩ ∧
    ¬Slicing runs (fun _ => true) (fun p => p) id (fun p => (p,p)) := by
  have panics : runs.slice (fun _ => true) id = none := by decide
  refine ⟨panics,by decide,?_⟩
  intro slicing
  cases panics.symm.trans slicing.slice

end KompicsBenches.ImplResults
