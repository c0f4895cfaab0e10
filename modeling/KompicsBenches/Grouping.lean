import Mathlib

namespace KompicsBenches.Grouping
variable {K V W A : Type*} [DecidableEq K]

-- A table with a value for each key, filled one element at a time: the first element of a
-- key finds an empty value.
def put (empty : V) (add : V → A → V) (table : AList fun _ : K => V) (key : K) (a : A) : AList fun _ : K => V :=
  table.insert key (add ((table.lookup key).getD empty) a)

def group (empty : V) (add : V → A → V) (xs : List (K × A)) : AList fun _ : K => V :=
  xs.foldl (fun table x => put empty add table x.1 x.2) ∅

-- What the elements of one key add up to.
def total (empty : V) (add : V → A → V) (xs : List (K × A)) (key : K) : V :=
  ((xs.filter fun x => x.1 = key).map Prod.snd).foldl add empty

section Groups
variable {empty : V} {add : V → A → V} {xs : List (K × A)} {key : K}

theorem group_snoc (x : K × A) : group empty add (xs ++ [x]) = put empty add (group empty add xs) x.1 x.2 := by
  simp [group]

theorem total_snoc (x : K × A) : total empty add (xs ++ [x]) key =
    if x.1 = key then add (total empty add xs key) x.2 else total empty add xs key := by
  by_cases same : x.1 = key
  · simp [total,same]
  · simp [total,same]

theorem total_none (missing : key ∉ xs.map Prod.fst) : total empty add xs key = empty := by
  have nothing : (xs.filter fun x => x.1 = key) = [] := by
    rw [List.filter_eq_nil_iff]
    intro x member same
    exact missing (List.mem_map.mpr ⟨x,member,of_decide_eq_true same⟩)
  rw [total,nothing]
  rfl

theorem group_lookup (xs : List (K × A)) (key : K) : (group empty add xs).lookup key =
    if key ∈ xs.map Prod.fst then some (total empty add xs key) else none := by
  induction xs using List.reverseRecOn with
  | nil => rfl
  | append_singleton xs x ih =>
    rw [group_snoc,put,total_snoc]
    by_cases same : x.1 = key
    · subst same
      have before : ((group empty add xs).lookup x.1).getD empty = total empty add xs x.1 := by
        rw [ih]
        split
        · rfl
        · rename_i missing
          exact (total_none missing).symm
      rw [AList.lookup_insert,before]
      simp
    · have keys : key ∈ (xs ++ [x]).map Prod.fst ↔ key ∈ xs.map Prod.fst := by
        rw [List.map_append,List.mem_append,or_iff_left]
        exact fun last => same (List.mem_singleton.mp last).symm
      rw [AList.lookup_insert_ne (Ne.symm same),ih,if_neg same]
      simp only [keys]

theorem group_keys (xs : List (K × A)) (key : K) : key ∈ (group empty add xs).keys ↔ key ∈ xs.map Prod.fst := by
  rw [← AList.mem_keys,← AList.lookup_isSome,group_lookup]
  split <;> simp_all

end Groups

section Values

def mapValues (f : V → W) (table : AList fun _ : K => V) : AList fun _ : K => W :=
  ⟨table.entries.map fun e => ⟨e.1,f e.2⟩,by
    have keys : (table.entries.map fun e => (⟨e.1,f e.2⟩ : Sigma fun _ : K => W)).keys = table.keys := by
      simp [List.keys,AList.keys,Function.comp_def]
    rw [List.NodupKeys,keys]
    exact table.keys_nodup⟩

theorem mapValues_lookup (f : V → W) (table : AList fun _ : K => V) (key : K) :
    (mapValues f table).lookup key = (table.lookup key).map f := List.dlookup_map₂ (f := fun _ => f) key

end Values

-- The elements of all keys, key by key, are the elements.
theorem keys_partition (key : A → K) {keys : List K} (once : keys.Nodup) {xs : List A}
    (covered : ∀ x ∈ xs, key x ∈ keys) : (keys.flatMap fun k => xs.filter fun x => key x = k).Perm xs := by
  induction keys generalizing xs with
  | nil =>
    cases xs with
    | nil => rfl
    | cons x xs => cases covered x List.mem_cons_self
  | cons k keys ih =>
    obtain ⟨apart,once⟩ := List.nodup_cons.mp once
    let others := xs.filter fun x => !decide (key x = k)
    have rest : (keys.flatMap fun k => others.filter fun x => key x = k).Perm others := by
      apply ih once
      intro x member
      obtain ⟨inside,other⟩ := List.mem_filter.mp member
      have other : key x ≠ k := by simpa using other
      exact (List.mem_cons.mp (covered x inside)).resolve_left other
    have same : (keys.flatMap fun k => xs.filter fun x => key x = k) =
        keys.flatMap fun k => others.filter fun x => key x = k := by
      apply List.flatMap_congr
      intro other member
      rw [List.filter_filter]
      apply List.filter_congr
      intro x _
      by_cases here : key x = other
      · have different : key x ≠ k := by
          rintro rfl
          exact apart (here ▸ member)
        simp [here,here ▸ different]
      · simp [here]
    rw [List.flatMap_cons,same]
    exact (rest.append_left _).trans (List.filter_append_perm _ xs)

end KompicsBenches.Grouping
