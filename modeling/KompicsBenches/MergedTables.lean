import KompicsBenches.ImplResults

namespace KompicsBenches.MergedTables
open Grouping ImplResults
variable {P D : Type*}

structure ImplNDResult where
  labels : List String
  rows : List (List String)
  dataColumnOffset : ℕ
  deriving DecidableEq, Repr

section Merges
variable [DecidableEq P] (render : D → String)

def pairs (table : AList fun _ : P => List String) : List (P × List String) :=
  table.entries.map fun e => (e.1,e.2)

-- One implementation: its label, and a cell in the row of each of its parameters.
def addImpl (s : List String × AList fun _ : P => List String) (label : String) (params : List P) (means : List D) :
    Option (List String × AList fun _ : P => List String) :=
  (foreachIndexed params means
    (fun columns p mean => put [] (fun row cell => row ++ [cell]) columns p (render mean)) s.2).map
    fun columns => (s.1 ++ [label],columns)

-- A map is the list of its entries in the order in which they are visited; `arrange` is the
-- order in which the rows leave their map. The number of parameter columns is that of the
-- row that is written last.
def merge (arrange : List (P × List String) → List (P × List String)) (paramMapper : P → List String)
    (input : List (String × ImplGroupedResult P D)) : Option ImplNDResult :=
  (input.foldlM (fun s e => addImpl render s e.1 e.2.params e.2.means) ([],∅)).map fun s =>
    let written := (arrange (pairs s.2)).foldl (fun (t : List (List String) × ℕ) e =>
      (t.1 ++ [paramMapper e.1 ++ e.2],(paramMapper e.1).length)) ([],0)
    ⟨s.1,written.1,written.2⟩

-- The other overload visits the labels, and writes the rows, in order.
def merge2D (labelLe : String → String → Bool) (input : List (String × Impl2DResult D)) : Option ImplNDResult :=
  ((input.mergeSort fun a b => labelLe a.1 b.1).foldlM
    (fun s e => addImpl render s e.1 e.2.params e.2.means) ([],∅)).map fun s =>
    ⟨s.1,((pairs s.2).mergeSort fun a b => decide (a.1 ≤ b.1)).map fun e => [toString e.1] ++ e.2,1⟩

end Merges

-- A label with its parameters and their means.
abbrev Measured (P D : Type*) := String × List P × List D

def measured (input : List (String × ImplGroupedResult P D)) : List (Measured P D) :=
  input.map fun e => (e.1,e.2.params,e.2.means)

def measured2D (input : List (String × Impl2DResult D)) : List (Measured ℤ D) :=
  input.map fun e => (e.1,e.2.params,e.2.means)

-- Every implementation has the parameters of every other.
def Uniform (input : List (Measured P D)) : Prop := ∀ e ∈ input, ∀ other ∈ input, ∀ p ∈ e.2.1, p ∈ other.2.1

def Covered (input : List (Measured P D)) (p : P) : Prop := ∃ e ∈ input, p ∈ e.2.1

def SameWidth (input : List (Measured P D)) (paramColumns : P → List String) : Prop :=
  ∀ p q, Covered input p → Covered input q → (paramColumns p).length = (paramColumns q).length

section Aligned
variable [DecidableEq P] (render : D → String) (missing : String)

def meanOf (e : Measured P D) (p : P) : Option D :=
  ((e.2.1.zip e.2.2).find? fun x => x.1 = p).map Prod.snd

-- What an implementation shows for a parameter.
def shown (e : Measured P D) (p : P) : String := ((meanOf e p).map render).getD missing

structure AlignedRow (input : List (Measured P D)) (paramColumns : P → List String) (labels : List String)
    (offset : ℕ) (p : P) (row : List String) : Prop where
  width : row.length = offset + labels.length
  params : row.take offset = paramColumns p
  data : ∀ j label, labels[j]? = some label → ∀ e ∈ input, e.1 = label → row[offset + j]? = some (shown render missing e p)

structure Aligned (input : List (Measured P D)) (paramColumns : P → List String) (result : ImplNDResult) : Prop where
  labels : result.labels.Perm (input.map Prod.fst)
  rows : ∃ params : List P, params.Nodup ∧ (∀ p, p ∈ params ↔ Covered input p) ∧
    List.Forall₂ (AlignedRow render missing input paramColumns result.labels result.dataColumnOffset) params result.rows

end Aligned

section Cells
variable [DecidableEq P] {render : D → String}

-- The cells of a parameter: one for each implementation that has it.
def cells (render : D → String) (input : List (Measured P D)) (p : P) : List String :=
  input.filterMap fun e => (meanOf e p).map render

def rowCells (render : D → String) (e : Measured P D) : List (P × String) :=
  (e.2.1.zip e.2.2).map fun x => (x.1,render x.2)

theorem addImpl_run {input : List (Measured P D)} {s : List String × AList fun _ : P => List String}
    (ran : input.foldlM (fun s e => addImpl render s e.1 e.2.1 e.2.2) ([],∅) = some s) :
    s.1 = input.map Prod.fst ∧ (∀ e ∈ input, e.2.1.length ≤ e.2.2.length) ∧
      s.2 = group [] (fun row cell => row ++ [cell]) (input.flatMap (rowCells render)) := by
  induction input using List.reverseRecOn generalizing s with
  | nil =>
    cases ran
    exact ⟨rfl,fun _ none => absurd none List.not_mem_nil,rfl⟩
  | append_singleton input e ih =>
    rw [List.foldlM_append] at ran
    obtain ⟨before,earlier,last⟩ := Option.bind_eq_some_iff.mp ran
    obtain ⟨labels,lengths,columns⟩ := ih earlier
    have added : addImpl render before e.1 e.2.1 e.2.2 = some s := by
      rw [List.foldlM_cons] at last
      obtain ⟨_,added,final⟩ := Option.bind_eq_some_iff.mp last
      cases final
      exact added
    rw [addImpl,foreachIndexed_run] at added
    split at added
    · rename_i enough
      cases added
      refine ⟨?_,?_,?_⟩
      · rw [labels,List.map_append]
        rfl
      · intro other member
        rcases List.mem_append.mp member with member | member
        · exact lengths other member
        · rw [List.mem_singleton.mp member]
          exact enough
      · show List.foldl _ before.2 _ = _
        rw [columns,List.flatMap_append,group,group,List.foldl_append,List.flatMap_singleton,rowCells,List.foldl_map]
    · cases added

omit [DecidableEq P] in
theorem rowCells_params {e : Measured P D} (lengths : e.2.1.length ≤ e.2.2.length) :
    (rowCells render e).map Prod.fst = e.2.1 := by
  rw [rowCells,List.map_map]
  exact List.map_fst_zip lengths

-- With each parameter once, an implementation gives a parameter at most one cell.
theorem rowCells_cell {e : Measured P D} (once : e.2.1.Nodup) (p : P) :
    ((rowCells render e).filter fun x => x.1 = p).map Prod.snd = ((meanOf e p).map render).toList := by
  obtain ⟨label,params,means⟩ := e
  unfold rowCells meanOf
  dsimp only at once ⊢
  induction params generalizing means with
  | nil => rfl
  | cons q params ih =>
    obtain ⟨apart,once⟩ := List.nodup_cons.mp once
    cases means with
    | nil => rfl
    | cons mean means =>
      by_cases same : q = p
      · subst same
        have nothing : (((params.zip means).map fun x => (x.1,render x.2)).filter fun x => x.1 = q) = [] := by
          rw [List.filter_eq_nil_iff]
          intro x member here
          obtain ⟨y,inside,rfl⟩ := List.mem_map.mp member
          exact apart (of_decide_eq_true here ▸ (List.of_mem_zip inside).1)
        simp [nothing]
      · have rest := ih means once
        simpa [same] using rest

theorem total_cells {input : List (Measured P D)} (once : ∀ e ∈ input, e.2.1.Nodup) (p : P) :
    total [] (fun row cell => row ++ [cell]) (input.flatMap (rowCells render)) p = cells render input p := by
  have appended (xs : List String) : xs.foldl (fun row cell => row ++ [cell]) [] = xs := by
    induction xs using List.reverseRecOn with
    | nil => rfl
    | append_singleton xs x ih => rw [List.foldl_append,ih]; rfl
  rw [total,appended,List.filter_flatMap,List.map_flatMap,cells,List.filterMap_eq_flatMap_toList]
  apply List.flatMap_congr
  intro e member
  exact rowCells_cell (once e member) p

-- The table of the merge: a row for each parameter that is covered, with its cells.
theorem pairs_group {input : List (Measured P D)} (once : ∀ e ∈ input, e.2.1.Nodup)
    (lengths : ∀ e ∈ input, e.2.1.length ≤ e.2.2.length) {table : AList fun _ : P => List String}
    (grouped : table = group [] (fun row cell => row ++ [cell]) (input.flatMap (rowCells render))) :
    ((pairs table).map Prod.fst).Nodup ∧ (∀ p, p ∈ (pairs table).map Prod.fst ↔ Covered input p) ∧
      ∀ x ∈ pairs table, x.2 = cells render input x.1 := by
  have keys : (pairs table).map Prod.fst = table.keys := by
    rw [pairs,List.map_map]
    rfl
  refine ⟨?_,?_,?_⟩
  · rw [keys]
    exact table.keys_nodup
  · intro p
    have params : (input.flatMap (rowCells render)).map Prod.fst = input.flatMap fun e => e.2.1 := by
      rw [List.map_flatMap]
      apply List.flatMap_congr
      intro e member
      exact rowCells_params (lengths e member)
    rw [keys,grouped,group_keys,params,List.mem_flatMap]
    rfl
  · intro x member
    obtain ⟨entry,inside,rfl⟩ := List.mem_map.mp member
    have value := AList.mem_lookup_iff.mpr inside
    rw [grouped,group_lookup] at value
    split at value
    · rw [total_cells once] at value
      exact (Option.some.inj value).symm
    · cases value

end Cells

section Alignment
variable [DecidableEq P] {render : D → String} {missing : String} {input order : List (Measured P D)}
  {paramColumns : P → List String} {result : ImplNDResult} {columns : List (P × List String)}

theorem meanOf_covered {e : Measured P D} (lengths : e.2.1.length ≤ e.2.2.length) (p : P) :
    (meanOf e p).isSome = true ↔ p ∈ e.2.1 := by
  have params : (e.2.1.zip e.2.2).map Prod.fst = e.2.1 := List.map_fst_zip lengths
  rw [meanOf,Option.isSome_map,List.find?_isSome]
  constructor
  · rintro ⟨x,member,same⟩
    rw [← params,← of_decide_eq_true same]
    exact List.mem_map_of_mem member
  · intro member
    rw [← params] at member
    obtain ⟨x,inside,rfl⟩ := List.mem_map.mp member
    exact ⟨x,inside,decide_eq_true rfl⟩

theorem cells_length (lengths : ∀ e ∈ input, e.2.1.length ≤ e.2.2.length) (p : P) :
    (cells render input p).length = input.length ↔ ∀ e ∈ input, p ∈ e.2.1 := by
  rw [cells,List.filterMap_length_eq_length]
  apply forall₂_congr
  intro e member
  rw [Option.isSome_map,meanOf_covered (lengths e member)]

theorem cells_shown (lengths : ∀ e ∈ input, e.2.1.length ≤ e.2.2.length) {p : P}
    (covered : ∀ e ∈ input, p ∈ e.2.1) : cells render input p = input.map fun e => shown render missing e p := by
  rw [cells,List.filterMap_eq_map_iff_forall_eq_some]
  intro e member
  obtain ⟨mean,found⟩ := Option.isSome_iff_exists.mp ((meanOf_covered (lengths e member) p).mpr (covered e member))
  rw [shown,found]
  rfl

-- Any table whose rows are the parameter columns and the cells of each covered parameter.
structure Tabulated (render : D → String) (order : List (Measured P D)) (paramColumns : P → List String)
    (columns : List (P × List String)) (result : ImplNDResult) : Prop where
  labels : result.labels = order.map Prod.fst
  rows : result.rows = columns.map fun x => paramColumns x.1 ++ x.2
  once : (columns.map Prod.fst).Nodup
  covered : ∀ p, p ∈ columns.map Prod.fst ↔ Covered order p
  cells : ∀ x ∈ columns, x.2 = cells render order x.1
  offset : SameWidth order paramColumns → ∀ p, Covered order p → result.dataColumnOffset = (paramColumns p).length

omit [DecidableEq P] in
theorem covered_perm (perm : order.Perm input) (p : P) : Covered order p ↔ Covered input p := by
  constructor
  · rintro ⟨e,member,inside⟩
    exact ⟨e,perm.mem_iff.mp member,inside⟩
  · rintro ⟨e,member,inside⟩
    exact ⟨e,perm.mem_iff.mpr member,inside⟩

theorem tabulated_aligned (perm : order.Perm input) (labels : (input.map Prod.fst).Nodup)
    (lengths : ∀ e ∈ order, e.2.1.length ≤ e.2.2.length)
    (tabulated : Tabulated render order paramColumns columns result)
    (uniform : Uniform input) (width : SameWidth input paramColumns) :
    Aligned render missing input paramColumns result := by
  refine ⟨?_,columns.map Prod.fst,tabulated.once,?_,?_⟩
  · rw [tabulated.labels]
    exact perm.map _
  · intro p
    rw [tabulated.covered,covered_perm perm]
  · rw [tabulated.rows,List.forall₂_map_left_iff,List.forall₂_map_right_iff,List.forall₂_same]
    intro x member
    have covered := (tabulated.covered x.1).mp (List.mem_map_of_mem member)
    have everywhere : ∀ e ∈ order, x.1 ∈ e.2.1 := by
      obtain ⟨first,inside,has⟩ := covered
      intro e other
      exact uniform first (perm.mem_iff.mp inside) e (perm.mem_iff.mp other) x.1 has
    have row : x.2 = order.map fun e => shown render missing e x.1 := by
      rw [tabulated.cells x member,cells_shown lengths everywhere]
    have offset : result.dataColumnOffset = (paramColumns x.1).length := by
      apply tabulated.offset ?_ x.1 covered
      intro p q left right
      exact width p q ((covered_perm perm p).mp left) ((covered_perm perm q).mp right)
    refine ⟨?_,?_,?_⟩
    · rw [List.length_append,offset,row,tabulated.labels,List.length_map,List.length_map]
    · rw [offset,List.take_left]
    · intro j label at_ e inside same
      rw [tabulated.labels,List.getElem?_map] at at_
      obtain ⟨other,found,labelled⟩ := Option.map_eq_some_iff.mp at_
      have equal : other = e := List.inj_on_of_nodup_map labels
        (perm.mem_iff.mp (List.mem_of_getElem? found)) inside (labelled.trans same.symm)
      rw [offset,List.getElem?_append_right (Nat.le_add_right _ _),Nat.add_sub_cancel_left,row,
        List.getElem?_map,found,equal]
      rfl

theorem matched_left {R : α → β → Prop} {xs : List α} {ys : List β} (matched : List.Forall₂ R xs ys) :
    ∀ x ∈ xs, ∃ y ∈ ys, R x y := by
  induction matched with
  | nil =>
    intro x none
    cases none
  | cons related rest ih =>
    intro x member
    rcases List.mem_cons.mp member with rfl | member
    · exact ⟨_,List.mem_cons_self,related⟩
    · obtain ⟨y,inside,found⟩ := ih x member
      exact ⟨y,List.mem_cons_of_mem _ inside,found⟩

-- A row that is aligned is as wide as the offset and the labels, so each of its implementations
-- has a cell in it.
theorem aligned_uniform (perm : order.Perm input) (lengths : ∀ e ∈ order, e.2.1.length ≤ e.2.2.length)
    (tabulated : Tabulated render order paramColumns columns result)
    (aligned : Aligned render missing input paramColumns result) :
    Uniform input ∧ SameWidth input paramColumns := by
  obtain ⟨params,_,covered,matched⟩ := aligned.rows
  have width : ∀ p, Covered input p → (paramColumns p).length = result.dataColumnOffset := by
    intro p covers
    obtain ⟨row,_,alignedRow⟩ := matched_left matched p ((covered p).mpr covers)
    have wide := alignedRow.width
    rw [← alignedRow.params,List.length_take]
    omega
  refine ⟨?_,?_⟩
  · intro e member other inside p has
    have covers : Covered input p := ⟨e,member,has⟩
    obtain ⟨x,tableRow,rfl⟩ := List.mem_map.mp ((tabulated.covered p).mpr ((covered_perm perm p).mpr covers))
    have written : paramColumns x.1 ++ x.2 ∈ result.rows := by
      rw [tabulated.rows]
      exact List.mem_map_of_mem tableRow
    obtain ⟨q,_,alignedRow⟩ := matched_left (List.Forall₂.flip (R := flip _) matched) _ written
    have wide := alignedRow.width
    rw [List.length_append,width x.1 covers,tabulated.labels,List.length_map,tabulated.cells x tableRow] at wide
    have full : (cells render order x.1).length = order.length := by omega
    exact (cells_length lengths x.1).mp full other (perm.mem_iff.mpr inside)
  · intro p q left right
    rw [width p left,width q right]

theorem tabulated_aligned_iff (perm : order.Perm input) (labels : (input.map Prod.fst).Nodup)
    (lengths : ∀ e ∈ order, e.2.1.length ≤ e.2.2.length)
    (tabulated : Tabulated render order paramColumns columns result) :
    Aligned render missing input paramColumns result ↔ Uniform input ∧ SameWidth input paramColumns :=
  ⟨aligned_uniform perm lengths tabulated,fun both => tabulated_aligned perm labels lengths tabulated both.1 both.2⟩

-- What leaves the map of the rows, in any order.
theorem tabulated_parts (once : ∀ e ∈ order, e.2.1.Nodup) (lengths : ∀ e ∈ order, e.2.1.length ≤ e.2.2.length)
    {table : AList fun _ : P => List String}
    (grouped : table = group [] (fun row cell => row ++ [cell]) (order.flatMap (rowCells render)))
    (arranged : columns.Perm (pairs table)) :
    (columns.map Prod.fst).Nodup ∧ (∀ p, p ∈ columns.map Prod.fst ↔ Covered order p) ∧
      ∀ x ∈ columns, x.2 = cells render order x.1 := by
  obtain ⟨nodup,covered,values⟩ := pairs_group once lengths grouped
  refine ⟨(arranged.map _).nodup_iff.mpr nodup,?_,?_⟩
  · intro p
    rw [(arranged.map Prod.fst).mem_iff,covered]
  · intro x member
    exact values x (arranged.mem_iff.mp member)

end Alignment

section Merged
variable [DecidableEq P] {render : D → String} {missing : String} {result : ImplNDResult}

omit [DecidableEq P] in
-- The loop that writes the rows: the last one leaves its number of parameter columns.
theorem written_rows (paramMapper : P → List String) (columns : List (P × List String)) :
    columns.foldl (fun (t : List (List String) × ℕ) e =>
      (t.1 ++ [paramMapper e.1 ++ e.2],(paramMapper e.1).length)) ([],0) =
      (columns.map fun x => paramMapper x.1 ++ x.2,
        (columns.getLast?.map fun x => (paramMapper x.1).length).getD 0) := by
  induction columns using List.reverseRecOn with
  | nil => rfl
  | append_singleton columns x ih => simp [ih]

theorem merge_tabulated {arrange : List (P × List String) → List (P × List String)}
    (arranged : ∀ columns, (arrange columns).Perm columns) {paramMapper : P → List String}
    {input : List (String × ImplGroupedResult P D)} (once : ∀ e ∈ input, e.2.params.Nodup)
    (merged : merge render arrange paramMapper input = some result) :
    (∀ e ∈ measured input, e.2.1.length ≤ e.2.2.length) ∧
      ∃ columns, Tabulated render (measured input) paramMapper columns result := by
  obtain ⟨s,ran,rfl⟩ := Option.map_eq_some_iff.mp merged
  have folded : (measured input).foldlM (fun s e => addImpl render s e.1 e.2.1 e.2.2) ([],∅) = some s := by
    rw [measured,List.foldlM_map]
    exact ran
  obtain ⟨labels,lengths,grouped⟩ := addImpl_run folded
  have params : ∀ e ∈ measured input, e.2.1.Nodup := by
    intro e member
    obtain ⟨f,inside,rfl⟩ := List.mem_map.mp member
    exact once f inside
  obtain ⟨nodup,covered,values⟩ := tabulated_parts params lengths grouped (arranged (pairs s.2))
  refine ⟨lengths,arrange (pairs s.2),labels,by rw [written_rows],nodup,covered,values,?_⟩
  intro width p covers
  have some_ : arrange (pairs s.2) ≠ [] := by
    intro none
    have member := (covered p).mpr covers
    rw [none] at member
    cases member
  have last := (covered _).mp (List.mem_map_of_mem (List.getLast_mem some_))
  rw [written_rows,List.getLast?_eq_some_getLast some_]
  exact width _ p last covers

theorem merge2D_tabulated {labelLe : String → String → Bool} {input : List (String × Impl2DResult D)}
    (once : ∀ e ∈ input, e.2.params.Nodup) (merged : merge2D render labelLe input = some result) :
    ∃ order, order.Perm (measured2D input) ∧ (∀ e ∈ order, e.2.1.length ≤ e.2.2.length) ∧
      ∃ columns, Tabulated render order (fun p => [toString p]) columns result := by
  obtain ⟨s,ran,rfl⟩ := Option.map_eq_some_iff.mp merged
  let order := measured2D (input.mergeSort fun a b => labelLe a.1 b.1)
  have perm : order.Perm (measured2D input) := (List.mergeSort_perm _ _).map _
  have folded : order.foldlM (fun s e => addImpl render s e.1 e.2.1 e.2.2) ([],∅) = some s := by
    rw [show order = measured2D _ from rfl,measured2D,List.foldlM_map]
    exact ran
  obtain ⟨labels,lengths,grouped⟩ := addImpl_run folded
  have params : ∀ e ∈ order, e.2.1.Nodup := by
    intro e member
    obtain ⟨f,inside,rfl⟩ := List.mem_map.mp (perm.mem_iff.mp member)
    exact once f inside
  have arranged : ((pairs s.2).mergeSort fun a b => decide (a.1 ≤ b.1)).Perm (pairs s.2) := List.mergeSort_perm _ _
  obtain ⟨nodup,covered,values⟩ := tabulated_parts params lengths grouped arranged
  exact ⟨order,perm,lengths,_,labels,rfl,nodup,covered,values,fun _ _ _ => rfl⟩

theorem addImpl_total {input : List (Measured P D)} (lengths : ∀ e ∈ input, e.2.1.length ≤ e.2.2.length)
    (s : List String × AList fun _ : P => List String) :
    (input.foldlM (fun s e => addImpl render s e.1 e.2.1 e.2.2) s).isSome = true := by
  induction input generalizing s with
  | nil => rfl
  | cons e input ih =>
    rw [List.forall_mem_cons] at lengths
    rw [List.foldlM_cons,addImpl,foreachIndexed_run,if_pos lengths.1]
    exact ih lengths.2 _

theorem merge2D_total {input : List (String × Impl2DResult D)} (labelLe : String → String → Bool)
    (lengths : ∀ e ∈ input, e.2.params.length ≤ e.2.means.length) :
    ∃ result, merge2D render labelLe input = some result := by
  apply Option.isSome_iff_exists.mp
  rw [merge2D,Option.isSome_map]
  have sorted : ∀ e ∈ measured2D (input.mergeSort fun a b => labelLe a.1 b.1), e.2.1.length ≤ e.2.2.length := by
    intro e member
    obtain ⟨f,inside,rfl⟩ := List.mem_map.mp member
    exact lengths f (List.mem_mergeSort.mp inside)
  have total : ((measured2D (input.mergeSort fun a b => labelLe a.1 b.1)).foldlM
      (fun s e => addImpl render s e.1 e.2.1 e.2.2) ([],∅)).isSome = true := addImpl_total sorted ([],∅)
  rw [measured2D,List.foldlM_map] at total
  exact total

-- Both merges append the cells of a row by position, so a row is aligned only if no
-- implementation is missing in it.
theorem merged_aligned_iff (render : D → String) (missing : String) :
    (∀ (arrange : List (P × List String) → List (P × List String)) (paramMapper : P → List String)
      (input : List (String × ImplGroupedResult P D)) (result : ImplNDResult),
      (∀ columns, (arrange columns).Perm columns) → (input.map Prod.fst).Nodup →
      (∀ e ∈ input, e.2.params.Nodup) → merge render arrange paramMapper input = some result →
      (Aligned render missing (measured input) paramMapper result ↔
        Uniform (measured input) ∧ SameWidth (measured input) paramMapper)) ∧
    ∀ (labelLe : String → String → Bool) (input : List (String × Impl2DResult D)) (result : ImplNDResult),
      (input.map Prod.fst).Nodup → (∀ e ∈ input, e.2.params.Nodup) → merge2D render labelLe input = some result →
      (Aligned render missing (measured2D input) (fun p => [toString p]) result ↔ Uniform (measured2D input)) := by
  refine ⟨?_,?_⟩
  · intro arrange paramMapper input result arranged labels once merged
    obtain ⟨lengths,columns,tabulated⟩ := merge_tabulated arranged once merged
    have names : ((measured input).map Prod.fst).Nodup := by
      rw [measured,List.map_map]
      exact labels
    exact tabulated_aligned_iff (List.Perm.refl _) names lengths tabulated
  · intro labelLe input result labels once merged
    obtain ⟨order,perm,lengths,columns,tabulated⟩ := merge2D_tabulated once merged
    have names : ((measured2D input).map Prod.fst).Nodup := by
      rw [measured2D,List.map_map]
      exact labels
    rw [tabulated_aligned_iff perm names lengths tabulated]
    exact and_iff_left fun _ _ _ _ => rfl

end Merged

def complete : List (String × ImplGroupedResult ℤ ℕ) :=
  [("akka",⟨"akka",[1,2],[10,20]⟩),("kompact",⟨"kompact",[2,1],[21,11]⟩)]

def complete2D : List (String × Impl2DResult ℕ) := complete.map fun e => (e.1,e.2.map2D id)

theorem merged_aligned_iff_complete :
    (∃ result, merge toString id (fun p => [toString p]) complete = some result ∧
      Aligned toString "" (measured complete) (fun p => [toString p]) result) ∧
    ∃ result, merge2D toString (fun a b => decide (a ≤ b)) complete2D = some result ∧
      Aligned toString "" (measured2D complete2D) (fun p => [toString p]) result := by
  obtain ⟨grouped,columns⟩ := merged_aligned_iff (P := ℤ) (D := ℕ) toString ""
  have uniform : Uniform (measured complete) := by
    unfold Uniform
    decide
  have once : ∀ e ∈ complete, e.2.params.Nodup := by decide
  have once2D : ∀ e ∈ complete2D, e.2.params.Nodup := by decide
  have names : (complete.map Prod.fst).Nodup := by decide
  have lengths : ∀ e ∈ complete2D, e.2.params.length ≤ e.2.means.length := by decide
  refine ⟨⟨_,rfl,?_⟩,?_⟩
  · exact (grouped id (fun p => [toString p]) complete _ (fun _ => List.Perm.refl _) names once rfl).mpr
      ⟨uniform,fun _ _ _ _ => rfl⟩
  · obtain ⟨result,merged⟩ : ∃ result, merge2D toString (fun a b => decide (a ≤ b)) complete2D = some result :=
      merge2D_total _ lengths
    exact ⟨result,merged,(columns _ complete2D result names once2D merged).mpr uniform⟩

def partly : List (String × ImplGroupedResult ℤ ℕ) :=
  [("akka",⟨"akka",[1],[10]⟩),("kompact",⟨"kompact",[1,2],[11,21]⟩)]

-- The first implementation has no result for the parameter 2: the mean of the second stands in
-- its column, whatever the order of the rows and the marker.
theorem partly_shifted :
    merge toString id (fun p => [toString p]) partly = some ⟨["akka","kompact"],[["2","21"],["1","10","11"]],1⟩ ∧
      ∀ missing, ¬Aligned toString missing (measured partly) (fun p => [toString p])
        ⟨["akka","kompact"],[["2","21"],["1","10","11"]],1⟩ := by
  refine ⟨rfl,?_⟩
  intro missing aligned
  obtain ⟨params,_,_,matched⟩ := aligned.rows
  obtain ⟨p,_,row⟩ := matched_left (List.Forall₂.flip (R := flip _) matched) ["2","21"] List.mem_cons_self
  exact absurd row.width (by decide)

end KompicsBenches.MergedTables
