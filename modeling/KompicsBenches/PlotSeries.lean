import Mathlib

namespace KompicsBenches.PlotSeries
variable {P Q T R V : Type*}

-- A double that was computed is a number of a field; the mark for a missing value, which is
-- not a number, is `none`. `none` is an exception where a function may fail.
structure Statistics (R : Type*) where
  sampleMean : R
  sampleStandardDeviation : R
  standardErrorOfTheMean : R
  relativeErrorOfTheMean : R
  symmetricConfidenceInterval95 : R × R
  deriving DecidableEq, Repr

-- The assertion of the constructor is a field.
structure ImplGroupedResult (P R : Type*) where
  implLabel : String
  params : List P
  stats : List (Statistics R)
  matched : params.length = stats.length

structure DataSeries (R : Type*) where
  meta_ : List (String × String)
  data : List (Option R)
  deriving DecidableEq, Repr

structure ErrorBarSeries (R : Type*) where
  meta_ : List (String × String)
  data : List (Option (R × R))
  deriving DecidableEq, Repr

-- The loop over the labels: an entry that does not have the expected label is left for later.
def placeStep [DecidableEq T] (labels : List T) (count : ℕ) (actual : ℕ → Option T) (value : ℕ → Option V)
    (s : List (Option V) × ℕ) (i : ℕ) : Option (List (Option V) × ℕ) :=
  (labels[i]?).bind fun expected =>
    let localPosition := i - s.2
    if localPosition < count then
      (actual localPosition).bind fun found =>
        if found = expected then (value localPosition).map fun v => (s.1 ++ [some v],s.2)
        else some (s.1 ++ [none],s.2 + 1)
    else some (s.1 ++ [none],s.2)

def place [DecidableEq T] (labels : List T) (count : ℕ) (actual : ℕ → Option T) (value : ℕ → Option V) :
    Option (List (Option V)) :=
  ((List.range labels.length).foldlM (placeStep labels count actual value) ([],0)).map Prod.fst

namespace ImplGroupedResult

def mapParams (r : ImplGroupedResult P R) (f : P → Q) : ImplGroupedResult Q R :=
  ⟨r.implLabel,r.params.map f,r.stats,by rw [List.length_map,r.matched]⟩

def sortParamsBy [LinearOrder T] (r : ImplGroupedResult P R) (extract : P → T) : ImplGroupedResult P R :=
  let sorted := (r.params.zip r.stats).mergeSort fun a b => decide (extract a.1 ≤ extract b.1)
  ⟨r.implLabel,sorted.map Prod.fst,sorted.map Prod.snd,by rw [List.length_map,List.length_map]⟩

def sortParams [LinearOrder P] (r : ImplGroupedResult P R) : ImplGroupedResult P R := r.sortParamsBy id

def paramSet [DecidableEq T] (r : ImplGroupedResult P R) (f : P → T) : Finset T := (r.params.map f).toFinset

section Series
variable [LinearOrder T] (r : ImplGroupedResult P R) (f : P → T) (labels : List T)

def map2D : Option (DataSeries R) :=
  if r.params.length ≤ labels.length ∧ r.stats.length ≤ labels.length then
    let sorted := (r.mapParams f).sortParams
    (place labels r.params.length (fun k => sorted.params[k]?)
      fun k => (sorted.stats[k]?).map Statistics.sampleMean).map fun series => ⟨[("name",r.implLabel)],series⟩
  else none

def map2DWithCalc (calculate : P → Statistics R → R) : Option (DataSeries R) :=
  if r.params.length ≤ labels.length ∧ r.stats.length ≤ labels.length then
    let sorted := (r.mapParams fun p => (f p,p)).sortParamsBy Prod.fst
    (place labels r.params.length (fun k => (sorted.params[k]?).map Prod.fst) fun k =>
      (sorted.params[k]?).bind fun p => (sorted.stats[k]?).map fun stats => calculate p.2 stats).map
      fun series => ⟨[("name",r.implLabel)],series⟩
  else none

-- The two kinds of bars go through the parameters as they are stored.
def map2DErrorBars [Add R] [Sub R] : Option (ErrorBarSeries R) :=
  (place labels r.params.length (fun k => (r.params[k]?).map f) fun k =>
    (r.stats[k]?).map fun stats =>
      let mean := stats.sampleMean
      (mean - stats.standardErrorOfTheMean,mean + stats.standardErrorOfTheMean)).map
    fun series => ⟨[("name",r.implLabel ++ " error"),("type","errorbar")],series⟩

def mapCI95Bars : Option (ErrorBarSeries R) :=
  (place labels r.params.length (fun k => (r.params[k]?).map f) fun k =>
    (r.stats[k]?).map Statistics.symmetricConfidenceInterval95).map
    fun series => ⟨[("name",r.implLabel ++ " ci95"),("type","errorbar")],series⟩

end Series

end ImplGroupedResult

-- The labels of a plot: the mapped parameters of all implementations, in order.
def paramSeries [LinearOrder T] (results : List (String × ImplGroupedResult P R)) (f : P → T) : List T :=
  let sets := results.map fun e => e.2.paramSet f
  (sets.foldl (fun acc params => acc ∪ params) ∅).sort (· ≤ ·)

section Merging
variable [DecidableEq T] {labels : List T} {entries : List (T × V)}

-- The loop as a recursion over the labels and the entries that are left.
def mergeLabels : List T → List (T × V) → List (Option V)
  | [], _ => []
  | _ :: labels, [] => none :: mergeLabels labels []
  | label :: labels, e :: entries =>
    if e.1 = label then some e.2 :: mergeLabels labels entries else none :: mergeLabels labels (e :: entries)

def valueOf (entries : List (T × V)) (label : T) : Option V := (entries.find? fun e => e.1 = label).map Prod.snd

theorem place_from {suffix : List T} {i offset : ℕ} (done : List (Option V)) (rest : labels.drop i = suffix)
    (behind : offset ≤ i) :
    ((List.range' i suffix.length).foldlM (placeStep labels entries.length (fun k => (entries[k]?).map Prod.fst)
      fun k => (entries[k]?).map Prod.snd) (done,offset)).map Prod.fst =
      some (done ++ mergeLabels suffix (entries.drop (i - offset))) := by
  induction suffix generalizing i offset done with
  | nil => simp [mergeLabels]
  | cons label suffix ih =>
    have here : labels[i]? = some label := by
      rw [← List.head?_drop,rest]
      rfl
    have later : labels.drop (i + 1) = suffix := by
      rw [← List.drop_drop,rest]
      rfl
    rw [List.length_cons,List.range'_succ,List.foldlM_cons,placeStep,here,Option.bind_some]
    dsimp only
    by_cases left : i - offset < entries.length
    · have next : i + 1 - offset = i - offset + 1 := by omega
      have stays : i + 1 - (offset + 1) = i - offset := by omega
      have first := List.drop_eq_getElem_cons left
      rw [if_pos left,List.getElem?_eq_getElem left,Option.map_some,Option.bind_some]
      by_cases same : entries[i - offset].1 = label
      · have continued := ih (done ++ [some entries[i - offset].2]) later (show offset ≤ i + 1 by omega)
        rw [if_pos same,first,mergeLabels,if_pos same]
        rw [next,List.append_assoc] at continued
        exact continued
      · have continued := ih (done ++ [none]) later (show offset + 1 ≤ i + 1 by omega)
        rw [if_neg same,first,mergeLabels,if_neg same,← first]
        rw [stays,List.append_assoc] at continued
        exact continued
    · have over_ : entries.drop (i - offset) = [] := List.drop_eq_nil_of_le (by omega)
      have after : entries.drop (i + 1 - offset) = [] := List.drop_eq_nil_of_le (by omega)
      have continued := ih (done ++ [none]) later (show offset ≤ i + 1 by omega)
      rw [if_neg left,over_,mergeLabels]
      rw [after,List.append_assoc] at continued
      exact continued

-- Whatever the entries and the labels.
theorem place_run (labels : List T) (entries : List (T × V)) :
    place labels entries.length (fun k => (entries[k]?).map Prod.fst) (fun k => (entries[k]?).map Prod.snd) =
      some (mergeLabels labels entries) := by
  rw [place,List.range_eq_range']
  exact place_from [] rfl (Nat.le_refl 0)

theorem place_entries (labels : List T) (entries : List (T × V)) {count : ℕ} {actual : ℕ → Option T}
    {value : ℕ → Option V} (length : count = entries.length) (keys : ∀ k, actual k = (entries.map Prod.fst)[k]?)
    (values : ∀ k, value k = (entries.map Prod.snd)[k]?) :
    place labels count actual value = some (mergeLabels labels entries) := by
  have same := place_run labels entries
  simp only [← List.getElem?_map,← keys,← values,← length] at same
  exact same

end Merging

section Ordered
variable [LinearOrder T] {labels : List T} {entries : List (T × V)}

theorem valueOf_none {label : T} : valueOf entries label = none ↔ label ∉ entries.map Prod.fst := by
  rw [valueOf,Option.map_eq_none_iff,List.find?_eq_none]
  simp only [decide_eq_true_eq,List.mem_map,not_exists,not_and]

theorem valueOf_cons_ne {e : T × V} {label : T} (other : e.1 ≠ label) :
    valueOf (e :: entries) label = valueOf entries label := by
  rw [valueOf,List.find?_cons_of_neg (by simpa using other)]
  rfl

theorem valueOf_cons_eq (e : T × V) : valueOf (e :: entries) e.1 = some e.2 := by
  simp [valueOf]

theorem mergeLabels_nil (labels : List T) :
    mergeLabels labels ([] : List (T × V)) = labels.map (valueOf []) := by
  induction labels with
  | nil => rfl
  | cons label labels ih => rw [mergeLabels,ih,List.map_cons]; rfl

omit [LinearOrder T] in
theorem covered_rest {label : T} (covered : ∀ e ∈ entries, e.1 ∈ label :: labels)
    (missing : label ∉ entries.map Prod.fst) : ∀ e ∈ entries, e.1 ∈ labels := by
  intro e member
  refine (List.mem_cons.mp (covered e member)).resolve_left ?_
  intro equal
  exact missing (equal ▸ List.mem_map_of_mem member)

-- The merge gives every label its value if and only if the entries are in order: an entry
-- that stands before a smaller one holds it up.
theorem mergeLabels_iff (ordered : labels.Pairwise (· < ·)) (once : (entries.map Prod.fst).Nodup)
    (covered : ∀ e ∈ entries, e.1 ∈ labels) : mergeLabels labels entries = labels.map (valueOf entries) ↔
      (entries.map Prod.fst).Pairwise (· < ·) := by
  induction labels generalizing entries with
  | nil =>
    cases entries with
    | nil => simp [mergeLabels]
    | cons e entries => cases covered e List.mem_cons_self
  | cons label labels ih =>
    obtain ⟨least,increasing⟩ := List.pairwise_cons.mp ordered
    cases entries with
    | nil => simp [mergeLabels_nil]
    | cons e entries =>
      obtain ⟨apart,onceRest⟩ := List.nodup_cons.mp once
      by_cases same : e.1 = label
      · subst same
        have rest := covered_rest (fun x member => covered x (List.mem_cons_of_mem _ member)) apart
        have tails : labels.map (valueOf (e :: entries)) = labels.map (valueOf entries) := by
          apply List.map_congr_left
          intro other member
          exact valueOf_cons_ne (least other member).ne
        have first : ∀ key ∈ entries.map Prod.fst, e.1 < key := by
          intro key member
          obtain ⟨x,inside,rfl⟩ := List.mem_map.mp member
          exact least x.1 (rest x inside)
        rw [mergeLabels,if_pos rfl,List.map_cons,valueOf_cons_eq,tails,List.cons_inj_right,ih increasing onceRest rest,
          List.map_cons,List.pairwise_cons]
        exact (and_iff_right first).symm
      · have later : e.1 ∈ labels := (List.mem_cons.mp (covered e List.mem_cons_self)).resolve_left same
        rw [mergeLabels,if_neg same,List.map_cons]
        by_cases behind : label ∈ (e :: entries).map Prod.fst
        · constructor
          · intro equal
            cases valueOf_none.mp (List.cons.inj equal).1.symm behind
          · intro sorted
            have smaller := (List.pairwise_cons.mp sorted).1 label
              ((List.mem_cons.mp behind).resolve_left (Ne.symm same))
            exact absurd smaller (least e.1 later).not_gt
        · rw [valueOf_none.mpr behind,List.cons_inj_right,ih increasing once (covered_rest covered behind)]

theorem valueOf_some (once : (entries.map Prod.fst).Nodup) {label : T} {v : V} :
    valueOf entries label = some v ↔ (label,v) ∈ entries := by
  induction entries with
  | nil => simp [valueOf]
  | cons e entries ih =>
    obtain ⟨apart,once⟩ := List.nodup_cons.mp once
    by_cases same : e.1 = label
    · subst same
      have elsewhere : (e.1,v) ∉ entries := fun member => apart (List.mem_map.mpr ⟨_,member,rfl⟩)
      rw [valueOf_cons_eq,List.mem_cons,or_iff_left elsewhere,Option.some_inj,Prod.ext_iff]
      simp [eq_comm]
    · have other : (label,v) ≠ e := fun equal => same (congrArg Prod.fst equal).symm
      rw [valueOf_cons_ne same,ih once,List.mem_cons,or_iff_right other]

-- The value of a label is that of its entry, in whatever order the entries are.
theorem valueOf_perm {other : List (T × V)} (once : (entries.map Prod.fst).Nodup) (perm : other.Perm entries)
    (label : T) : valueOf other label = valueOf entries label := by
  apply Option.ext
  intro v
  have onceOther : (other.map Prod.fst).Nodup := (perm.map _).nodup_iff.mpr once
  exact (valueOf_some onceOther).trans (perm.mem_iff.trans (valueOf_some once).symm)

-- Entries that are sorted first always meet their labels.
theorem mergeLabels_sorted {sorted : List (T × V)} (ordered : labels.Pairwise (· < ·))
    (once : (entries.map Prod.fst).Nodup) (covered : ∀ e ∈ entries, e.1 ∈ labels) (perm : sorted.Perm entries)
    (increasing : sorted.Pairwise fun a b => a.1 ≤ b.1) :
    mergeLabels labels sorted = labels.map (valueOf entries) := by
  have onceSorted : (sorted.map Prod.fst).Nodup := (perm.map _).nodup_iff.mpr once
  have strict : (sorted.map Prod.fst).Pairwise (· < ·) := by
    have both := (List.pairwise_map.mpr increasing : (sorted.map Prod.fst).Pairwise (· ≤ ·)).and onceSorted
    exact both.imp fun h => lt_of_le_of_ne h.1 h.2
  have same : labels.map (valueOf sorted) = labels.map (valueOf entries) :=
    List.map_congr_left fun label _ => valueOf_perm once perm label
  rw [← same]
  exact (mergeLabels_iff ordered onceSorted fun e member => covered e (perm.mem_iff.mp member)).mpr strict

end Ordered

section Results

-- The entries of a result, by their mapped parameters, with something computed from each.
def ImplGroupedResult.entries (r : ImplGroupedResult P R) (f : P → T) (value : P → Statistics R → V) : List (T × V) :=
  (r.params.zip r.stats).map fun e => (f e.1,value e.1 e.2)

-- What a series is to be: for each label what is computed from its entry, and the mark
-- where there is none.
def ImplGroupedResult.series [DecidableEq T] (r : ImplGroupedResult P R) (f : P → T) (labels : List T)
    (value : P → Statistics R → V) : List (Option V) := labels.map (valueOf (r.entries f value))

variable {r : ImplGroupedResult P R} {f : P → T} {value : P → Statistics R → V}

theorem entries_keys : (r.entries f value).map Prod.fst = r.params.map f := by
  rw [ImplGroupedResult.entries,List.map_map]
  show (r.params.zip r.stats).map (f ∘ Prod.fst) = _
  rw [← List.map_map,List.map_fst_zip r.matched.le]

theorem entries_values {g : Statistics R → V} : (r.entries f fun _ stats => g stats).map Prod.snd = r.stats.map g := by
  rw [ImplGroupedResult.entries,List.map_map]
  show (r.params.zip r.stats).map (g ∘ Prod.snd) = _
  rw [← List.map_map,List.map_snd_zip r.matched.ge]

theorem valueOf_entries [DecidableEq T] (label : T) : valueOf (r.entries f value) label =
    ((r.params.zip r.stats).find? fun e => f e.1 = label).map fun e => value e.1 e.2 := by
  rw [valueOf,ImplGroupedResult.entries,List.find?_map,Option.map_map]
  rfl

theorem entries_length : (r.entries f value).length = r.params.length := by
  rw [ImplGroupedResult.entries,List.length_map,List.length_zip,← r.matched,Nat.min_self]

end Results

section Series
variable [LinearOrder T] {r : ImplGroupedResult P R} {f : P → T} {labels : List T}

omit [LinearOrder T] in
theorem entries_covered (covered : ∀ p ∈ r.params, f p ∈ labels) {value : P → Statistics R → V} :
    ∀ e ∈ r.entries f value, e.1 ∈ labels := by
  intro e member
  have key : e.1 ∈ (r.entries f value).map Prod.fst := List.mem_map_of_mem member
  rw [entries_keys] at key
  obtain ⟨p,inside,same⟩ := List.mem_map.mp key
  exact same ▸ covered p inside

omit [LinearOrder T] in
theorem enough_labels (injective : (r.params.map f).Nodup) (covered : ∀ p ∈ r.params, f p ∈ labels) :
    r.params.length ≤ labels.length ∧ r.stats.length ≤ labels.length := by
  have count : (r.params.map f).length ≤ labels.length := by
    apply (injective.subperm ?_).length_le
    intro key member
    obtain ⟨p,inside,rfl⟩ := List.mem_map.mp member
    exact covered p inside
  rw [List.length_map] at count
  exact ⟨count,r.matched ▸ count⟩

variable (increasing : labels.Pairwise (· < ·)) (injective : (r.params.map f).Nodup)
  (covered : ∀ p ∈ r.params, f p ∈ labels)
include increasing injective covered

-- The stored order: right only when it is the order of the labels.
theorem stored_iff (value : P → Statistics R → V) :
    mergeLabels labels (r.entries f value) = r.series f labels value ↔ (r.params.map f).Pairwise (· < ·) := by
  have merged : mergeLabels labels (r.entries f value) = labels.map (valueOf (r.entries f value)) ↔
      ((r.entries f value).map Prod.fst).Pairwise (· < ·) :=
    mergeLabels_iff increasing (by rwa [entries_keys]) (entries_covered covered)
  rwa [entries_keys] at merged

-- The two series that sort first, each by its own keys.
theorem sorted_place (key : Q → T) (g : Q → Statistics R → V) {pairs : List (Q × Statistics R)}
    {value : P → Statistics R → V} {sorted : List (Q × Statistics R)}
    (sorts : sorted = pairs.mergeSort fun a b => decide (key a.1 ≤ key b.1))
    (same : (pairs.map fun e => (key e.1,g e.1 e.2)) = r.entries f value) :
    place labels r.params.length (fun k => ((sorted.map Prod.fst)[k]?).map key)
      (fun k => ((sorted.map Prod.fst)[k]?).bind fun q => ((sorted.map Prod.snd)[k]?).map (g q)) =
      some (r.series f labels value) := by
  let placed := sorted.map fun e => (key e.1,g e.1 e.2)
  have perm : placed.Perm (r.entries f value) := by
    rw [← same,show placed = sorted.map _ from rfl,sorts]
    exact (List.mergeSort_perm _ _).map _
  have ordered : placed.Pairwise fun a b => a.1 ≤ b.1 := by
    apply List.pairwise_map.mpr
    have steps : sorted.Pairwise fun a b => decide (key a.1 ≤ key b.1) = true := by
      rw [sorts]
      apply List.pairwise_mergeSort
      · intro a b c left right
        exact decide_eq_true (le_trans (of_decide_eq_true left) (of_decide_eq_true right))
      · intro a b
        simpa using le_total (key a.1) (key b.1)
    exact steps.imp fun step => of_decide_eq_true step
  have merged : mergeLabels labels placed = r.series f labels value :=
    mergeLabels_sorted increasing (by rwa [entries_keys]) (entries_covered covered) perm ordered
  rw [← merged]
  refine place_entries labels placed ?_ ?_ ?_
  · rw [perm.length_eq,entries_length]
  · intro k
    simp only [placed,List.getElem?_map,Option.map_map]
    rfl
  · intro k
    simp only [placed,List.getElem?_map]
    cases sorted[k]? <;> rfl

theorem map2D_run : r.map2D f labels =
    some ⟨[("name",r.implLabel)],r.series f labels fun _ stats => stats.sampleMean⟩ := by
  let sorted := ((r.params.map f).zip r.stats).mergeSort fun a b => decide (a.1 ≤ b.1)
  have pairs : (((r.params.map f).zip r.stats).map fun e => (id e.1,e.2.sampleMean)) =
      r.entries f fun _ stats => stats.sampleMean := by
    rw [List.zip_map_left,List.map_map]
    rfl
  have sorts : sorted = ((r.params.map f).zip r.stats).mergeSort fun a b => decide (id a.1 ≤ id b.1) := rfl
  have placed := sorted_place increasing injective covered id (fun _ stats => stats.sampleMean) sorts pairs
  have keys : ∀ k : ℕ, ((sorted.map Prod.fst)[k]?).map id = (sorted.map Prod.fst)[k]? := fun k => Option.map_id_apply
  have values : ∀ k : ℕ, (((sorted.map Prod.fst)[k]?).bind fun _ => ((sorted.map Prod.snd)[k]?).map Statistics.sampleMean) =
      ((sorted.map Prod.snd)[k]?).map Statistics.sampleMean := by
    intro k
    simp only [List.getElem?_map]
    cases sorted[k]? <;> rfl
  simp only [keys,values] at placed
  rw [ImplGroupedResult.map2D,if_pos (enough_labels injective covered)]
  show (place labels r.params.length (fun k => (sorted.map Prod.fst)[k]?)
      fun k => ((sorted.map Prod.snd)[k]?).map Statistics.sampleMean).map _ = _
  rw [placed]
  rfl

theorem map2DWithCalc_run (calculate : P → Statistics R → R) : r.map2DWithCalc f labels calculate =
    some ⟨[("name",r.implLabel)],r.series f labels calculate⟩ := by
  let sorted := ((r.params.map fun p => (f p,p)).zip r.stats).mergeSort fun a b => decide (a.1.1 ≤ b.1.1)
  have pairs : (((r.params.map fun p => (f p,p)).zip r.stats).map fun e => (e.1.1,calculate e.1.2 e.2)) =
      r.entries f calculate := by
    rw [List.zip_map_left,List.map_map]
    rfl
  have sorts : sorted = ((r.params.map fun p => (f p,p)).zip r.stats).mergeSort
      fun a b => decide (Prod.fst a.1 ≤ Prod.fst b.1) := rfl
  have placed := sorted_place increasing injective covered Prod.fst (fun p stats => calculate p.2 stats) sorts pairs
  rw [ImplGroupedResult.map2DWithCalc,if_pos (enough_labels injective covered)]
  show (place labels r.params.length (fun k => ((sorted.map Prod.fst)[k]?).map Prod.fst)
      fun k => ((sorted.map Prod.fst)[k]?).bind fun p => ((sorted.map Prod.snd)[k]?).map (calculate p.2)).map _ = _
  rw [placed]
  rfl

-- The two kinds of bars, by what they take from the statistics.
theorem bars_iff (bar : Statistics R → R × R) (meta_ : List (String × String)) :
    ((place labels r.params.length (fun k => (r.params[k]?).map f) fun k => (r.stats[k]?).map bar).map
      fun series => (⟨meta_,series⟩ : ErrorBarSeries R)) = some ⟨meta_,r.series f labels fun _ stats => bar stats⟩ ↔
    (r.params.map f).Pairwise (· < ·) := by
  have placed : place labels r.params.length (fun k => (r.params[k]?).map f) (fun k => (r.stats[k]?).map bar) =
      some (mergeLabels labels (r.entries f fun _ stats => bar stats)) := by
    apply place_entries
    · rw [entries_length]
    · intro k
      rw [entries_keys,List.getElem?_map]
    · intro k
      rw [entries_values,List.getElem?_map]
  rw [placed,← stored_iff increasing injective covered fun _ stats => bar stats]
  simp

end Series

section Aligned
variable [LinearOrder T] [Field R] [LinearOrder R]

def Statistics.errorBar (stats : Statistics R) : R × R :=
  (stats.sampleMean - stats.standardErrorOfTheMean,stats.sampleMean + stats.standardErrorOfTheMean)

-- Errors are not negative, and the mean is in its interval.
def Statistics.Proper (stats : Statistics R) : Prop :=
  0 ≤ stats.standardErrorOfTheMean ∧ stats.symmetricConfidenceInterval95.1 ≤ stats.sampleMean ∧
    stats.sampleMean ≤ stats.symmetricConfidenceInterval95.2

-- At every position where there is a mean there is a bar, and the mean is in it.
def Within (means : DataSeries R) (bars : ErrorBarSeries R) : Prop :=
  ∀ (i : ℕ) (mean : R), means.data[i]? = some (some mean) →
    ∃ bar : R × R, bars.data[i]? = some (some bar) ∧ bar.1 ≤ mean ∧ mean ≤ bar.2

structure Aligned (r : ImplGroupedResult P R) (f : P → T) (labels : List T) (calculate : P → Statistics R → R) :
    Prop where
  means : ∃ meta_, r.map2D f labels = some ⟨meta_,r.series f labels fun _ stats => stats.sampleMean⟩
  calculated : ∃ meta_, r.map2DWithCalc f labels calculate = some ⟨meta_,r.series f labels calculate⟩
  errors : ∃ meta_, r.map2DErrorBars f labels = some ⟨meta_,r.series f labels fun _ stats => stats.errorBar⟩
  intervals : ∃ meta_, r.mapCI95Bars f labels =
    some ⟨meta_,r.series f labels fun _ stats => stats.symmetricConfidenceInterval95⟩
  within : (∀ stats ∈ r.stats, stats.Proper) → ∀ means ∈ r.map2D f labels,
    (∀ bars ∈ r.map2DErrorBars f labels, Within means bars) ∧ ∀ bars ∈ r.mapCI95Bars f labels, Within means bars

variable {r : ImplGroupedResult P R} {f : P → T} {labels : List T}

theorem series_within [IsStrictOrderedRing R] {bar : Statistics R → R × R}
    (inside : ∀ stats ∈ r.stats, (bar stats).1 ≤ stats.sampleMean ∧ stats.sampleMean ≤ (bar stats).2)
    (meta_ barMeta : List (String × String)) :
    Within ⟨meta_,r.series f labels fun _ stats => stats.sampleMean⟩ ⟨barMeta,r.series f labels fun _ stats => bar stats⟩ := by
  intro i mean found
  obtain ⟨label,here,value⟩ := Option.map_eq_some_iff.mp ((List.getElem?_map ..).symm.trans found)
  rw [valueOf_entries] at value
  obtain ⟨e,entry,rfl⟩ := Option.map_eq_some_iff.mp value
  have stored : e.2 ∈ r.stats := (List.of_mem_zip (List.mem_of_find?_eq_some entry)).2
  refine ⟨bar e.2,?_,inside e.2 stored⟩
  show (labels.map _)[i]? = _
  rw [List.getElem?_map,here,Option.map_some,valueOf_entries,entry]
  rfl

-- The series of means and of calculated values sort the entries; the bars take them in the
-- order in which they are stored.
theorem series_aligned_iff [IsStrictOrderedRing R] (increasing : labels.Pairwise (· < ·))
    (injective : (r.params.map f).Nodup) (covered : ∀ p ∈ r.params, f p ∈ labels)
    (calculate : P → Statistics R → R) :
    Aligned r f labels calculate ↔ (r.params.map f).Pairwise (· < ·) := by
  constructor
  · intro aligned
    obtain ⟨meta_,errors⟩ := aligned.errors
    obtain ⟨series,placed,equal⟩ := Option.map_eq_some_iff.mp errors
    cases equal
    exact (bars_iff increasing injective covered Statistics.errorBar _).mp errors
  · intro sorted
    have means := map2D_run increasing injective covered
    have errors := (bars_iff increasing injective covered Statistics.errorBar
      [("name",r.implLabel ++ " error"),("type","errorbar")]).mpr sorted
    have intervals := (bars_iff increasing injective covered Statistics.symmetricConfidenceInterval95
      [("name",r.implLabel ++ " ci95"),("type","errorbar")]).mpr sorted
    refine ⟨⟨_,means⟩,⟨_,map2DWithCalc_run increasing injective covered calculate⟩,⟨_,errors⟩,⟨_,intervals⟩,?_⟩
    intro proper series found
    cases means.symm.trans found
    refine ⟨?_,?_⟩
    · intro bars drawn
      cases (show r.map2DErrorBars f labels = some _ from errors).symm.trans drawn
      apply series_within
      intro stats member
      have nonneg := (proper stats member).1
      exact ⟨sub_le_self _ nonneg,le_add_of_nonneg_right nonneg⟩
    · intro bars drawn
      cases (show r.mapCI95Bars f labels = some _ from intervals).symm.trans drawn
      apply series_within
      intro stats member
      exact (proper stats member).2

end Aligned

section Labels
variable [LinearOrder T]

theorem mem_union (sets : List (Finset T)) (before : Finset T) (t : T) :
    t ∈ sets.foldl (fun acc params => acc ∪ params) before ↔ t ∈ before ∨ ∃ params ∈ sets, t ∈ params := by
  induction sets generalizing before with
  | nil => simp
  | cons first sets ih =>
    rw [List.foldl_cons,ih,Finset.mem_union,or_assoc,List.exists_mem_cons_iff]

-- The labels of a plot are as the series need them.
theorem paramSeries_labels (results : List (String × ImplGroupedResult P R)) (f : P → T) :
    (paramSeries results f).Pairwise (· < ·) ∧
      ∀ e ∈ results, ∀ p ∈ e.2.params, f p ∈ paramSeries results f := by
  refine ⟨(Finset.sortedLT_sort _).pairwise,?_⟩
  intro e member p inside
  rw [paramSeries,Finset.mem_sort,mem_union]
  refine Or.inr ⟨e.2.paramSet f,List.mem_map_of_mem member,?_⟩
  exact List.mem_toFinset.mpr (List.mem_map_of_mem inside)

end Labels

def samples (mean : ℚ) : Statistics ℚ := ⟨mean,1,1/2,1/10,(mean - 1,mean + 1)⟩

def ordered : ImplGroupedResult ℕ ℚ := ⟨"akka",[1,4],[samples 10,samples 40],rfl⟩

theorem series_aligned_iff_ordered : Aligned ordered id [1,2,4] fun _ stats => stats.sampleMean :=
  (series_aligned_iff (by decide) (by decide) (by decide) _).mpr (by decide)

def reversed : ImplGroupedResult ℕ ℚ := ⟨"akka",[4,1],[samples 40,samples 10],rfl⟩

-- The bar of the first parameter is missing, and the mean is drawn without it.
theorem reversed_bars : reversed.map2D id [1,2,4] = some ⟨[("name","akka")],[some 10,none,some 40]⟩ ∧
    reversed.map2DErrorBars id [1,2,4] =
      some ⟨[("name","akka error"),("type","errorbar")],[none,none,some (79/2,81/2)]⟩ ∧
    ¬Aligned reversed id [1,2,4] fun _ stats => stats.sampleMean := by
  have bars : reversed.map2DErrorBars id [1,2,4] =
      some ⟨[("name","akka error"),("type","errorbar")],[none,none,some (79/2,81/2)]⟩ := by decide +kernel
  refine ⟨?_,bars,?_⟩
  · rw [map2D_run (by decide) (by decide) (by decide)]
    decide +kernel
  · intro aligned
    obtain ⟨meta_,errors⟩ := aligned.errors
    rw [bars] at errors
    have first : [none,none,some ((79/2,81/2) : ℚ × ℚ)] =
        reversed.series id [1,2,4] fun _ stats => stats.errorBar := (ErrorBarSeries.mk.inj (Option.some.inj errors)).2
    exact absurd first (by decide +kernel)

end KompicsBenches.PlotSeries
