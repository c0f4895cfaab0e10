import KompicsBenches.ApspBlocks

namespace KompicsBenches.ApspRuns
open Shortening Graphs ApspActors ApspBlocks Lockstep
variable {W : Type*} [LinearOrder W] [AddMonoid W] {nb bs id n : ℕ} {f : ℕ → ℕ → W}

-- The blocks and their letters, with the reports the manager has handled.
structure Calm (nb bs : ℕ) (f : ℕ → ℕ → W) (block : ℕ → BlockActor W) (net : List (Letter W))
    (reports : List ℕ) : Prop where
  ledger : Ledger (inside nb) (near nb) (nb * bs) (fun id => view (block id)) (net.filterMap token)
  sound : ∀ id, inside nb id → Sound nb bs f id (block id)
  settled : ∀ id, inside nb id → Settled nb bs (block id)
  carries : ∀ letter ∈ net, Carries nb bs f letter
  openings : (net.filterMap opening).Nodup
  opened : ∀ id, inside nb id → (id ∈ net.filterMap opening ↔ (block id).ready = false)
  once : (reports ++ net.filterMap report).Nodup
  reported : ∀ id, id ∈ reports ++ net.filterMap report ↔ inside nb id ∧ (block id).done = true

section Letters
variable {block : ℕ → BlockActor W} {net rest : List (Letter W)} {reports : List ℕ}

theorem Calm.perm (calm : Calm nb bs f block net reports) (same : net.Perm rest) :
    Calm nb bs f block rest reports := by
  have parts := (same.filterMap report).append_left reports
  refine ⟨calm.ledger.perm (same.filterMap token),calm.sound,calm.settled,?_,?_,?_,?_,?_⟩
  · intro letter member
    exact calm.carries letter (same.mem_iff.mpr member)
  · exact (same.filterMap opening).nodup calm.openings
  · intro id bound
    rw [← (same.filterMap opening).mem_iff]
    exact calm.opened id bound
  · exact parts.nodup calm.once
  · intro id
    rw [← parts.mem_iff]
    exact calm.reported id

omit [LinearOrder W] [AddMonoid W] in
theorem update_block {P : ℕ → BlockActor W → Prop} {b : BlockActor W} (here : P id b)
    (all : ∀ id, inside nb id → P id (block id)) (other : ℕ) (bound : inside nb other) :
    P other (Function.update block id b other) := by
  by_cases same : other = id
  · rw [same,Function.update_self]
    exact here
  · rw [Function.update_of_ne same]
    exact all other bound

-- A block has handled a message, and the letters that open the others are still there.
theorem Calm.moved (calm : Calm nb bs f block (.toBlock id msg :: rest) reports) (bound : inside nb id)
    {result : BlockActor W × List (Letter W)} {ready : Bool}
    (moved : Moved nb bs f id (fun id => view (block id)) rest ready (block id).done result)
    (opened : ∀ other, inside nb other →
      (other ∈ rest.filterMap opening ↔ (Function.update block id result.1 other).ready = false)) :
    Calm nb bs f (Function.update block id result.1) (rest ++ result.2) reports := by
  have once : (reports ++ rest.filterMap report).Nodup := calm.once
  have reported : ∀ other, other ∈ reports ++ rest.filterMap report ↔
      inside nb other ∧ (block other).done = true := calm.reported
  have openings : (rest.filterMap opening).Nodup := by
    have all := calm.openings
    cases msg with
    | neighbours nodes => exact (List.nodup_cons.mp all).2
    | phaseResult k data => exact all
  refine ⟨?_,?_,?_,?_,?_,?_,?_,?_⟩
  · have parties : (fun other => view (Function.update block id result.1 other)) =
        Function.update (fun other => view (block other)) id (view result.1) :=
      Function.comp_update view block id result.1
    rw [parties]
    exact moved.ledger
  · exact update_block moved.sound calm.sound
  · exact update_block moved.settled calm.settled
  · intro letter member
    rcases List.mem_append.mp member with old | new
    · exact calm.carries letter (List.mem_cons_of_mem _ old)
    · exact moved.carries letter new
  · rw [List.filterMap_append,moved.opening,List.append_nil]
    exact openings
  · intro other inOther
    rw [List.filterMap_append,moved.opening,List.append_nil]
    exact opened other inOther
  · rw [List.filterMap_append,moved.report,← List.append_assoc]
    split
    · rename_i finished
      apply List.Nodup.append once (List.nodup_singleton id)
      intro other old new
      have done := ((reported other).mp old).2
      rw [List.mem_singleton.mp new,finished.1] at done
      cases done
    · rw [List.append_nil]
      exact once
  · intro other
    rw [List.filterMap_append,moved.report,← List.append_assoc,List.mem_append,reported]
    by_cases here : other = id
    · subst here
      rw [Function.update_self]
      cases was : (block other).done with
      | false => simp [bound]
      | true => simp [moved.keeps was]
    · rw [Function.update_of_ne here]
      split
      · simp [here]
      · simp

end Letters

-- What the manager has put together so far.
def assembled (nb bs : ℕ) (f : ℕ → ℕ → W) (reports : List ℕ) : List (List (Block W)) :=
  table nb fun i j => resultOf nb bs f (if i * nb + j ∈ reports then nb * bs else 0) (i * nb + j)

structure Collecting (nb bs : ℕ) (f : ℕ → ℕ → W) (s : System W) : Prop where
  missing : s.manager.missingBlocks = some (nb * nb - s.reports.length)
  assembly : s.manager.assembly = some (assembled nb bs f s.reports)
  latch : s.manager.latch = true
  results : s.results = []

structure Complete (nb bs : ℕ) (f : ℕ → ℕ → W) (s : System W) : Prop where
  missing : s.manager.missingBlocks = none
  results : s.results = [tabulate (nb * bs) (through f (nb * bs))]

structure Running (nb bs : ℕ) (f : ℕ → ℕ → W) (s : System W) (block : ℕ → BlockActor W) : Prop where
  actors : s.actors = (List.range (nb * nb)).map block
  calm : Calm nb bs f block s.net s.reports
  collecting : s.reports.length < nb * nb → Collecting nb bs f s
  complete : s.reports.length = nb * nb → Complete nb bs f s

section Reports
variable {reports : List ℕ}

theorem reports_bound (nodup : reports.Nodup) (bound : ∀ id ∈ reports, inside nb id) :
    reports.length ≤ nb * nb := by
  have subset : reports ⊆ List.range (nb * nb) := fun id member => List.mem_range.mpr (bound id member)
  simpa using (nodup.subperm subset).length_le

theorem reports_all (nodup : reports.Nodup) (bound : ∀ id ∈ reports, inside nb id)
    (all : reports.length = nb * nb) : reports.Perm (List.range (nb * nb)) := by
  have subset : reports ⊆ List.range (nb * nb) := fun id member => List.mem_range.mpr (bound id member)
  exact (nodup.subperm subset).perm_of_length_le (by simp [all])

theorem assembled_set (bound : inside nb id) : setEntry (assembled nb bs f reports) (id / nb) (id % nb)
    (resultOf nb bs f (nb * bs) id) = some (assembled nb bs f (reports ++ [id])) := by
  unfold assembled
  rw [table_set (row_inside bound) (column_inside bound)]
  congr 1
  apply table_congr
  intro i j _ colBound
  by_cases here : i = id / nb ∧ j = id % nb
  · have place : i * nb + j = id := by rw [here.1,here.2,Nat.div_add_mod']
    rw [if_pos here,place,if_pos (by simp)]
  · have other : i * nb + j ≠ id := by
      intro same
      apply here
      rw [← same,place_part colBound,place_within colBound]
      exact ⟨rfl,rfl⟩
    rw [if_neg here]
    simp [other]

theorem assembled_all (size : 0 < bs) (some_ : 0 < nb) (all : ∀ id, inside nb id → id ∈ reports) :
    Graph.assembleFromBlocks (assembled nb bs f reports) =
      some (tabulate (nb * bs) (through f (nb * bs))) := by
  have whole : assembled nb bs f reports =
      table nb fun i j => blockOf nb bs (through f (nb * bs)) (i * nb + j) := by
    apply table_congr
    intro i j rowBound colBound
    rw [if_pos (all _ (id_bound rowBound colBound))]
    rfl
  rw [whole]
  exact assembleFromBlocks_run size some_

end Reports

section Steps
variable {s : System W} {block : ℕ → BlockActor W} {rest : List (Letter W)} {reports : List ℕ}

-- The manager can take the result of any block that reports.
theorem blockResult_run {data : Block W} (size : 0 < bs) (some_ : 0 < nb)
    (running : Running nb bs f s block)
    (same : s.net.Perm (.toManager (.blockResult data) :: rest)) :
    ∃ next, System.receive {s with net := rest} (.toManager (.blockResult data)) = some next ∧
      Running nb bs f next block := by
  have calm := running.calm.perm same
  obtain ⟨bound,carried⟩ := calm.carries _ List.mem_cons_self
  generalize place : data.blockId = id at bound carried
  subst data
  have reported : ∀ other, other ∈ s.reports ++ id :: rest.filterMap report ↔
      inside nb other ∧ (block other).done = true := calm.reported
  have once : (s.reports ++ id :: rest.filterMap report).Nodup := calm.once
  rw [List.append_cons] at reported once
  have handled : (s.reports ++ [id]).Nodup := (List.nodup_append.mp once).1
  have within : ∀ other ∈ s.reports ++ [id], inside nb other :=
    fun other member => ((reported other).mp (List.mem_append_left _ member)).1
  have few := reports_bound handled within
  have length : (s.reports ++ [id]).length = s.reports.length + 1 := by simp
  have collecting := running.collecting (by omega)
  have after : Calm nb bs f block rest (s.reports ++ [id]) :=
    ⟨calm.ledger,calm.sound,calm.settled,fun letter member =>
      calm.carries letter (List.mem_cons_of_mem _ member),calm.openings,calm.opened,once,reported⟩
  obtain ⟨missing,count⟩ : ∃ missing, nb * nb - s.reports.length = missing + 1 :=
    ⟨nb * nb - s.reports.length - 1,by omega⟩
  have waiting := collecting.missing
  rw [count] at waiting
  show ∃ next, System.blockResult {s with net := rest} (resultOf nb bs f (nb * bs) id) = some next ∧ _
  unfold System.blockResult
  dsimp only
  rw [waiting,collecting.assembly]
  show ∃ next, (setEntry (assembled nb bs f s.reports) (id / nb) (id % nb) _).bind _ = some next ∧ _
  rw [assembled_set bound,Option.bind_some]
  cases missing with
  | zero =>
    have last : (s.reports ++ [id]).length = nb * nb := by omega
    have all : ∀ other, inside nb other → other ∈ s.reports ++ [id] := by
      intro other inOther
      exact (reports_all handled within last).mem_iff.mpr (List.mem_range.mpr inOther)
    have whole := assembled_all (f := f) size some_ all
    dsimp only [System.finish]
    rw [whole,Option.bind_some,if_pos collecting.latch]
    refine ⟨_,rfl,running.actors,after,?_,?_⟩
    · intro fewer
      exact absurd last (Nat.ne_of_lt fewer)
    · intro _
      refine ⟨rfl,?_⟩
      show s.results ++ _ = _
      rw [collecting.results]
      rfl
  | succ missing =>
    refine ⟨_,rfl,running.actors,after,?_,?_⟩
    · intro _
      refine ⟨?_,rfl,collecting.latch,collecting.results⟩
      show some (missing + 1) = some (nb * nb - (s.reports ++ [id]).length)
      congr 1
      omega
    · intro last
      have last : (s.reports ++ [id]).length = nb * nb := last
      omega

omit [LinearOrder W] [AddMonoid W] in
theorem actors_set (m : ℕ) (b : BlockActor W) : ((List.range m).map block).set id b =
    (List.range m).map (Function.update block id b) := by
  apply List.ext_getElem
  · simp
  · intro place _ _
    by_cases here : place = id
    · simp [here]
    · simp [here,Ne.symm here]

-- A block can take any letter that is for it: its neighbours, which it gets once, and
-- the results of its phase and the next one.
theorem letter_moved [AddLeftMono W] {msg : BlockMsg W} (distances : Distances f) (two : 2 ≤ nb)
    (calm : Calm nb bs f block (.toBlock id msg :: rest) reports) :
    ∃ (_ : inside nb id) (result : _) (ready : Bool), (block id).receiveLocal id msg = some result ∧
      Moved nb bs f id (fun id => view (block id)) rest ready (block id).done result ∧
      ∀ other, inside nb other →
        (other ∈ rest.filterMap opening ↔ (Function.update block id result.1 other).ready = false) := by
  have carries := calm.carries _ List.mem_cons_self
  cases msg with
  | neighbours nodes =>
    obtain ⟨bound,rfl⟩ := carries
    have unready := (calm.opened id bound).mp List.mem_cons_self
    have ledger : Ledger (inside nb) (near nb) (nb * bs) (fun id => view (block id))
        (rest.filterMap token) := calm.ledger
    obtain ⟨result,run,moved⟩ := neighbours_run two bound (calm.sound id bound) (calm.settled id bound)
      rfl unready ledger
    refine ⟨bound,result,true,run,moved,?_⟩
    obtain ⟨gone,_⟩ := List.nodup_cons.mp calm.openings
    intro other inOther
    by_cases here : other = id
    · rw [here,Function.update_self,moved.ready]
      exact iff_of_false gone Bool.true_eq_false_eq_False
    · rw [Function.update_of_ne here,← calm.opened other inOther]
      simp [opening,here]
  | phaseResult k data =>
    have ledger : Ledger (inside nb) (near nb) (nb * bs) (fun id => view (block id))
        ((data.blockId,id,rank k) :: rest.filterMap token) := calm.ledger
    obtain ⟨bound,_⟩ := ledger.flight _ _ _ List.mem_cons_self
    obtain ⟨result,run,moved⟩ := phaseResult_run distances bound (calm.sound id bound)
      (calm.settled id bound) rfl carries ledger
    refine ⟨bound,result,_,run,moved,?_⟩
    intro other inOther
    have before := calm.opened other inOther
    by_cases here : other = id
    · subst here
      rw [Function.update_self,moved.ready]
      exact before
    · rw [Function.update_of_ne here]
      exact before

theorem toBlock_run [AddLeftMono W] {msg : BlockMsg W} (distances : Distances f) (two : 2 ≤ nb)
    (running : Running nb bs f s block) (same : s.net.Perm (.toBlock id msg :: rest)) :
    ∃ next after, System.receive {s with net := rest} (.toBlock id msg) = some next ∧
      Running nb bs f next after := by
  have calm := running.calm.perm same
  obtain ⟨bound,result,ready,run,moved,opened⟩ := letter_moved distances two calm
  have found : s.actors[id]? = some (block id) := by
    rw [running.actors,List.getElem?_map,List.getElem?_range bound]
    rfl
  show ∃ next after, (s.actors[id]?).bind _ = some next ∧ _
  rw [found,Option.bind_some,run,Option.map_some]
  refine ⟨_,_,rfl,?_,calm.moved bound moved opened,?_,?_⟩
  · show s.actors.set id result.1 = _
    rw [running.actors]
    exact actors_set (nb * nb) result.1
  · intro fewer
    obtain ⟨missing,assembly,latch,results⟩ := running.collecting fewer
    exact ⟨missing,assembly,latch,results⟩
  · intro all
    obtain ⟨missing,results⟩ := running.complete all
    exact ⟨missing,results⟩

end Steps

theorem rows_flatten (m : ℕ) (entry : ℕ → α) : ((List.range m).map fun i =>
    (List.range n).map fun j => entry (i * n + j)).flatten = (List.range (m * n)).map entry := by
  induction m with
  | zero => simp
  | succ m ih =>
    rw [List.range_succ,List.map_append,List.flatten_append,ih,Nat.succ_mul,List.range_add,
      List.map_append,List.map_map]
    simp

theorem table_flatten (entry : ℕ → α) : (table n fun i j => entry (i * n + j)).flatten =
    (List.range (n * n)).map entry := rows_flatten n entry

theorem pairs_table (entry : ℕ → ℕ → α) : (indexPairs n).map (fun p => entry p.1 p.2) =
    (table n entry).flatten := by
  simp [indexPairs,table,List.flatMap,Function.comp_def]

section Start
variable (nb bs : ℕ) (f : ℕ → ℕ → W)

def fresh (id : ℕ) : BlockActor W := .with (resultOf nb bs f 0 id) (nb * bs)

def openLetter (W : Type*) (nb id : ℕ) : Letter W := .toBlock id (.neighbours (near nb id))

def opened : System W where
  manager := ⟨bs,List.range (nb * nb),true,some (assembled nb bs f []),some (nb * nb)⟩
  actors := (List.range (nb * nb)).map (fresh nb bs f)
  net := (List.range (nb * nb)).map (openLetter W nb)
  reports := []
  results := []

theorem computeFW_run (size : 0 < bs) :
    System.receive {System.initial bs (tabulate (nb * bs) f) with net := []}
      (.toManager (.computeFW (tabulate (nb * bs) f))) = some (opened nb bs f) := by
  have blocks : (table nb fun i j => blockOf nb bs f (i * nb + j)) = assembled nb bs f [] := by
    apply table_congr
    intro i j _ _
    rw [if_neg List.not_mem_nil]
    rfl
  have length : (table nb fun i j => blockOf nb bs f (i * nb + j)).length = nb := by simp [table]
  have nodes : (tabulate (nb * bs) f).numNodes = nb * bs := tabulate_length _ _
  have actors : (table nb fun i j => blockOf nb bs f (i * nb + j)).flatten.map
      (fun block => BlockActor.with block (nb * bs)) = (List.range (nb * nb)).map (fresh nb bs f) := by
    rw [table_flatten (blockOf nb bs f),List.map_map]
    rfl
  have letters : (indexPairs nb).map (fun p => (Letter.toBlock (p.1 * nb + p.2)
      (.neighbours (neighboursOf nb p.1 p.2)) : Letter W)) =
        (List.range (nb * nb)).map (openLetter W nb) := by
    rw [pairs_table fun i j => Letter.toBlock (i * nb + j) (.neighbours (neighboursOf nb i j)),
      ← table_flatten (openLetter W nb)]
    congr 1
    apply table_congr
    intro i j _ colBound
    rw [openLetter,near,place_part colBound,place_within colBound]
  show System.computeFW _ _ = _
  unfold System.computeFW System.distributeGraph
  show Option.map _ (Option.map _ ((tabulate (nb * bs) f).breakIntoBlocks bs)) = _
  rw [breakIntoBlocks_run size,Option.map_some,Option.map_some,length,nodes,actors,letters,blocks]
  simp [opened,System.initial,ManagerActor.with]

-- Nothing but the letters that open the blocks is on its way.
theorem opened_letters {look : Letter W → Option α}
    (ignores : ∀ id, look (openLetter W nb id) = none) : (opened nb bs f).net.filterMap look = [] := by
  apply List.filterMap_eq_nil_iff.mpr
  intro letter member
  obtain ⟨id,_,rfl⟩ := List.mem_map.mp member
  exact ignores id

theorem opened_openings : (opened nb bs f).net.filterMap opening = List.range (nb * nb) := by
  show ((List.range (nb * nb)).map (openLetter W nb)).filterMap opening = _
  rw [List.filterMap_map]
  exact List.filterMap_some

theorem fresh_sound (id : ℕ) : Sound nb bs f id (fresh nb bs f id) where
  nodes := rfl
  bound := Nat.zero_le _
  data := rfl
  neighbours := by
    intro ready
    cases ready
  fresh := fun _ => ⟨rfl,rfl⟩
  own := by
    intro c block found
    cases (AList.lookup_empty (β := fun _ => Block W) c).symm.trans found
  next := by
    intro c block found
    cases (AList.lookup_empty (β := fun _ => Block W) c).symm.trans found

theorem fresh_ledger : Ledger (inside nb) (near nb) (nb * bs) (fun id => view (fresh nb bs f id)) [] := by
  refine ⟨List.nodup_nil,?_,?_,?_⟩
  · intro c id m member
    cases member
  · intro c id m _ _ arrived
    rcases arrived with early | ⟨_,own⟩ | ⟨_,next⟩
    · exact absurd early (Nat.not_lt_zero m)
    · exact absurd own (AList.notMem_empty c)
    · exact absurd next (AList.notMem_empty c)
  · intro c id m _ _ sent
    cases sent.1

theorem opened_calm (positive : 0 < nb * bs) :
    Calm nb bs f (fresh nb bs f) (opened nb bs f).net [] where
  ledger := by
    rw [opened_letters nb bs f fun _ => rfl]
    exact fresh_ledger nb bs f
  sound := fun id _ => fresh_sound nb bs f id
  settled := by
    intro id _
    refine ⟨iff_of_false Bool.false_ne_true positive.ne,?_⟩
    intro ready
    cases ready
  carries := by
    intro letter member
    obtain ⟨id,inRange,rfl⟩ := List.mem_map.mp member
    exact ⟨List.mem_range.mp inRange,rfl⟩
  openings := by
    rw [opened_openings]
    exact List.nodup_range
  opened := by
    intro id bound
    rw [opened_openings]
    exact iff_of_true (List.mem_range.mpr bound) rfl
  once := by
    rw [opened_letters nb bs f fun _ => rfl]
    exact List.nodup_nil
  reported := by
    intro id
    rw [opened_letters nb bs f fun _ => rfl]
    refine iff_of_false List.not_mem_nil ?_
    intro reported
    cases reported.2

theorem opened_running (size : 0 < bs) (some_ : 0 < nb) :
    Running nb bs f (opened nb bs f) (fresh nb bs f) where
  actors := rfl
  calm := opened_calm nb bs f (Nat.mul_pos some_ size)
  collecting := fun _ => ⟨rfl,rfl,rfl,rfl⟩
  complete := by
    intro all
    exact absurd all (Nat.mul_pos some_ some_).ne

end Start

-- The request is still on its way, or the blocks are at work.
def Good (nb bs : ℕ) (f : ℕ → ℕ → W) (s : System W) : Prop :=
  s = .initial bs (tabulate (nb * bs) f) ∨ ∃ block, Running nb bs f s block

theorem step_good [AddLeftMono W] {s : System W} (distances : Distances f) (size : 0 < bs) (two : 2 ≤ nb)
    (good : Good nb bs f s) (i : ℕ) (bound : i < s.net.length) :
    ∃ next, s.step i = some next ∧ Good nb bs f next := by
  have taken : s.net[i]? = some s.net[i] := List.getElem?_eq_getElem bound
  have same := (List.getElem_cons_eraseIdx_perm bound).symm
  rw [System.step,taken,Option.bind_some]
  rcases good with rfl | ⟨block,running⟩
  · obtain rfl : i = 0 := Nat.lt_one_iff.mp bound
    exact ⟨_,computeFW_run nb bs f size,Or.inr ⟨_,opened_running nb bs f size (by omega)⟩⟩
  · generalize s.net[i] = letter at same
    cases letter with
    | toBlock id msg =>
      obtain ⟨next,after,run,running⟩ := toBlock_run distances two running same
      exact ⟨next,run,Or.inr ⟨after,running⟩⟩
    | toManager msg =>
      cases msg with
      | computeFW graph => exact ((running.calm.perm same).carries _ List.mem_cons_self).elim
      | blockResult data =>
        obtain ⟨next,run,running⟩ := blockResult_run size (by omega) running same
        exact ⟨next,run,Or.inr ⟨block,running⟩⟩

theorem reached_good [AddLeftMono W] {s : System W} (distances : Distances f) (size : 0 < bs)
    (two : 2 ≤ nb) (run : Reached bs (tabulate (nb * bs) f) s) : Good nb bs f s := by
  induction run with
  | start => exact Or.inl rfl
  | @step s next i _ done ih =>
    have bound : i < s.net.length := by
      by_contra outside
      rw [System.step,List.getElem?_eq_none (Nat.le_of_not_lt outside)] at done
      cases done
    obtain ⟨after,ran,good⟩ := step_good distances size two ih i bound
    cases ran.symm.trans done
    exact good

-- With no letter left, all blocks have gone through all nodes.
theorem running_quiet {s : System W} {block : ℕ → BlockActor W} (running : Running nb bs f s block)
    (quiet : s.net = []) : s.reports.length = nb * nb := by
  have calm := running.calm
  rw [quiet] at calm
  have ready : ∀ id, inside nb id → (block id).ready = true := by
    intro id bound
    have opened := calm.opened id bound
    have none : id ∉ ([] : List (Letter W)).filterMap opening := List.not_mem_nil
    simpa [none] using opened
  have last : ∀ id, inside nb id → nb * bs ≤ rank (block id).k := by
    apply calm.ledger.finished (near_network nb) ready
    intro id bound before
    by_contra all
    have settled := calm.settled id bound
    have running : (block id).done = false := by
      cases done : (block id).done with
      | false => rfl
      | true => exact absurd (settled.done.mp done) before.ne
    apply settled.waiting (ready id bound) running
    apply (full_iff (calm.sound id bound) bound (ready id bound)).mpr
    intro c nearby
    by_contra missing
    exact all ⟨c,nearby,missing⟩
  have reported : ∀ id, id ∈ s.reports ++ [] ↔ inside nb id ∧ (block id).done = true := calm.reported
  have once : (s.reports ++ []).Nodup := calm.once
  rw [List.append_nil] at reported once
  have all : s.reports.Perm (List.range (nb * nb)) := by
    apply (List.perm_ext_iff_of_nodup once List.nodup_range).mpr
    intro id
    rw [reported,List.mem_range]
    constructor
    · intro done
      exact done.1
    · intro bound
      have finished := Nat.le_antisymm (calm.sound id bound).bound (last id bound)
      exact ⟨bound,(calm.settled id bound).done.mpr finished⟩
  simpa using all.length_eq

-- What can be seen of a run.
structure Outcome (nb bs : ℕ) (f : ℕ → ℕ → W) (s : System W) : Prop where
  equal : ∀ result ∈ s.results, result = tabulate (nb * bs) (through f (nb * bs))
  single : s.results.length ≤ 1
  once : (s.reports ++ s.net.filterMap report).Nodup
  all : s.results ≠ [] → s.reports.Perm (List.range (nb * nb)) ∧ s.net.filterMap report = []
  missing : ∀ missing, s.manager.missingBlocks = some missing →
    0 < missing ∧ missing + s.reports.length = nb * nb
  ends : s.net = [] → s.results ≠ []

theorem initial_outcome (graph : Graph W) : Outcome nb bs f (.initial bs graph) where
  equal := by
    intro result member
    cases member
  single := Nat.zero_le _
  once := List.nodup_nil
  all := by
    intro some_
    exact absurd rfl some_
  missing := by
    intro missing count
    cases count
  ends := by
    intro quiet
    cases quiet

section Outcomes
variable {s : System W} {block : ℕ → BlockActor W} (running : Running nb bs f s block)
include running

theorem reports_within : ∀ id ∈ s.reports, inside nb id :=
  fun id member => ((running.calm.reported id).mp (List.mem_append_left _ member)).1

theorem collecting_outcome (fewer : s.reports.length < nb * nb) : Outcome nb bs f s := by
  have collecting := running.collecting fewer
  refine ⟨?_,?_,running.calm.once,?_,?_,?_⟩
  · rw [collecting.results]
    intro result member
    cases member
  · rw [collecting.results]
    exact Nat.zero_le _
  · intro some_
    exact absurd collecting.results some_
  · intro missing count
    have := Option.some.inj (collecting.missing.symm.trans count)
    omega
  · intro quiet
    exact absurd (running_quiet running quiet) fewer.ne

theorem complete_outcome (whole : s.reports.length = nb * nb) : Outcome nb bs f s := by
  have complete := running.complete whole
  obtain ⟨handled,_,apart⟩ := List.nodup_append.mp running.calm.once
  have perm := reports_all handled (reports_within running) whole
  refine ⟨?_,?_,running.calm.once,?_,?_,?_⟩
  · rw [complete.results]
    intro result member
    exact List.mem_singleton.mp member
  · rw [complete.results]
    exact Nat.le_refl 1
  · intro _
    refine ⟨perm,?_⟩
    apply List.eq_nil_iff_forall_not_mem.mpr
    intro id flying
    have bound := ((running.calm.reported id).mp (List.mem_append_right _ flying)).1
    exact apart id (perm.mem_iff.mpr (List.mem_range.mpr bound)) id flying rfl
  · intro missing count
    cases complete.missing.symm.trans count
  · rw [complete.results]
    intro _
    exact List.cons_ne_nil _ _

end Outcomes

theorem good_outcome {s : System W} (good : Good nb bs f s) : Outcome nb bs f s := by
  rcases good with rfl | ⟨block,running⟩
  · exact initial_outcome _
  · have handled : s.reports.Nodup := (List.nodup_append.mp running.calm.once).1
    rcases (reports_bound handled (reports_within running)).lt_or_eq with fewer | whole
    · exact collecting_outcome running fewer
    · exact complete_outcome running whole

-- Whatever the order of the messages: no letter makes an actor panic, every block reports
-- once, and the result is that of the plain algorithm.
theorem apsp_exact [AddLeftMono W] {g : Graph W} {s : System W} (square : Square n g)
    (nonneg : ∀ i j v, g.get i j = some v → 0 ≤ v) (diagonal : ∀ i v, g.get i i = some v → v = 0)
    (divides : bs ∣ n) (two : 2 ≤ n / bs) (run : Reached bs g s) :
    (∀ i, i < s.net.length → (s.step i).isSome = true) ∧
      (∀ result ∈ s.results, g.computeFloydWarshall = some result) ∧ s.results.length ≤ 1 ∧
      (s.reports ++ s.net.filterMap report).Nodup ∧
      (s.results ≠ [] → s.reports.Perm (List.range (n / bs * (n / bs))) ∧ s.net.filterMap report = []) ∧
      (∀ missing, s.manager.missingBlocks = some missing →
        0 < missing ∧ missing + s.reports.length = n / bs * (n / bs)) ∧
      (s.net = [] → s.results ≠ []) := by
  obtain ⟨f,rfl,distances⟩ := square_parts square nonneg diagonal
  have size : 0 < bs := by
    apply Nat.pos_of_ne_zero
    intro none
    rw [none,Nat.div_zero] at two
    omega
  obtain ⟨nb,rfl⟩ := divides
  rw [Nat.mul_div_cancel_left nb size] at two ⊢
  rw [Nat.mul_comm] at run ⊢
  have good := reached_good distances size two run
  have outcome := good_outcome good
  refine ⟨?_,?_,outcome.single,outcome.once,outcome.all,outcome.missing,outcome.ends⟩
  · intro i bound
    obtain ⟨next,stepped,_⟩ := step_good distances size two good i bound
    rw [stepped]
    rfl
  · intro result member
    rw [outcome.equal result member]
    exact floydWarshall_run distances

section Run
variable {V : Type*} [Add V] [LT V] [DecidableLT V] {graph : Graph V} {s next : System V}

def deliver (s : System V) (turns : List ℕ) : Option (System V) := turns.foldlM (fun s i => s.step i) s

theorem reached_deliver {turns : List ℕ} (run : Reached bs graph s)
    (delivered : deliver s turns = some next) : Reached bs graph next := by
  induction turns generalizing s with
  | nil =>
    cases delivered
    exact run
  | cons i turns ih =>
    obtain ⟨middle,stepped,rest⟩ := Option.bind_eq_some_iff.mp delivered
    exact ih (run.step stepped) rest

end Run

def roads : Graph (WithTop ℕ) := ⟨[[0,5,⊤,⊤],[⊤,0,1,⊤],[2,⊤,0,⊤],[3,⊤,⊤,0]]⟩

-- The third letter is a result for a block that does not know its neighbours yet.
def roadTurns : List ℕ := [0,0,3] ++ List.replicate 47 0

theorem apsp_exact_roads : ∃ s, deliver (.initial 2 roads) roadTurns = some s ∧ s.results ≠ [] ∧
    (∀ result ∈ s.results, roads.computeFloydWarshall = some result) ∧ s.reports.Perm (List.range 4) := by
  have finished : (deliver (.initial 2 roads) roadTurns).any (fun s => s.net.isEmpty) = true := by
    decide +kernel
  obtain ⟨s,delivered,empty⟩ := (Option.any_eq_true _ _).mp finished
  have diagonal : ∀ i v, roads.get i i = some v → v = 0 := by
    intro i v found
    have bound : i < 4 := by
      by_contra outside
      have missing : roads.data[i]? = none := List.getElem?_eq_none (Nat.le_of_not_lt outside)
      rw [Graph.get,missing] at found
      cases found
    interval_cases i
    all_goals exact (Option.some.inj found).symm
  have square : Square 4 roads := ⟨rfl,by decide⟩
  have run : Reached 2 roads s := reached_deliver .start delivered
  obtain ⟨_,equal,_,_,all,_,ends⟩ := apsp_exact square (fun _ _ _ _ => zero_le) diagonal (by decide)
    (by decide) run
  have some_ := ends (List.isEmpty_iff.mp empty)
  exact ⟨s,delivered,some_,equal,(all some_).1⟩

end KompicsBenches.ApspRuns
