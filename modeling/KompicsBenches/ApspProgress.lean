import KompicsBenches.ApspRuns
import KompicsBenches.ApspWeights

namespace KompicsBenches.ApspProgress
open Shortening Graphs ApspActors ApspBlocks ApspRuns ApspWeights
variable {W : Type*} {nb bs n : ℕ}

-- All blocks are done, and the manager has put the graph together and opened the latch
-- once.
structure Delivered (blocks : ℕ) (s : System W) : Prop where
  count : s.actors.length = blocks
  done : ∀ b ∈ s.actors, b.done = true
  once : s.results.length = 1
  opened : s.manager.latch = false

section Latch
variable [LinearOrder W] [AddMonoid W] {f : ℕ → ℕ → W} {s next : System W}

omit [LinearOrder W] [AddMonoid W] in
theorem blockResult_latch {block : Block W} (ran : s.blockResult block = some next)
    (closed : s.results ≠ [] → s.manager.latch = false) :
    next.results ≠ [] → next.manager.latch = false := by
  unfold System.blockResult at ran
  split at ran
  · obtain ⟨blocks,_,rest⟩ := Option.bind_eq_some_iff.mp ran
    dsimp only at rest
    split at rest
    · cases rest
    · obtain ⟨result,_,ended⟩ := Option.bind_eq_some_iff.mp rest
      split at ended
      · cases ended
        exact fun _ => rfl
      · cases ended
    · cases rest
      exact closed
  · cases ran

-- Once there is a result the latch stays open: nobody asks for another one.
theorem reached_latch [AddLeftMono W] (distances : Distances f) (size : 0 < bs) (two : 2 ≤ nb)
    (run : Reached bs (tabulate (nb * bs) f) s) : s.results ≠ [] → s.manager.latch = false := by
  induction run with
  | start =>
    intro some_
    exact absurd rfl some_
  | @step s next i run ran ih =>
    obtain ⟨letter,found,received⟩ := Option.bind_eq_some_iff.mp ran
    obtain ⟨bound,taken⟩ := List.getElem?_eq_some_iff.mp found
    cases letter with
    | toBlock id msg =>
      obtain ⟨b,_,handled⟩ := Option.bind_eq_some_iff.mp received
      obtain ⟨result,_,rfl⟩ := Option.map_eq_some_iff.mp handled
      exact ih
    | toManager msg =>
      cases msg with
      | blockResult block => exact blockResult_latch received ih
      | computeFW graph =>
        rcases reached_good distances size two run with rfl | ⟨block,running⟩
        · obtain ⟨middle,distributed,rfl⟩ := Option.map_eq_some_iff.mp received
          obtain ⟨blocks,_,rfl⟩ := Option.map_eq_some_iff.mp distributed
          intro some_
          exact absurd rfl some_
        · exact (running.calm.carries _ (List.mem_of_getElem? found)).elim

theorem quiet_delivered [AddLeftMono W] (distances : Distances f) (size : 0 < bs) (two : 2 ≤ nb)
    (run : Reached bs (tabulate (nb * bs) f) s) (quiet : s.net = []) : Delivered (nb * nb) s := by
  rcases reached_good distances size two run with rfl | ⟨block,running⟩
  · cases quiet
  · have whole := running_quiet running quiet
    have complete := running.complete whole
    have opened := reached_latch distances size two run
    rw [complete.results] at opened
    have perm := (complete_outcome running whole).all (by rw [complete.results]; exact List.cons_ne_nil _ _)
    refine ⟨?_,?_,?_,opened (List.cons_ne_nil _ _)⟩
    · rw [running.actors,List.length_map,List.length_range]
    · intro b member
      rw [running.actors] at member
      obtain ⟨id,inRange,rfl⟩ := List.mem_map.mp member
      have reported := perm.1.mem_iff.mpr inRange
      exact ((running.calm.reported id).mp (List.mem_append_left _ reported)).2
    · rw [complete.results]
      rfl

end Latch

section Bare

theorem bare_distances (f : ℕ → ℕ → Unit) : Distances f := ⟨fun _ _ => le_refl _,fun _ => rfl⟩

theorem bare_tabulate {g : Graph W} (square : Square n g) :
    mapGraph (fun _ => ()) g = tabulate n fun _ _ => () := by
  have shape : Square n (mapGraph (fun _ => ()) g) := by
    refine ⟨(mapGraph_length _ g).trans square.1,?_⟩
    intro row member
    obtain ⟨old,inside,rfl⟩ := List.mem_map.mp member
    rw [List.length_map]
    exact square.2 old inside
  rw [square_tabulate shape]

theorem bare_delivered {s : System W} {blocks : ℕ} (delivered : Delivered blocks (bareSystem s)) :
    Delivered blocks s := by
  obtain ⟨count,done,once,opened⟩ := delivered
  refine ⟨?_,?_,?_,opened⟩
  · rw [← count]
    exact (List.length_map _).symm
  · intro b member
    exact done (bareActor b) (List.mem_map_of_mem member)
  · rw [← once]
    exact (List.length_map _).symm

variable [Add W] [LT W] [DecidableLT W]

-- What happens without the weights happens with them.
theorem bare_step {s : System W} {i : ℕ} {t : System Unit} (ran : (bareSystem s).step i = some t) :
    ∃ next, s.step i = some next ∧ bareSystem next = t := by
  rw [step_bare] at ran
  exact Option.map_eq_some_iff.mp ran

end Bare

-- A single block has no neighbours: no result ever comes that would make it go on.
theorem single_stuck (bs : ℕ) : ∃ t, (opened 1 bs fun _ _ => ()).step 0 = some t ∧ t.net = [] ∧
    t.results = [] := ⟨_,rfl,rfl,rfl⟩

section Whole
variable [Add W] [LT W] [DecidableLT W] {g : Graph W}

theorem single_run (size : 0 < bs) (square : Square bs g) :
    ∃ s, Reached bs g s ∧ s.net = [] ∧ s.results = [] := by
  have shape : mapGraph (fun _ => ()) g = tabulate (1 * bs) fun _ _ => () := by
    rw [Nat.one_mul]
    exact bare_tabulate square
  have asked : (bareSystem (System.initial bs g)).step 0 = some (opened 1 bs fun _ _ => ()) := by
    show System.receive {System.initial bs (mapGraph (fun _ => ()) g) with net := []}
      (.toManager (.computeFW (mapGraph (fun _ => ()) g))) = _
    rw [shape]
    exact computeFW_run 1 bs _ size
  obtain ⟨first,computed,firstBare⟩ := bare_step asked
  obtain ⟨t,ran,quiet,none⟩ := single_stuck bs
  rw [← firstBare] at ran
  obtain ⟨second,told,rfl⟩ := bare_step ran
  refine ⟨second,(Reached.start.step computed).step told,?_,?_⟩
  · exact List.map_eq_nil_iff.mp quiet
  · exact List.map_eq_nil_iff.mp none

-- The actors come to an end with all their messages just when there is more than one
-- block.
theorem apsp_completes (nodes : 1 ≤ n) (size : 1 ≤ bs) (divides : bs ∣ n) (square : Square n g) :
    (∀ s, Reached bs g s → s.net = [] → Delivered (n / bs * (n / bs)) s) ↔ bs < n := by
  obtain ⟨nb,rfl⟩ := divides
  rw [Nat.mul_div_cancel_left nb size]
  constructor
  · intro completes
    by_contra single
    have one : nb = 1 := by
      have some_ : 0 < nb := Nat.pos_of_mul_pos_left nodes
      have few : bs * nb ≤ bs * 1 := by omega
      have := Nat.le_of_mul_le_mul_left few size
      omega
    rw [one,Nat.mul_one] at square
    obtain ⟨s,run,quiet,none⟩ := single_run size square
    have once := (completes s run quiet).once
    rw [none] at once
    cases once
  · intro smaller s run quiet
    have two : 2 ≤ nb := by
      by_contra few
      have : bs * nb ≤ bs * 1 := Nat.mul_le_mul_left bs (by omega)
      omega
    rw [Nat.mul_comm] at square
    have bareRun := reached_bare run
    rw [bare_tabulate square] at bareRun
    apply bare_delivered
    apply quiet_delivered (bare_distances _) size two bareRun
    show s.net.map bareLetter = []
    rw [quiet]
    rfl

end Whole

theorem roads_delivered : ∃ s, deliver (.initial 2 roads) roadTurns = some s ∧ Delivered 4 s := by
  have finished : (deliver (.initial 2 roads) roadTurns).any (fun s => s.net.isEmpty) = true := by
    decide +kernel
  obtain ⟨s,delivered,empty⟩ := (Option.any_eq_true _ _).mp finished
  have square : Square 4 roads := ⟨rfl,by decide⟩
  have run : Reached 2 roads s := reached_deliver .start delivered
  have divides : 2 ∣ 4 := ⟨2,rfl⟩
  have completes := (apsp_completes (by decide) (by decide) divides square).mpr (by decide)
  exact ⟨s,delivered,completes s run (List.isEmpty_iff.mp empty)⟩

def pair : Graph ℕ := ⟨[[0,1],[1,0]]⟩

-- Two nodes in one block: the block gets its neighbours, of which there are none, and
-- nothing else is on its way.
theorem pair_stuck : ∃ s, Reached 2 pair s ∧ s.net = [] ∧ ¬Delivered (2 / 2 * (2 / 2)) s := by
  have stuck : (deliver (.initial 2 pair) [0,0]).any
      (fun s => s.net.isEmpty && s.results.isEmpty) = true := by decide +kernel
  obtain ⟨s,delivered,ends⟩ := (Option.any_eq_true _ _).mp stuck
  obtain ⟨empty,none⟩ := Bool.and_eq_true_iff.mp ends
  refine ⟨s,reached_deliver .start delivered,List.isEmpty_iff.mp empty,?_⟩
  intro delivered
  have once := delivered.once
  rw [List.isEmpty_iff.mp none] at once
  cases once

end KompicsBenches.ApspProgress
