import KompicsBenches.ApspActors
import KompicsBenches.Lockstep

namespace KompicsBenches.ApspBlocks
open Shortening Graphs ApspActors Lockstep
variable {W : Type*} {nb bs id c n : ℕ} {f : ℕ → ℕ → W}

-- How many nodes a block has gone through.
def rank : Phase → ℕ
  | .initial => 0
  | .normal k => k + 1

theorem inc_normal (k : Phase) : k.inc = .normal (rank k) := by
  cases k with
  | initial => rfl
  | normal k => rfl

theorem rank_inc (k : Phase) : rank k.inc = rank k + 1 := by rw [inc_normal,rank]

theorem rank_incremented (k : Phase) : rank k.incremented = rank k + 1 := rank_inc k

theorem rank_injective {k other : Phase} (same : rank k = rank other) : k = other := by
  cases k with
  | initial =>
    cases other with
    | initial => rfl
    | normal o => cases same
  | normal k =>
    cases other with
    | initial => cases same
    | normal o => rw [Nat.succ.inj same]

section Places

def inside (nb id : ℕ) : Prop := id < nb * nb

def near (nb id : ℕ) : List ℕ := neighboursOf nb (id / nb) (id % nb)

theorem row_inside (bound : inside nb id) : id / nb < nb := Nat.div_lt_of_lt_mul bound

theorem column_inside (bound : inside nb id) : id % nb < nb :=
  Nat.mod_lt _ (Nat.pos_of_mul_pos_right (Nat.zero_lt_of_lt bound))

theorem mem_near (bound : inside nb id) : c ∈ near nb id ↔
    inside nb c ∧ c ≠ id ∧ (c % nb = id % nb ∨ c / nb = id / nb) := by
  have row := row_inside bound
  have column := column_inside bound
  have whole := Nat.div_add_mod' id nb
  unfold near neighboursOf
  rw [List.mem_append,List.mem_map,List.mem_map]
  constructor
  · rintro (⟨r,member,rfl⟩ | ⟨k,member,rfl⟩)
    · obtain ⟨rowBound,other⟩ : r < nb ∧ r ≠ id / nb := by simpa using member
      refine ⟨id_bound rowBound column,?_,Or.inl (place_within column)⟩
      intro same
      apply other
      rw [← same,place_part column]
    · obtain ⟨colBound,other⟩ : k < nb ∧ k ≠ id % nb := by simpa using member
      refine ⟨id_bound row colBound,?_,Or.inr (place_part colBound)⟩
      intro same
      apply other
      rw [← same,place_within colBound]
  · intro ⟨outside,other,line⟩
    have again := Nat.div_add_mod' c nb
    rcases line with sameColumn | sameRow
    · refine Or.inl ⟨c / nb,?_,by rw [← sameColumn,again]⟩
      have otherRow : c / nb ≠ id / nb := by
        intro same
        apply other
        rw [← again,← whole,same,sameColumn]
      simpa using ⟨row_inside outside,otherRow⟩
    · refine Or.inr ⟨c % nb,?_,by rw [← sameRow,again]⟩
      have otherColumn : c % nb ≠ id % nb := by
        intro same
        apply other
        rw [← again,← whole,same,sameRow]
      simpa using ⟨column_inside outside,otherColumn⟩

theorem near_nodup (bound : inside nb id) : (near nb id).Nodup := by
  have column := column_inside bound
  have positive := Nat.zero_lt_of_lt column
  apply List.Nodup.append
  · apply (List.nodup_range.filter _).map
    intro r other same
    exact Nat.eq_of_mul_eq_mul_right positive (Nat.add_right_cancel same)
  · apply (List.nodup_range.filter _).map
    intro k other same
    exact Nat.add_left_cancel same
  · intro place inColumn inRow
    obtain ⟨r,member,rfl⟩ := List.mem_map.mp inColumn
    obtain ⟨k,colMember,same⟩ := List.mem_map.mp inRow
    obtain ⟨_,other⟩ : r < nb ∧ r ≠ id / nb := by simpa using member
    obtain ⟨colBound,_⟩ : k < nb ∧ k ≠ id % nb := by simpa using colMember
    have front : (r * nb + id % nb) / nb = r := place_part column
    apply other
    rw [← front,← same,place_part colBound]

theorem near_network (nb : ℕ) : Neighbourhood (inside nb) (near nb) := by
  refine ⟨?_,fun id bound => near_nodup bound⟩
  intro id c bound member
  obtain ⟨outside,other,line⟩ := (mem_near bound).mp member
  exact ⟨outside,(mem_near outside).mpr ⟨bound,other.symm,line.imp Eq.symm Eq.symm⟩⟩

end Places

def view (b : BlockActor W) : Party ℕ :=
  ⟨b.ready,rank b.k,fun c => c ∈ b.neighbourData,fun c => c ∈ b.nextNeighbourData⟩

def token : Letter W → Option (Token ℕ)
  | .toBlock id (.phaseResult k data) => some (data.blockId,id,rank k)
  | _ => none

def opening : Letter W → Option ℕ
  | .toBlock id (.neighbours _) => some id
  | _ => none

def report : Letter W → Option ℕ
  | .toManager (.blockResult block) => some block.blockId
  | _ => none

theorem mem_known {data : BlockMap W} {v : ℕ → Block W}
    (known : ∀ c block, data.lookup c = some block → c ∈ near nb id ∧ block = v c)
    (member : c ∈ data) : c ∈ near nb id ∧ data.lookup c = some (v c) := by
  obtain ⟨block,found⟩ := Option.isSome_iff_exists.mp (AList.lookup_isSome.mpr member)
  obtain ⟨nearby,equal⟩ := known c block found
  exact ⟨nearby,equal ▸ found⟩

theorem insert_known {data : BlockMap W} {v : ℕ → Block W}
    (known : ∀ c block, data.lookup c = some block → c ∈ near nb id ∧ block = v c)
    (nearby : c ∈ near nb id) (a : ℕ) (block : Block W)
    (found : (data.insert c (v c)).lookup a = some block) :
    a ∈ near nb id ∧ block = v a := by
  by_cases here : a = c
  · subst a
    rw [AList.lookup_insert] at found
    exact ⟨nearby,(Option.some.inj found).symm⟩
  · rw [AList.lookup_insert_ne here] at found
    exact known a block found

section Arrival
variable {m : ℕ} {tokens : List (Token ℕ)} {block : Block W} {b : BlockActor W} {party : ℕ → Party ℕ}
  (here : party id = view b) (ledger : Ledger (inside nb) (near nb) (nb * bs) party ((c,id,m) :: tokens))
include here ledger

theorem accept_own (own : m = rank b.k) : Ledger (inside nb) (near nb) (nb * bs)
    (Function.update party id (view {b with neighbourData := b.neighbourData.insert c block})) tokens := by
  apply ledger.accept
  · intro r
    rw [here]
    rfl
  · rw [here]
    rfl
  · intro a r
    rw [here]
    show r < _ ∨ r = _ ∧ a ∈ AList.insert _ _ _ ∨ _ ↔ (r < _ ∨ r = _ ∧ a ∈ _ ∨ _) ∨ _
    rw [AList.mem_insert,own]
    tauto

theorem accept_next (later : m = rank b.k + 1) : Ledger (inside nb) (near nb) (nb * bs)
    (Function.update party id (view {b with nextNeighbourData := b.nextNeighbourData.insert c block}))
      tokens := by
  apply ledger.accept
  · intro r
    rw [here]
    rfl
  · rw [here]
    rfl
  · intro a r
    rw [here]
    show r < _ ∨ _ ∨ r = _ ∧ a ∈ AList.insert _ _ _ ↔ (r < _ ∨ _ ∨ r = _ ∧ a ∈ _) ∨ _
    rw [AList.mem_insert,later]
    tauto

end Arrival

variable [LinearOrder W] [AddMonoid W]

-- What a block has after some number of nodes.
def resultOf (nb bs : ℕ) (f : ℕ → ℕ → W) (m id : ℕ) : Block W := blockOf nb bs (through f m) id

def Carries (nb bs : ℕ) (f : ℕ → ℕ → W) : Letter W → Prop
  | .toBlock id (.neighbours nodes) => inside nb id ∧ nodes = near nb id
  | .toBlock _ (.phaseResult k data) => data = resultOf nb bs f (rank k) data.blockId
  | .toManager (.computeFW _) => False
  | .toManager (.blockResult block) =>
    inside nb block.blockId ∧ block = resultOf nb bs f (nb * bs) block.blockId

-- What holds of a block at any time, also in the middle of its loop.
structure Sound (nb bs : ℕ) (f : ℕ → ℕ → W) (id : ℕ) (b : BlockActor W) : Prop where
  nodes : b.numNodes = nb * bs
  bound : rank b.k ≤ nb * bs
  data : b.currentData = resultOf nb bs f (rank b.k) id
  neighbours : b.ready = true → b.neighbours = near nb id
  fresh : b.ready = false → rank b.k = 0 ∧ b.neighbourData = ∅
  own : ∀ c block, b.neighbourData.lookup c = some block →
    c ∈ near nb id ∧ block = resultOf nb bs f (rank b.k) c
  next : ∀ c block, b.nextNeighbourData.lookup c = some block →
    c ∈ near nb id ∧ block = resultOf nb bs f (rank b.k + 1) c

-- What holds of it between two messages as well.
structure Settled (nb bs : ℕ) (b : BlockActor W) : Prop where
  done : b.done = true ↔ rank b.k = nb * bs
  waiting : b.ready = true → b.done = false → b.neighbourData.keys.length ≠ b.neighbours.length

-- Counting the data is enough to know that all of it is there.
theorem full_iff {b : BlockActor W} (sound : Sound nb bs f id b) (bound : inside nb id)
    (ready : b.ready = true) : b.neighbourData.keys.length = b.neighbours.length ↔
      ∀ c ∈ near nb id, c ∈ b.neighbourData := by
  have subset : b.neighbourData.keys ⊆ near nb id := by
    intro c member
    exact (mem_known sound.own (AList.mem_keys.mpr member)).1
  have nodup := b.neighbourData.keys_nodup
  rw [sound.neighbours ready]
  constructor
  · intro size c nearby
    have same := (nodup.subperm subset).perm_of_length_le size.ge
    exact AList.mem_keys.mpr (same.mem_iff.mpr nearby)
  · intro all
    apply List.Perm.length_eq
    apply (List.perm_ext_iff_of_nodup nodup (near_nodup bound)).mpr
    intro c
    exact ⟨fun member => subset member,fun nearby => AList.mem_keys.mp (all c nearby)⟩

-- A block after one turn of its loop, and what it sends in a phase.
def turned (nb bs : ℕ) (f : ℕ → ℕ → W) (id : ℕ) (b : BlockActor W) : BlockActor W :=
  {b with
    k := b.k.inc
    currentData := resultOf nb bs f (rank b.k + 1) id
    neighbourData := b.nextNeighbourData
    nextNeighbourData := ∅}

def sending (nb bs : ℕ) (f : ℕ → ℕ → W) (id : ℕ) (k : Phase) : List (Letter W) :=
  (near nb id).map fun c => .toBlock c (.phaseResult k (resultOf nb bs f (rank k) id))

theorem sending_token (k : Phase) : (sending nb bs f id k).filterMap token =
    (near nb id).map fun c => (id,c,rank k) := by
  rw [sending,List.filterMap_map,← List.filterMap_eq_map]
  rfl

-- Anything that ignores results ignores what is sent in a phase.
theorem sending_silent {look : Letter W → Option α}
    (ignores : ∀ c k data, look (.toBlock c (.phaseResult k data)) = none) (k : Phase) :
    (sending nb bs f id k).filterMap look = [] := by
  apply List.filterMap_eq_nil_iff.mpr
  intro letter member
  obtain ⟨c,_,rfl⟩ := List.mem_map.mp member
  exact ignores _ _ _

theorem sending_carries (k : Phase) : ∀ letter ∈ sending nb bs f id k, Carries nb bs f letter := by
  intro letter member
  obtain ⟨c,_,rfl⟩ := List.mem_map.mp member
  rfl

theorem notify_run {b : BlockActor W} (sound : Sound nb bs f id b) (ready : b.ready = true) :
    b.notifyNeighbours = some (sending nb bs f id b.k) := by
  rw [BlockActor.notifyNeighbours,if_pos ready,sound.neighbours ready,sound.data]
  rfl

theorem turned_sound {b : BlockActor W} (sound : Sound nb bs f id b) (ready : b.ready = true)
    (before : rank b.k < nb * bs) : Sound nb bs f id (turned nb bs f id b) where
  nodes := sound.nodes
  bound := by
    rw [turned,rank_inc]
    exact before
  data := by
    rw [turned,rank_inc]
  neighbours := sound.neighbours
  fresh := by
    intro unready
    cases ready.symm.trans unready
  own := by
    intro c block found
    rw [turned,rank_inc]
    exact sound.next c block found
  next := by
    intro c block found
    rw [turned,AList.lookup_empty] at found
    cases found

-- All blocks that are read in a phase are the own one and those of neighbours.
theorem turn_run [AddLeftMono W] {b : BlockActor W} (distances : Distances f)
    (bound : inside nb id) (sound : Sound nb bs f id b) (ready : b.ready = true)
    (before : rank b.k < nb * bs) (full : ∀ c ∈ near nb id, c ∈ b.neighbourData) :
    b.turn = some (turned nb bs f id b,sending nb bs f id b.k.inc) := by
  have row := row_inside bound
  have column := column_inside bound
  have phase : rank b.k / bs < nb := Nat.div_lt_of_lt_mul (by rwa [Nat.mul_comm])
  have known : ∀ c ∈ near nb id, b.neighbourData.lookup c =
      some (blockOf nb bs (through f (rank b.k)) c) :=
    fun c nearby => (mem_known sound.own (full c nearby)).2
  have computed : b.currentData.computeFloydWarshallInner b.neighbourData.lookup (rank b.k) =
      some (resultOf nb bs f (rank b.k + 1) id) := by
    rw [sound.data]
    apply block_phase (through_distances distances _) bound before
    · intro other
      exact known _ ((mem_near bound).mpr ⟨id_bound row phase,other,Or.inr (place_part phase)⟩)
    · intro other
      exact known _ ((mem_near bound).mpr ⟨id_bound phase column,other,Or.inl (place_within column)⟩)
  have sent := notify_run (turned_sound sound ready before) ready
  have performed : BlockActor.performComputation {b with k := b.k.inc} = some {b with
      k := b.k.inc
      currentData := resultOf nb bs f (rank b.k + 1) id
      neighbourData := ∅} := by
    unfold BlockActor.performComputation
    rw [inc_normal,Phase.k,Option.bind_some]
    dsimp only
    rw [computed,Option.map_some]
  rw [BlockActor.turn,performed,Option.bind_some]
  show Option.map _ (BlockActor.notifyNeighbours (turned nb bs f id b)) = _
  rw [sent]
  rfl

-- A turn is a step to the next phase, which needs the results of all neighbours.
theorem turned_ledger {b : BlockActor W} {party : ℕ → Party ℕ} {net : List (Letter W)}
    (bound : inside nb id) (ready : b.ready = true) (full : ∀ c ∈ near nb id, c ∈ b.neighbourData)
    (ledger : Ledger (inside nb) (near nb) (nb * bs) (Function.update party id (view b))
      (net.filterMap token)) :
    Ledger (inside nb) (near nb) (nb * bs) (Function.update party id (view (turned nb bs f id b)))
      ((net ++ sending nb bs f id b.k.inc).filterMap token) := by
  have here : Function.update party id (view b) id = view b := Function.update_self ..
  have again : Function.update (Function.update party id (view b)) id (view (turned nb bs f id b)) =
      Function.update party id (view (turned nb bs f id b)) := Function.update_idem ..
  rw [List.filterMap_append,sending_token,← again]
  apply ledger.send (near_network nb) bound
  · intro r
    have later : (view (turned nb bs f id b)).sent r ↔ r ≤ rank b.k.inc := and_iff_right ready
    have earlier : (view b).sent r ↔ r ≤ rank b.k := and_iff_right ready
    rw [here,later,earlier,rank_inc]
    omega
  · rw [here,rank_inc]
    intro sent
    exact Nat.not_succ_le_self _ sent.2
  · intro c r nearby
    rw [here]
    have own : (view b).own c := full c nearby
    show r < rank b.k.inc ∨ r = rank b.k.inc ∧ c ∈ b.nextNeighbourData ∨ _ ∧ c ∈ (∅ : BlockMap W) ↔
      r < rank b.k ∨ r = rank b.k ∧ c ∈ b.neighbourData ∨ r = rank b.k + 1 ∧ c ∈ b.nextNeighbourData
    rw [rank_inc]
    have none : c ∉ (∅ : BlockMap W) := AList.notMem_empty c
    have all := full c nearby
    by_cases later : c ∈ b.nextNeighbourData
    · simp only [none,all,later,and_true,and_false,or_false]
      omega
    · simp only [none,all,later,and_true,and_false,or_false]
      omega
  · rw [here]
    show rank b.k ≤ rank b.k.inc
    rw [rank_inc]
    exact Nat.le_succ _

-- What the handling of a message by a block has done, with what it sent after the rest
-- of the network.
structure Moved (nb bs : ℕ) (f : ℕ → ℕ → W) (id : ℕ) (party : ℕ → Party ℕ) (net : List (Letter W))
    (wasReady wasDone : Bool) (result : BlockActor W × List (Letter W)) : Prop where
  ledger : Ledger (inside nb) (near nb) (nb * bs) (Function.update party id (view result.1))
    ((net ++ result.2).filterMap token)
  sound : Sound nb bs f id result.1
  settled : Settled nb bs result.1
  ready : result.1.ready = wasReady
  keeps : wasDone = true → result.1.done = true
  carries : ∀ letter ∈ result.2, Carries nb bs f letter
  opening : result.2.filterMap opening = []
  report : result.2.filterMap report = if wasDone = false ∧ result.1.done = true then [id] else []

section Moves
variable {b : BlockActor W} {party : ℕ → Party ℕ} {net : List (Letter W)}

theorem moved_quiet (sound : Sound nb bs f id b) (settled : Settled nb bs b)
    (ledger : Ledger (inside nb) (near nb) (nb * bs) (Function.update party id (view b))
      (net.filterMap token)) : Moved nb bs f id party net b.ready b.done (b,[]) where
  ledger := by
    rw [List.append_nil]
    exact ledger
  sound := sound
  settled := settled
  ready := rfl
  keeps := fun done => done
  carries := by
    intro letter member
    cases member
  opening := rfl
  report := by
    cases b.done with
    | false => rfl
    | true => rfl

theorem moved_report (bound : inside nb id) (sound : Sound nb bs f id b) (ready : b.ready = true)
    (last : rank b.k = nb * bs)
    (ledger : Ledger (inside nb) (near nb) (nb * bs) (Function.update party id (view b))
      (net.filterMap token)) : Moved nb bs f id party net true false
        ({b with done := true},[.toManager (.blockResult b.currentData)]) where
  ledger := by
    rw [List.filterMap_append]
    show Ledger _ _ _ _ (_ ++ [])
    rw [List.append_nil]
    exact ledger
  sound := ⟨sound.nodes,sound.bound,sound.data,sound.neighbours,sound.fresh,sound.own,sound.next⟩
  settled := by
    refine ⟨iff_of_true rfl last,?_⟩
    intro _ unfinished
    cases unfinished
  ready := ready
  keeps := fun _ => rfl
  carries := by
    intro letter member
    rw [List.mem_singleton.mp member,sound.data,last]
    exact ⟨bound,rfl⟩
  opening := rfl
  report := by
    show [b.currentData.blockId] = [id]
    rw [sound.data]
    rfl

-- Results are sent first.
theorem moved_sending {wasReady wasDone : Bool} {result : BlockActor W × List (Letter W)} (k : Phase)
    (moved : Moved nb bs f id party (net ++ sending nb bs f id k) wasReady wasDone result) :
    Moved nb bs f id party net wasReady wasDone (result.1,sending nb bs f id k ++ result.2) where
  ledger := by
    rw [← List.append_assoc]
    exact moved.ledger
  sound := moved.sound
  settled := moved.settled
  ready := moved.ready
  keeps := moved.keeps
  carries := by
    intro letter member
    rcases List.mem_append.mp member with sent | more
    · exact sending_carries k letter sent
    · exact moved.carries letter more
  opening := by
    rw [List.filterMap_append,sending_silent (fun _ _ _ => rfl) k,moved.opening]
    rfl
  report := by
    rw [List.filterMap_append,sending_silent (fun _ _ _ => rfl) k,moved.report]
    rfl

-- The loop ends: either a neighbour is missing, or the last phase is over and the block
-- has reported.
theorem advance_run [AddLeftMono W] (distances : Distances f) (bound : inside nb id) (fuel : ℕ)
    (sound : Sound nb bs f id b) (ready : b.ready = true) (running : b.done = false)
    (before : rank b.k < nb * bs) (enough : nb * bs < rank b.k + fuel)
    (ledger : Ledger (inside nb) (near nb) (nb * bs) (Function.update party id (view b))
      (net.filterMap token)) :
    ∃ result, b.advance fuel = some result ∧ Moved nb bs f id party net true false result := by
  induction fuel generalizing b net with
  | zero => omega
  | succ fuel ih =>
    by_cases size : b.neighbourData.keys.length = b.neighbours.length
    · have full := (full_iff sound bound ready).mp size
      have turn := turn_run distances bound sound ready before full
      have soundNext := turned_sound sound ready before
      have ledgerNext := turned_ledger (f := f) bound ready full ledger
      have rankNext : rank (turned nb bs f id b).k = rank b.k + 1 := rank_inc b.k
      rw [BlockActor.advance,if_pos size,turn,Option.bind_some]
      by_cases last : rank b.k + 1 = nb * bs
      · have final : (turned nb bs f id b).k = .normal ((turned nb bs f id b).numNodes - 1) := by
          rw [soundNext.nodes,← last]
          exact inc_normal b.k
        have moved := moved_report bound soundNext ready (rankNext.trans last) ledgerNext
        rw [if_pos final]
        exact ⟨_,rfl,moved_sending b.k.inc moved⟩
      · have other : (turned nb bs f id b).k ≠ .normal ((turned nb bs f id b).numNodes - 1) := by
          intro same
          have ranks := congrArg rank same
          rw [rankNext,soundNext.nodes,rank] at ranks
          omega
        obtain ⟨result,run,moved⟩ := ih soundNext ready running (by omega) (by omega) ledgerNext
        rw [if_neg other,run,Option.map_some]
        exact ⟨_,rfl,moved_sending b.k.inc moved⟩
    · have settled : Settled nb bs b := by
        refine ⟨?_,fun _ _ => size⟩
        rw [running]
        exact iff_of_false Bool.false_ne_true before.ne
      have moved := moved_quiet sound settled ledger
      rw [ready,running] at moved
      rw [BlockActor.advance,if_neg size]
      exact ⟨_,rfl,moved⟩

theorem insert_sound {m : ℕ} (sound : Sound nb bs f id b) (ready : b.ready = true)
    (nearby : c ∈ near nb id) (own : m = rank b.k) : Sound nb bs f id
      {b with neighbourData := b.neighbourData.insert c (resultOf nb bs f m c)} where
  nodes := sound.nodes
  bound := sound.bound
  data := sound.data
  neighbours := sound.neighbours
  fresh := by
    intro unready
    cases ready.symm.trans unready
  own := by
    subst m
    exact insert_known (v := resultOf nb bs f (rank b.k)) sound.own nearby
  next := sound.next

theorem insert_next_sound {m : ℕ} (sound : Sound nb bs f id b) (nearby : c ∈ near nb id)
    (later : m = rank b.k + 1) : Sound nb bs f id
      {b with nextNeighbourData := b.nextNeighbourData.insert c (resultOf nb bs f m c)} where
  nodes := sound.nodes
  bound := sound.bound
  data := sound.data
  neighbours := sound.neighbours
  fresh := sound.fresh
  own := sound.own
  next := by
    subst m
    exact insert_known (v := resultOf nb bs f (rank b.k + 1)) sound.next nearby

-- A result arrives before the block knows its neighbours.
theorem moved_again {k : Phase} {data : Block W} (sound : Sound nb bs f id b) (settled : Settled nb bs b)
    (carries : data = resultOf nb bs f (rank k) data.blockId)
    (ledger : Ledger (inside nb) (near nb) (nb * bs) (Function.update party id (view b))
      ((data.blockId,id,rank k) :: net.filterMap token)) :
    Moved nb bs f id party net b.ready b.done (b,[.toBlock id (.phaseResult k data)]) where
  ledger := by
    rw [List.filterMap_append]
    exact ledger.perm (List.perm_append_singleton _ _).symm
  sound := sound
  settled := settled
  ready := rfl
  keeps := fun done => done
  carries := by
    intro letter member
    rw [List.mem_singleton.mp member]
    exact carries
  opening := rfl
  report := by
    cases b.done with
    | false => rfl
    | true => rfl

-- No result belongs to a phase the block is not prepared for.
theorem phaseResult_run [AddLeftMono W] {k : Phase} {data : Block W} (distances : Distances f)
    (bound : inside nb id) (sound : Sound nb bs f id b) (settled : Settled nb bs b)
    (here : party id = view b) (carries : data = resultOf nb bs f (rank k) data.blockId)
    (ledger : Ledger (inside nb) (near nb) (nb * bs) party
      ((data.blockId,id,rank k) :: net.filterMap token)) :
    ∃ result, b.receiveLocal id (.phaseResult k data) = some result ∧
      Moved nb bs f id party net b.ready b.done result := by
  obtain ⟨_,nearby,_,_⟩ := ledger.flight _ _ _ List.mem_cons_self
  have same : Function.update party id (view b) = party := by rw [← here,Function.update_eq_self]
  rw [BlockActor.receiveLocal]
  by_cases ready : b.ready = true
  · rw [if_neg (not_not.mpr ready)]
    by_cases done : b.done = true
    · rw [if_pos done]
      refine ⟨_,rfl,moved_quiet sound settled ?_⟩
      rw [same]
      apply ledger.drop
      rw [here]
      show ¬rank b.k < nb * bs
      rw [settled.done.mp done]
      exact lt_irrefl _
    · have running : b.done = false := by simpa using done
      have before : rank b.k < nb * bs :=
        lt_of_le_of_ne sound.bound fun last => done (settled.done.mpr last)
      have phases := ledger.arrives (near_network nb) List.mem_cons_self
      rw [here] at phases
      rw [if_neg done]
      rcases phases with own | later
      · have enough : nb * bs < rank b.k + (b.numNodes + 1) := by
          rw [sound.nodes]
          omega
        obtain ⟨result,run,moved⟩ := advance_run distances bound (b.numNodes + 1)
          (insert_sound sound ready nearby own) ready running before enough (accept_own here ledger own)
        rw [if_pos (rank_injective own),carries]
        refine ⟨result,run,?_⟩
        rw [ready,running]
        exact moved
      · have other : k ≠ b.k := by
          intro equal
          rw [equal] at later
          exact Nat.succ_ne_self _ later.symm
        have next : k = b.k.incremented := rank_injective (later.trans (rank_incremented b.k).symm)
        rw [if_neg other,if_pos next,carries]
        refine ⟨_,rfl,moved_quiet (insert_next_sound sound nearby later) ⟨settled.done,settled.waiting⟩ ?_⟩
        exact accept_next here ledger later
  · rw [if_pos ready]
    refine ⟨_,rfl,moved_again sound settled carries ?_⟩
    rw [same]
    exact ledger

theorem near_nonempty (two : 2 ≤ nb) (bound : inside nb id) : near nb id ≠ [] := by
  have column := column_inside bound
  -- Any other row of blocks has a neighbour.
  obtain ⟨row,rowBound,other⟩ : ∃ row, row < nb ∧ row ≠ id / nb := by
    by_cases first : id / nb = 0
    · exact ⟨1,by omega,by omega⟩
    · exact ⟨0,by omega,by omega⟩
  have nearby : row * nb + id % nb ∈ near nb id := by
    apply (mem_near bound).mpr
    refine ⟨id_bound rowBound column,?_,Or.inl (place_within column)⟩
    intro same
    apply other
    rw [← same,place_part column]
  exact List.ne_nil_of_mem nearby

theorem neighbours_run (two : 2 ≤ nb) (bound : inside nb id) (sound : Sound nb bs f id b)
    (settled : Settled nb bs b) (here : party id = view b) (unready : b.ready = false)
    (ledger : Ledger (inside nb) (near nb) (nb * bs) party (net.filterMap token)) :
    ∃ result, b.receiveLocal id (.neighbours (near nb id)) = some result ∧
      Moved nb bs f id party net true b.done result := by
  obtain ⟨start,empty⟩ := sound.fresh unready
  have soundNow : Sound nb bs f id {b with neighbours := near nb id, ready := true} := by
    refine ⟨sound.nodes,sound.bound,sound.data,fun _ => rfl,?_,sound.own,sound.next⟩
    intro stillUnready
    cases stillUnready
  have settledNow : Settled nb bs {b with neighbours := near nb id, ready := true} := by
    refine ⟨settled.done,?_⟩
    intro _ _
    show b.neighbourData.keys.length ≠ (near nb id).length
    rw [empty]
    exact (List.length_pos_of_ne_nil (near_nonempty two bound)).ne
  rw [BlockActor.receiveLocal]
  show ∃ result, Option.map _ (BlockActor.notifyNeighbours
    {b with neighbours := near nb id, ready := true}) = some result ∧ _
  rw [notify_run soundNow rfl,Option.map_some]
  refine ⟨_,rfl,?_⟩
  have ledgerNow : Ledger (inside nb) (near nb) (nb * bs)
      (Function.update party id (view {b with neighbours := near nb id, ready := true}))
        ((net ++ sending nb bs f id b.k).filterMap token) := by
    rw [List.filterMap_append,sending_token]
    apply ledger.send (near_network nb) bound
    · intro r
      rw [here,start]
      show true = true ∧ r ≤ rank b.k ↔ (b.ready = true ∧ r ≤ rank b.k) ∨ r = 0
      rw [start,unready]
      simp
    · rw [here]
      intro sent
      cases unready.symm.trans sent.1
    · intro a r _
      rw [here]
      exact Iff.rfl
    · rw [here]
      exact Nat.le_refl _
  have quiet := moved_quiet soundNow settledNow ledgerNow
  have moved := moved_sending b.k quiet
  rw [List.append_nil] at moved
  exact moved

end Moves

end KompicsBenches.ApspBlocks
