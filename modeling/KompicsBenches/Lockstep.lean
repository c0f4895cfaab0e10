import Mathlib

namespace KompicsBenches.Lockstep

-- Parties that go through the same phases, each with its neighbours: in every phase a
-- party sends its result to all of them, and the next phase needs all of theirs. The
-- network keeps no order.
structure Party (ι : Type*) where
  ready : Bool
  rank : ℕ
  own : ι → Prop
  next : ι → Prop

variable {ι : Type*}

def Party.sent (p : Party ι) (m : ℕ) : Prop := p.ready = true ∧ m ≤ p.rank

def Party.got (p : Party ι) (c : ι) (m : ℕ) : Prop :=
  m < p.rank ∨ m = p.rank ∧ p.own c ∨ m = p.rank + 1 ∧ p.next c

structure Neighbourhood (inside : ι → Prop) (near : ι → List ι) : Prop where
  symm : ∀ id c, inside id → c ∈ near id → inside c ∧ id ∈ near c
  nodup : ∀ id, inside id → (near id).Nodup

-- The sender, the receiver and the phase of a result on its way.
abbrev Token (ι : Type*) := ι × ι × ℕ

-- Before the last phase a result that was sent is either on its way or has arrived.
structure Ledger (inside : ι → Prop) (near : ι → List ι) (last : ℕ) (party : ι → Party ι)
    (net : List (Token ι)) : Prop where
  nodup : net.Nodup
  flight : ∀ c id m, (c,id,m) ∈ net →
    inside id ∧ c ∈ near id ∧ (party c).sent m ∧ ¬(party id).got c m
  heard : ∀ c id m, inside id → c ∈ near id → (party id).got c m → (party c).sent m
  complete : ∀ c id m, inside id → c ∈ near id → (party c).sent m → (party id).rank < last →
    (c,id,m) ∈ net ∨ (party id).got c m

section Rules
variable {inside : ι → Prop} {near : ι → List ι} {last : ℕ} {party : ι → Party ι}
  {net rest : List (Token ι)} {c id : ι} {m : ℕ}

theorem Ledger.perm (ledger : Ledger inside near last party net) (same : net.Perm rest) :
    Ledger inside near last party rest := by
  refine ⟨same.nodup ledger.nodup,?_,ledger.heard,?_⟩
  · intro c id m member
    exact ledger.flight c id m (same.mem_iff.mpr member)
  · intro c id m bound near sent before
    rw [← same.mem_iff]
    exact ledger.complete c id m bound near sent before

-- A neighbour is at most one phase ahead.
theorem Ledger.lead (ledger : Ledger inside near last party net)
    (network : Neighbourhood inside near) (bound : inside id) (nearby : c ∈ near id)
    (sent : (party c).sent m) : m ≤ (party id).rank + 1 := by
  obtain ⟨outside,back⟩ := network.symm id c bound nearby
  cases rank : (party c).rank with
  | zero =>
    have := sent.2
    omega
  | succ r =>
    have earlier : (party c).got id r := Or.inl (by omega)
    have := (ledger.heard id c r outside back earlier).2
    have := sent.2
    omega

-- What is on its way belongs to the phase of its receiver or to the next one.
theorem Ledger.arrives (ledger : Ledger inside near last party net)
    (network : Neighbourhood inside near) (member : (c,id,m) ∈ net) :
    m = (party id).rank ∨ m = (party id).rank + 1 := by
  obtain ⟨bound,nearby,sent,fresh⟩ := ledger.flight c id m member
  have ahead := ledger.lead network bound nearby sent
  have behind : ¬m < (party id).rank := fun early => fresh (Or.inl early)
  omega

section Change
variable [DecidableEq ι] {p : Party ι}

-- What changes for one party, and holds of the others as they stay.
theorem update_party {R : ι → Party ι → Party ι → Prop} (others : ∀ b, b ≠ id → R b (party b) (party b))
    (here : R id (party id) p) (b : ι) : R b (party b) (Function.update party id p b) := by
  by_cases same : b = id
  · rw [same,Function.update_self]
    exact here
  · rw [Function.update_of_ne same]
    exact others b same

-- A result arrives: it is no longer on its way, and nothing else changes.
theorem Ledger.accept (ledger : Ledger inside near last party ((c,id,m) :: rest))
    (sent : ∀ m, p.sent m ↔ (party id).sent m) (rank : p.rank = (party id).rank)
    (got : ∀ a r, p.got a r ↔ (party id).got a r ∨ a = c ∧ r = m) :
    Ledger inside near last (Function.update party id p) rest := by
  have sentAt (a : ι) (r : ℕ) : (Function.update party id p a).sent r ↔ (party a).sent r :=
    update_party (R := fun _ old new => new.sent r ↔ old.sent r) (fun _ _ => Iff.rfl) (sent r) a
  have gotAt (a b : ι) (r : ℕ) : (Function.update party id p b).got a r ↔
      (party b).got a r ∨ b = id ∧ a = c ∧ r = m := by
    apply update_party (R := fun b old new => new.got a r ↔ old.got a r ∨ b = id ∧ a = c ∧ r = m)
    · intro b other
      simp [other]
    · simpa using got a r
  have rankAt (b : ι) : (Function.update party id p b).rank = (party b).rank :=
    update_party (R := fun _ old new => new.rank = old.rank) (fun _ _ => rfl) rank b
  obtain ⟨new,nodup⟩ := List.nodup_cons.mp ledger.nodup
  refine ⟨nodup,?_,?_,?_⟩
  · intro a b r member
    obtain ⟨bound,nearby,sentOld,fresh⟩ := ledger.flight a b r (List.mem_cons_of_mem _ member)
    refine ⟨bound,nearby,(sentAt a r).mpr sentOld,?_⟩
    intro arrived
    rcases (gotAt a b r).mp arrived with old | ⟨rfl,rfl,rfl⟩
    · exact fresh old
    · exact new member
  · intro a b r bound nearby arrived
    apply (sentAt a r).mpr
    rcases (gotAt a b r).mp arrived with old | ⟨rfl,rfl,rfl⟩
    · exact ledger.heard a b r bound nearby old
    · exact (ledger.flight a b r List.mem_cons_self).2.2.1
  · intro a b r bound nearby sentNew before
    rw [gotAt]
    rw [rankAt] at before
    rcases ledger.complete a b r bound nearby ((sentAt a r).mp sentNew) before with flying | arrived
    · rcases List.mem_cons.mp flying with equal | flying
      · obtain ⟨rfl,rfl,rfl⟩ : a = c ∧ b = id ∧ r = m := by simpa using equal
        exact Or.inr (Or.inr ⟨rfl,rfl,rfl⟩)
      · exact Or.inl flying
    · exact Or.inr (Or.inl arrived)

omit [DecidableEq ι] in
-- After the last phase a result may be dropped.
theorem Ledger.drop (ledger : Ledger inside near last party ((c,id,m) :: rest))
    (final : ¬(party id).rank < last) : Ledger inside near last party rest := by
  obtain ⟨_,nodup⟩ := List.nodup_cons.mp ledger.nodup
  refine ⟨nodup,?_,ledger.heard,?_⟩
  · intro a b r member
    exact ledger.flight a b r (List.mem_cons_of_mem _ member)
  · intro a b r bound nearby sent before
    rcases ledger.complete a b r bound nearby sent before with flying | arrived
    · rcases List.mem_cons.mp flying with equal | flying
      · obtain ⟨rfl,rfl,rfl⟩ : a = c ∧ b = id ∧ r = m := by simpa using equal
        exact absurd before final
      · exact Or.inl flying
    · exact Or.inr arrived

-- A party sends the results of a phase to all its neighbours.
theorem Ledger.send (ledger : Ledger inside near last party net)
    (network : Neighbourhood inside near) (bound : inside id)
    (sent : ∀ r, p.sent r ↔ (party id).sent r ∨ r = m) (new : ¬(party id).sent m)
    (got : ∀ a r, a ∈ near id → (p.got a r ↔ (party id).got a r))
    (rank : (party id).rank ≤ p.rank) :
    Ledger inside near last (Function.update party id p)
      (net ++ (near id).map fun c => (id,c,m)) := by
  have sentAt (a : ι) (r : ℕ) : (Function.update party id p a).sent r ↔
      (party a).sent r ∨ a = id ∧ r = m := by
    apply update_party (R := fun a old new => new.sent r ↔ old.sent r ∨ a = id ∧ r = m)
    · intro a other
      simp [other]
    · simpa using sent r
  have gotAt (a b : ι) (r : ℕ) : a ∈ near b →
      ((Function.update party id p b).got a r ↔ (party b).got a r) :=
    update_party (R := fun b old new => a ∈ near b → (new.got a r ↔ old.got a r))
      (fun _ _ _ => Iff.rfl) (got a r) b
  have rankAt (b : ι) : (party b).rank ≤ (Function.update party id p b).rank :=
    update_party (R := fun _ old new => old.rank ≤ new.rank) (fun _ _ => Nat.le_refl _) rank b
  refine ⟨?_,?_,?_,?_⟩
  · apply List.Nodup.append ledger.nodup
    · apply (network.nodup id bound).map
      intro a b equal
      simpa using equal
    · intro token old fresh
      obtain ⟨a,_,rfl⟩ := List.mem_map.mp fresh
      exact new (ledger.flight id a m old).2.2.1
  · intro a b r member
    rcases List.mem_append.mp member with old | fresh
    · obtain ⟨inb,nearby,sentOld,missing⟩ := ledger.flight a b r old
      exact ⟨inb,nearby,(sentAt a r).mpr (Or.inl sentOld),fun arrived =>
        missing ((gotAt a b r nearby).mp arrived)⟩
    · obtain ⟨other,nearby,equal⟩ := List.mem_map.mp fresh
      obtain ⟨rfl,rfl,rfl⟩ : id = a ∧ other = b ∧ m = r := by simpa using equal
      obtain ⟨outside,back⟩ := network.symm id other bound nearby
      refine ⟨outside,back,(sentAt id m).mpr (Or.inr ⟨rfl,rfl⟩),?_⟩
      intro arrived
      exact new (ledger.heard id other m outside back ((gotAt id other m back).mp arrived))
  · intro a b r inb nearby arrived
    exact (sentAt a r).mpr (Or.inl (ledger.heard a b r inb nearby ((gotAt a b r nearby).mp arrived)))
  · intro a b r inb nearby sentNew before
    have earlier := Nat.lt_of_le_of_lt (rankAt b) before
    rw [List.mem_append,gotAt a b r nearby]
    rcases (sentAt a r).mp sentNew with sentOld | ⟨rfl,rfl⟩
    · rcases ledger.complete a b r inb nearby sentOld earlier with flying | arrived
      · exact Or.inl (Or.inl flying)
      · exact Or.inr arrived
    · exact Or.inl (Or.inr (List.mem_map.mpr ⟨b,(network.symm b a inb nearby).2,rfl⟩))

end Change

-- With nothing on its way and no party able to go on, all have reached the last phase.
theorem Ledger.finished (ledger : Ledger inside near last party [])
    (network : Neighbourhood inside near) (ready : ∀ id, inside id → (party id).ready = true)
    (waiting : ∀ id, inside id → (party id).rank < last → ∃ c ∈ near id, ¬(party id).own c)
    (id : ι) (bound : inside id) : last ≤ (party id).rank := by
  have all : ∀ m ≤ last, ∀ id, inside id → m ≤ (party id).rank := by
    intro m
    induction m with
    | zero =>
      intro _ id _
      exact Nat.zero_le _
    | succ m ih =>
      intro below id bound
      have reached := ih (by omega) id bound
      apply Nat.lt_of_le_of_ne reached
      intro stuck
      obtain ⟨c,nearby,missing⟩ := waiting id bound (by omega)
      have outside := (network.symm id c bound nearby).1
      have sent : (party c).sent m := ⟨ready c outside,ih (by omega) c outside⟩
      rcases ledger.complete c id m bound nearby sent (by omega) with flying | arrived
      · cases flying
      · rcases arrived with early | ⟨_,here⟩ | ⟨late,_⟩
        · omega
        · exact missing here
        · omega
  exact all last (Nat.le_refl last) id bound

end Rules

end KompicsBenches.Lockstep
