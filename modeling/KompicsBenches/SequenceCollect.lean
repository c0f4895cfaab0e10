import KompicsBenches.ReconfigInvariant

namespace KompicsBenches.SequenceCollect
open Segments ReconfigComp ReconfigSystem ReconfigInvariant

def isInit : ReconfigurationMsg → Bool
  | .init _ => true
  | _ => false

-- What a node has handled since its first ReconfigInit.
def opening (inbox : List ReconfigurationMsg) : List ReconfigurationMsg :=
  inbox.dropWhile fun msg => !isInit msg

-- A transfer that delivers the segment of the last tag.
def closes (cfg : Config) : ReconfigurationMsg → Bool
  | .sequenceTransfer st => st.configId = 1 ∧ st.succeeded ∧ st.tag = cfg.count
  | _ => false

-- The leader's own segment is accounted under the last tag, whatever its place.
-- The last segment has been received all the same if the first ReconfigInit had
-- no segment, if its sender is the last continued node, or if the transfer of the
-- last tag was handled as well.
def LastReceived (cfg : Config) (inbox : List ReconfigurationMsg) : Prop :=
  ∃ r rest, opening inbox = .init r :: rest ∧
    (r.segment = none ∨ cfg.continuedNodes.getLast? = some r.sender ∨ rest.any (closes cfg))

theorem opening_more (shape : opening inbox = first :: rest) (msg : ReconfigurationMsg) :
    opening (inbox ++ [msg]) = first :: (rest ++ [msg]) := by
  unfold opening at shape ⊢
  rw [List.dropWhile_append,if_neg (by simp [shape]),shape]
  rfl

theorem opening_first (fresh : opening inbox = []) (r : ReconfigInit) :
    opening (inbox ++ [.init r]) = [.init r] := by
  unfold opening at fresh ⊢
  rw [List.dropWhile_append,if_pos (by simpa using fresh)]
  simp [isInit]

theorem opening_other (fresh : opening inbox = []) (other : isInit msg = false) :
    opening (inbox ++ [msg]) = [] := by
  unfold opening at fresh ⊢
  rw [List.dropWhile_append,if_pos (by simpa using fresh)]
  simp [other]

theorem lastReceived_shape (shape : opening inbox = .init r :: rest) :
    LastReceived cfg inbox ↔
      r.segment = none ∨ cfg.continuedNodes.getLast? = some r.sender ∨ rest.any (closes cfg) := by
  constructor
  · rintro ⟨r',rest',same,received⟩
    cases shape.symm.trans same
    exact received
  · intro received
    exact ⟨r,rest,shape,received⟩

theorem lastReceived_more (shape : opening inbox = .init r :: rest) (msg : ReconfigurationMsg) :
    LastReceived cfg (inbox ++ [msg]) ↔ LastReceived cfg inbox ∨ closes cfg msg := by
  rw [lastReceived_shape (opening_more shape msg),lastReceived_shape shape]
  simp only [List.any_append,List.any_cons,List.any_nil,Bool.or_false,Bool.or_eq_true,or_assoc]

-- What the buffer holds: every segment whose tag is gone, and placeholders in the
-- remainder. `got` says whether the last segment has really been received; if
-- not, there are placeholders in its place as well.
structure Collected (cfg : Config) (got : Prop) (rem : List ℕ) (buffer : List Entry) : Prop where
  size : buffer.length = cfg.finalSequence.length
  filled : ∀ tag, 1 ≤ tag → tag ≤ cfg.count → tag ∉ rem → (tag = cfg.count → got) →
    Agree buffer cfg.finalSequence ((tag - 1) * cfg.offset) ((tag - 1) * cfg.offset + cfg.offset)
  remainder : ∀ i, cfg.count * cfg.offset ≤ i → i < cfg.finalSequence.length →
    buffer[i]? = some (.normal [])
  missing : ¬got → ∀ i, (cfg.count - 1) * cfg.offset ≤ i → i < cfg.count * cfg.offset →
    buffer[i]? = some (.normal [])

variable {cfg : Config} {got more : Prop} {rem : List ℕ} {buffer out : List Entry}

theorem expected_collected (cfg : Config) (got : Prop) :
    Collected cfg got (List.range' 1 cfg.count)
      (List.replicate cfg.finalSequence.length (.normal [])) where
  size := List.length_replicate
  filled := by
    intro tag low high absent _
    refine (absent ?_).elim
    rw [List.mem_range'_1]
    omega
  remainder := by
    intro i _ inside
    rw [List.getElem?_replicate,if_pos inside]
  missing := by
    intro _ i _ inside
    rw [List.getElem?_replicate,if_pos (lt_of_lt_of_le inside (segments_le cfg))]

-- A segment written in its place, under its tag.
theorem Collected.absorb (old : Collected cfg got rem buffer) (ranged : Ranged cfg tag fromIdx toIdx)
    (cut : slice cfg.finalSequence fromIdx toIdx = some entries)
    (done : overwrite buffer fromIdx entries = some out) (now : more ↔ got ∨ tag = cfg.count) :
    Collected cfg more (rem.filter (· ≠ tag)) out := by
  have size : entries.length = toIdx - fromIdx := (slice_spec cut).2.2.1
  have within := ranged.within
  refine ⟨by rw [overwrite_length done,old.size],?_,?_,?_⟩
  · intro t low high absent last
    by_cases same : t = tag
    · subst same
      rw [← ranged.start,← ranged.stop]
      exact Agree.written cut done
    · have gone : t ∉ rem := by
        intro present
        exact absent (List.mem_filter.mpr ⟨present,by simpa using same⟩)
      refine (old.filled t low high gone fun top => ?_).kept cut done
      rcases now.mp (last top) with before | now
      · exact before
      · exact (same (top.trans now.symm)).elim
  · intro i above below
    rw [overwrite_outside done (by have := ranged.stop; omega)]
    exact old.remainder i above below
  · intro absent i above below
    have before : ¬got := fun had => absent (now.mpr (.inl had))
    have other : tag ≠ cfg.count := fun same => absent (now.mpr (.inr same))
    have ahead : toIdx ≤ (cfg.count - 1) * cfg.offset := by
      have low := ranged.low
      have high := ranged.high
      have least : (tag - 1) * cfg.offset + cfg.offset = tag * cfg.offset := by
        obtain ⟨k,rfl⟩ := Nat.exists_eq_add_of_le' low
        simp [Nat.succ_mul]
      rw [ranged.stop,ranged.start,least]
      exact Nat.mul_le_mul_right _ (by omega)
    rw [overwrite_outside done (by have := ranged.stop; omega)]
    exact old.missing before i above below

-- The segment of the continued node at position `k`, which came along with the
-- first ReconfigInit and is accounted under the last tag.
theorem expected_leader (position : k < cfg.count)
    (cut : slice cfg.finalSequence (k * cfg.offset) (k * cfg.offset + cfg.offset) = some entries)
    (done : overwrite (List.replicate cfg.finalSequence.length (.normal [])) (k * cfg.offset) entries =
      some out) (now : got ↔ k + 1 = cfg.count) :
    Collected cfg got ((List.range' 1 cfg.count).filter (· ≠ cfg.count)) out := by
  have fresh := expected_collected cfg got
  have size : entries.length = cfg.offset := by
    rw [(slice_spec cut).2.2.1]
    omega
  have next : k * cfg.offset + cfg.offset = (k + 1) * cfg.offset := (Nat.succ_mul k _).symm
  refine ⟨by rw [overwrite_length done,fresh.size],?_,?_,?_⟩
  · intro tag low high absent last
    have top : tag = cfg.count := by
      by_contra other
      refine absent (List.mem_filter.mpr ⟨?_,by simpa using other⟩)
      rw [List.mem_range'_1]
      omega
    have placed : tag - 1 = k := by
      have := now.mp (last top)
      omega
    rw [placed]
    exact Agree.written cut done
  · intro i above below
    have before : (k + 1) * cfg.offset ≤ cfg.count * cfg.offset := Nat.mul_le_mul_right _ position
    rw [overwrite_outside done (by omega)]
    exact fresh.remainder i above below
  · intro absent i above below
    have other : k + 1 ≠ cfg.count := fun same => absent (now.mpr same)
    have before : (k + 1) * cfg.offset ≤ (cfg.count - 1) * cfg.offset :=
      Nat.mul_le_mul_right _ (by omega)
    rw [overwrite_outside done (by omega)]
    exact fresh.missing absent i above below

theorem final_length (cfg : Config) : cfg.finalSequence.length = cfg.entries.length + 1 := by
  simp [Config.finalSequence]

-- The stop sign is the last entry, and it is no placeholder.
theorem placeholder_differs (cfg : Config) (blank :
    buffer[cfg.finalSequence.length - 1]? = some (.normal [])) : buffer ≠ cfg.finalSequence := by
  rintro rfl
  rw [final_length] at blank
  simp [Config.finalSequence] at blank

theorem Collected.complete (done : Collected cfg got [] buffer) :
    buffer = cfg.finalSequence ↔ cfg.count ∣ cfg.finalSequence.length ∧ got := by
  have positive : 0 < cfg.finalSequence.length := by
    rw [final_length]
    omega
  constructor
  · intro same
    have divides : cfg.count ∣ cfg.finalSequence.length := by
      by_contra remainder
      have short : cfg.count * cfg.offset < cfg.finalSequence.length :=
        lt_of_le_of_ne (segments_le cfg) fun exact => remainder ⟨_,exact.symm⟩
      exact placeholder_differs cfg (done.remainder _ (by omega) (by omega)) same
    refine ⟨divides,?_⟩
    by_contra absent
    have exact : cfg.count * cfg.offset = cfg.finalSequence.length := Nat.mul_div_cancel' divides
    have below : (cfg.count - 1) * cfg.offset < cfg.count * cfg.offset := by
      have some : 0 < cfg.count * cfg.offset := by omega
      refine Nat.mul_lt_mul_of_pos_right ?_ (Nat.pos_of_mul_pos_left some)
      have := Nat.pos_of_mul_pos_right some
      omega
    exact placeholder_differs cfg (done.missing absent _ (by omega) (by omega)) same
  · rintro ⟨divides,received⟩
    refine tiled cfg.count cfg.offset ?_ (Nat.mul_div_cancel' divides) done.size
    intro k inside
    exact done.filled (k + 1) (by omega) (by omega) (List.not_mem_nil) fun _ => received

end KompicsBenches.SequenceCollect
