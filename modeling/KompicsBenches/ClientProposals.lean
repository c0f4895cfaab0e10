import KompicsBenches.ClientMoves

namespace KompicsBenches.ClientProposals
open ControlCodec ClientComp ClientMoves
variable {low id key : ℕ} {cause : Client × Event} {c next : Client} {map : List (ℕ × ℕ)}

def pendingIds (c : Client) : List ℕ := c.pendingProposals.map Prod.fst

section Maps

theorem erase_ids : (erase key map).map Prod.fst = (map.map Prod.fst).filter (· ≠ key) := by
  rw [erase,List.filter_map]
  rfl

theorem count_erase (id : ℕ) :
    ((erase key map).map Prod.fst).count id = if id = key then 0 else (map.map Prod.fst).count id := by
  rw [erase_ids]
  split
  · rename_i same
    subst same
    apply List.count_eq_zero_of_not_mem
    simp
  · rename_i different
    rw [List.count_filter (by simpa using different)]

theorem count_put (value id : ℕ) :
    ((put key value map).map Prod.fst).count id =
      if id = key then 1 else (map.map Prod.fst).count id := by
  rw [put,List.map_cons,List.count_cons,count_erase]
  by_cases same : id = key
  · simp [same]
  · simp [same,Ne.symm same]

theorem count_insertKey {keys : List ℕ} (fresh : keys.count key = 0) (id : ℕ) :
    (insertKey key keys).count id = keys.count id + if id = key then 1 else 0 := by
  have absent : key ∉ keys := List.count_eq_zero.mp fresh
  rw [insertKey,if_neg absent,List.count_cons]
  by_cases same : id = key
  · simp [same]
  · simp [same,Ne.symm same]

theorem lookup_mem {value : ℕ} (found : map.lookup key = some value) : (key,value) ∈ map := by
  obtain ⟨before,after,rfl,_⟩ := List.lookup_eq_some_iff.mp found
  exact List.mem_append_right _ List.mem_cons_self

theorem lookup_count (found : map.lookup key ≠ none) : 1 ≤ (map.map Prod.fst).count key := by
  obtain ⟨value,found⟩ := Option.ne_none_iff_exists'.mp found
  rw [List.one_le_count_iff]
  exact List.mem_map.mpr ⟨(key,value),lookup_mem found,rfl⟩

theorem lookup_found (member : key ∈ map.map Prod.fst) : ∃ value, map.lookup key = some value := by
  cases found : map.lookup key with
  | some value => exact ⟨value,rfl⟩
  | none =>
    obtain ⟨pair,inside,rfl⟩ := List.mem_map.mp member
    have different := List.lookup_eq_none_iff.mp found pair inside
    simp at different

end Maps

-- Every proposal that was made is in exactly one place: pending, held back for a
-- retry, or answered. Of the others only the reconfiguration is ever pending.
structure Conserved (low : ℕ) (c : Client) : Prop where
  once : ∀ id, id ≠ reconfigId →
    (pendingIds c).count id + c.retryProposals.count id + c.responses.count id =
      if 1 ≤ id ∧ id ≤ c.latestProposalId then 1 else 0
  single : (pendingIds c).count reconfigId ≤ 1
  unanswered : c.responses.count reconfigId = 0
  unheld : 1 ≤ low → c.retryProposals.count reconfigId = 0
  bounded : c.latestProposalId ≤ c.numProposals

theorem initial_conserved (cfg : Config) : Conserved low (Client.with cfg) := by
  refine ⟨?_,?_,?_,?_,?_⟩
  · intro id _
    rw [if_neg]
    · rfl
    · intro range
      have : id ≤ 0 := range.2
      omega
  · exact Nat.zero_le _
  · rfl
  · intro _
    rfl
  · exact Nat.zero_le _

section Moving

theorem count_withdraw (id timer k : ℕ) :
    (pendingIds (c.withdraw id timer)).count k = if k = id then 0 else (pendingIds c).count k :=
  count_erase k

theorem mem_withdraw {timer k : ℕ} :
    k ∈ pendingIds (c.withdraw id timer) ↔ k ∈ pendingIds c ∧ k ≠ id := by
  show k ∈ (erase id c.pendingProposals).map Prod.fst ↔ _
  rw [erase_ids,List.mem_filter,decide_eq_true_eq]
  rfl

theorem count_track (id k : ℕ) :
    (pendingIds (c.track id)).count k = if k = id then 1 else (pendingIds c).count k :=
  count_put c.nextTimer k

theorem mem_track {k : ℕ} : k ∈ pendingIds (c.track id) ↔ k = id ∨ k ∈ pendingIds c := by
  show k ∈ (put id c.nextTimer c.pendingProposals).map Prod.fst ↔ _
  rw [put,List.map_cons,List.mem_cons,erase_ids,List.mem_filter,decide_eq_true_eq]
  by_cases same : k = id
  · simp [same]
  · simp [same,pendingIds]

variable (conserved : Conserved low c)
include conserved

-- A pending proposal is in no other place.
theorem Conserved.pending (normal : id ≠ reconfigId) (pending : c.pendingProposals.lookup id ≠ none) :
    (pendingIds c).count id = 1 ∧ c.retryProposals.count id = 0 ∧ c.responses.count id = 0 ∧
      1 ≤ id ∧ id ≤ c.latestProposalId := by
  have once := conserved.once id normal
  have held : 1 ≤ (pendingIds c).count id := lookup_count pending
  split at once
  · rename_i range
    exact ⟨by omega,by omega,by omega,range⟩
  · omega

-- Where a proposal is that the client has made.
theorem Conserved.place (positive : 1 ≤ id) (made : id ≤ c.latestProposalId) :
    id ∈ pendingIds c ∨ id ∈ c.retryProposals ∨ id ∈ c.responses := by
  have once := conserved.once id (Nat.ne_of_gt positive)
  rw [if_pos ⟨positive,made⟩] at once
  by_contra nowhere
  simp only [not_or,← List.count_eq_zero] at nowhere
  omega

theorem Conserved.held_only (positive : 1 ≤ id) (held : id ∈ c.retryProposals) :
    c.pendingProposals.lookup id = none ∧ id ∉ c.responses := by
  have once := conserved.once id (Nat.ne_of_gt positive)
  have counted := List.one_le_count_iff.mpr held
  constructor
  · by_contra pending
    have alone := conserved.pending (Nat.ne_of_gt positive) pending
    omega
  · rw [← List.count_eq_zero]
    split at once <;> omega

theorem Conserved.launched (leader : ℕ) (more : c.latestProposalId < c.numProposals) :
    Conserved low {c.proposeNormal leader (c.latestProposalId + 1) with
      latestProposalId := c.latestProposalId + 1} := by
  refine ⟨?_,?_,conserved.unanswered,conserved.unheld,more⟩
  · intro id normal
    have once := conserved.once id normal
    have counted := count_track (c := c) (c.latestProposalId + 1) id
    show (pendingIds (c.track (c.latestProposalId + 1))).count id + c.retryProposals.count id +
      c.responses.count id = if 1 ≤ id ∧ id ≤ c.latestProposalId + 1 then 1 else 0
    rw [counted]
    by_cases same : id = c.latestProposalId + 1
    · rw [if_neg (by omega)] at once
      rw [if_pos same,if_pos (by omega)]
      omega
    · rw [if_neg same,once]
      by_cases range : 1 ≤ id ∧ id ≤ c.latestProposalId
      · rw [if_pos range,if_pos (by omega)]
      · rw [if_neg range,if_neg (by omega)]
  · have counted := count_track (c := c) (c.latestProposalId + 1) reconfigId
    rw [if_neg (Nat.succ_ne_zero _).symm] at counted
    exact counted ▸ conserved.single

theorem Conserved.resent (leader : ℕ) {rest : List ℕ} (waiting : c.retryProposals = id :: rest) :
    Conserved low (Client.proposeNormal {c with retryProposals := rest} leader id) := by
  have counts : ∀ k, c.retryProposals.count k = rest.count k + if k = id then 1 else 0 := by
    intro k
    rw [waiting,List.count_cons]
    by_cases same : k = id
    · simp [same]
    · simp [same,Ne.symm same]
  refine ⟨?_,?_,conserved.unanswered,?_,conserved.bounded⟩
  · intro k normal
    have once := conserved.once k normal
    have counted := count_track (c := c) id k
    have count := counts k
    show (pendingIds (c.track id)).count k + rest.count k + c.responses.count k =
      if 1 ≤ k ∧ k ≤ c.latestProposalId then 1 else 0
    rw [counted]
    by_cases same : k = id
    · rw [if_pos same] at count ⊢
      split at once <;> split <;> omega
    · rw [if_neg same] at count ⊢
      split at once <;> split <;> omega
  · have counted := count_track (c := c) id reconfigId
    have single := conserved.single
    show (pendingIds (c.track id)).count reconfigId ≤ 1
    rw [counted]
    split <;> omega
  · intro positive
    have none_held := conserved.unheld positive
    have count := counts reconfigId
    show rest.count reconfigId = 0
    omega

-- A proposal that is withdrawn is missing from the count until it is entered elsewhere.
theorem Conserved.withdrawn_once (timer : ℕ) (pending : c.pendingProposals.lookup id ≠ none) (normal : k ≠ reconfigId) :
    (pendingIds (c.withdraw id timer)).count k + c.retryProposals.count k + c.responses.count k +
      (if k = id then 1 else 0) = if 1 ≤ k ∧ k ≤ c.latestProposalId then 1 else 0 := by
  have once := conserved.once k normal
  rw [count_withdraw]
  by_cases same : k = id
  · subst same
    have alone := conserved.pending normal pending
    rw [if_pos rfl,if_pos rfl,if_pos alone.2.2.2]
    omega
  · rw [if_neg same,if_neg same]
    exact once

theorem Conserved.withdrawn_single (id timer : ℕ) : (pendingIds (c.withdraw id timer)).count reconfigId ≤ 1 := by
  have single := conserved.single
  rw [count_withdraw]
  split <;> omega

theorem Conserved.held {timer : ℕ} (above : low ≤ id)
    (pending : c.pendingProposals.lookup id = some timer) :
    Conserved low {c.withdraw id timer with retryProposals := c.retryProposals ++ [id]} := by
  have counts : ∀ k, (c.retryProposals ++ [id]).count k =
      c.retryProposals.count k + if k = id then 1 else 0 := by
    intro k
    rw [List.count_append,List.count_singleton]
    by_cases same : k = id
    · simp [same]
    · simp [same,Ne.symm same]
  refine ⟨?_,conserved.withdrawn_single id timer,conserved.unanswered,?_,conserved.bounded⟩
  · intro k normal
    have once := conserved.withdrawn_once timer (by simp [pending] : c.pendingProposals.lookup id ≠ none) normal
    show (pendingIds (c.withdraw id timer)).count k + (c.retryProposals ++ [id]).count k +
      c.responses.count k = if 1 ≤ k ∧ k ≤ c.latestProposalId then 1 else 0
    rw [counts,← once]
    omega
  · intro positive
    have none_held := conserved.unheld positive
    show (c.retryProposals ++ [id]).count reconfigId = 0
    rw [counts,none_held,if_neg]
    intro same
    have : id = 0 := same.symm
    omega

-- The reconfiguration comes and goes without touching the other proposals.
theorem Conserved.withdrawn (timer : ℕ) : Conserved low (c.withdraw reconfigId timer) := by
  refine ⟨?_,?_,conserved.unanswered,conserved.unheld,conserved.bounded⟩
  · intro k other
    rw [count_withdraw,if_neg other]
    exact conserved.once k other
  · rw [count_withdraw,if_pos rfl]
    exact Nat.zero_le _

theorem Conserved.tracked : Conserved low (c.track reconfigId) := by
  refine ⟨?_,?_,conserved.unanswered,conserved.unheld,conserved.bounded⟩
  · intro k other
    rw [count_track,if_neg other]
    exact conserved.once k other
  · rw [count_track,if_pos rfl]

theorem Conserved.answered {timer : ℕ} (normal : id ≠ reconfigId)
    (pending : c.pendingProposals.lookup id ≠ none)
    (done : (c.withdraw id timer).handleNormalResponse id = .ok next) : Conserved low next := by
  have alone := conserved.pending normal pending
  have counts : ∀ k, (insertKey id c.responses).count k = c.responses.count k + if k = id then 1 else 0 :=
    count_insertKey alone.2.2.1
  have noted : Conserved low {c.withdraw id timer with responses := insertKey id c.responses} := by
    refine ⟨?_,conserved.withdrawn_single id timer,?_,conserved.unheld,conserved.bounded⟩
    · intro k other
      show (pendingIds (c.withdraw id timer)).count k + c.retryProposals.count k +
        (insertKey id c.responses).count k = if 1 ≤ k ∧ k ≤ c.latestProposalId then 1 else 0
      rw [counts,← conserved.withdrawn_once timer pending other]
      omega
    · show (insertKey id c.responses).count reconfigId = 0
      rw [counts,conserved.unanswered,if_neg (Ne.symm normal)]
  obtain ⟨_,_,latch,_,rfl⟩ | ⟨_,_,outbox,rfl⟩ | ⟨_,_,rfl⟩ := handleNormalResponse_cases done
  · exact ⟨noted.once,noted.single,noted.unanswered,noted.unheld,noted.bounded⟩
  · apply Conserved.tracked
    exact ⟨noted.once,noted.single,noted.unanswered,noted.unheld,noted.bounded⟩
  · exact noted

theorem Conserved.move (move : Move low cause c next) : Conserved low next := by
  cases move with
  | steer =>
    exact ⟨conserved.once,conserved.single,conserved.unanswered,conserved.unheld,conserved.bounded⟩
  | mark =>
    exact ⟨conserved.once,conserved.single,conserved.unanswered,conserved.unheld,conserved.bounded⟩
  | turn =>
    exact ⟨conserved.once,conserved.single,conserved.unanswered,conserved.unheld,conserved.bounded⟩
  | restart =>
    exact ⟨conserved.once,conserved.single,conserved.unanswered,conserved.unheld,conserved.bounded⟩
  | launch leader more => exact conserved.launched leader more
  | resend leader id rest waiting => exact conserved.resent leader waiting
  | answer id timer next normal pending known done => exact conserved.answered normal pending done
  | holdBack i timer above pending => exact conserved.held above pending
  | conclude timer next pending all confirmed done =>
    obtain ⟨latch,_,rfl⟩ := finish_cases done
    have withdrawn := conserved.withdrawn timer
    exact ⟨withdrawn.once,withdrawn.single,withdrawn.unanswered,withdrawn.unheld,withdrawn.bounded⟩
  | reconfigured timer pending more confirmed =>
    have withdrawn := conserved.withdrawn timer
    exact ⟨withdrawn.once,withdrawn.single,withdrawn.unanswered,withdrawn.unheld,withdrawn.bounded⟩
  | rearm timer armed pending =>
    apply Conserved.tracked
    exact ⟨conserved.once,conserved.single,conserved.unanswered,conserved.unheld,conserved.bounded⟩
  | spent timer id armed answered =>
    exact ⟨conserved.once,conserved.single,conserved.unanswered,conserved.unheld,conserved.bounded⟩

end Moving

theorem move_sizes (move : Move low cause c next) : next.numProposals = c.numProposals := by
  cases move with
  | answer id timer next normal pending known done =>
    obtain ⟨_,_,latch,_,rfl⟩ | ⟨_,_,outbox,rfl⟩ | ⟨_,_,rfl⟩ := handleNormalResponse_cases done
    · rfl
    · rfl
    · rfl
  | conclude timer next pending all confirmed done =>
    obtain ⟨latch,_,rfl⟩ := finish_cases done
    rfl
  | _ => rfl

variable {cfg : Config} {past : List (Client × Event)}

theorem reached_conserved (run : Reached low cfg past c) : Conserved low c := by
  apply run.induct (Conserved low) (initial_conserved cfg)
  · intro cause c next move conserved
    exact conserved.move move
  · intro c timer conserved
    exact ⟨conserved.once,conserved.single,conserved.unanswered,conserved.unheld,conserved.bounded⟩

theorem reached_sizes (run : Reached low cfg past c) : c.numProposals = cfg.numProposals := by
  apply run.induct (fun c => c.numProposals = cfg.numProposals) rfl
  · intro cause c next move same
    rw [move_sizes move,same]
  · intro c timer same
    exact same

section Answered
variable (conserved : Conserved low c)
include conserved

theorem Conserved.responses_nodup : c.responses.Nodup := by
  rw [List.nodup_iff_count_le_one]
  intro id
  by_cases normal : id = reconfigId
  · subst normal
    rw [conserved.unanswered]
    exact Nat.zero_le _
  · have once := conserved.once id normal
    split at once <;> omega

theorem Conserved.responses_made : c.responses ⊆ List.range' 1 c.latestProposalId := by
  intro id member
  have counted := List.one_le_count_iff.mpr member
  have normal : id ≠ reconfigId := by
    intro same
    have := conserved.unanswered
    rw [← same] at this
    omega
  have once := conserved.once id normal
  split at once
  · rename_i range
    exact List.mem_range'_1.mpr (by omega)
  · omega

theorem Conserved.responses_length : c.responses.length ≤ c.latestProposalId := by
  have size := (List.subperm_of_subset conserved.responses_nodup conserved.responses_made).length_le
  rwa [List.length_range'] at size

-- As many responses as proposals are one for each.
theorem Conserved.answered_all (full : c.responses.length = c.numProposals) (positive : 1 ≤ id)
    (within : id ≤ c.numProposals) : id ∈ c.responses := by
  have part := List.subperm_of_subset conserved.responses_nodup conserved.responses_made
  have bounded := conserved.bounded
  have whole := part.perm_of_length_le (by rw [List.length_range',full]; exact bounded)
  have size := conserved.responses_length
  rw [whole.mem_iff,List.mem_range'_1]
  omega

theorem Conserved.settled (full : c.responses.length = c.numProposals) (normal : id ≠ reconfigId) :
    c.pendingProposals.lookup id = none := by
  by_contra pending
  have alone := conserved.pending normal pending
  have bounded := conserved.bounded
  have answered := conserved.answered_all full alone.2.2.2.1 (by omega)
  exact List.count_eq_zero.mp alone.2.2.1 answered

end Answered

-- In every state before the stop each proposal up to the latest is in exactly one
-- place and in no place twice, none beyond is in any, and neither counter passes the
-- number of proposals.
theorem proposals_conserved (run : Reached 1 cfg past c) :
    (∀ id, id ≠ reconfigId →
      (pendingIds c).count id + c.retryProposals.count id + c.responses.count id =
        if 1 ≤ id ∧ id ≤ c.latestProposalId then 1 else 0) ∧
    (pendingIds c).count reconfigId ≤ 1 ∧ reconfigId ∉ c.retryProposals ∧
      reconfigId ∉ c.responses ∧
    c.latestProposalId ≤ cfg.numProposals ∧ c.responses.length ≤ cfg.numProposals := by
  have conserved := reached_conserved run
  have bounded := conserved.bounded
  rw [reached_sizes run] at bounded
  refine ⟨conserved.once,conserved.single,?_,?_,bounded,?_⟩
  · exact List.count_eq_zero.mp (conserved.unheld (Nat.le_refl _))
  · exact List.count_eq_zero.mp conserved.unanswered
  · exact Nat.le_trans conserved.responses_length bounded

-- Half of the proposals are answered and two are held back.
def heldBackRun : List Event := [leads 1,.run,answers 1 1,answers 2 1,answers 3 1,drops 1 4]

theorem heldBackRun_conserved : ∃ past c, Reached 1 replacement past c ∧
    c.responses = [3,2,1] ∧ c.retryProposals = [4,5] ∧ pendingIds c = [0] ∧
    ∀ id, id ≠ reconfigId →
      (pendingIds c).count id + c.retryProposals.count id + c.responses.count id =
        if 1 ≤ id ∧ id ≤ c.latestProposalId then 1 else 0 := by
  have checked : ends replacement heldBackRun fun c =>
      c.responses = [3,2,1] ∧ c.retryProposals = [4,5] ∧ pendingIds c = [0] := by decide +kernel
  have early : heldBackRun.all (admissible 1) := by decide +kernel
  obtain ⟨c,run,final⟩ := ends_reached early checked
  obtain ⟨responses,retry,pending⟩ := of_decide_eq_true final
  exact ⟨_,c,run,responses,retry,pending,(proposals_conserved run).1⟩

end KompicsBenches.ClientProposals
