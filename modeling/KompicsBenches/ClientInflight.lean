import KompicsBenches.ClientMoves

namespace KompicsBenches.ClientInflight
open ClientComp ClientMoves ControlCodec

-- What is pending fits into the allowed concurrency, the reconfiguration included.
structure Within (limit : ℕ) (c : Client) : Prop where
  concurrent : c.numConcurrentProposals = limit
  room : c.pendingProposals.length ≤ limit

-- A handler keeps the bound, and it does not fail for having too many in flight.
def Safe (limit : ℕ) : Except Panic Client → Prop
  | .ok c => Within limit c
  | .error panic => panic ≠ .inflight

variable {limit : ℕ} {c : Client} {id timer : ℕ}

theorem Safe.bind {first : Except Panic Client} {rest : Client → Except Panic Client}
    (safe : Safe limit first) (later : ∀ c, Within limit c → Safe limit (rest c)) :
    Safe limit (first >>= rest) := by
  cases first with
  | error panic => exact safe
  | ok c => exact later c safe

theorem erase_length (key : ℕ) (map : List (ℕ × ℕ)) : (erase key map).length ≤ map.length :=
  List.length_filter_le _ _

-- An entry that was there leaves a place.
theorem erase_room {map : List (ℕ × ℕ)} (found : map.lookup key = some value) :
    (erase key map).length + 1 ≤ map.length := by
  induction map with
  | nil => cases found
  | cons entry rest ih =>
    obtain ⟨other,kept⟩ := entry
    by_cases same : key = other
    · subst same
      rw [erase,List.filter_cons_of_neg (by simp),List.length_cons]
      exact Nat.succ_le_succ (List.length_filter_le _ _)
    · have other_key : (key == other) = false := by simpa using same
      rw [List.lookup_cons,other_key] at found
      rw [erase,List.filter_cons_of_pos (by simpa using Ne.symm same)]
      exact Nat.succ_le_succ (ih found)

theorem track_pending (c : Client) (id : ℕ) :
    (c.track id).pendingProposals.length ≤ c.pendingProposals.length + 1 := by
  simp only [Client.track,put,List.length_cons]
  exact Nat.succ_le_succ (erase_length _ _)

theorem proposeAll_pending (leader : ℕ) (ids : List ℕ) (c : Client) :
    (c.proposeAll leader ids).numConcurrentProposals = c.numConcurrentProposals ∧
      (c.proposeAll leader ids).pendingProposals.length ≤ c.pendingProposals.length + ids.length := by
  induction ids generalizing c with
  | nil => exact ⟨rfl,Nat.le_refl _⟩
  | cons id rest ih =>
    obtain ⟨same,bound⟩ := ih (c.proposeNormal leader id)
    have one : (c.proposeNormal leader id).pendingProposals.length ≤ c.pendingProposals.length + 1 :=
      track_pending _ id
    refine ⟨same,?_⟩
    rw [List.length_cons]
    change ((c.proposeNormal leader id).proposeAll leader rest).pendingProposals.length ≤ _
    omega

theorem send_safe (within : Within limit c) : Safe limit c.sendConcurrentProposals := by
  obtain ⟨same,room⟩ := within
  subst same
  unfold Client.sendConcurrentProposals
  dsimp only
  rw [if_neg (Nat.not_lt.mpr room)]
  split
  · exact ⟨rfl,room⟩
  · split
    · exact Panic.noConfusion
    · split
      · split
        · exact ⟨rfl,room⟩
        · obtain ⟨kept,bound⟩ := proposeAll_pending c.currentLeader (List.range' (c.latestProposalId + 1)
            (min (c.latestProposalId + (c.numConcurrentProposals - c.pendingProposals.length)) c.numProposals + 1 -
              (c.latestProposalId + 1))) c
          refine ⟨kept,?_⟩
          rw [List.length_range'] at bound
          dsimp only
          omega
      · obtain ⟨kept,bound⟩ := proposeAll_pending c.currentLeader (c.retryProposals.take
          (min c.retryProposals.length (c.numConcurrentProposals - c.pendingProposals.length)))
          {c with
            retryProposals := c.retryProposals.drop
              (min c.retryProposals.length (c.numConcurrentProposals - c.pendingProposals.length))}
        refine ⟨kept,?_⟩
        rw [List.length_take] at bound
        dsimp only at bound
        omega

theorem finish_safe (within : Within limit c) : Safe limit c.finish := by
  unfold Client.finish
  split
  · exact Panic.noConfusion
  · exact ⟨within.concurrent,within.room⟩

theorem propose_safe (within : Within limit c) : Safe limit c.proposeReconfiguration := by
  unfold Client.proposeReconfiguration
  split
  · split
    · exact Panic.noConfusion
    · exact ⟨within.concurrent,within.room⟩
  · exact within

-- The reconfiguration takes the place of the proposal that was answered.
theorem normal_safe (concurrent : c.numConcurrentProposals = limit)
    (room : c.pendingProposals.length + 1 ≤ limit) : Safe limit (c.handleNormalResponse id) := by
  have fewer : c.pendingProposals.length ≤ limit := by omega
  unfold Client.handleNormalResponse
  dsimp only
  split_ifs with last half
  · exact finish_safe ⟨concurrent,fewer⟩
  · cases asked : Client.proposeReconfiguration {c with responses := insertKey id c.responses} with
    | error panic =>
      have safe : Safe limit (Client.proposeReconfiguration {c with responses := insertKey id c.responses}) :=
        propose_safe ⟨concurrent,fewer⟩
      rw [asked] at safe
      exact safe
    | ok proposed =>
      obtain ⟨outbox,rfl⟩ := proposeReconfiguration_outbox asked
      exact ⟨concurrent,(track_pending _ reconfigId).trans room⟩
  · exact ⟨concurrent,fewer⟩

theorem withdraw_room (within : Within limit c) (pending : c.pendingProposals.lookup id = some value)
    (timer : ℕ) : (c.withdraw id timer).pendingProposals.length + 1 ≤ limit :=
  (erase_room pending).trans within.room

theorem withdraw_within (within : Within limit c) (id timer : ℕ) : Within limit (c.withdraw id timer) :=
  ⟨within.concurrent,(erase_length _ _).trans within.room⟩

theorem changeLeader_within (within : Within limit c) (pid : ℕ) : Within limit (c.changeLeader pid) := by
  unfold Client.changeLeader
  split
  · exact within
  · exact ⟨within.concurrent,within.room⟩

theorem timeout_safe (within : Within limit c) : Safe limit (c.proposalTimeout id) := by
  unfold Client.proposalTimeout
  split_ifs with early same
  · exact within
  · apply (propose_safe within).bind
    intro c within
    split
    · exact Panic.noConfusion
    · rename_i old pending
      -- The entry is there and only gets a new timer.
      refine ⟨within.concurrent,?_⟩
      simp only [Client.track,put,List.length_cons]
      exact (erase_room pending).trans within.room
  · split
    · exact Panic.noConfusion
    · rename_i old pending
      refine Safe.bind (normal_safe ?_ ?_) fun c within => send_safe within
      · exact within.concurrent
      · exact (erase_room pending).trans within.room

theorem holdBack_safe (ids : List ℕ) (within : Within limit c) :
    Safe limit (ids.foldlM Client.holdBackProposal c) := by
  induction ids generalizing c with
  | nil => exact within
  | cons i rest ih =>
    rw [List.foldlM_cons]
    refine Safe.bind ?_ fun c within => ih within
    unfold Client.holdBackProposal
    split
    · rename_i timer pending
      exact ⟨within.concurrent,(withdraw_within within i timer).room⟩
    · split
      · exact within
      · exact Panic.noConfusion

theorem firstLeader_safe (within : Within limit c) (pid : ℕ) : Safe limit (c.firstLeader pid) := by
  have changed := changeLeader_within within pid
  unfold Client.firstLeader
  split
  · exact within
  · split
    · exact ⟨within.concurrent,within.room⟩
    · dsimp only
      apply send_safe
      split
      · exact ⟨changed.concurrent,changed.room⟩
      · exact ⟨changed.concurrent,changed.room⟩
    · exact within

theorem normalResponse_safe (within : Within limit c) (id latestLeader : ℕ) :
    Safe limit (c.normalResponse id latestLeader) := by
  unfold Client.normalResponse
  split
  · exact within
  · rename_i timer pending
    have room := withdraw_room within pending timer
    dsimp only
    refine Safe.bind (normal_safe ?_ ?_) fun c within => ?_
    · split
      · exact (changeLeader_within (withdraw_within within id timer) latestLeader).concurrent
      · exact within.concurrent
    · split
      · rw [changeLeader_pending]
        exact room
      · exact room
    · split
      · exact send_safe within
      · exact within

theorem reconfigurationResponse_safe (within : Within limit c) (newConfig : List ℕ) (latestLeader : ℕ) :
    Safe limit (c.reconfigurationResponse newConfig latestLeader) := by
  unfold Client.reconfigurationResponse
  split
  · exact within
  · rename_i timer pending
    have fewer := withdraw_within within reconfigId timer
    dsimp only
    split
    · exact finish_safe fewer
    · split
      · exact ⟨fewer.concurrent,fewer.room⟩
      · refine Safe.bind (send_safe ⟨fewer.concurrent,fewer.room⟩) fun c within => ?_
        split
        · exact ⟨within.concurrent,within.room⟩
        · exact within

theorem proposalResp_safe (within : Within limit c) (pr : ProposalResp) : Safe limit (c.proposalResp pr) := by
  unfold Client.proposalResp
  split
  · exact within
  · split
    · exact Panic.noConfusion
    · exact normalResponse_safe within _ _
    · exact reconfigurationResponse_safe within _ _

theorem pendingReconfiguration_safe (within : Within limit c) (data : List UInt8) :
    Safe limit (c.pendingReconfiguration data) := by
  unfold Client.pendingReconfiguration
  split
  · exact Panic.noConfusion
  · split
    · split
      · refine Safe.bind (holdBack_safe _ within) fun c within => ?_
        exact ⟨within.concurrent,within.room⟩
      · split
        · exact Safe.bind (holdBack_safe _ within) fun c within => send_safe within
        · exact Panic.noConfusion
    · exact holdBack_safe _ within
    · exact within

theorem handle_safe (within : Within limit c) (e : Event) : Safe limit (c.handle e) := by
  cases e with
  | run =>
    simp only [Client.handle,Client.receiveRun]
    split
    · exact Panic.noConfusion
    · exact send_safe ⟨within.concurrent,within.room⟩
  | stop => exact ⟨within.concurrent,Nat.zero_le _⟩
  | network sender msg =>
    cases msg with
    | proposal p => exact within
    | proposalResp pr => exact proposalResp_safe within pr
    | firstLeader pid => exact firstLeader_safe within pid
    | pendingReconfiguration data => exact pendingReconfiguration_safe within data
  | peerStop pid =>
    simp only [Client.handle,Client.receivePeerStop]
    split
    · exact Panic.noConfusion
    · split
      · exact ⟨within.concurrent,within.room⟩
      · split
        · exact Panic.noConfusion
        · exact ⟨within.concurrent,within.room⟩
  | timeout timer =>
    simp only [Client.handle,Client.fire]
    split
    · exact within
    · exact timeout_safe ⟨within.concurrent,within.room⟩

-- Any events in any order, the stop and what comes after it included.
inductive Ran (cfg : Config) : Client → Prop where
  | start : Ran cfg (Client.with cfg)
  | step {c next e} (run : Ran cfg c) (done : c.handle e = .ok next) : Ran cfg next

variable {cfg : Config}

theorem ran_within (run : Ran cfg c) : Within cfg.numConcurrentProposals c := by
  induction run with
  | start => exact ⟨rfl,Nat.zero_le _⟩
  | step _ done ih =>
    rename_i c next e _
    have safe := handle_safe ih e
    rw [done] at safe
    exact safe

theorem inflight_bounded (run : Ran cfg c) :
    c.pendingProposals.length ≤ cfg.numConcurrentProposals ∧
      c.pendingProposals.length ≤ c.numConcurrentProposals ∧
      ∀ e, c.handle e ≠ .error .inflight := by
  have within := ran_within run
  refine ⟨within.room,within.concurrent.symm ▸ within.room,?_⟩
  intro e failed
  have safe := handle_safe within e
  rw [failed] at safe
  exact safe rfl

theorem execute_ran {events : List Event} (run : Ran cfg c) (done : execute c events = .ok next) :
    Ran cfg next := by
  induction events generalizing c with
  | nil =>
    cases done
    exact run
  | cons e events ih =>
    obtain ⟨middle,first,rest⟩ := bind_ok done
    exact ih (run.step first) rest

theorem ends_ran {events : List Event} {check : Client → Bool} (checked : ends cfg events check) :
    ∃ c, Ran cfg c ∧ check c := by
  unfold ends at checked
  cases done : execute (Client.with cfg) events with
  | error panic => simp [done] at checked
  | ok c =>
    rw [done] at checked
    exact ⟨c,execute_ran .start done,checked⟩

-- One proposal after the other. The reconfiguration comes after the third of six,
-- and nothing else is sent with it.
def single : Config := {replacement with numConcurrentProposals := 1}

theorem single_bounded : ∃ c, Ran single c ∧ c.pendingProposals.map Prod.fst = [reconfigId] ∧
    c.pendingProposals.length ≤ 1 ∧ ∀ e, c.handle e ≠ .error .inflight := by
  have checked : ends single [leads 1,.run,answers 1 1,answers 2 1,answers 3 1] fun c =>
      c.pendingProposals.map Prod.fst = [reconfigId] := by decide +kernel
  obtain ⟨c,run,pending⟩ := ends_ran checked
  obtain ⟨bound,_,never⟩ := inflight_bounded run
  exact ⟨c,run,of_decide_eq_true pending,bound,never⟩

end KompicsBenches.ClientInflight
