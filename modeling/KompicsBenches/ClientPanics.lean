import KompicsBenches.ClientProposals

namespace KompicsBenches.ClientPanics
open ControlCodec ClientComp ClientMoves ClientProposals
variable {id : ℕ} {c next : Client} {ids : List ℕ} {bad : Panic → Bool}

-- Whether a computation ends in a panic of some kind.
def fails (bad : Panic → Bool) : Except Panic α → Bool
  | .ok _ => false
  | .error panic => bad panic

theorem fails_bind {first : Except Panic α} {rest : α → Except Panic β}
    (clean : ∀ value, fails bad (rest value) = false) :
    fails bad (first >>= rest) = fails bad first := by
  cases first with
  | error panic => rfl
  | ok value => exact clean value

theorem holdBack_panics {panic : Panic} (failed : ids.foldlM Client.holdBackProposal c = .error panic) :
    ∃ i, panic = .holdBack i := by
  induction ids generalizing c with
  | nil => cases failed
  | cons i ids ih =>
    rw [List.foldlM_cons] at failed
    cases first : c.holdBackProposal i with
    | ok held =>
      rw [first] at failed
      exact ih failed
    | error early =>
      rw [first] at failed
      cases failed
      unfold Client.holdBackProposal at first
      split at first
      · cases first
      · split at first
        · cases first
        · cases first
          exact ⟨i,rfl⟩

section Clean

-- The panics of interest are those of the latch and of the reports.
def Special (bad : Panic → Bool) : Prop :=
  ∀ panic, bad panic → panic = .finishedLatch ∨ panic = .neverCached ∨ ∃ i, panic = .holdBack i

-- The latch is up, or nothing is pending whose answer could bring it down.
def Guarded (bad : Panic → Bool) (c : Client) : Prop :=
  bad .finishedLatch → c.finishedLatch = 0 → ∀ id, c.pendingProposals.lookup id = none

variable (special : Special bad)
include special

theorem Special.ordinary {panic : Panic} (latch : panic ≠ .finishedLatch) (cached : panic ≠ .neverCached)
    (held : ∀ i, panic ≠ .holdBack i) : bad panic = false := by
  by_contra failing
  obtain same | same | ⟨i,same⟩ := special panic (by simpa using failing)
  · exact latch same
  · exact cached same
  · exact held i same

theorem send_clean : fails bad c.sendConcurrentProposals = false := by
  unfold Client.sendConcurrentProposals
  dsimp only
  split
  · exact special.ordinary (by decide) (by decide) (by simp)
  · split
    · rfl
    · split
      · exact special.ordinary (by decide) (by decide) (by simp)
      · split
        · split
          · rfl
          · rfl
        · rfl

theorem proposeReconfiguration_clean : fails bad c.proposeReconfiguration = false := by
  unfold Client.proposeReconfiguration
  split
  · split
    · exact special.ordinary (by decide) (by decide) (by simp)
    · rfl
  · rfl

omit special in
theorem finish_clean (up : bad .finishedLatch → c.finishedLatch ≠ 0) : fails bad c.finish = false := by
  unfold Client.finish
  split
  · rename_i down
    by_contra failing
    exact up (by simpa [fails] using failing) down
  · rfl

theorem handleNormalResponse_clean (id : ℕ) (up : bad .finishedLatch → c.finishedLatch ≠ 0) :
    fails bad (c.handleNormalResponse id) = false := by
  unfold Client.handleNormalResponse
  dsimp only
  split
  · exact finish_clean up
  · split
    · rw [fails_bind (fun _ => rfl)]
      exact proposeReconfiguration_clean special
    · rfl

theorem firstLeader_clean (pid : ℕ) : fails bad (c.firstLeader pid) = false := by
  unfold Client.firstLeader
  split
  · rfl
  · split
    · rfl
    · exact send_clean special
    · rfl

omit special in
theorem Guarded.up {timer : ℕ} (guarded : Guarded bad c)
    (pending : c.pendingProposals.lookup id = some timer) : bad .finishedLatch → c.finishedLatch ≠ 0 := by
  intro latch down
  have absent := guarded latch down id
  rw [pending] at absent
  cases absent

theorem normalResponse_clean (id latestLeader : ℕ) (guarded : Guarded bad c) :
    fails bad (c.normalResponse id latestLeader) = false := by
  unfold Client.normalResponse
  split
  · rfl
  · rename_i timer pending
    have up := guarded.up pending
    dsimp only
    rw [fails_bind]
    · apply handleNormalResponse_clean special
      unfold Client.changeLeader
      split
      · split
        · exact up
        · exact up
      · exact up
    · intro answered
      split
      · exact send_clean special
      · rfl

theorem reconfigurationResponse_clean (newConfig : List ℕ) (latestLeader : ℕ) (guarded : Guarded bad c) :
    fails bad (c.reconfigurationResponse newConfig latestLeader) = false := by
  unfold Client.reconfigurationResponse
  split
  · rfl
  · rename_i timer pending
    dsimp only
    split
    · exact finish_clean (guarded.up pending)
    · split
      · rfl
      · rw [fails_bind (fun _ => rfl)]
        exact send_clean special

theorem proposalResp_clean (pr : ProposalResp) (guarded : Guarded bad c) :
    fails bad (c.proposalResp pr) = false := by
  unfold Client.proposalResp
  split
  · rfl
  · split
    · exact special.ordinary (by decide) (by decide) (by simp)
    · exact normalResponse_clean special _ _ guarded
    · exact reconfigurationResponse_clean special _ _ guarded

theorem receiveRun_clean : fails bad c.receiveRun = false := by
  unfold Client.receiveRun
  split
  · exact special.ordinary (by decide) (by decide) (by simp)
  · exact send_clean special

theorem fire_clean (timer : ℕ) (guarded : Guarded bad c) : fails bad (c.fire timer) = false := by
  unfold Client.fire
  split
  · rfl
  · unfold Client.proposalTimeout
    split
    · rfl
    · split
      · rw [fails_bind]
        · exact proposeReconfiguration_clean special
        · intro asked
          split
          · exact special.ordinary (by simp) (by simp) (by simp)
          · rfl
      · split
        · exact special.ordinary (by simp) (by simp) (by simp)
        · rename_i old pending
          rw [fails_bind (fun _ => send_clean special)]
          exact handleNormalResponse_clean special _ (guarded.up pending)

theorem receivePeerStop_clean (pid : ℕ) : fails bad (c.receivePeerStop pid) = false := by
  unfold Client.receivePeerStop
  split
  · exact special.ordinary (by simp) (by simp) (by simp)
  · dsimp only
    split
    · rfl
    · split
      · exact special.ordinary (by simp) (by simp) (by simp)
      · rfl

def isReport : Event → Bool
  | .network _ (.pendingReconfiguration _) => true
  | _ => false

-- Only a report, and a last answer to a client whose latch is down, can end in one of
-- these panics.
theorem handle_clean (guarded : Guarded bad c) (e : Event) (other : isReport e = false) :
    fails bad (c.handle e) = false := by
  cases e with
  | run => exact receiveRun_clean special
  | stop => rfl
  | peerStop pid => exact receivePeerStop_clean special pid
  | timeout timer => exact fire_clean special timer guarded
  | network sender msg =>
    cases msg with
    | proposal p => rfl
    | proposalResp pr => exact proposalResp_clean special pr guarded
    | firstLeader pid => exact firstLeader_clean special pid
    | pendingReconfiguration data => cases other

end Clean

end KompicsBenches.ClientPanics
