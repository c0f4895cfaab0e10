import KompicsBenches.ClientPanics

namespace KompicsBenches.ClientHolding
open Wire ControlCodec ClientComp ClientMoves ClientProposals ClientPanics
variable {low id : ℕ} {c next : Client} {cfg : Config} {past : List (Client × Event)} {e : Event}
  {ids : List ℕ} {events : List Event} {panic : Panic}

-- The two panics a report of a dropped proposal can end in.
def misreported : Panic → Bool
  | .holdBack _ => true
  | .neverCached => true
  | _ => false

theorem misreported_special : Special misreported := by
  intro panic failing
  cases panic with
  | holdBack i => exact .inr (.inr ⟨i,rfl⟩)
  | neverCached => exact .inr (.inl rfl)
  | _ => cases failing

-- Nothing that is held back lies in a range of proposals.
def free (c : Client) (start stop : ℕ) : Bool := c.retryProposals.all fun id => id < start || stop < id

section Holding

-- One proposal can be held back unless it is held back already.
theorem holdBackProposal_ok (conserved : Conserved 1 c) (positive : 1 ≤ id)
    (made : id ≤ c.latestProposalId) (free : id ∉ c.retryProposals) :
    ∃ next, c.holdBackProposal id = .ok next := by
  unfold Client.holdBackProposal
  obtain pending | held | answered := conserved.place positive made
  · obtain ⟨timer,found⟩ := lookup_found pending
    rw [found]
    exact ⟨_,rfl⟩
  · exact (free held).elim
  · split
    · exact ⟨_,rfl⟩
    · rw [if_pos (List.contains_iff_mem.mpr answered)]
      exact ⟨c,rfl⟩

theorem holdBackProposal_retry (done : c.holdBackProposal id = .ok next) :
    next.latestProposalId = c.latestProposalId ∧
      ∀ i, i ≠ id → (i ∈ next.retryProposals ↔ i ∈ c.retryProposals) := by
  obtain ⟨timer,_,rfl⟩ | ⟨_,rfl⟩ := holdBackProposal_cases done
  · refine ⟨rfl,?_⟩
    intro i different
    show i ∈ c.retryProposals ++ [id] ↔ _
    simp [different]
  · exact ⟨rfl,fun _ _ => Iff.rfl⟩

theorem holdBackProposal_conserved (conserved : Conserved 1 c) (positive : 1 ≤ id)
    (done : c.holdBackProposal id = .ok next) : Conserved 1 next := by
  obtain ⟨timer,pending,rfl⟩ | ⟨_,rfl⟩ := holdBackProposal_cases done
  · exact conserved.held positive pending
  · exact conserved

-- A range of proposals can be held back just when none of them is held back already.
theorem holdBack_ok (conserved : Conserved 1 c) (distinct : ids.Nodup)
    (made : ∀ i ∈ ids, 1 ≤ i ∧ i ≤ c.latestProposalId) :
    (∃ next, ids.foldlM Client.holdBackProposal c = .ok next) ↔ ∀ i ∈ ids, i ∉ c.retryProposals := by
  induction ids generalizing c with
  | nil =>
    constructor
    · intro _ i member
      cases member
    · intro _
      exact ⟨c,rfl⟩
  | cons i ids ih =>
    rw [List.forall_mem_cons] at made ⊢
    rw [List.nodup_cons] at distinct
    rw [List.foldlM_cons]
    by_cases free : i ∉ c.retryProposals
    · obtain ⟨held,first⟩ := holdBackProposal_ok conserved made.1.1 made.1.2 free
      obtain ⟨latest,retry⟩ := holdBackProposal_retry first
      have kept := holdBackProposal_conserved conserved made.1.1 first
      have same : (∀ j ∈ ids, j ∉ held.retryProposals) ↔ ∀ j ∈ ids, j ∉ c.retryProposals := by
        refine forall₂_congr ?_
        intro j member
        rw [retry j (fun same => distinct.1 (same ▸ member))]
      rw [first]
      have rest := ih kept distinct.2 (latest ▸ made.2)
      rw [and_iff_right free,← same]
      exact rest
    · rw [not_not] at free
      obtain ⟨absent,unanswered⟩ := conserved.held_only made.1.1 free
      have fails : c.holdBackProposal i = .error (.holdBack i) := by
        simp [Client.holdBackProposal,absent,unanswered]
      rw [fails]
      constructor
      · intro done
        obtain ⟨next,done⟩ := done
        cases done
      · intro none_held
        exact (none_held.1 free).elim

theorem holdBackProposals_misreports {start stop : ℕ} (conserved : Conserved 1 c) (positive : 1 ≤ start)
    (made : stop ≤ c.latestProposalId) :
    fails misreported (c.holdBackProposals start stop) = !free c start stop := by
  have made : ∀ i ∈ List.range' start (stop + 1 - start), 1 ≤ i ∧ i ≤ c.latestProposalId := by
    intro i member
    rw [List.mem_range'_1] at member
    omega
  have possible := holdBack_ok conserved List.nodup_range' made
  have none_held : (∀ i ∈ List.range' start (stop + 1 - start), i ∉ c.retryProposals) ↔
      free c start stop = true := by
    simp only [free,List.all_eq_true,Bool.or_eq_true,decide_eq_true_eq,List.mem_range'_1]
    constructor
    · intro apart id held
      by_contra inside
      exact apart id (by omega) held
    · intro apart id range held
      have := apart id held
      omega
  rw [none_held] at possible
  cases done : c.holdBackProposals start stop with
  | ok next =>
    rw [possible.mp ⟨next,done⟩]
    rfl
  | error panic =>
    have stuck : free c start stop = false := by
      by_contra clear
      obtain ⟨next,other⟩ := possible.mpr (by simpa using clear)
      rw [Client.holdBackProposals,other] at done
      cases done
    rw [stuck]
    obtain ⟨i,rfl⟩ := holdBack_panics done
    rfl

end Holding

section Handling

-- Whether a report meets no proposal that is held back already in the range it makes
-- the client hold back, and finds the end of that range known.
def quiet (c : Client) : Event → Bool
  | .network _ (.pendingReconfiguration data) =>
    match dropped data with
    | none => true
    | some d =>
      match c.state with
      | .running =>
        if c.reconfig ≠ none then free c d c.latestProposalId
        else
          match c.firstProposalAfterReconfig with
          | some firstId => free c d firstId
          | none => false
      | .reconfigurationElection => free c d c.latestProposalId
      | _ => true
  | _ => true

theorem pendingReconfiguration_misreports {data : List UInt8} (sender : ℕ) (conserved : Conserved 1 c)
    (marked : ∀ f, c.firstProposalAfterReconfig = some f → f ≤ c.latestProposalId)
    (positive : ∀ d, dropped data = some d → 1 ≤ d) :
    fails misreported (c.pendingReconfiguration data) =
      !quiet c (.network sender (.pendingReconfiguration data)) := by
  unfold Client.pendingReconfiguration quiet
  cases read : getU64.run data with
  | error e =>
    simp only [dropped,read]
    rfl
  | ok result =>
    obtain ⟨d,rest⟩ := result
    have found : dropped data = some d := by rw [dropped,read]
    have lowest := positive d found
    simp only [found]
    cases c.state with
    | running =>
      dsimp only
      split
      · rw [fails_bind (fun _ => rfl)]
        exact holdBackProposals_misreports conserved lowest (Nat.le_refl _)
      · cases first : c.firstProposalAfterReconfig with
        | some firstId =>
          dsimp only
          rw [fails_bind (fun _ => send_clean misreported_special)]
          exact holdBackProposals_misreports conserved lowest (marked firstId first)
        | none => rfl
    | reconfigurationElection => exact holdBackProposals_misreports conserved lowest (Nat.le_refl _)
    | leaderElection => rfl
    | finished => rfl

theorem handle_misreports (conserved : Conserved 1 c)
    (marked : ∀ f, c.firstProposalAfterReconfig = some f → f ≤ c.latestProposalId)
    (early : admissible 1 e) : fails misreported (c.handle e) = !quiet c e := by
  have guarded : Guarded misreported c := by
    intro latch
    cases latch
  have others := handle_clean misreported_special guarded
  cases e with
  | run => exact others .run rfl
  | stop => cases early
  | peerStop pid => cases early
  | timeout timer => exact others (.timeout timer) rfl
  | network sender msg =>
    cases msg with
    | proposal p => rfl
    | proposalResp pr => exact others (.network sender (.proposalResp pr)) rfl
    | firstLeader pid => exact others (.network sender (.firstLeader pid)) rfl
    | pendingReconfiguration data =>
      apply pendingReconfiguration_misreports sender conserved marked
      intro d found
      change (dropped data).all (1 ≤ ·) = true at early
      rw [found] at early
      simpa using early

end Handling

section Runs

-- The first proposal of the new configuration is one that was made.
theorem reached_marked (run : Reached low cfg past c) :
    ∀ f, c.firstProposalAfterReconfig = some f → f ≤ c.latestProposalId := by
  apply run.induct fun c => ∀ f, c.firstProposalAfterReconfig = some f → f ≤ c.latestProposalId
  · intro f marked
    cases marked
  · intro cause c next move before
    cases move with
    | mark =>
      intro f marked
      cases marked
      exact Nat.le_refl _
    | launch leader more =>
      intro f marked
      exact Nat.le_succ_of_le (before f marked)
    | answer id timer next normal pending known done =>
      obtain ⟨_,_,latch,_,rfl⟩ | ⟨_,_,outbox,rfl⟩ | ⟨_,_,rfl⟩ := handleNormalResponse_cases done
      · exact before
      · exact before
      · exact before
    | conclude timer next pending all confirmed done =>
      obtain ⟨latch,_,rfl⟩ := finish_cases done
      exact before
    | _ => exact before
  · intro c timer before
    exact before

-- Every report of a run is quiet in the state it meets.
def calm (c : Client) : List Event → Bool
  | [] => true
  | e :: events => quiet c e &&
    match c.handle e with
    | .ok next => calm next events
    | .error _ => true

theorem execute_misreports (run : Reached 1 cfg past c) (early : events.all (admissible 1)) :
    fails misreported (execute c events) = !calm c events := by
  induction events generalizing past c with
  | nil => rfl
  | cons e events ih =>
    rw [List.all_cons,Bool.and_eq_true] at early
    have first := handle_misreports (reached_conserved run) (reached_marked run) early.1
    unfold execute calm
    cases done : c.handle e with
    | error panic =>
      rw [done] at first
      show misreported panic = !(quiet c e && true)
      rw [Bool.and_true]
      exact first
    | ok next =>
      rw [done] at first
      have quiet_first : quiet c e = true := by simpa [fails] using first.symm
      rw [quiet_first,Bool.true_and]
      exact ih (run.step early.1 done) early.2

-- No run before the stop ends in one of the two panics just when each report arrives
-- while none of the proposals it names is held back, and, once the client runs in the
-- new configuration, after its first leader was met with nothing held back.
theorem reports_never_panic (early : events.all (admissible 1)) :
    ((∀ id, execute (Client.with cfg) events ≠ .error (.holdBack id)) ∧
      execute (Client.with cfg) events ≠ .error .neverCached) ↔ calm (Client.with cfg) events := by
  have whole : fails misreported (execute (Client.with cfg) events) = !calm (Client.with cfg) events :=
    execute_misreports .start early
  rw [← Bool.not_not (calm _ _),← whole]
  cases execute (Client.with cfg) events with
  | ok c => simp [fails]
  | error panic => cases panic <;> simp [fails,misreported]

-- The reconfiguration is answered and the new leader met before the report arrives.
def lateReportRun : List Event :=
  [leads 1,.run,answers 1 1,answers 2 1,answers 3 1,reconfigures 1 [2,3] [4],leads 2,drops 1 5]

theorem lateReportRun_never_panics : (∃ c, execute (Client.with replacement) lateReportRun = .ok c ∧
      c.firstProposalAfterReconfig = some 5 ∧ c.retryProposals = []) ∧
    (∀ id, execute (Client.with replacement) lateReportRun ≠ .error (.holdBack id)) ∧
    execute (Client.with replacement) lateReportRun ≠ .error .neverCached := by
  have checked : ends replacement lateReportRun fun c =>
      c.firstProposalAfterReconfig = some 5 ∧ c.retryProposals = [] := by decide +kernel
  constructor
  · unfold ends at checked
    cases done : execute (Client.with replacement) lateReportRun with
    | error panic => simp [done] at checked
    | ok c =>
      rw [done] at checked
      exact ⟨c,rfl,of_decide_eq_true checked⟩
  · exact (reports_never_panic (by decide +kernel)).mpr (by decide +kernel)

def reporters : List Event → List ℕ
  | [] => []
  | .network sender (.pendingReconfiguration _) :: events => sender :: reporters events
  | _ :: events => reporters events

-- Every report of a run carries an id that the client has proposed by then.
def wellReported (c : Client) : List Event → Bool
  | [] => true
  | e :: events =>
    (match e with
    | .network _ (.pendingReconfiguration data) =>
      (dropped data).any fun d => 1 ≤ d && d ≤ c.latestProposalId
    | _ => true) &&
    match c.handle e with
    | .ok next => wellReported next events
    | .error _ => true

def overlapRun : List Event :=
  [leads 1,.run,answers 1 1,answers 2 1,answers 3 1,drops 1 5,drops 2 4]

def uncachedRun : List Event :=
  [leads 1,.run,answers 1 1,answers 2 1,answers 3 1,drops 1 5,reconfigures 1 [2,3] [4],leads 2,drops 2 4]

-- Two replicas of the old configuration report once each: the second report meets a
-- proposal that the first has held back, or comes in the new configuration, whose
-- first proposal was not noted because one was held back.
theorem reports_panic :
    (reporters overlapRun).Nodup ∧ reporters overlapRun ⊆ replacement.initialConfig ∧
    wellReported (Client.with replacement) overlapRun ∧
    execute (Client.with replacement) overlapRun = .error (.holdBack 5) ∧
    (reporters uncachedRun).Nodup ∧ reporters uncachedRun ⊆ replacement.initialConfig ∧
    wellReported (Client.with replacement) uncachedRun ∧
    execute (Client.with replacement) uncachedRun = .error .neverCached := by
  decide +kernel

end Runs

end KompicsBenches.ClientHolding
