import KompicsBenches.ClientProposals

namespace KompicsBenches.ClientTimers
open ControlCodec ClientComp ClientMoves ClientProposals
variable {low id timer : ℕ} {cause : Client × Event} {c next : Client} {cfg : Config}
  {past : List (Client × Event)}

-- Every pending proposal has its timer, and no two timers are the same.
structure Timed (c : Client) : Prop where
  armed : ∀ id timer, (id,timer) ∈ c.pendingProposals → (timer,id) ∈ c.armed
  unique : (c.armed.map Prod.fst).Nodup
  fresh : ∀ timer id, (timer,id) ∈ c.armed → timer < c.nextTimer

theorem initial_timed (cfg : Config) : Timed (Client.with cfg) := by
  refine ⟨?_,List.nodup_nil,?_⟩
  · intro id timer member
    cases member
  · intro timer id member
    cases member

section Moving
variable (timed : Timed c)
include timed

theorem Timed.same {other : ℕ} (first : (timer,id) ∈ c.armed) (second : (timer,other) ∈ c.armed) :
    id = other := by
  have := List.inj_on_of_nodup_map timed.unique first second rfl
  exact congrArg Prod.snd this

-- Cancelling the timer of one proposal leaves those of the others.
theorem Timed.cancelled (known : (timer,id) ∈ c.armed) :
    (∀ other t, other ≠ id → (other,t) ∈ c.pendingProposals → (t,other) ∈ (c.cancelTimer timer).armed) ∧
      ((c.cancelTimer timer).armed.map Prod.fst).Nodup ∧
      ∀ t other, (t,other) ∈ (c.cancelTimer timer).armed → t < c.nextTimer := by
  refine ⟨?_,?_,?_⟩
  · intro other t different pending
    have armed := timed.armed other t pending
    apply List.mem_filter.mpr
    refine ⟨armed,?_⟩
    have : t ≠ timer := by
      intro same
      subst same
      exact different (timed.same armed known)
    simpa using this
  · exact timed.unique.sublist (List.filter_sublist.map Prod.fst)
  · intro t other member
    exact timed.fresh t other (List.mem_filter.mp member).1

theorem Timed.withdrawn (known : (timer,id) ∈ c.armed) : Timed (c.withdraw id timer) := by
  obtain ⟨others,unique,fresh⟩ := timed.cancelled known
  refine ⟨?_,unique,fresh⟩
  intro other t pending
  obtain ⟨member,different⟩ := List.mem_filter.mp pending
  exact others other t (by simpa using different) member

theorem Timed.tracked (id : ℕ) : Timed (c.track id) := by
  have latest : (c.nextTimer,id) ∈ (c.track id).armed := List.mem_append_right _ List.mem_cons_self
  refine ⟨?_,?_,?_⟩
  · intro other t pending
    obtain same | old := List.mem_cons.mp pending
    · cases same
      exact latest
    · exact List.mem_append_left _ (timed.armed other t (List.mem_filter.mp old).1)
  · show ((c.armed ++ [(c.nextTimer,id)]).map Prod.fst).Nodup
    rw [List.map_append,List.map_singleton]
    apply List.Nodup.append timed.unique (List.nodup_singleton _)
    intro t member last
    obtain ⟨pair,found,rfl⟩ := List.mem_map.mp member
    have := timed.fresh pair.1 pair.2 found
    rw [List.mem_singleton] at last
    omega
  · intro t other member
    show t < c.nextTimer + 1
    obtain old | new := List.mem_append.mp member
    · have := timed.fresh t other old
      omega
    · rw [List.mem_singleton] at new
      cases new
      exact Nat.lt_succ_self _

theorem Timed.known (given : c.pendingProposals.lookup id = some timer ∨ c.armed.lookup timer = some id) :
    (timer,id) ∈ c.armed := by
  obtain pending | armed := given
  · exact timed.armed id timer (lookup_mem pending)
  · exact lookup_mem armed

theorem Timed.answered (given : c.pendingProposals.lookup id = some timer ∨ c.armed.lookup timer = some id)
    (done : (c.withdraw id timer).handleNormalResponse id = .ok next) : Timed next := by
  have withdrawn := timed.withdrawn (timed.known given)
  obtain ⟨_,_,latch,_,rfl⟩ | ⟨_,_,outbox,rfl⟩ | ⟨_,_,rfl⟩ := handleNormalResponse_cases done
  · exact ⟨withdrawn.armed,withdrawn.unique,withdrawn.fresh⟩
  · apply Timed.tracked
    exact ⟨withdrawn.armed,withdrawn.unique,withdrawn.fresh⟩
  · exact ⟨withdrawn.armed,withdrawn.unique,withdrawn.fresh⟩

-- The timer of an answered proposal belongs to none that is pending.
theorem Timed.spent (conserved : Conserved low c) (armed : c.armed.lookup timer = some id)
    (answered : id ∈ c.responses) : Timed (c.cancelTimer timer) := by
  obtain ⟨others,unique,fresh⟩ := timed.cancelled (lookup_mem armed)
  refine ⟨?_,unique,fresh⟩
  intro other t pending
  apply others other t _ pending
  intro same
  subst same
  have counted := List.one_le_count_iff.mpr answered
  have held : 1 ≤ (pendingIds c).count other :=
    List.one_le_count_iff.mpr (List.mem_map.mpr ⟨(other,t),pending,rfl⟩)
  by_cases normal : other = reconfigId
  · have := conserved.unanswered
    rw [← normal] at this
    omega
  · have once := conserved.once other normal
    split at once <;> omega

theorem Timed.rearmed (armed : c.armed.lookup timer = some reconfigId) :
    Timed ((c.cancelTimer timer).track reconfigId) := by
  obtain ⟨others,unique,fresh⟩ := timed.cancelled (lookup_mem armed)
  -- The pending reconfiguration is replaced, so that its cancelled timer does not count.
  have cleared : Timed (c.withdraw reconfigId timer) := timed.withdrawn (lookup_mem armed)
  have tracked := cleared.tracked reconfigId
  refine ⟨?_,tracked.unique,tracked.fresh⟩
  intro other t pending
  obtain same | old := List.mem_cons.mp pending
  · cases same
    exact List.mem_append_right _ List.mem_cons_self
  · obtain ⟨member,different⟩ := List.mem_filter.mp old
    exact List.mem_append_left _ (others other t (by simpa using different) member)

theorem Timed.move (conserved : Conserved low c) (move : Move low cause c next) : Timed next := by
  cases move with
  | steer => exact ⟨timed.armed,timed.unique,timed.fresh⟩
  | mark => exact ⟨timed.armed,timed.unique,timed.fresh⟩
  | turn => exact ⟨timed.armed,timed.unique,timed.fresh⟩
  | restart => exact ⟨timed.armed,timed.unique,timed.fresh⟩
  | launch leader more =>
    have tracked := timed.tracked (c.latestProposalId + 1)
    exact ⟨tracked.armed,tracked.unique,tracked.fresh⟩
  | resend leader id rest waiting =>
    have tracked := timed.tracked id
    exact ⟨tracked.armed,tracked.unique,tracked.fresh⟩
  | answer id timer next normal pending known done => exact timed.answered known done
  | holdBack i timer above pending =>
    have withdrawn := timed.withdrawn (timed.known (.inl pending))
    exact ⟨withdrawn.armed,withdrawn.unique,withdrawn.fresh⟩
  | conclude timer next pending all confirmed done =>
    obtain ⟨latch,_,rfl⟩ := finish_cases done
    have withdrawn := timed.withdrawn (timed.known (.inl pending))
    exact ⟨withdrawn.armed,withdrawn.unique,withdrawn.fresh⟩
  | reconfigured timer pending more confirmed =>
    have withdrawn := timed.withdrawn (timed.known (.inl pending))
    exact ⟨withdrawn.armed,withdrawn.unique,withdrawn.fresh⟩
  | rearm timer armed pending => exact timed.rearmed armed
  | spent timer id armed answered => exact timed.spent conserved armed answered

end Moving

theorem moves_timed (moves : Moves low cause c next) (conserved : Conserved low c) (timed : Timed c) :
    Timed next := by
  have both := moves_keep (fun c => Conserved low c ∧ Timed c) (fun _ _ move before =>
    ⟨before.1.move move,before.2.move before.1 move⟩) moves ⟨conserved,timed⟩
  exact both.2

-- As long as no timer fires while the client waits for the leader of the new
-- configuration, every pending proposal has an armed timer.
theorem pending_armed (run : Reached low cfg past c)
    (patient : ∀ step ∈ past, lapses step.1 step.2 = false) :
    ∀ id timer, (id,timer) ∈ c.pendingProposals → (timer,id) ∈ c.armed := by
  have timed : Timed c := by
    induction run with
    | start => exact initial_timed cfg
    | step run early done ih =>
      rw [List.forall_mem_cons] at patient
      obtain moves | lapse := handle_moves early done
      · exact moves_timed moves (reached_conserved run) (ih patient.2)
      · have := lapse.1
        rw [patient.1] at this
        cases this
  exact timed.armed

-- A proposal times out before the reconfiguration, and another is held back by it.
def timedOutRun : List Event :=
  [leads 1,.run,answers 1 1,.timeout 1,answers 3 1,drops 1 5,reconfigures 1 [2,3] [4],leads 2]

theorem timedOutRun_armed : ∃ past c, Reached 1 replacement past c ∧ pendingIds c = [5,4] ∧
    c.numTimedOut = 1 ∧ ∀ id timer, (id,timer) ∈ c.pendingProposals → (timer,id) ∈ c.armed := by
  have checked : ends replacement timedOutRun fun c =>
      pendingIds c = [5,4] ∧ c.numTimedOut = 1 := by decide +kernel
  have early : timedOutRun.all (admissible 1) := by decide +kernel
  obtain ⟨c,run,final⟩ := ends_reached early checked
  obtain ⟨pending,timedOut⟩ := of_decide_eq_true final
  exact ⟨_,c,run,pending,timedOut,pending_armed run (by decide +kernel)⟩

-- The timer of the fourth proposal fires while the client waits for the new leader.
def lapsedRun : List Event :=
  [leads 1,.run,answers 1 1,answers 2 1,answers 3 1,drops 1 5,.timeout 3,reconfigures 1 [2,3] [4],leads 2]

theorem pending_orphaned : ∃ past c, Reached 1 replacement past c ∧ c.state = .running ∧
    (4,3) ∈ c.pendingProposals ∧ ∀ timer, (timer,4) ∉ c.armed := by
  have checked : ends replacement lapsedRun fun c =>
      c.state = .running ∧ (4,3) ∈ c.pendingProposals ∧ 4 ∉ c.armed.map Prod.snd := by decide +kernel
  have early : lapsedRun.all (admissible 1) := by decide +kernel
  obtain ⟨c,run,final⟩ := ends_reached early checked
  obtain ⟨running,pending,orphaned⟩ := of_decide_eq_true final
  refine ⟨_,c,run,running,pending,?_⟩
  intro timer member
  exact orphaned (List.mem_map.mpr ⟨(timer,4),member,rfl⟩)

end KompicsBenches.ClientTimers
