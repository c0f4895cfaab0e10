import KompicsBenches.ClientPanics

namespace KompicsBenches.ClientLatch
open ControlCodec ClientComp ClientMoves ClientProposals ClientPanics
variable {id : ℕ} {cause : Client × Event} {c next : Client} {cfg : Config}
  {past : List (Client × Event)} {e : Event}

-- The latch, the reconfiguration that is asked for and the responses agree. A client
-- asks at half of its proposals, which it passes only if it has two at least.
structure Latched (c : Client) : Prop where
  latch : c.finishedLatch ≤ 1
  asked : reconfigId ∈ pendingIds c → c.reconfig ≠ none ∧ c.finishedLatch = 1
  down : c.finishedLatch = 0 → c.responses.length = c.numProposals
  more : c.finishedLatch = 1 → c.reconfig = none → c.responses.length < c.numProposals
  asking : c.finishedLatch = 1 → c.reconfig ≠ none → 2 ≤ c.numProposals →
    c.numProposals / 2 ≤ c.responses.length → reconfigId ∈ pendingIds c

theorem initial_latched (some_ : 1 ≤ cfg.numProposals) : Latched (Client.with cfg) := by
  refine ⟨Nat.le_refl _,?_,?_,?_,?_⟩
  · intro member
    cases member
  · intro down
    cases down
  · intro _ _
    exact some_
  · intro _ _ two half
    have : cfg.numProposals / 2 ≤ 0 := half
    have : 2 ≤ cfg.numProposals := two
    omega

section Moving
variable (latched : Latched c)
include latched

-- Most moves touch neither the latch nor what it depends on.
theorem Latched.same (latch : next.finishedLatch = c.finishedLatch) (reconfig : next.reconfig = c.reconfig)
    (responses : next.responses = c.responses) (size : next.numProposals = c.numProposals)
    (pending : reconfigId ∈ pendingIds next ↔ reconfigId ∈ pendingIds c) : Latched next := by
  refine ⟨?_,?_,?_,?_,?_⟩
  · rw [latch]
    exact latched.latch
  · rw [pending,reconfig,latch]
    exact latched.asked
  · rw [latch,responses,size]
    exact latched.down
  · rw [latch,reconfig,responses,size]
    exact latched.more
  · rw [latch,reconfig,responses,size,pending]
    exact latched.asking

-- A client whose latch is down waits for nothing.
theorem Latched.idle (conserved : Conserved 1 c) (down : c.finishedLatch = 0) (id : ℕ) :
    c.pendingProposals.lookup id = none := by
  by_cases normal : id = reconfigId
  · by_contra pending
    subst normal
    have asked := latched.asked (List.one_le_count_iff.mp (lookup_count pending))
    omega
  · exact conserved.settled (latched.down down) normal

theorem Latched.up (conserved : Conserved 1 c) (pending : c.pendingProposals.lookup id ≠ none) :
    c.finishedLatch = 1 := by
  have latch := latched.latch
  by_contra down
  exact pending (latched.idle conserved (by omega) id)

theorem Latched.answered {timer : ℕ} (conserved : Conserved 1 c) (normal : id ≠ reconfigId)
    (pending : c.pendingProposals.lookup id ≠ none)
    (done : (c.withdraw id timer).handleNormalResponse id = .ok next) : Latched next := by
  have up := latched.up conserved pending
  have fresh : id ∉ c.responses := List.count_eq_zero.mp (conserved.pending normal pending).2.2.1
  have size : (insertKey id c.responses).length = c.responses.length + 1 := by
    rw [insertKey,if_neg fresh,List.length_cons]
  have kept : reconfigId ∈ pendingIds (c.withdraw id timer) ↔ reconfigId ∈ pendingIds c := by
    rw [mem_withdraw,and_iff_left (Ne.symm normal)]
  obtain ⟨all,missing,latch,old,rfl⟩ | ⟨half,wanted,outbox,rfl⟩ | ⟨notAll,notHalf,rfl⟩ :=
    handleNormalResponse_cases done
  · have zero : latch = 0 := by
      have : c.finishedLatch = latch + 1 := old
      omega
    subst zero
    refine ⟨Nat.zero_le _,?_,?_,?_,?_⟩
    · intro member
      exact ((latched.asked (kept.mp member)).1 missing).elim
    · intro _
      exact all
    · intro up
      cases up
    · intro up
      cases up
  · have asked : reconfigId ∈ pendingIds (Client.track {c.withdraw id timer with
        responses := insertKey id c.responses, outbox := outbox} reconfigId) := mem_track.mpr (.inl rfl)
    refine ⟨latched.latch,?_,?_,?_,?_⟩
    · intro _
      exact ⟨wanted,up⟩
    · intro down
      have : c.finishedLatch = 0 := down
      omega
    · intro _ missing
      exact (wanted missing).elim
    · intro _ _ _ _
      exact asked
  · refine ⟨latched.latch,?_,?_,?_,?_⟩
    · intro member
      exact latched.asked (kept.mp member)
    · intro down
      have : c.finishedLatch = 0 := down
      omega
    · intro up missing
      have few := latched.more up missing
      have other : ¬((insertKey id c.responses).length = c.numProposals ∧ c.reconfig = none) := notAll
      show (insertKey id c.responses).length < c.numProposals
      rw [size] at other ⊢
      have : c.responses.length + 1 ≠ c.numProposals := fun same => other ⟨same,missing⟩
      omega
    · intro up wanted two past
      have other : ¬((insertKey id c.responses).length = c.numProposals / 2 ∧ c.reconfig ≠ none) := notHalf
      have past : c.numProposals / 2 ≤ (insertKey id c.responses).length := past
      rw [size] at other past
      have : c.responses.length + 1 ≠ c.numProposals / 2 := fun same => other ⟨same,wanted⟩
      exact kept.mpr (latched.asking up wanted two (by omega))

omit latched in
theorem withdrawn_reconfig (timer : ℕ) : reconfigId ∉ pendingIds (c.withdraw reconfigId timer) := by
  intro member
  exact (mem_withdraw.mp member).2 rfl

theorem Latched.move (conserved : Conserved 1 c) (move : Move 1 cause c next) : Latched next := by
  cases move with
  | steer => exact latched.same rfl rfl rfl rfl Iff.rfl
  | mark => exact latched.same rfl rfl rfl rfl Iff.rfl
  | turn => exact latched.same rfl rfl rfl rfl Iff.rfl
  | restart => exact latched.same rfl rfl rfl rfl Iff.rfl
  | launch leader more =>
    refine latched.same rfl rfl rfl rfl ?_
    show reconfigId ∈ pendingIds (c.track (c.latestProposalId + 1)) ↔ _
    rw [mem_track,or_iff_right (Nat.succ_ne_zero _).symm]
  | resend leader id rest waiting =>
    refine latched.same rfl rfl rfl rfl ?_
    have normal : reconfigId ≠ id := by
      intro same
      have unheld := List.count_eq_zero.mp (conserved.unheld (Nat.le_refl _))
      rw [waiting,same] at unheld
      exact unheld List.mem_cons_self
    show reconfigId ∈ pendingIds (c.track id) ↔ _
    rw [mem_track,or_iff_right normal]
  | answer id timer next normal pending known done =>
    exact latched.answered conserved normal pending done
  | holdBack i timer above pending =>
    refine latched.same rfl rfl rfl rfl ?_
    show reconfigId ∈ pendingIds (c.withdraw i timer) ↔ _
    rw [mem_withdraw,and_iff_left (Nat.ne_of_lt above)]
  | conclude timer next pending all confirmed done =>
    have up := latched.up conserved (pending ▸ Option.some_ne_none timer)
    obtain ⟨latch,old,rfl⟩ := finish_cases done
    have zero : latch = 0 := by
      have : c.finishedLatch = latch + 1 := old
      omega
    subst zero
    refine ⟨Nat.zero_le _,?_,?_,?_,?_⟩
    · intro member
      exact (withdrawn_reconfig timer member).elim
    · intro _
      exact all
    · intro up
      cases up
    · intro up
      cases up
  | reconfigured timer pending more confirmed =>
    have up := latched.up conserved (pending ▸ Option.some_ne_none timer)
    refine ⟨latched.latch,?_,?_,?_,?_⟩
    · intro member
      exact (withdrawn_reconfig timer member).elim
    · intro down
      have : c.finishedLatch = 0 := down
      omega
    · intro _ _
      have size := conserved.responses_length
      have bounded := conserved.bounded
      show c.responses.length < c.numProposals
      omega
    · intro _ wanted
      exact (wanted rfl).elim
  | rearm timer armed pending =>
    refine latched.same rfl rfl rfl rfl ?_
    have member := List.one_le_count_iff.mp (lookup_count pending)
    exact iff_of_true (mem_track.mpr (.inl rfl)) member
  | spent => exact latched.same rfl rfl rfl rfl Iff.rfl

theorem concluded_move (conserved : Conserved 1 c) (once : restarts cause = false)
    (move : Move 1 cause c next) (before : c.finishedLatch = 0 ↔ c.state = .finished) :
    next.finishedLatch = 0 ↔ next.state = .finished := by
  cases move with
  | turn state open_ after => exact iff_of_false (fun down => open_ (before.mp down)) after
  | restart again =>
    rw [once] at again
    cases again
  | answer id timer next normal pending known done =>
    have up := latched.up conserved pending
    obtain ⟨_,_,latch,old,rfl⟩ | ⟨_,_,outbox,rfl⟩ | ⟨_,_,rfl⟩ := handleNormalResponse_cases done
    · have : c.finishedLatch = latch + 1 := old
      exact iff_of_true (show latch = 0 by omega) rfl
    · exact before
    · exact before
  | conclude timer next pending all confirmed done =>
    have up := latched.up conserved (pending ▸ Option.some_ne_none timer)
    obtain ⟨latch,old,rfl⟩ := finish_cases done
    have : c.finishedLatch = latch + 1 := old
    exact iff_of_true (show latch = 0 by omega) rfl
  | _ => exact before

end Moving

-- The latch comes down, and the request is dropped, only by the answer to it.
theorem confirmed_move {told : Prop} (move : Move 1 cause c next)
    (before : c.reconfig = none ∨ c.finishedLatch = 0 → told ∨ confirms cause) :
    next.reconfig = none ∨ next.finishedLatch = 0 → told ∨ confirms cause := by
  cases move with
  | answer id timer next normal pending known done =>
    obtain ⟨_,missing,latch,old,rfl⟩ | ⟨_,_,outbox,rfl⟩ | ⟨_,_,rfl⟩ := handleNormalResponse_cases done
    · intro _
      exact before (.inl missing)
    · exact before
    · exact before
  | conclude timer next pending all confirmed done =>
    intro _
    exact .inr confirmed
  | reconfigured timer pending more confirmed =>
    intro _
    exact .inr confirmed
  | _ => exact before

theorem move_keeps (move : Move 1 cause c next) :
    next.stopAsk = c.stopAsk ∧ next.finishedLatch ≤ c.finishedLatch ∧
      (c.reconfig = none → next.reconfig = none) := by
  cases move with
  | answer id timer next normal pending known done =>
    obtain ⟨_,_,latch,old,rfl⟩ | ⟨_,_,outbox,rfl⟩ | ⟨_,_,rfl⟩ := handleNormalResponse_cases done
    · exact ⟨rfl,show latch ≤ c.finishedLatch from old ▸ Nat.le_succ _,fun missing => missing⟩
    · exact ⟨rfl,Nat.le_refl _,fun missing => missing⟩
    · exact ⟨rfl,Nat.le_refl _,fun missing => missing⟩
  | conclude timer next pending all confirmed done =>
    obtain ⟨latch,old,rfl⟩ := finish_cases done
    exact ⟨rfl,show latch ≤ c.finishedLatch from old ▸ Nat.le_succ _,fun missing => missing⟩
  | reconfigured => exact ⟨rfl,Nat.le_refl _,fun _ => rfl⟩
  | _ => exact ⟨rfl,Nat.le_refl _,fun missing => missing⟩

section Runs

-- The master runs a client once and stops it when it has finished, and reports name
-- proposals.
def orderly : Client × Event → Bool
  | (c,.run) => c.state != .finished
  | (c,.stop) => c.state == .finished
  | (_,.network _ (.pendingReconfiguration data)) => (dropped data).all (1 ≤ ·)
  | _ => true

-- A whole run of the client, with the steps it took, the latest first.
inductive Lived (cfg : Config) : List (Client × Event) → Client → Prop where
  | start : Lived cfg [] (Client.with cfg)
  | step {past : List (Client × Event)} {c next : Client} {e : Event} (run : Lived cfg past c)
      (ordered : orderly (c,e)) (done : c.handle e = .ok next) : Lived cfg ((c,e) :: past) next

structure Sound (cfg : Config) (past : List (Client × Event)) (c : Client) : Prop where
  conserved : Conserved 1 c
  latched : Latched c
  concluded : c.finishedLatch = 0 ↔ c.state = .finished
  unasked : c.stopAsk = false
  size : c.numProposals = cfg.numProposals
  unwanted : cfg.reconfig = none → c.reconfig = none
  confirmed : cfg.reconfig ≠ none → c.reconfig = none ∨ c.finishedLatch = 0 → ∃ step ∈ past, confirms step

-- A client that was stopped.
structure Frozen (c : Client) : Prop where
  down : c.finishedLatch = 0
  finished : c.state = .finished
  idle : c.pendingProposals = []

theorem initial_sound (some_ : 1 ≤ cfg.numProposals) : Sound cfg [] (Client.with cfg) := by
  refine ⟨initial_conserved cfg,initial_latched some_,?_,rfl,rfl,id,?_⟩
  · exact iff_of_false (Nat.succ_ne_zero 0) (ne_of_beq_false rfl)
  · intro wanted given
    obtain missing | down := given
    · exact (wanted missing).elim
    · cases down

theorem Sound.moves (sound : Sound cfg past c) (once : restarts (c,e) = false)
    (moves : Moves 1 (c,e) c next) : Sound cfg ((c,e) :: past) next ∧ next.finishedLatch ≤ c.finishedLatch := by
  induction moves with
  | refl =>
    refine ⟨⟨sound.conserved,sound.latched,sound.concluded,sound.unasked,sound.size,sound.unwanted,?_⟩,
      Nat.le_refl _⟩
    intro wanted given
    obtain ⟨step,member,found⟩ := sound.confirmed wanted given
    exact ⟨step,List.mem_cons_of_mem _ member,found⟩
  | tail _ move ih =>
    obtain ⟨before,low⟩ := ih
    obtain ⟨asked,lower,dropped⟩ := move_keeps move
    refine ⟨⟨before.conserved.move move,before.latched.move before.conserved move,
      concluded_move before.latched before.conserved once move before.concluded,
      asked.trans before.unasked,(move_sizes move).trans before.size,
      fun missing => dropped (before.unwanted missing),?_⟩,Nat.le_trans lower low⟩
    intro wanted given
    have told := confirmed_move move (fun given => .inl (before.confirmed wanted given)) given
    obtain told | told := told
    · exact told
    · exact ⟨(c,e),List.mem_cons_self,told⟩

theorem Sound.stopped (sound : Sound cfg past c) (ordered : orderly (c,.stop)) : Frozen c.receiveStop := by
  have finished : c.state = .finished := by simpa [orderly] using ordered
  exact ⟨sound.concluded.mpr finished,finished,rfl⟩

theorem Sound.peerStopped {pid : ℕ} (sound : Sound cfg past c) (done : c.receivePeerStop pid = .ok next) :
    ∃ nodes, next = {c with nodes := nodes} := by
  unfold Client.receivePeerStop at done
  split at done
  · cases done
  · dsimp only at done
    split at done
    · cases done
      exact ⟨_,rfl⟩
    · rw [sound.unasked] at done
      cases done

-- A step before the stop is a sequence of moves, or the stop.
theorem Sound.step (sound : Sound cfg past c) (ordered : orderly (c,e)) (done : c.handle e = .ok next) :
    (Sound cfg ((c,e) :: past) next ∧ next.finishedLatch ≤ c.finishedLatch) ∨
      (Frozen next ∧ next.finishedLatch = c.finishedLatch) := by
  have once : restarts (c,e) = false := by
    cases e with
    | run => simpa [restarts,orderly] using ordered
    | _ => rfl
  have regular (early : admissible 1 e) :
      Sound cfg ((c,e) :: past) next ∧ next.finishedLatch ≤ c.finishedLatch := by
    obtain moves | ⟨_,timer,rfl⟩ := handle_moves early done
    · exact sound.moves once moves
    · obtain ⟨after,_⟩ := sound.moves once .refl
      have conserved := after.conserved
      refine ⟨⟨⟨conserved.once,conserved.single,conserved.unanswered,conserved.unheld,conserved.bounded⟩,
        after.latched.same rfl rfl rfl rfl Iff.rfl,after.concluded,after.unasked,after.size,
        after.unwanted,after.confirmed⟩,Nat.le_refl _⟩
  cases e with
  | stop =>
    cases done
    exact .inr ⟨sound.stopped ordered,rfl⟩
  | peerStop pid =>
    obtain ⟨nodes,rfl⟩ := sound.peerStopped done
    exact .inl (sound.moves once (Moves.one (.steer ..)))
  | run => exact .inl (regular rfl)
  | timeout timer => exact .inl (regular rfl)
  | network sender msg =>
    cases msg with
    | pendingReconfiguration data => exact .inl (regular ordered)
    | _ => exact .inl (regular rfl)

theorem Frozen.step (frozen : Frozen c) (ordered : orderly (c,e)) (done : c.handle e = .ok next) :
    Frozen next := by
  have finished := frozen.finished
  cases e with
  | run => simp [orderly,finished] at ordered
  | stop =>
    cases done
    exact ⟨frozen.down,finished,rfl⟩
  | peerStop pid =>
    simp only [Client.handle,Client.receivePeerStop] at done
    split at done
    · cases done
    · split at done
      · cases done
        exact ⟨frozen.down,finished,frozen.idle⟩
      · split at done
        · cases done
        · cases done
          exact ⟨frozen.down,finished,frozen.idle⟩
  | timeout timer =>
    simp only [Client.handle,Client.fire] at done
    split at done
    · cases done
      exact frozen
    · rename_i id armed
      -- Nothing is pending, so that only the timer of an answered proposal gets through.
      simp only [Client.proposalTimeout] at done
      split at done
      · cases done
        exact ⟨frozen.down,finished,frozen.idle⟩
      · split at done
        · obtain ⟨asked,handled,done⟩ := bind_ok done
          obtain ⟨outbox,rfl⟩ := proposeReconfiguration_outbox handled
          simp [Client.cancelTimer,frozen.idle] at done
        · simp [Client.cancelTimer,frozen.idle] at done
  | network sender msg =>
    have same : next = c := by
      cases msg with
      | proposal p =>
        cases done
        rfl
      | proposalResp pr =>
        simp only [Client.handle,Client.receiveNetwork,Client.proposalResp,finished,true_or,if_true] at done
        cases done
        rfl
      | firstLeader pid =>
        simp only [Client.handle,Client.receiveNetwork,Client.firstLeader,finished] at done
        split at done
        · cases done
          rfl
        · cases done
          rfl
      | pendingReconfiguration data =>
        simp only [Client.handle,Client.receiveNetwork,Client.pendingReconfiguration,finished] at done
        split at done
        · cases done
        · cases done
          rfl
    exact same ▸ frozen

theorem lived_sound (some_ : 1 ≤ cfg.numProposals) (run : Lived cfg past c) :
    Sound cfg past c ∨ Frozen c := by
  induction run with
  | start => exact .inl (initial_sound some_)
  | step _ ordered done ih =>
    obtain sound | frozen := ih
    · obtain ⟨sound,_⟩ | ⟨frozen,_⟩ := sound.step ordered done
      · exact .inl sound
      · exact .inr frozen
    · exact .inr (frozen.step ordered done)

-- A sound client with no proposal left has been answered every one.
theorem Sound.complete (sound : Sound cfg past c) (made : c.latestProposalId = cfg.numProposals)
    (idle : c.pendingProposals = []) (unheld : c.retryProposals = []) :
    c.responses.length = c.numProposals := by
  have all : List.range' 1 c.latestProposalId ⊆ c.responses := by
    intro id member
    rw [List.mem_range'_1] at member
    obtain pending | held | answered := sound.conserved.place member.1 (by omega)
    · rw [pendingIds,idle] at pending
      cases pending
    · rw [unheld] at held
      cases held
    · exact answered
  have large := (List.subperm_of_subset List.nodup_range' all).length_le
  have small := sound.conserved.responses_length
  rw [List.length_range'] at large
  rw [sound.size,← made]
  omega

theorem Sound.finished (sound : Sound cfg past c) (proper : cfg.reconfig = none ∨ 2 ≤ cfg.numProposals)
    (made : c.latestProposalId = cfg.numProposals) (idle : c.pendingProposals = [])
    (unheld : c.retryProposals = []) : c.state = .finished := by
  have full := sound.complete made idle unheld
  have latch := sound.latched.latch
  apply sound.concluded.mp
  by_contra up
  have up : c.finishedLatch = 1 := by omega
  by_cases missing : c.reconfig = none
  · have few := sound.latched.more up missing
    omega
  · obtain none_ | two := proper
    · exact missing (sound.unwanted none_)
    · have asked := sound.latched.asking up missing (sound.size ▸ two) (by omega)
      rw [pendingIds,idle] at asked
      cases asked

def latchPanic : Panic → Bool
  | .finishedLatch => true
  | _ => false

theorem latchPanic_special : Special latchPanic := by
  intro panic failing
  cases panic with
  | finishedLatch => exact .inl rfl
  | _ => cases failing

theorem pendingReconfiguration_latch (data : List UInt8) :
    fails latchPanic (c.pendingReconfiguration data) = false := by
  have holding (start stop : ℕ) : fails latchPanic (c.holdBackProposals start stop) = false := by
    cases done : c.holdBackProposals start stop with
    | ok next => rfl
    | error panic =>
      obtain ⟨i,rfl⟩ := holdBack_panics done
      rfl
  unfold Client.pendingReconfiguration
  split
  · rfl
  · split
    · split
      · rw [fails_bind (fun _ => rfl)]
        exact holding _ _
      · split
        · rw [fails_bind (fun _ => send_clean latchPanic_special)]
          exact holding _ _
        · rfl
    · exact holding _ _
    · rfl

theorem handle_latch (idle : c.finishedLatch = 0 → ∀ id, c.pendingProposals.lookup id = none) :
    c.handle e ≠ .error .finishedLatch := by
  intro failed
  have clean : fails latchPanic (c.handle e) = false := by
    cases report : isReport e with
    | false => exact handle_clean latchPanic_special (fun _ => idle) e report
    | true =>
      cases e with
      | network sender msg =>
        cases msg with
        | pendingReconfiguration data => exact pendingReconfiguration_latch data
        | _ => cases report
      | _ => cases report
  rw [failed] at clean
  cases clean

-- Whether a run on given events is orderly.
def orderlyRun (c : Client) : List Event → Bool
  | [] => true
  | e :: events => orderly (c,e) &&
    match c.handle e with
    | .ok next => orderlyRun next events
    | .error _ => true

theorem Lived.execute {events : List Event} (run : Lived cfg past c) (ordered : orderlyRun c events)
    (done : execute c events = .ok next) : Lived cfg (record past c events) next := by
  induction events generalizing past c with
  | nil =>
    cases done
    exact run
  | cons e events ih =>
    obtain ⟨middle,first,rest⟩ := bind_ok done
    rw [orderlyRun,Bool.and_eq_true,first] at ordered
    rw [record,first]
    exact ih (run.step ordered.1 first) ordered.2 rest

theorem ends_lived {events : List Event} {check : Client → Bool}
    (ordered : orderlyRun (Client.with cfg) events) (checked : ends cfg events check) :
    ∃ c, Lived cfg (record [] (Client.with cfg) events) c ∧ check c := by
  unfold ends at checked
  cases done : ClientMoves.execute (Client.with cfg) events with
  | error panic => simp [done] at checked
  | ok c =>
    rw [done] at checked
    exact ⟨c,Lived.execute .start ordered done,checked⟩

-- The latch never comes down twice; when it comes down all proposals are answered and
-- so is the reconfiguration, if one was asked for; and if a client that has to ask
-- for one has two proposals at least, it is finished when nothing is left to answer.
theorem latch_exact (some_ : 1 ≤ cfg.numProposals) (run : Lived cfg past c) :
    (∀ e, c.handle e ≠ .error .finishedLatch) ∧
    (∀ e next, orderly (c,e) → c.handle e = .ok next → next.finishedLatch = c.finishedLatch ∨
      (c.finishedLatch = 1 ∧ next.finishedLatch = 0 ∧
        (∀ id, 1 ≤ id → id ≤ cfg.numProposals → id ∈ next.responses) ∧
        (cfg.reconfig ≠ none → ∃ step ∈ (c,e) :: past, confirms step))) ∧
    (cfg.reconfig = none ∨ 2 ≤ cfg.numProposals → c.latestProposalId = cfg.numProposals →
      c.pendingProposals = [] → c.retryProposals = [] → c.state = .finished) := by
  obtain sound | frozen := lived_sound some_ run
  · refine ⟨?_,?_,sound.finished⟩
    · intro e
      exact handle_latch (sound.latched.idle sound.conserved)
    · intro e next ordered done
      obtain ⟨after,lower⟩ | ⟨_,same⟩ := sound.step ordered done
      · by_cases same : next.finishedLatch = c.finishedLatch
        · exact .inl same
        · have latch := sound.latched.latch
          have down : next.finishedLatch = 0 := by omega
          refine .inr ⟨by omega,down,?_,?_⟩
          · intro id positive within
            exact after.conserved.answered_all (after.latched.down down) positive (after.size ▸ within)
          · intro wanted
            exact after.confirmed wanted (.inr down)
      · exact .inl same
  · refine ⟨?_,?_,?_⟩
    · intro e
      apply handle_latch
      intro _ id
      rw [frozen.idle]
      rfl
    · intro e next ordered done
      have after := frozen.step ordered done
      exact .inl (after.down.trans frozen.down.symm)
    · intro _ _ _ _
      exact frozen.finished

-- The reconfiguration is answered when half of the proposals are.
def replacedRun : List Event :=
  [leads 1,.run,answers 1 1,answers 2 1,answers 3 1,reconfigures 1 [2,3] [4],leads 2,answers 4 2,
    .timeout 4,answers 6 2]

theorem replacedRun_finished : ∃ past c, Lived replacement past c ∧ c.responses = [6,5,4,3,2,1] ∧
    c.finishedLatch = 0 ∧ c.state = .finished := by
  have checked : ends replacement replacedRun fun c =>
      c.responses = [6,5,4,3,2,1] ∧ c.finishedLatch = 0 ∧ c.latestProposalId = 6 ∧
        c.pendingProposals = [] ∧ c.retryProposals = [] := by decide +kernel
  obtain ⟨c,run,final⟩ := ends_lived (by decide +kernel) checked
  obtain ⟨responses,down,made,idle,unheld⟩ := of_decide_eq_true final
  have exact_ := latch_exact (by decide) run
  exact ⟨_,c,run,responses,down,exact_.2.2 (.inr (by decide)) made idle unheld⟩

def single : Config := ⟨[1,2,3],1,1,[1,2,3,4],some ([2,3,4],[])⟩

def singleRun : List Event := [leads 1,.run,answers 1 1]

-- One proposal has no half at which the client would ask for its reconfiguration.
theorem singleRun_unfinished : ∃ past c, Lived single past c ∧
    c.latestProposalId = single.numProposals ∧ c.pendingProposals = [] ∧ c.retryProposals = [] ∧
    c.state = .running := by
  have checked : ends single singleRun fun c =>
      c.latestProposalId = single.numProposals ∧ c.pendingProposals = [] ∧ c.retryProposals = [] ∧
        c.state = .running := by decide +kernel
  obtain ⟨c,run,final⟩ := ends_lived (by decide +kernel) checked
  exact ⟨_,c,run,of_decide_eq_true final⟩

end Runs

end KompicsBenches.ClientLatch
