import KompicsBenches.ClientComp

namespace KompicsBenches.ClientMoves
open Wire ControlCodec ClientComp

-- The answer to the reconfiguration that the client is waiting for.
def confirms : Client × Event → Bool
  | (c,.network _ (.proposalResp pr)) =>
    c.state != .finished && c.state != .leaderElection &&
      (c.pendingProposals.lookup reconfigId).isSome &&
      match deserialiseResponse.run pr.data with
      | .ok (.reconfiguration _,_) => true
      | _ => false
  | _ => false

def restarts : Client × Event → Bool
  | (c,.run) => c.state == .finished
  | _ => false

-- What can happen to the books of the client: the containers of proposals, the
-- timers, the latch, the reconfiguration that is asked for and the state. Every
-- handler is a sequence of these, and all invariants are shown move by move. The
-- cause is the event that is handled with the state that it met. Proposals below
-- `low` are never held back.
inductive Move (low : ℕ) (cause : Client × Event) (c : Client) : Client → Prop where
  | steer (nodes : List ℕ) (latch leader : ℕ) (config : List ℕ) (timedOut : ℕ) (changes : List ℕ)
      (outbox : List Sent) :
      Move low cause c {c with
        nodes := nodes
        leaderElectionLatch := latch
        currentLeader := leader
        currentConfig := config
        numTimedOut := timedOut
        leaderChanges := changes
        outbox := outbox}
  | mark : Move low cause c {c with firstProposalAfterReconfig := some c.latestProposalId}
  | turn (state : ExperimentState) (before : c.state ≠ .finished) (after : state ≠ .finished) :
      Move low cause c {c with state := state}
  | restart (again : restarts cause) (before : c.state = .finished) :
    Move low cause c {c with state := .running}
  | launch (leader : ℕ) (more : c.latestProposalId < c.numProposals) :
      Move low cause c {c.proposeNormal leader (c.latestProposalId + 1) with
        latestProposalId := c.latestProposalId + 1}
  | resend (leader id : ℕ) (rest : List ℕ) (waiting : c.retryProposals = id :: rest) :
      Move low cause c (Client.proposeNormal {c with retryProposals := rest} leader id)
  | answer (id timer : ℕ) (next : Client) (normal : id ≠ reconfigId)
      (pending : c.pendingProposals.lookup id ≠ none)
      (known : c.pendingProposals.lookup id = some timer ∨ c.armed.lookup timer = some id)
      (done : (c.withdraw id timer).handleNormalResponse id = .ok next) :
      Move low cause c next
  | holdBack (i timer : ℕ) (above : low ≤ i) (pending : c.pendingProposals.lookup i = some timer) :
      Move low cause c {c.withdraw i timer with retryProposals := c.retryProposals ++ [i]}
  | conclude (timer : ℕ) (next : Client) (pending : c.pendingProposals.lookup reconfigId = some timer)
      (all : c.responses.length = c.numProposals) (confirmed : confirms cause)
      (done : (c.withdraw reconfigId timer).finish = .ok next) :
      Move low cause c next
  | reconfigured (timer : ℕ) (pending : c.pendingProposals.lookup reconfigId = some timer)
      (more : c.responses.length ≠ c.numProposals) (confirmed : confirms cause) :
      Move low cause c {c.withdraw reconfigId timer with reconfig := none}
  | rearm (timer : ℕ) (armed : c.armed.lookup timer = some reconfigId)
      (pending : c.pendingProposals.lookup reconfigId ≠ none) :
      Move low cause c ((c.cancelTimer timer).track reconfigId)
  | spent (timer id : ℕ) (armed : c.armed.lookup timer = some id) (answered : id ∈ c.responses) :
      Move low cause c (c.cancelTimer timer)

abbrev Moves (low : ℕ) (cause : Client × Event) := Relation.ReflTransGen (Move low cause)

variable {low : ℕ} {cause : Client × Event} {c next : Client} {e : Event}

theorem moves_keep (holds : Client → Prop) (kept : ∀ c next, Move low cause c next → holds c → holds next)
    (moves : Moves low cause c next) (before : holds c) : holds next := by
  induction moves with
  | refl => exact before
  | tail _ move ih => exact kept _ _ move ih

theorem bind_ok {first : Except Panic α} {rest : α → Except Panic β} {result : β}
    (done : first >>= rest = .ok result) : ∃ value, first = .ok value ∧ rest value = .ok result := by
  cases first with
  | error panic => cases done
  | ok value => exact ⟨value,rfl,done⟩

theorem Moves.one (move : Move low cause c next) : Moves low cause c next := .single move

section Sending

theorem proposeAll_latest (leader latest : ℕ) (ids : List ℕ) :
    Client.proposeAll {c with latestProposalId := latest} leader ids =
      {c.proposeAll leader ids with latestProposalId := latest} := by
  induction ids generalizing c with
  | nil => rfl
  | cons id ids ih => exact ih (c := c.proposeNormal leader id)

-- The loop over new ids, which sets the latest id only at its end, launches them one
-- by one.
theorem launch_moves (leader count : ℕ) (room : c.latestProposalId + count ≤ c.numProposals) :
    Moves low cause c {c.proposeAll leader (List.range' (c.latestProposalId + 1) count) with
      latestProposalId := c.latestProposalId + count} := by
  induction count generalizing c with
  | zero => exact .refl
  | succ count ih =>
    have first : Move low cause c {c.proposeNormal leader (c.latestProposalId + 1) with
        latestProposalId := c.latestProposalId + 1} := .launch leader (by omega)
    have rest := ih (c := {c.proposeNormal leader (c.latestProposalId + 1) with
      latestProposalId := c.latestProposalId + 1}) (by
        show c.latestProposalId + 1 + count ≤ c.numProposals
        omega)
    rw [proposeAll_latest] at rest
    have total : c.latestProposalId + (count + 1) = c.latestProposalId + 1 + count := by omega
    rw [total,List.range'_succ]
    exact .head first rest

theorem launch_until {leader stop : ℕ} (above : c.latestProposalId ≤ stop)
    (below : stop ≤ c.numProposals) :
    Moves low cause c {c.proposeAll leader (List.range' (c.latestProposalId + 1)
        (stop + 1 - (c.latestProposalId + 1))) with
      latestProposalId := stop} := by
  obtain ⟨count,rfl⟩ := Nat.exists_eq_add_of_le above
  have size : c.latestProposalId + count + 1 - (c.latestProposalId + 1) = count := by omega
  rw [size]
  exact launch_moves leader count below

theorem resend_moves (leader : ℕ) (ids rest : List ℕ) (waiting : c.retryProposals = ids ++ rest) :
    Moves low cause c (Client.proposeAll {c with retryProposals := rest} leader ids) := by
  induction ids generalizing c with
  | nil =>
    rw [List.nil_append] at waiting
    subst waiting
    exact .refl
  | cons id ids ih =>
    have first : Move low cause c (Client.proposeNormal {c with retryProposals := ids ++ rest} leader id) :=
      .resend leader id (ids ++ rest) waiting
    exact .head first (ih rfl)

theorem send_moves (done : c.sendConcurrentProposals = .ok next) : Moves low cause c next := by
  unfold Client.sendConcurrentProposals at done
  dsimp only at done
  split at done
  · cases done
  · split at done
    · cases done
      exact .refl
    · split at done
      · cases done
      · split at done
        · split at done
          · cases done
            exact .refl
          · rename_i enough
            cases done
            apply launch_until
            · omega
            · exact Nat.min_le_right _ _
        · cases done
          apply resend_moves
          rw [List.take_append_drop]

end Sending

section Holding

theorem holdBackProposal_cases {i : ℕ} (done : c.holdBackProposal i = .ok next) :
    (∃ timer, c.pendingProposals.lookup i = some timer ∧
      next = {c.withdraw i timer with retryProposals := c.retryProposals ++ [i]}) ∨
    (i ∈ c.responses ∧ next = c) := by
  unfold Client.holdBackProposal at done
  split at done
  · rename_i timer pending
    cases done
    exact .inl ⟨timer,pending,rfl⟩
  · split at done
    · rename_i answered
      cases done
      exact .inr ⟨by simpa using answered,rfl⟩
    · cases done

theorem holdBack_moves {ids : List ℕ} (above : ∀ i ∈ ids, low ≤ i)
    (done : ids.foldlM Client.holdBackProposal c = .ok next) : Moves low cause c next := by
  induction ids generalizing c with
  | nil =>
    cases done
    exact .refl
  | cons i ids ih =>
    rw [List.forall_mem_cons] at above
    rw [List.foldlM_cons] at done
    obtain ⟨held,first,rest⟩ := bind_ok done
    obtain ⟨timer,pending,rfl⟩ | ⟨_,rfl⟩ := holdBackProposal_cases first
    · exact .head (.holdBack i timer above.1 pending) (ih above.2 rest)
    · exact ih above.2 rest

theorem holdBack_state {ids : List ℕ} (done : ids.foldlM Client.holdBackProposal c = .ok next) :
    next.state = c.state := by
  induction ids generalizing c with
  | nil =>
    cases done
    rfl
  | cons i ids ih =>
    rw [List.foldlM_cons] at done
    obtain ⟨held,first,rest⟩ := bind_ok done
    obtain ⟨timer,pending,rfl⟩ | ⟨_,rfl⟩ := holdBackProposal_cases first
    · have kept := ih rest
      exact kept
    · exact ih rest

theorem holdBackProposals_moves {start stop : ℕ} (above : low ≤ start)
    (done : c.holdBackProposals start stop = .ok next) : Moves low cause c next := by
  apply holdBack_moves _ done
  intro i member
  have := (List.mem_range'_1.mp member).1
  omega

end Holding

section Answering

theorem finish_cases (done : c.finish = .ok next) :
    ∃ latch, c.finishedLatch = latch + 1 ∧ next = {c with state := .finished, finishedLatch := latch} := by
  unfold Client.finish at done
  split at done
  · cases done
  · rename_i latch value
    cases done
    exact ⟨latch,value,rfl⟩

theorem proposeReconfiguration_outbox (done : c.proposeReconfiguration = .ok next) :
    ∃ outbox, next = {c with outbox := outbox} := by
  unfold Client.proposeReconfiguration at done
  split at done
  · split at done
    · cases done
    · cases done
      exact ⟨_,rfl⟩
  · cases done
    exact ⟨c.outbox,rfl⟩

-- A response finishes the experiment, makes the client ask for the reconfiguration,
-- or is only noted.
theorem handleNormalResponse_cases {id : ℕ} (done : c.handleNormalResponse id = .ok next) :
    ((insertKey id c.responses).length = c.numProposals ∧ c.reconfig = none ∧
      ∃ latch, c.finishedLatch = latch + 1 ∧
        next = {c with responses := insertKey id c.responses, state := .finished, finishedLatch := latch}) ∨
    ((insertKey id c.responses).length = c.numProposals / 2 ∧ c.reconfig ≠ none ∧
      ∃ outbox, next =
        Client.track {c with responses := insertKey id c.responses, outbox := outbox} reconfigId) ∨
    (¬((insertKey id c.responses).length = c.numProposals ∧ c.reconfig = none) ∧
      ¬((insertKey id c.responses).length = c.numProposals / 2 ∧ c.reconfig ≠ none) ∧
      next = {c with responses := insertKey id c.responses}) := by
  unfold Client.handleNormalResponse at done
  dsimp only at done
  split at done
  · rename_i last
    obtain ⟨latch,value,rfl⟩ := finish_cases done
    exact .inl ⟨last.1,last.2,latch,value,rfl⟩
  · rename_i notLast
    split at done
    · rename_i half
      obtain ⟨asked,handled,rest⟩ := bind_ok done
      obtain ⟨outbox,rfl⟩ := proposeReconfiguration_outbox handled
      cases rest
      exact .inr (.inl ⟨half.1,half.2,outbox,rfl⟩)
    · rename_i notHalf
      cases done
      exact .inr (.inr ⟨notLast,notHalf,rfl⟩)

end Answering

section Handling

theorem changeLeader_moves (pid : ℕ) : Moves low cause c (c.changeLeader pid) := by
  unfold Client.changeLeader
  split
  · exact .refl
  · exact Moves.one (.steer ..)

theorem firstLeader_moves {pid : ℕ} (done : c.firstLeader pid = .ok next) : Moves low cause c next := by
  unfold Client.firstLeader at done
  split at done
  · cases done
    exact .refl
  · split at done
    · cases done
      exact Moves.one (.steer ..)
    · rename_i waiting
      dsimp only at done
      have turned : Moves low cause c {c.changeLeader pid with state := .running} := by
        refine .tail (changeLeader_moves pid) (.turn .running ?_ ?_)
        · unfold Client.changeLeader
          split <;> simp [waiting]
        · decide
      split at done
      · exact .trans (.tail turned .mark) (send_moves done)
      · exact .trans turned (send_moves done)
    · cases done
      exact .refl

theorem changeLeader_pending (pid : ℕ) :
    (c.changeLeader pid).pendingProposals = c.pendingProposals := by
  unfold Client.changeLeader
  split <;> rfl

theorem changeLeader_withdraw (id timer pid : ℕ) :
    (c.withdraw id timer).changeLeader pid = (c.changeLeader pid).withdraw id timer := by
  unfold Client.changeLeader
  show (if c.currentLeader = pid then _ else _) = _
  split <;> rfl

theorem normalResponse_moves {id latestLeader : ℕ} (normal : id ≠ reconfigId)
    (done : c.normalResponse id latestLeader = .ok next) : Moves low cause c next := by
  unfold Client.normalResponse at done
  split at done
  · cases done
    exact .refl
  · rename_i timer pending
    -- The change of the leader may as well come before the proposal is withdrawn.
    obtain ⟨steered,moves,same,equal⟩ : ∃ steered, Moves low cause c steered ∧
        steered.pendingProposals = c.pendingProposals ∧
        (if (c.withdraw id timer).currentConfig.contains latestLeader ∧
            (c.withdraw id timer).state ≠ .reconfigurationElection then
          (c.withdraw id timer).changeLeader latestLeader else c.withdraw id timer) =
          steered.withdraw id timer := by
      split
      · exact ⟨_,changeLeader_moves latestLeader,changeLeader_pending _,changeLeader_withdraw _ _ _⟩
      · exact ⟨c,.refl,rfl,rfl⟩
    dsimp only at done
    rw [equal] at done
    rw [← same] at pending
    obtain ⟨answered,handled,done⟩ := bind_ok done
    have answer : Move low cause steered answered :=
      .answer id timer answered normal (by simp [pending]) (.inl pending) handled
    refine .trans (.tail moves answer) ?_
    split at done
    · exact send_moves done
    · cases done
      exact .refl

theorem reconfigurationResponse_moves {newConfig : List ℕ} {latestLeader : ℕ}
    (open_ : c.state ≠ .finished)
    (confirmed : (c.pendingProposals.lookup reconfigId).isSome → confirms cause)
    (done : c.reconfigurationResponse newConfig latestLeader = .ok next) : Moves low cause c next := by
  unfold Client.reconfigurationResponse at done
  split at done
  · cases done
    exact .refl
  · rename_i timer pending
    have confirmed : confirms cause := confirmed (by rw [pending]; rfl)
    dsimp only at done
    split at done
    · rename_i all
      exact Moves.one (.conclude timer next pending all confirmed done)
    · rename_i more
      have settled : Moves low cause c {c.withdraw reconfigId timer with
          reconfig := none, currentConfig := newConfig, currentLeader := latestLeader} :=
        .tail (Moves.one (.reconfigured timer pending more confirmed)) (.steer ..)
      split at done
      · cases done
        exact .tail settled (.turn _ open_ (by decide))
      · obtain ⟨sent,handled,done⟩ := bind_ok done
        have turned := Relation.ReflTransGen.tail settled (.turn .running open_ (by decide))
        refine .trans (.trans turned (send_moves handled)) ?_
        cases done
        split
        · exact Moves.one (.steer ..)
        · exact .refl

theorem read_ok {first : Reader α} {then_ : α → Reader β} {data : List UInt8} {result : β × List UInt8}
    (read : (first >>= then_).run data = .ok result) :
    ∃ value, first.run data = .ok value ∧ (then_ value.1).run value.2 = .ok result := by
  rw [StateT.run_bind] at read
  cases got : first.run data with
  | error e =>
    rw [got] at read
    cases read
  | ok value =>
    rw [got] at read
    exact ⟨value,rfl,read⟩

-- A response that is not to the reconfiguration carries another id.
theorem deserialiseResponse_normal {data rest : List UInt8} {id : ℕ}
    (read : deserialiseResponse.run data = .ok (.normal id,rest)) : id ≠ reconfigId := by
  obtain ⟨⟨word,left⟩,_,read⟩ := read_ok read
  cases word with
  | zero =>
    obtain ⟨⟨config,left⟩,_,read⟩ := read_ok read
    cases read
  | succ word =>
    cases read
    exact Nat.succ_ne_zero word

theorem proposalResp_moves {sender : ℕ} {pr : ProposalResp} (done : c.proposalResp pr = .ok next) :
    Moves low (c,.network sender (.proposalResp pr)) c next := by
  unfold Client.proposalResp at done
  split at done
  · cases done
    exact .refl
  · rename_i open_
    rw [not_or] at open_
    split at done
    · cases done
    · rename_i read
      exact normalResponse_moves (deserialiseResponse_normal read) done
    · rename_i read
      apply reconfigurationResponse_moves open_.1 _ done
      intro pending
      simp [confirms,open_,pending,read]

-- The proposal a reconfiguration made a replica drop.
def dropped (data : List UInt8) : Option ℕ :=
  match getU64.run data with
  | .error _ => none
  | .ok (droppedProposal,_) => some droppedProposal

theorem pendingReconfiguration_moves {data : List UInt8} (above : ∀ d, dropped data = some d → low ≤ d)
    (done : c.pendingReconfiguration data = .ok next) : Moves low cause c next := by
  unfold Client.pendingReconfiguration at done
  split at done
  · cases done
  · rename_i d rest read
    have lowest : low ≤ d := above d (by rw [dropped,read])
    split at done
    · rename_i running
      split at done
      · obtain ⟨held,handled,done⟩ := bind_ok done
        cases done
        refine .tail (holdBackProposals_moves lowest handled) (.turn _ ?_ (by decide))
        rw [holdBack_state handled,running]
        decide
      · split at done
        · obtain ⟨held,handled,done⟩ := bind_ok done
          exact .trans (holdBackProposals_moves lowest handled) (send_moves done)
        · cases done
    · exact holdBackProposals_moves lowest done
    · cases done
      exact .refl

theorem receiveRun_moves (done : c.receiveRun = .ok next) : Moves low (c,.run) c next := by
  unfold Client.receiveRun at done
  split at done
  · cases done
  · by_cases before : c.state = .finished
    · exact .head (.restart (by simp [restarts,before]) before) (send_moves done)
    · exact .head (.turn .running before (by decide)) (send_moves done)

-- The one event that is no move: while the client waits for the leader of the new
-- configuration a timer fires for nothing.
def lapses (c : Client) : Event → Bool
  | .timeout timer => (c.armed.lookup timer).isSome && c.state == .reconfigurationElection
  | _ => false

def Lapse (c : Client) (e : Event) (next : Client) : Prop :=
  lapses c e ∧ ∃ timer, next = c.cancelTimer timer

theorem fire_moves {timer : ℕ} (done : c.fire timer = .ok next) :
    Moves low cause c next ∨ Lapse c (.timeout timer) next := by
  unfold Client.fire at done
  split at done
  · cases done
    exact .inl .refl
  · rename_i id armed
    unfold Client.proposalTimeout at done
    split at done
    · rename_i early
      cases done
      by_cases answered : id ∈ c.responses
      · exact .inl (Moves.one (.spent timer id armed answered))
      · have waiting : c.state = .reconfigurationElection := by
          obtain known | waiting := early
          · exact (answered (List.contains_iff_mem.mp known)).elim
          · exact waiting
        exact .inr ⟨by simp [lapses,armed,waiting],timer,rfl⟩
    · left
      split at done
      · rename_i same
        subst same
        obtain ⟨asked,handled,done⟩ := bind_ok done
        obtain ⟨outbox,rfl⟩ := proposeReconfiguration_outbox handled
        split at done
        · cases done
        · rename_i old pending
          cases done
          have rearmed : Move low cause c ((c.cancelTimer timer).track reconfigId) :=
            .rearm timer armed (by
              change List.lookup reconfigId c.pendingProposals = some old at pending
              simp [pending])
          exact .tail (Moves.one rearmed) (.steer ..)
      · rename_i normal
        split at done
        · cases done
        · rename_i old pending
          obtain ⟨answered,handled,done⟩ := bind_ok done
          have counted : Moves low cause c {c with numTimedOut := c.numTimedOut + 1} := Moves.one (.steer ..)
          have answer : Move low cause {c with numTimedOut := c.numTimedOut + 1} answered :=
            .answer id timer answered normal (by
              change List.lookup id c.pendingProposals = some old at pending
              simp [pending]) (.inr armed) handled
          exact .trans (.tail counted answer) (send_moves done)

-- The events before the client is stopped, with no proposal below `low` dropped.
def admissible (low : ℕ) : Event → Bool
  | .stop => false
  | .peerStop _ => false
  | .network _ (.pendingReconfiguration data) => (dropped data).all (low ≤ ·)
  | _ => true

theorem handle_moves (early : admissible low e) (done : c.handle e = .ok next) :
    Moves low (c,e) c next ∨ Lapse c e next := by
  cases e with
  | run => exact .inl (receiveRun_moves done)
  | stop => cases early
  | network sender msg =>
    cases msg with
    | proposal p =>
      cases done
      exact .inl .refl
    | proposalResp pr => exact .inl (proposalResp_moves done)
    | firstLeader pid => exact .inl (firstLeader_moves done)
    | pendingReconfiguration data =>
      left
      apply pendingReconfiguration_moves _ done
      intro d found
      change (dropped data).all (low ≤ ·) = true at early
      rw [found] at early
      simpa using early
  | peerStop pid => cases early
  | timeout timer => exact fire_moves done

end Handling

section Runs

-- A run of the client before it is stopped, with the events it handled and the state
-- each of them met, the latest first.
inductive Reached (low : ℕ) (cfg : Config) : List (Client × Event) → Client → Prop where
  | start : Reached low cfg [] (Client.with cfg)
  | step {past c next e} (run : Reached low cfg past c) (early : admissible low e)
      (done : c.handle e = .ok next) : Reached low cfg ((c,e) :: past) next

-- Whatever holds at the start and is kept by every move, and by a timer that fires
-- for nothing, holds throughout a run.
theorem Reached.induct {cfg : Config} {past : List (Client × Event)} (holds : Client → Prop)
    (run : Reached low cfg past c) (start : holds (Client.with cfg))
    (kept : ∀ cause c next, Move low cause c next → holds c → holds next)
    (lapsed : ∀ c timer, holds c → holds (c.cancelTimer timer)) : holds c := by
  induction run with
  | start => exact start
  | step _ early done ih =>
    obtain moves | ⟨_,timer,rfl⟩ := handle_moves early done
    · exact moves_keep holds (kept _) moves ih
    · exact lapsed _ timer ih

def execute (c : Client) : List Event → Except Panic Client
  | [] => .ok c
  | e :: events => c.handle e >>= fun c => execute c events

def record (past : List (Client × Event)) (c : Client) : List Event → List (Client × Event)
  | [] => past
  | e :: events =>
    match c.handle e with
    | .ok next => record ((c,e) :: past) next events
    | .error _ => past

theorem Reached.execute {cfg : Config} {past : List (Client × Event)} {events : List Event}
    (run : Reached low cfg past c) (early : events.all (admissible low))
    (done : execute c events = .ok next) : Reached low cfg (record past c events) next := by
  induction events generalizing past c with
  | nil =>
    cases done
    exact run
  | cons e events ih =>
    rw [List.all_cons,Bool.and_eq_true] at early
    obtain ⟨middle,first,rest⟩ := bind_ok done
    rw [record,first]
    exact ih (run.step early.1 first) early.2 rest

-- Whether a run on given events ends in a state with some property.
def ends (cfg : Config) (events : List Event) (check : Client → Bool) : Bool :=
  match execute (Client.with cfg) events with
  | .ok c => check c
  | .error _ => false

theorem ends_reached {cfg : Config} {events : List Event} {check : Client → Bool}
    (early : events.all (admissible low)) (checked : ends cfg events check) :
    ∃ c, Reached low cfg (record [] (Client.with cfg) events) c ∧ check c := by
  unfold ends at checked
  cases done : execute (Client.with cfg) events with
  | error panic => simp [done] at checked
  | ok c =>
    rw [done] at checked
    exact ⟨c,Reached.execute .start early done,checked⟩

-- Events of the runs below, and the experiment they belong to.
def leads (pid : ℕ) : Event := .network pid (.firstLeader pid)

def answers (id leader : ℕ) : Event := .network leader (.proposalResp ⟨putU64 id,leader⟩)

def drops (sender d : ℕ) : Event := .network sender (.pendingReconfiguration (putU64 d))

def reconfigures (sender : ℕ) (continued added : List ℕ) : Event :=
  .network sender (.proposalResp (reconfigResponse ⟨continued,added⟩))

def replacement : Config := ⟨[1,2,3],6,3,[1,2,3,4],some ([2,3,4],[])⟩

end Runs

end KompicsBenches.ClientMoves
