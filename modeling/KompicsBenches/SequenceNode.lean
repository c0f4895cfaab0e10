import KompicsBenches.SequenceCollect

namespace KompicsBenches.SequenceNode
open Segments ReconfigComp ReconfigSystem ReconfigInvariant SequenceCollect

-- What holds of a new node in every phase.
structure Frame (cfg : Config) (c : PaxosComp) : Prop where
  first : c.firstConfigId = 2
  replicas : c.replicas = 1
  halted : c.stopped → 2 ≤ c.activeConfig.id
  peers : ∀ q ∈ c.activePeers.1 ++ c.activePeers.2, q ∈ cfg.continuedNodes
  timers : ∀ k seqLen total, c.retryTransferTimers k = some (seqLen,total) →
    1 ≤ k ∧ seqLen = cfg.finalSequence.length ∧ total = cfg.count
  tags : ∀ pair ∈ c.pendingSeqTransfers, ∀ tag ∈ pair.1, 1 ≤ tag ∧ tag ≤ cfg.count

-- A stored sequence is the final one exactly when no entry was left out.
def Verdict (cfg : Config) (inbox : List ReconfigurationMsg) (seq : List Entry) : Prop :=
  2 ≤ cfg.finalSequence.length →
    (seq = cfg.finalSequence ↔ cfg.count ∣ cfg.finalSequence.length ∧ LastReceived cfg inbox)

-- A ReconfigInit of a node that had been stopped before it decided names the
-- wrong configuration, and the buffer of configuration 1 is then never set up.
def Held (cfg : Config) (inbox : List ReconfigurationMsg) (rem : List ℕ) (buffer : List Entry) :
    Prop :=
  Collected cfg (LastReceived cfg inbox) rem buffer ∨ rem = [] ∧ buffer = []

inductive Phase (cfg : Config) (inbox : List ReconfigurationMsg) (c : PaxosComp) : Prop where
  | idle : c.nextConfigId = none → c.activeConfig.id = 0 → c.activePeers = ([],[]) →
      c.completeSequences = [] → c.prevSequences 1 = none → opening inbox = [] → Phase cfg inbox c
  | collecting (r : ReconfigInit) (rest : List ReconfigurationMsg) (rem : List ℕ)
      (buffer : List Entry) : c.nextConfigId = some 2 → c.activeConfig.id = 0 →
      c.completeSequences = [] → c.prevSequences 1 = none → opening inbox = .init r :: rest →
      c.pendingSeqTransfers[0]? = some (rem,buffer) → Held cfg inbox rem buffer → Phase cfg inbox c
  | started : c.nextConfigId = none → 2 ≤ c.activeConfig.id →
      (∀ seq, c.prevSequences 1 = some seq → Verdict cfg inbox seq) → Phase cfg inbox c

structure NewGood (cfg : Config) (inbox : List ReconfigurationMsg) (c : PaxosComp) : Prop where
  frame : Frame cfg c
  phase : Phase cfg inbox c

-- The result of a handler at node `p`.
def Kept (cfg : Config) (p : ℕ) (inbox : List ReconfigurationMsg)
    (result : PaxosComp × List Effect) : Prop :=
  NewGood cfg inbox result.1 ∧ ∀ effect ∈ result.2, GoodEffect cfg p effect

variable {cfg : Config} {c : PaxosComp} {inbox : List ReconfigurationMsg} {p : ℕ}

theorem Kept.prepend (kept : Kept cfg p inbox (next,effects))
    (good : ∀ effect ∈ earlier, GoodEffect cfg p effect) :
    Kept cfg p inbox (next,earlier ++ effects) :=
  ⟨kept.1,List.forall_mem_append.mpr ⟨good,kept.2⟩⟩

theorem Phase.verdict (phase : Phase cfg inbox c) (stored : c.prevSequences 1 = some seq) :
    Verdict cfg inbox seq := by
  cases phase with
  | idle _ _ _ _ absent _ => cases absent.symm.trans stored
  | collecting _ _ _ _ _ _ _ absent _ _ _ => cases absent.symm.trans stored
  | started _ _ verdicts => exact verdicts seq stored

theorem Phase.active (phase : Phase cfg inbox c) :
    c.activeConfig.id = 0 ∨ c.nextConfigId = none ∧ 2 ≤ c.activeConfig.id := by
  cases phase with
  | idle _ active => exact .inl active
  | collecting _ _ _ _ _ active => exact .inl active
  | started next active => exact .inr ⟨next,active⟩

theorem start_kept (frame : Frame cfg c)
    (verdicts : ∀ seq, c.prevSequences 1 = some seq → Verdict cfg inbox seq)
    (done : c.startReplica configId = some result) : Kept cfg p inbox result := by
  obtain ⟨next,effects⟩ := result
  obtain ⟨least,rfl,rfl⟩ := startReplica_eq done
  have active : 2 ≤ configId := frame.first ▸ least
  exact ⟨⟨⟨frame.first,frame.replicas,fun _ => active,frame.peers,frame.timers,frame.tags⟩,
    .started rfl active verdicts⟩,by simp [GoodEffect]⟩

theorem NewGood.run (good : NewGood cfg inbox c) (done : c.receiveRun = some result) :
    Kept cfg p inbox result := by
  unfold PaxosComp.receiveRun at done
  split at done
  · exact start_kept good.frame (fun _ => good.phase.verdict) done
  · cases done
    exact ⟨good,by simp⟩

-- Timers, the leader and the list of ready peers do not matter to a phase.
theorem Phase.transport {c' : PaxosComp} (phase : Phase cfg inbox c)
    (next : c'.nextConfigId = c.nextConfigId) (active : c'.activeConfig.id = c.activeConfig.id)
    (peers : c'.activePeers = c.activePeers) (complete : c'.completeSequences = c.completeSequences)
    (sequences : c'.prevSequences = c.prevSequences)
    (pending : c'.pendingSeqTransfers = c.pendingSeqTransfers) : Phase cfg inbox c' := by
  cases phase with
  | idle waiting zero none empty absent fresh =>
    exact .idle (next.trans waiting) (active.trans zero) (peers.trans none) (complete.trans empty)
      (sequences ▸ absent) fresh
  | collecting r rest rem buffer waiting zero empty absent shape found held =>
    exact .collecting r rest rem buffer (next.trans waiting) (active.trans zero)
      (complete.trans empty) (sequences ▸ absent) shape (pending ▸ found) held
  | started waiting two verdicts =>
    exact .started (next.trans waiting) (active ▸ two) (sequences ▸ verdicts)

theorem NewGood.leader (good : NewGood cfg inbox c) (configId pid : ℕ) :
    Kept cfg p inbox (c.receiveLeader configId pid) := by
  unfold PaxosComp.receiveLeader
  split
  · refine ⟨⟨⟨good.frame.first,good.frame.replicas,good.frame.halted,good.frame.peers,
      good.frame.timers,good.frame.tags⟩,good.phase.transport rfl rfl rfl rfl rfl rfl⟩,?_⟩
    intro effect listed
    split at listed
    · cases List.mem_singleton.mp listed
      trivial
    · cases listed
  · exact ⟨good,by simp⟩

theorem request_good (new : p ∈ cfg.newNodes) (peer : q ∈ cfg.continuedNodes) (config : 1 ≤ configId)
    (ranged : Ranged cfg tag fromIdx toIdx) :
    GoodEffect cfg p (c.requestSequence q configId fromIdx toIdx tag) :=
  ⟨new,peer,config,ranged⟩

theorem NewGood.retry (good : NewGood cfg inbox c) (new : p ∈ cfg.newNodes)
    (scheduled : c.retryTransferTimers k = some (seqLen,total))
    (done : PaxosComp.retryRequestSequence {c with
      retryTransferTimers := Function.update c.retryTransferTimers k none} k seqLen total =
        some result) : Kept cfg p inbox result := by
  have frame := good.frame
  obtain ⟨low,rfl,rfl⟩ := frame.timers k seqLen total scheduled
  unfold PaxosComp.retryRequestSequence at done
  split at done
  · cases done
    refine ⟨⟨⟨frame.first,frame.replicas,frame.halted,frame.peers,?_,frame.tags⟩,
      good.phase.transport rfl rfl rfl rfl rfl rfl⟩,by simp⟩
    intro k' seqLen total later
    by_cases same : k' = k
    · subst same
      simp at later
    · simp only [Function.update_of_ne same] at later
      exact frame.timers k' seqLen total later
  · rename_i pending rem buffer found
    split at done
    · cases done
    · cases done
      refine ⟨⟨⟨frame.first,frame.replicas,frame.halted,frame.peers,?_,frame.tags⟩,
        good.phase.transport rfl rfl rfl rfl rfl rfl⟩,?_⟩
      · intro k' seqLen total later
        by_cases same : k' = k
        · subst same
          simp only [Function.update_self,Option.some.injEq,Prod.mk.injEq] at later
          exact ⟨low,later.1.symm,later.2.symm⟩
        · simp only [Function.update_of_ne same] at later
          exact frame.timers k' seqLen total later
      · intro effect listed
        obtain ⟨tag,remains,asked⟩ := List.mem_filterMap.mp listed
        obtain ⟨q,ready,rfl⟩ := Option.map_eq_some_iff.mp asked
        obtain ⟨least,most⟩ := frame.tags _ (List.mem_of_getElem? found) tag remains
        refine request_good new ?_ low ⟨least,most,rfl,rfl⟩
        exact frame.peers q (List.mem_append_left _ (List.mem_of_getElem? ready))

theorem NewGood.stop (good : NewGood cfg inbox c) (done : c.stopComponents = some result) :
    Kept cfg p inbox result := by
  obtain ⟨next,effects⟩ := result
  have frame := good.frame
  have timers : ∀ k seqLen total, (fun _ => none : ℕ → Option (ℕ × ℕ)) k = some (seqLen,total) →
      1 ≤ k ∧ seqLen = cfg.finalSequence.length ∧ total = cfg.count := by
    intro k seqLen total scheduled
    cases scheduled
  rcases stopComponents_eq done with ⟨rfl,rfl,_,late⟩ | ⟨configId,started,begun,rfl⟩
  · rcases good.phase.active with zero | ⟨waiting,active⟩
    · rw [frame.replicas,zero] at late
      cases late
    · exact ⟨⟨⟨frame.first,frame.replicas,fun _ => active,frame.peers,timers,frame.tags⟩,
        .started waiting active fun _ => good.phase.verdict⟩,by simp [GoodEffect]⟩
  · -- Before the start the halted component need not be in a good state.
    obtain ⟨least,rfl,rfl⟩ := startReplica_eq begun
    have active : 2 ≤ configId := frame.first ▸ least
    exact ⟨⟨⟨frame.first,frame.replicas,fun _ => active,frame.peers,timers,frame.tags⟩,
      .started rfl active fun _ => good.phase.verdict⟩,by simp [GoodEffect]⟩

-- A message other than the transfer of the last tag.
theorem Held.more (held : Held cfg inbox rem buffer) (shape : opening inbox = .init r :: rest)
    (other : closes cfg msg = false) : Held cfg (inbox ++ [msg]) rem buffer := by
  have same : LastReceived cfg (inbox ++ [msg]) ↔ LastReceived cfg inbox := by
    rw [lastReceived_more shape,other]
    simp
  unfold Held
  rw [propext same]
  exact held

theorem complete_kept (frame : Frame cfg c) (next : c.nextConfigId = some 2)
    (active : c.activeConfig.id = 0) (complete : c.completeSequences = [])
    (absent : c.prevSequences 1 = none) (shape : opening inbox = .init r :: rest)
    (pending : c.pendingSeqTransfers[0]? = some (rem,buffer)) (held : Held cfg inbox rem buffer)
    (verdict : rem = [] → Verdict cfg inbox buffer)
    (done : c.completeTransfer 1 = some result) : Kept cfg p inbox result := by
  unfold PaxosComp.completeTransfer at done
  rw [Nat.sub_self,pending,Option.bind_some] at done
  dsimp only at done
  split at done
  · rename_i all
    rw [next,complete,Option.bind_some] at done
    have only : ([] ++ [1] : List ℕ).length + 1 = 2 := rfl
    rw [if_pos only] at done
    refine start_kept ?_ ?_ done
    · refine ⟨frame.first,frame.replicas,frame.halted,frame.peers,?_,?_⟩
      · intro k seqLen total scheduled
        by_cases same : k = 1
        · subst same
          simp at scheduled
        · simp only [Function.update_of_ne same] at scheduled
          exact frame.timers k seqLen total scheduled
      · intro pair listed tag remains
        rcases List.mem_or_eq_of_mem_set listed with old | rfl
        · exact frame.tags pair old tag remains
        · cases remains
    · intro seq stored
      simp only [Function.update_self,Option.some.injEq] at stored
      subst stored
      exact verdict all
  · cases done
    exact ⟨⟨frame,.collecting r rest rem buffer next active complete absent shape pending held⟩,
      by simp⟩

-- Nothing of the sequence has been set up, and nothing fits into it.
theorem stuck_verdict (ranged : Ranged cfg tag fromIdx toIdx)
    (cut : slice cfg.finalSequence fromIdx toIdx = some entries)
    (done : overwrite [] fromIdx entries = some out) : out = [] ∧ Verdict cfg inbox out := by
  have size : entries.length = cfg.offset := by
    rw [(slice_spec cut).2.2.1]
    have := ranged.stop
    omega
  have empty : entries = [] := by
    by_contra some
    have fits := overwrite_fits done some
    have := List.length_pos_iff.mpr some
    simp only [List.length_nil] at fits
    omega
  subst empty
  cases done
  refine ⟨rfl,fun least => ⟨?_,?_⟩⟩
  · intro same
    rw [← same] at least
    simp at least
  · rintro ⟨divides,_⟩
    have exact := Nat.mul_div_cancel' divides
    change cfg.count * cfg.offset = _ at exact
    rw [← size] at exact
    simp only [List.length_nil,Nat.mul_zero] at exact
    omega

theorem append_spec (frame : Frame cfg c) (pending : c.pendingSeqTransfers[0]? = some (rem,buffer))
    (config : st.configId = 1) (done : c.appendTransferredSegment st = some next) :
    ∃ out, overwrite buffer st.segment.fromIdx st.segment.entries = some out ∧ Frame cfg next ∧
      next.pendingSeqTransfers[0]? = some (rem.filter (· ≠ st.tag),out) ∧
      next = {c with pendingSeqTransfers := next.pendingSeqTransfers} := by
  unfold PaxosComp.appendTransferredSegment at done
  rw [config,Nat.sub_self,pending,Option.bind_some] at done
  obtain ⟨out,written,same⟩ := Option.map_eq_some_iff.mp done
  subst same
  refine ⟨out,written,⟨frame.first,frame.replicas,frame.halted,frame.peers,frame.timers,?_⟩,?_,rfl⟩
  · intro pair listed tag remains
    rcases List.mem_or_eq_of_mem_set listed with old | rfl
    · exact frame.tags pair old tag remains
    · exact frame.tags _ (List.mem_of_getElem? pending) tag (List.mem_filter.mp remains).1
  · rw [List.getElem?_set_self']
    simp [pending]

theorem transfer_kept (frame : Frame cfg c) (next : c.nextConfigId = some 2)
    (active : c.activeConfig.id = 0) (complete : c.completeSequences = [])
    (absent : c.prevSequences 1 = none) (shape : opening inbox = .init r :: rest)
    (pending : c.pendingSeqTransfers[0]? = some (rem,buffer)) (held : Held cfg inbox rem buffer)
    (new : p ∈ cfg.newNodes) (good : GoodTransfer cfg st) (config : st.configId = 1)
    (done : c.handleSequenceTransfer st rnd = some result) :
    Kept cfg p (inbox ++ [.sequenceTransfer st]) result := by
  have current : c.late st = false := by simp [PaxosComp.late,active,complete,next,config]
  have previous : c.pullPrevious st.metadata = some (c,[]) := by
    simp [PaxosComp.pullPrevious,good.metadata config]
  unfold PaxosComp.handleSequenceTransfer at done
  rw [current,if_neg Bool.false_ne_true,previous,Option.bind_some] at done
  dsimp only at done
  have received : LastReceived cfg (inbox ++ [.sequenceTransfer st]) ↔ _ :=
    lastReceived_more shape _
  split at done
  · rename_i succeeded
    obtain ⟨filled,appended,rest'⟩ := Option.bind_eq_some_iff.mp done
    obtain ⟨result',completed,same⟩ := Option.map_eq_some_iff.mp rest'
    have result_eq : result' = result := by
      rw [← same]
      simp
    subst result_eq
    obtain ⟨out,written,kept,stored,unchanged⟩ := append_spec frame pending config appended
    rw [unchanged] at kept completed
    have cut := good.entries succeeded
    have closing : closes cfg (.sequenceTransfer st) ↔ st.tag = cfg.count := by
      simp [closes,config,succeeded]
    rw [closing] at received
    rw [config] at completed
    rcases held with collected | ⟨rfl,rfl⟩
    · have absorbed := collected.absorb good.ranged cut written received
      refine complete_kept kept next active complete absent (opening_more shape _) stored
        (.inl absorbed) ?_ completed
      intro all _
      rw [all] at absorbed
      exact absorbed.complete
    · obtain ⟨rfl,verdict⟩ := stuck_verdict good.ranged cut written
      exact complete_kept kept next active complete absent (opening_more shape _) stored
        (.inr ⟨rfl,rfl⟩) (fun _ => verdict) completed
  · rename_i failed
    have other : closes cfg (.sequenceTransfer st) = false := by simp [closes,failed]
    have kept : NewGood cfg (inbox ++ [.sequenceTransfer st]) c :=
      ⟨frame,.collecting r (rest ++ [.sequenceTransfer st]) rem buffer next active complete absent
        (opening_more shape _) pending (held.more shape other)⟩
    split at done
    · cases done
      exact ⟨kept,by simp⟩
    · obtain ⟨q,ready,same⟩ := Option.map_eq_some_iff.mp done
      subst same
      refine ⟨kept,?_⟩
      intro effect listed
      cases List.mem_singleton.mp listed
      refine request_good new ?_ good.config good.ranged
      exact frame.peers q (List.mem_append_left _ (List.mem_of_getElem? ready))

end KompicsBenches.SequenceNode
