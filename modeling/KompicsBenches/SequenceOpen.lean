import KompicsBenches.SequenceNode

namespace KompicsBenches.SequenceOpen
open Segments ReconfigComp ReconfigSystem ReconfigInvariant SequenceCollect SequenceNode

variable {cfg : Config} {c : PaxosComp} {inbox : List ReconfigurationMsg} {p : ℕ}

def ready (cfg : Config) (sender : ℕ) : List ℕ := cfg.continuedNodes.filter (· = sender)

def unready (cfg : Config) (sender : ℕ) : List ℕ := cfg.continuedNodes.filter (· ≠ sender)

theorem continued_distinct (cfg : Config) : cfg.continuedNodes.Nodup := cfg.distinct.filter _

theorem ready_unready (cfg : Config) (sender : ℕ) :
    (ready cfg sender).length + (unready cfg sender).length = cfg.count := by
  have parts := cfg.continuedNodes.length_eq_length_filter_add (fun q => decide (q = sender))
  have same : cfg.continuedNodes.filter (fun q => !decide (q = sender)) = unready cfg sender := by
    simp [unready]
  rw [same] at parts
  exact parts.symm

theorem ready_continued (cfg : Config) (sender : ℕ) :
    ready cfg sender = if sender ∈ cfg.continuedNodes then [sender] else [] := by
  unfold ready
  rw [List.filter_eq]
  split
  · rename_i member
    rw [List.count_eq_one_of_mem (continued_distinct cfg) member]
    rfl
  · rename_i absent
    rw [List.count_eq_zero.mpr absent]
    rfl

-- The continued node at position `k` is the last one.
theorem last_position (member : cfg.continuedNodes[k]? = some q) :
    cfg.continuedNodes.getLast? = some q ↔ k + 1 = cfg.count := by
  have inside : k < cfg.count := (List.getElem?_eq_some_iff.mp member).1
  rw [List.getLast?_eq_getElem?,← member]
  constructor
  · intro same
    have := (List.getElem?_inj inside (continued_distinct cfg)).mp same.symm
    change k = cfg.count - 1 at this
    omega
  · intro last
    congr 1
    change cfg.count - 1 = k
    omega

theorem requests_good (new : p ∈ cfg.newNodes) (config : 1 ≤ configId)
    (peers : ∀ q ∈ queue, q ∈ cfg.continuedNodes) (room : first + queue.length ≤ cfg.count)
    (listed : effect ∈ c.requestSegments configId cfg.finalSequence.length cfg.offset skip first queue) :
    GoodEffect cfg p effect := by
  unfold PaxosComp.requestSegments at listed
  obtain ⟨⟨q,i⟩,enumerated,asked⟩ := List.mem_filterMap.mp listed
  have found := List.mem_zipIdx_iff_getElem?.mp enumerated
  have inside : i < queue.length := (List.getElem?_eq_some_iff.mp found).1
  dsimp only at asked
  split at asked
  · cases asked
    have ranged : Ranged cfg (first + i + 1) ((first + i) * cfg.offset)
        ((first + i) * cfg.offset + cfg.offset) := ⟨by omega,by omega,rfl,rfl⟩
    have within := ranged.within.trans (segments_le cfg)
    rw [if_neg (not_lt.mpr within)]
    exact request_good new (peers q (List.mem_of_getElem? found)) config ranged
  · cases asked

-- Both policies set up the same buffer, and only Pull asks for segments.
theorem expected_spec (done : c.expectSegments configId seqLen count = some next) :
    1 ≤ configId ∧ configId - 1 < c.pendingSeqTransfers.length ∧
      next = {c with
        pendingSeqTransfers := c.pendingSeqTransfers.set (configId - 1)
          (List.range' 1 count,List.replicate seqLen (.normal []))
        retryTransferTimers :=
          Function.update c.retryTransferTimers configId (some (seqLen,count))} := by
  unfold PaxosComp.expectSegments at done
  split at done
  · rename_i bounds
    cases done
    exact ⟨bounds.1,bounds.2,rfl⟩
  · cases done

theorem expected_frame (frame : Frame cfg c)
    (done : c.expectSegments configId cfg.finalSequence.length cfg.count = some next) :
    Frame cfg next := by
  obtain ⟨low,_,rfl⟩ := expected_spec done
  refine ⟨frame.first,frame.replicas,frame.halted,frame.peers,?_,?_⟩
  · intro k seqLen total scheduled
    by_cases same : k = configId
    · subst same
      simp only [Function.update_self,Option.some.injEq,Prod.mk.injEq] at scheduled
      exact ⟨low,scheduled.1.symm,scheduled.2.symm⟩
    · simp only [Function.update_of_ne same] at scheduled
      exact frame.timers k seqLen total scheduled
  · intro pair listed tag remains
    rcases List.mem_or_eq_of_mem_set listed with old | rfl
    · exact frame.tags pair old tag remains
    · have := List.mem_range'_1.mp remains
      omega

theorem pull_spec (frame : Frame cfg c) (new : p ∈ cfg.newNodes)
    (everyone : c.activePeers.1.length + c.activePeers.2.length = cfg.count)
    (done : c.pullSequence configId cfg.finalSequence.length skip = some (next,asked)) :
    c.expectSegments configId cfg.finalSequence.length cfg.count = some next ∧
      ∀ effect ∈ asked, GoodEffect cfg p effect := by
  unfold PaxosComp.pullSequence at done
  rw [everyone] at done
  dsimp only at done
  split at done
  · cases done
  · obtain ⟨expected,set,same⟩ := Option.map_eq_some_iff.mp done
    cases same
    refine ⟨set,?_⟩
    obtain ⟨low,_,rfl⟩ := expected_spec set
    intro effect listed
    rcases List.mem_append.mp listed with waiting | known
    · refine requests_good new low ?_ (by dsimp only; omega) waiting
      intro q peer
      exact frame.peers q (List.mem_append_right _ peer)
    · refine requests_good new low ?_ (by dsimp only; omega) known
      intro q peer
      exact frame.peers q (List.mem_append_left _ peer)

-- The segment of the leader gets the last tag.
theorem skipTag_spec (peers : c.activePeers = (ready cfg r.sender,unready cfg r.sender))
    (done : c.skipTag r = some tag) :
    (r.segment = none ∧ tag = none) ∨ (r.segment.isSome ∧ tag = some cfg.count) := by
  unfold PaxosComp.skipTag at done
  split at done
  · rename_i none
    cases done
    exact .inl ⟨none,rfl⟩
  · rename_i segment carried
    obtain ⟨index,found,same⟩ := Option.map_eq_some_iff.mp done
    refine .inr ⟨by simp [carried],?_⟩
    rw [← same,peers]
    rw [peers] at found
    have whole := ready_unready cfg r.sender
    rw [ready_continued] at found whole
    split at found
    · simp only [List.findIdx?_cons,decide_true,if_true,Option.some.injEq] at found
      rename_i member
      rw [if_pos member] at whole
      simp only [List.length_cons,List.length_nil] at whole
      congr 1
      dsimp only
      omega
    · cases found

theorem leader_kept {segment : SequenceSegment} (frame : Frame cfg c)
    (next : c.nextConfigId = some 2) (active : c.activeConfig.id = 0)
    (complete : c.completeSequences = []) (absent : c.prevSequences 1 = none)
    (shape : opening inbox = [.init r])
    (pending : c.pendingSeqTransfers[0]? = some (List.range' 1 cfg.count,
      List.replicate cfg.finalSequence.length (.normal [])))
    (good : GoodInit cfg r) (carried : r.segment = some segment)
    (done : c.handleSequenceTransfer ⟨1,cfg.count,true,⟨1,cfg.finalSequence.length⟩,segment⟩ rnd =
      some result) : Kept cfg p inbox result := by
  obtain ⟨k,member,start,cut⟩ := good.segment segment carried
  have inside : k < cfg.count := (List.getElem?_eq_some_iff.mp member).1
  have received : LastReceived cfg inbox ↔ k + 1 = cfg.count := by
    rw [lastReceived_shape shape,carried,last_position member]
    simp
  have current : c.late ⟨1,cfg.count,true,⟨1,cfg.finalSequence.length⟩,segment⟩ = false := by
    simp [PaxosComp.late,active,complete,next]
  have previous : c.pullPrevious ⟨1,cfg.finalSequence.length⟩ = some (c,[]) := by
    -- The tags are still all there, so the sequence is not asked for again.
    obtain ⟨m,least⟩ : ∃ m, cfg.count = m + 1 := ⟨cfg.count - 1,by omega⟩
    unfold PaxosComp.pullPrevious
    simp only [Nat.sub_self,pending,least,List.range'_succ]
    split <;> rfl
  unfold PaxosComp.handleSequenceTransfer at done
  rw [current,if_neg Bool.false_ne_true,previous,Option.bind_some] at done
  dsimp only at done
  rw [if_pos rfl] at done
  obtain ⟨filled,appended,rest⟩ := Option.bind_eq_some_iff.mp done
  obtain ⟨result',completed,same⟩ := Option.map_eq_some_iff.mp rest
  have result_eq : result' = result := by
    rw [← same]
    simp
  subst result_eq
  obtain ⟨out,written,kept,stored,unchanged⟩ := append_spec frame pending rfl appended
  rw [unchanged] at kept completed
  dsimp only at written stored
  rw [start] at cut written
  have collected := expected_leader inside cut written received
  refine complete_kept kept next active complete absent shape stored (.inl collected) ?_ completed
  intro all _
  rw [all] at collected
  exact collected.complete

-- The set up of the buffer, with the requests that Pull sends.
theorem asked_spec (frame : Frame cfg c) (new : p ∈ cfg.newNodes)
    (everyone : c.activePeers.1.length + c.activePeers.2.length = cfg.count)
    (done : (match c.policy with
      | .pull => c.pullSequence configId cfg.finalSequence.length skip
      | .eager => (c.expectSegments configId cfg.finalSequence.length
        cfg.continuedNodes.length).map (·,[])) = some (next,asked)) :
    c.expectSegments configId cfg.finalSequence.length cfg.count = some next ∧
      ∀ effect ∈ asked, GoodEffect cfg p effect := by
  split at done
  · exact pull_spec frame new everyone done
  · obtain ⟨expected,set,same⟩ := Option.map_eq_some_iff.mp done
    cases same
    exact ⟨set,by simp⟩

theorem open_kept (frame : Frame cfg c) (active : c.activeConfig.id = 0)
    (peers : c.activePeers = ([],[])) (complete : c.completeSequences = [])
    (absent : c.prevSequences 1 = none) (fresh : opening inbox = []) (new : p ∈ cfg.newNodes)
    (good : GoodInit cfg r) (done : c.openTransfer r rnd = some result) :
    Kept cfg p (inbox ++ [.init r]) result := by
  have shape := opening_first fresh r
  obtain ⟨configId,nodes,⟨k,len⟩,sender,segment,skip⟩ := r
  obtain ⟨rfl,rfl,rfl,_⟩ := id good
  unfold PaxosComp.openTransfer at done
  obtain ⟨prepared,set,rest⟩ := Option.bind_eq_some_iff.mp done
  have harmless : ∀ effect ∈ prepared, GoodEffect cfg p effect := by
    obtain ⟨idx,_,rfl⟩ := Option.map_eq_some_iff.mp set
    simp [GoodEffect]
  dsimp only at rest
  rw [peers] at rest
  simp only [List.nil_append] at rest
  have members : ∀ q ∈ ready cfg sender ++ unready cfg sender, q ∈ cfg.continuedNodes := by
    intro q listed
    rcases List.mem_append.mp listed with known | waiting
    · exact List.mem_of_mem_filter known
    · exact List.mem_of_mem_filter waiting
  split at rest
  · rename_i single
    obtain ⟨⟨next,started⟩,begun,same⟩ := Option.map_eq_some_iff.mp rest
    subst same
    refine (start_kept ?_ ?_ begun).prepend harmless
    · exact ⟨frame.first,frame.replicas,frame.halted,members,frame.timers,frame.tags⟩
    · intro seq _ least
      omega
  · obtain ⟨tag,skipped,rest⟩ := Option.bind_eq_some_iff.mp rest
    obtain ⟨⟨next,asked⟩,asking,rest⟩ := Option.bind_eq_some_iff.mp rest
    have framed : Frame cfg {c with
        nextConfigId := some 2
        activePeers := (ready cfg sender,unready cfg sender)
        pendingSeqTransfers := List.replicate 2 ([],[])} := by
      refine ⟨frame.first,frame.replicas,frame.halted,members,frame.timers,?_⟩
      intro pair listed tag remains
      rw [List.eq_of_mem_replicate listed] at remains
      cases remains
    obtain ⟨expected,told⟩ := asked_spec framed new (ready_unready cfg sender) asking
    have kept := expected_frame framed expected
    obtain ⟨low,high,rfl⟩ := expected_spec expected
    have skipping := skipTag_spec rfl skipped
    dsimp only at skipping high
    rw [List.length_replicate] at high
    have which : k = 1 ∨ k = 2 := by omega
    rcases which with rfl | rfl
    · rcases skipping with ⟨rfl,rfl⟩ | ⟨carried,rfl⟩
      · cases rest
        refine ⟨⟨kept,?_⟩,List.forall_mem_append.mpr ⟨harmless,told⟩⟩
        exact .collecting _ [] _ _ rfl active complete absent shape rfl
          (.inl (expected_collected cfg _))
      · obtain ⟨segment,rfl⟩ := Option.isSome_iff_exists.mp carried
        obtain ⟨⟨last,effects⟩,handled,same⟩ := Option.map_eq_some_iff.mp rest
        subst same
        refine (leader_kept kept rfl active complete absent shape rfl good rfl handled).prepend ?_
        exact List.forall_mem_append.mpr ⟨harmless,told⟩
    · -- The segments are expected for configuration 2, and those of 1 never fit.
      rcases skipping with ⟨rfl,rfl⟩ | ⟨carried,rfl⟩
      · cases rest
        refine ⟨⟨kept,?_⟩,List.forall_mem_append.mpr ⟨harmless,told⟩⟩
        exact .collecting _ [] [] [] rfl active complete absent shape rfl (.inr ⟨rfl,rfl⟩)
      · obtain ⟨segment,rfl⟩ := Option.isSome_iff_exists.mp carried
        obtain ⟨⟨last,effects⟩,handled,same⟩ := Option.map_eq_some_iff.mp rest
        subst same
        unfold PaxosComp.handleSequenceTransfer at handled
        rw [if_pos (by simp [PaxosComp.late])] at handled
        cases handled
        refine ⟨⟨kept,?_⟩,?_⟩
        · exact .collecting _ [] [] [] rfl active complete absent shape rfl (.inr ⟨rfl,rfl⟩)
        · rw [List.append_nil]
          exact List.forall_mem_append.mpr ⟨harmless,told⟩

-- The messages that a new node gets.
theorem init_kept (good : NewGood cfg inbox c) (new : p ∈ cfg.newNodes) (init : GoodInit cfg r)
    (early : c.activeConfig.id < 2) (done : c.receiveInit r rnd = some result) :
    Kept cfg p (inbox ++ [.init r]) result := by
  have frame := good.frame
  unfold PaxosComp.receiveInit at done
  split at done
  · rename_i stopped
    have := frame.halted stopped
    omega
  · rw [init.config,if_neg (by omega)] at done
    cases good.phase with
    | idle waiting active peers complete absent fresh =>
      rw [waiting] at done
      exact open_kept frame active peers complete absent fresh new init done
    | collecting first rest rem buffer waiting active complete absent shape pending held =>
      rw [waiting] at done
      have phase (c' : PaxosComp) (next : c'.nextConfigId = some 2)
          (same : c'.activeConfig = c.activeConfig)
          (done : c'.completeSequences = c.completeSequences)
          (sequences : c'.prevSequences = c.prevSequences)
          (transfers : c'.pendingSeqTransfers = c.pendingSeqTransfers) :
          Phase cfg (inbox ++ [.init r]) c' := by
        refine .collecting first _ rem buffer next (same ▸ active)
          (done.trans complete) (sequences ▸ absent) (opening_more shape _) (transfers ▸ pending) ?_
        exact held.more shape rfl
      dsimp only at done
      split at done
      · rename_i known
        cases done
        refine ⟨⟨⟨frame.first,frame.replicas,frame.halted,?_,frame.timers,frame.tags⟩,
          phase _ rfl rfl rfl rfl rfl⟩,by simp⟩
        intro q listed
        rw [init.nodes] at known
        simp only [List.append_assoc,List.mem_append,List.mem_singleton,List.mem_filter] at listed
        rcases listed with before | rfl | waiting
        · exact frame.peers q (List.mem_append_left _ before)
        · exact known.2
        · exact frame.peers q (List.mem_append_right _ waiting.1)
      · cases done
        exact ⟨⟨frame,phase c waiting rfl rfl rfl rfl⟩,by simp⟩
    | started waiting active verdicts => omega

theorem network_kept (good : NewGood cfg inbox c) (new : p ∈ cfg.newNodes)
    (packet : GoodEffect cfg src (.tell p msg)) (early : c.activeConfig.id < 2)
    (done : c.receiveNetwork msg src rnd = some result) : Kept cfg p (inbox ++ [msg]) result := by
  have frame := good.frame
  cases msg with
  | init r => exact init_kept good new packet.2 early done
  | sequenceRequest sr => exact (continued_not_new packet.2.1 new).elim
  | sequenceTransfer st =>
    have running : c.stopped = false := by
      by_contra stopped
      have := frame.halted (by simpa using stopped)
      omega
    unfold PaxosComp.receiveNetwork at done
    simp only [running,Bool.false_eq_true,if_false] at done
    cases good.phase with
    | idle waiting active peers complete absent fresh =>
      unfold PaxosComp.handleSequenceTransfer at done
      rw [if_pos (by simp [PaxosComp.late,waiting])] at done
      cases done
      exact ⟨⟨frame,.idle waiting active peers complete absent (opening_other fresh rfl)⟩,by simp⟩
    | collecting first rest rem buffer waiting active complete absent shape pending held =>
      by_cases config : st.configId = 1
      · exact transfer_kept frame waiting active complete absent shape pending held new packet.2
          config done
      · have later : 2 ≤ st.configId := by
          have := packet.2.config
          omega
        unfold PaxosComp.handleSequenceTransfer at done
        rw [if_pos (by simp [PaxosComp.late,waiting,later])] at done
        cases done
        refine ⟨⟨frame,.collecting first _ rem buffer waiting active complete absent
          (opening_more shape _) pending (held.more shape ?_)⟩,by simp⟩
        simp [closes,config]
    | started waiting active verdicts => omega

-- After the start every message is ignored.
theorem network_ignored (good : NewGood cfg inbox c) (new : p ∈ cfg.newNodes)
    (packet : GoodEffect cfg src (.tell p msg)) (late : 2 ≤ c.activeConfig.id)
    (done : c.receiveNetwork msg src rnd = some result) :
    result.1 = c ∧ ∀ effect ∈ result.2, GoodEffect cfg p effect := by
  have waiting : c.nextConfigId = none := by
    rcases good.phase.active with zero | ⟨waiting,_⟩
    · omega
    · exact waiting
  cases msg with
  | init r =>
    unfold PaxosComp.receiveNetwork PaxosComp.receiveInit at done
    dsimp only at done
    rw [packet.2.config,if_pos late] at done
    split at done
    all_goals
      cases done
      exact ⟨rfl,by simp [GoodEffect]⟩
  | sequenceRequest sr => exact (continued_not_new packet.2.1 new).elim
  | sequenceTransfer st =>
    unfold PaxosComp.receiveNetwork PaxosComp.handleSequenceTransfer at done
    dsimp only at done
    rw [if_pos (by simp [PaxosComp.late,waiting] : c.late st = true)] at done
    split at done
    all_goals
      cases done
      exact ⟨rfl,by simp⟩

end KompicsBenches.SequenceOpen
