import KompicsBenches.ReconfigSystem

namespace KompicsBenches.ReconfigInvariant
open Segments ReconfigComp ReconfigSystem

section Messages
variable (cfg : Config)

structure Ranged (tag fromIdx toIdx : ℕ) : Prop where
  low : 1 ≤ tag
  high : tag ≤ cfg.count
  start : fromIdx = (tag - 1) * cfg.offset
  stop : toIdx = fromIdx + cfg.offset

structure GoodRequest (sr : SequenceRequest) : Prop where
  config : 1 ≤ sr.configId
  ranged : Ranged cfg sr.tag sr.fromIdx sr.toIdx

structure GoodTransfer (st : SequenceTransfer) : Prop where
  config : 1 ≤ st.configId
  ranged : Ranged cfg st.tag st.segment.fromIdx st.segment.toIdx
  entries : st.succeeded →
    slice cfg.finalSequence st.segment.fromIdx st.segment.toIdx = some st.segment.entries
  metadata : st.configId = 1 → st.metadata.configId = 0

structure GoodInit (r : ReconfigInit) : Prop where
  config : r.configId = 2
  nodes : r.nodes = ⟨cfg.continuedNodes,cfg.newNodes⟩
  len : r.seqMetadata.len = cfg.finalSequence.length
  segment : ∀ segment, r.segment = some segment →
    ∃ k, cfg.continuedNodes[k]? = some r.sender ∧ segment.fromIdx = k * cfg.offset ∧
      slice cfg.finalSequence segment.fromIdx (segment.fromIdx + cfg.offset) = some segment.entries

-- Requests go from a new node to a continued one, everything else to new nodes.
def GoodEffect (p : ℕ) : Effect → Prop
  | .tell q (.init r) => q ∈ cfg.newNodes ∧ GoodInit cfg r
  | .tell q (.sequenceRequest sr) => p ∈ cfg.newNodes ∧ q ∈ cfg.continuedNodes ∧ GoodRequest cfg sr
  | .tell q (.sequenceTransfer st) => q ∈ cfg.newNodes ∧ GoodTransfer cfg st
  | .localSequenceReq q sr metadata => q ∈ cfg.newNodes ∧ GoodRequest cfg sr ∧
    (sr.configId = 1 → metadata.configId = 0)
  | _ => True

end Messages

variable {cfg : Config}

theorem Ranged.within (ranged : Ranged cfg tag fromIdx toIdx) : toIdx ≤ cfg.count * cfg.offset := by
  have least : (tag - 1) * cfg.offset + cfg.offset = tag * cfg.offset := by
    obtain ⟨k,rfl⟩ := Nat.exists_eq_add_of_le' ranged.low
    simp [Nat.succ_mul]
  rw [ranged.stop,ranged.start,least]
  exact Nat.mul_le_mul_right _ ranged.high

theorem segments_le (cfg : Config) :
    cfg.count * cfg.offset ≤ cfg.finalSequence.length := Nat.mul_div_le _ _

theorem continued_not_new (continued : p ∈ cfg.continuedNodes) : p ∉ cfg.newNodes := by
  intro new
  have inside := (List.mem_filter.mp continued).2
  have outside := (List.mem_filter.mp new).2
  simp only [decide_eq_true_eq] at inside outside
  exact outside inside

theorem initial_not_new (member : p ∈ cfg.initial) : p ∉ cfg.newNodes := by
  intro new
  have outside := (List.mem_filter.mp new).2
  simp only [decide_eq_true_eq] at outside
  exact outside member

-- Nodes of the first configuration: they only ever hold the final sequence and
-- wait for no transfer.
structure OldGood (cfg : Config) (c : PaxosComp) : Prop where
  sequences : ∀ k seq, c.prevSequences k = some seq → seq = cfg.finalSequence
  pending : c.pendingSeqTransfers = []
  timers : ∀ k, c.retryTransferTimers k = none
  waiting : c.nextConfigId.getD 0 ≤ 1

theorem startReplica_eq {c : PaxosComp} (done : c.startReplica configId = some (next,effects)) :
    c.firstConfigId ≤ configId ∧
      next = {c with activeConfig := .new configId,nextConfigId := none} ∧
      effects = [.startReplica configId] := by
  unfold PaxosComp.startReplica at done
  obtain ⟨idx,found,same⟩ := Option.map_eq_some_iff.mp done
  unfold PaxosComp.replicaIdx at found
  split at found
  · rename_i bounds
    cases same
    exact ⟨bounds.1,rfl,rfl⟩
  · cases found

theorem OldGood.start {c : PaxosComp} (good : OldGood cfg c)
    (done : c.startReplica configId = some (next,effects)) :
    OldGood cfg next ∧ ∀ effect ∈ effects, GoodEffect cfg p effect := by
  obtain ⟨_,rfl,rfl⟩ := startReplica_eq done
  exact ⟨⟨good.sequences,good.pending,good.timers,Nat.zero_le _⟩,by simp [GoodEffect]⟩

theorem OldGood.run {c : PaxosComp} (good : OldGood cfg c) (done : c.receiveRun = some (next,effects)) :
    OldGood cfg next ∧ ∀ effect ∈ effects, GoodEffect cfg p effect := by
  unfold PaxosComp.receiveRun at done
  split at done
  · exact good.start done
  · cases done
    exact ⟨good,by simp⟩

theorem OldGood.leader {c : PaxosComp} (good : OldGood cfg c)
    (done : c.receiveLeader configId pid = (next,effects)) :
    OldGood cfg next ∧ ∀ effect ∈ effects, GoodEffect cfg p effect := by
  unfold PaxosComp.receiveLeader at done
  split_ifs at done
  all_goals
    cases done
    exact ⟨⟨good.sequences,good.pending,good.timers,good.waiting⟩,by simp [GoodEffect]⟩

theorem stopComponents_eq {c : PaxosComp} (done : c.stopComponents = some (next,effects)) :
    let halted := {c with stopped := true,retryTransferTimers := fun _ => none}
    (next = halted ∧ effects = [.stopReplicas c.replicas] ∧ 1 ≤ c.replicas ∧
      c.replicas ≤ c.activeConfig.id) ∨
      ∃ configId started, halted.startReplica configId = some (next,started) ∧
        effects = .stopReplicas next.replicas :: started := by
  unfold PaxosComp.stopComponents at done
  dsimp only at done
  by_cases childless : c.replicas = 0
  · rw [if_pos childless] at done
    cases done
  · rw [if_neg childless] at done
    by_cases early : c.activeConfig.id < c.replicas
    · rw [if_pos early] at done
      obtain ⟨⟨middle,started⟩,begun,same⟩ := Option.map_eq_some_iff.mp done
      cases same
      exact .inr ⟨_,started,begun,rfl⟩
    · rw [if_neg early] at done
      cases done
      exact .inl ⟨rfl,rfl,Nat.one_le_iff_ne_zero.mpr childless,not_lt.mp early⟩

theorem OldGood.stop {c : PaxosComp} (good : OldGood cfg c)
    (done : c.stopComponents = some (next,effects)) :
    OldGood cfg next ∧ ∀ effect ∈ effects, GoodEffect cfg p effect := by
  have halted : OldGood cfg {c with stopped := true,retryTransferTimers := fun _ => none} :=
    ⟨good.sequences,good.pending,fun _ => rfl,good.waiting⟩
  rcases stopComponents_eq done with ⟨rfl,rfl,_,_⟩ | ⟨configId,started,begun,rfl⟩
  · exact ⟨halted,by simp [GoodEffect]⟩
  · obtain ⟨kept,sent⟩ := halted.start begun
    exact ⟨kept,List.forall_mem_cons.mpr ⟨trivial,sent⟩⟩

theorem OldGood.request {c : PaxosComp} (good : OldGood cfg c) (request : GoodRequest cfg sr)
    (new : requestor ∈ cfg.newNodes) (done : c.handleSequenceRequest sr requestor = some effects) :
    ∀ effect ∈ effects, GoodEffect cfg p effect := by
  have earlier : sr.configId = 1 → (c.getSequenceMetadata (sr.configId - 1)).configId = 0 := by
    intro first
    simp [PaxosComp.getSequenceMetadata,first]
  unfold PaxosComp.handleSequenceRequest at done
  dsimp only at done
  split at done
  · cases done
    simp
  · cases stored : c.prevSequences sr.configId with
    | some seq =>
      rw [stored] at done
      obtain ⟨entries,cut,same⟩ := Option.map_eq_some_iff.mp done
      cases same
      cases good.sequences _ _ stored
      intro effect listed
      cases List.mem_singleton.mp listed
      exact ⟨new,request.config,request.ranged,fun _ => cut,earlier⟩
    | none =>
      simp only [stored] at done
      split_ifs at done with active
      · obtain ⟨idx,_,same⟩ := Option.map_eq_some_iff.mp done
        cases same
        intro effect listed
        cases List.mem_singleton.mp listed
        exact ⟨new,request,earlier⟩
      · cases done
        intro effect listed
        cases List.mem_singleton.mp listed
        refine ⟨new,request.config,request.ranged,?_,earlier⟩
        intro succeeded
        cases succeeded

theorem OldGood.segment {c : PaxosComp} {segment : SequenceSegment} (good : OldGood cfg c)
    (done : c.createSegment cfg.continuedNodes configId = some segment) :
    ∃ k, c.getContinuedIdx cfg.continuedNodes = some k ∧
      cfg.continuedNodes[k]? = some c.pid ∧ segment.fromIdx = k * cfg.offset ∧
      segment.toIdx = segment.fromIdx + cfg.offset ∧
      slice cfg.finalSequence segment.fromIdx (segment.fromIdx + cfg.offset) =
        some segment.entries := by
  unfold PaxosComp.createSegment at done
  obtain ⟨k,found,rest⟩ := Option.bind_eq_some_iff.mp done
  obtain ⟨seq,stored,cutting⟩ := Option.bind_eq_some_iff.mp rest
  obtain ⟨entries,cut,same⟩ := Option.map_eq_some_iff.mp cutting
  cases good.sequences _ _ stored
  cases same
  refine ⟨k,found,?_,rfl,rfl,cut⟩
  obtain ⟨inside,equal,_⟩ := List.findIdx?_eq_some_iff_getElem.mp found
  rw [List.getElem?_eq_getElem inside]
  simpa using equal

theorem OldGood.eager {c : PaxosComp} (good : OldGood cfg c) (config : 1 ≤ configId)
    (done : c.createEagerSequenceTransfer cfg.continuedNodes configId = some st) :
    GoodTransfer cfg st := by
  unfold PaxosComp.createEagerSequenceTransfer at done
  obtain ⟨k,found,rest⟩ := Option.bind_eq_some_iff.mp done
  obtain ⟨segment,created,same⟩ := Option.map_eq_some_iff.mp rest
  obtain ⟨index,again,member,start,stop,cut⟩ := good.segment created
  cases found.symm.trans again
  cases same
  have inside : k < cfg.count := (List.getElem?_eq_some_iff.mp member).1
  refine ⟨config,⟨?_,?_,?_,stop⟩,?_,?_⟩
  · exact Nat.succ_pos k
  · exact inside
  · exact start
  · intro _
    rw [← stop] at cut
    exact cut
  · intro first
    simp only at first
    simp [PaxosComp.getSequenceMetadata,first]

theorem OldGood.continue {c : PaxosComp} (good : OldGood cfg c) (config : 1 ≤ configId)
    (done : c.continueReplica cfg.finalMsg configId = some (next,effects)) :
    OldGood cfg next ∧ ∀ effect ∈ effects, GoodEffect cfg p effect := by
  unfold PaxosComp.continueReplica at done
  split at done
  · obtain ⟨transfers,eager,rest⟩ := Option.bind_eq_some_iff.mp done
    obtain ⟨prepared,set,more⟩ := Option.bind_eq_some_iff.mp rest
    obtain ⟨⟨last,started⟩,begun,same⟩ := Option.map_eq_some_iff.mp more
    cases same
    obtain ⟨kept,sent⟩ := good.start begun
    have told : ∀ effect ∈ transfers, GoodEffect cfg p effect := by
      unfold PaxosComp.eagerTransfers at eager
      split at eager
      · obtain ⟨st,created,same⟩ := Option.map_eq_some_iff.mp eager
        cases same
        intro effect listed
        obtain ⟨q,new,rfl⟩ := List.mem_map.mp listed
        exact ⟨new,good.eager config created⟩
      · cases eager
        simp
    have harmless : ∀ effect ∈ prepared, GoodEffect cfg p effect := by
      obtain ⟨idx,_,rfl⟩ := Option.map_eq_some_iff.mp set
      simp [GoodEffect]
    refine ⟨kept,?_⟩
    intro effect listed
    rcases List.mem_append.mp listed with before | last
    · rcases List.mem_append.mp before with transfer | preparing
      · exact told effect transfer
      · exact harmless effect preparing
    · exact sent effect last
  · cases done
    exact ⟨good,by simp⟩

theorem OldGood.reconfig {c : PaxosComp} (good : OldGood cfg c) (active : 1 ≤ c.activeConfig.id)
    (done : c.receiveReconfig cfg.finalMsg = some (next,effects)) :
    OldGood cfg next ∧ ∀ effect ∈ effects, GoodEffect cfg p effect := by
  unfold PaxosComp.receiveReconfig at done
  have stored : OldGood cfg {c with
      prevSequences :=
        Function.update c.prevSequences c.activeConfig.id (some cfg.finalSequence)} := by
    refine ⟨?_,good.pending,good.timers,good.waiting⟩
    intro k seq found
    by_cases now : k = c.activeConfig.id
    · subst now
      simp only [Function.update_self,Option.some.injEq] at found
      exact found.symm
    · simp only [Function.update_of_ne now] at found
      exact good.sequences k seq found
  obtain ⟨segment,created,rest⟩ := Option.bind_eq_some_iff.mp done
  obtain ⟨⟨last,effects'⟩,continued,same⟩ := Option.map_eq_some_iff.mp rest
  cases same
  obtain ⟨kept,sent⟩ := stored.continue active continued
  refine ⟨kept,?_⟩
  intro effect listed
  rcases List.mem_append.mp listed with before | last
  · rcases List.mem_cons.mp before with rfl | init
    · trivial
    · obtain ⟨q,new,rfl⟩ := List.mem_map.mp init
      refine ⟨new,rfl,rfl,rfl,?_⟩
      intro segment' carried
      unfold PaxosComp.leaderSegment at created
      split at created
      · obtain ⟨segment,cut,rfl⟩ := Option.map_eq_some_iff.mp created
        cases carried
        obtain ⟨k,_,member,start,_,entries⟩ := stored.segment cut
        exact ⟨k,member,start,entries⟩
      · cases created
        cases carried
  · exact sent effect last

end KompicsBenches.ReconfigInvariant
