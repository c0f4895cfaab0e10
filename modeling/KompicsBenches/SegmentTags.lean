import KompicsBenches.SequenceRuns
import KompicsBenches.SegmentRanges
import KompicsBenches.GuardedRuns

namespace KompicsBenches.SegmentTags
open Segments ReconfigComp ReconfigSystem ReconfigInvariant SequenceNode SequenceOpen SequenceRuns SegmentRanges

-- The range that a receiver assigns to a tag.
def tagRange (cfg : Config) (tag : ℕ) : ℕ × ℕ := pullRange cfg.finalSequence.length cfg.count tag

def Filled (cfg : Config) (buffer : List Entry) (tag : ℕ) : Prop :=
  Agree buffer cfg.finalSequence (tagRange cfg tag).1 (tagRange cfg tag).2

-- Nothing was ever written into the range.
def Blank (cfg : Config) (buffer : List Entry) (tag : ℕ) : Prop :=
  ∀ i, (tagRange cfg tag).1 ≤ i → i < (tagRange cfg tag).2 → buffer[i]? = some (.normal [])

def Tracked (cfg : Config) (rem : List ℕ) (buffer : List Entry) : Prop :=
  ∀ tag, 1 ≤ tag → tag ≤ cfg.count →
    tag ∉ rem ∧ Filled cfg buffer tag ∨ tag ∈ rem ∧ Blank cfg buffer tag

variable {cfg : Config} {c next : PaxosComp} {rem : List ℕ} {buffer out : List Entry}

theorem ranged_tagRange (ranged : Ranged cfg tag fromIdx toIdx) : tagRange cfg tag = (fromIdx,toIdx) := by
  unfold tagRange
  rw [pullRange_exact ranged.low ranged.high,ranged.stop,ranged.start]
  rfl

theorem tagRange_ranged (low : 1 ≤ tag) (high : tag ≤ cfg.count) :
    Ranged cfg tag (tagRange cfg tag).1 (tagRange cfg tag).2 := by
  unfold tagRange
  rw [pullRange_exact low high]
  exact ⟨low,high,rfl,rfl⟩

theorem ranged_apart (one : Ranged cfg tag fromIdx toIdx) (two : Ranged cfg tag' fromIdx' toIdx')
    (other : tag ≠ tag') : toIdx ≤ fromIdx' ∨ toIdx' ≤ fromIdx := by
  have below : ∀ {left right : ℕ}, 1 ≤ left → left < right →
      (left - 1) * cfg.offset + cfg.offset ≤ (right - 1) * cfg.offset := by
    intro left right low less
    rw [← Nat.succ_mul]
    exact Nat.mul_le_mul_right _ (by omega)
  rw [one.stop,one.start,two.stop,two.start]
  rcases Nat.lt_or_gt_of_ne other with less | more
  · exact .inl (below one.low less)
  · exact .inr (below two.low more)

theorem expected_tracked (cfg : Config) : Tracked cfg (List.range' 1 cfg.count)
    (List.replicate cfg.finalSequence.length (.normal [])) := by
  intro tag low high
  refine .inr ⟨List.mem_range'_1.mpr (by omega),?_⟩
  intro i _ inside
  have within := (tagRange_ranged low high).within.trans (segments_le cfg)
  rw [List.getElem?_replicate,if_pos (by omega)]

-- A segment written in its place, under its tag.
theorem Tracked.absorb (tracked : Tracked cfg rem buffer) (ranged : Ranged cfg tag fromIdx toIdx)
    (cut : slice cfg.finalSequence fromIdx toIdx = some entries)
    (done : overwrite buffer fromIdx entries = some out) :
    Tracked cfg (rem.filter (· ≠ tag)) out := by
  have size : entries.length = toIdx - fromIdx := (slice_spec cut).2.2.1
  have order := ranged.stop
  intro t low high
  by_cases same : t = tag
  · subst same
    refine .inl ⟨by simp,?_⟩
    unfold Filled
    rw [ranged_tagRange ranged]
    exact Agree.written cut done
  · rcases tracked t low high with ⟨gone,filled⟩ | ⟨left,blank⟩
    · refine .inl ⟨?_,filled.kept cut done⟩
      intro listed
      exact gone (List.mem_filter.mp listed).1
    · refine .inr ⟨List.mem_filter.mpr ⟨left,by simpa using same⟩,?_⟩
      intro i above below
      have apart := ranged_apart (tagRange_ranged low high) ranged same
      rw [overwrite_outside done (by omega)]
      exact blank i above below

-- What the first transfer of a new node holds: nothing yet, or what its tags say.
def TagsTrack (cfg : Config) (c : PaxosComp) : Prop :=
  ∀ rem buffer, c.pendingSeqTransfers[0]? = some (rem,buffer) →
    rem = [] ∧ buffer = [] ∨ Tracked cfg rem buffer

theorem TagsTrack.transport (track : TagsTrack cfg c)
    (pending : next.pendingSeqTransfers = c.pendingSeqTransfers) : TagsTrack cfg next := by
  unfold TagsTrack
  rw [pending]
  exact track

theorem start_track (track : TagsTrack cfg c) (done : c.startReplica configId = some (next,effects)) :
    TagsTrack cfg next := by
  obtain ⟨_,rfl,_⟩ := startReplica_eq done
  exact track.transport rfl

-- The entries of a transfer are those of the range of its tag.
def Placed (cfg : Config) (st : SequenceTransfer) : Prop :=
  ∃ toIdx, Ranged cfg st.tag st.segment.fromIdx toIdx ∧
    slice cfg.finalSequence st.segment.fromIdx toIdx = some st.segment.entries

theorem append_track (track : TagsTrack cfg c) (config : st.configId = 1) (placed : Placed cfg st)
    (done : c.appendTransferredSegment st = some next) : TagsTrack cfg next := by
  obtain ⟨toIdx,ranged,cut⟩ := placed
  unfold PaxosComp.appendTransferredSegment at done
  rw [config,Nat.sub_self] at done
  obtain ⟨⟨rem,buffer⟩,pending,appended⟩ := Option.bind_eq_some_iff.mp done
  obtain ⟨out,written,rfl⟩ := Option.map_eq_some_iff.mp appended
  intro rem' buffer' found
  rw [List.getElem?_set_self',pending] at found
  cases found
  rcases track rem buffer pending with ⟨rfl,rfl⟩ | tracked
  · left
    refine ⟨rfl,?_⟩
    have size := overwrite_length written
    exact List.eq_nil_of_length_eq_zero size
  · exact .inr (tracked.absorb ranged cut written)

theorem complete_track (track : TagsTrack cfg c) (done : c.completeTransfer 1 = some (next,effects)) :
    TagsTrack cfg next := by
  unfold PaxosComp.completeTransfer at done
  rw [Nat.sub_self] at done
  obtain ⟨⟨rem,buffer⟩,pending,rest⟩ := Option.bind_eq_some_iff.mp done
  dsimp only at rest
  have emptied : ∀ c' : PaxosComp,
      c'.pendingSeqTransfers = c.pendingSeqTransfers.set 0 ([],[]) → TagsTrack cfg c' := by
    intro c' same rem' buffer' found
    rw [same,List.getElem?_set_self',pending] at found
    cases found
    exact .inl ⟨rfl,rfl⟩
  split_ifs at rest with all
  · obtain ⟨next',_,chosen⟩ := Option.bind_eq_some_iff.mp rest
    split_ifs at chosen with last
    · exact start_track (emptied _ rfl) chosen
    · cases chosen
      exact emptied _ rfl
  · cases rest
    exact track

theorem transfer_track (track : TagsTrack cfg c) (config : st.configId = 1)
    (previous : c.pullPrevious st.metadata = some (c,pulled)) (placed : st.succeeded → Placed cfg st)
    (done : c.handleSequenceTransfer st rnd = some (next,effects)) : TagsTrack cfg next := by
  unfold PaxosComp.handleSequenceTransfer at done
  rw [previous,Option.bind_some] at done
  dsimp only at done
  split_ifs at done with late succeeded nobody
  · cases done
    exact track
  · obtain ⟨filled,appended,rest⟩ := Option.bind_eq_some_iff.mp done
    obtain ⟨⟨last,started⟩,completed,same⟩ := Option.map_eq_some_iff.mp rest
    cases same
    rw [config] at completed
    exact complete_track (append_track track config (placed succeeded) appended) completed
  · cases done
    exact track
  · obtain ⟨q,_,same⟩ := Option.map_eq_some_iff.mp done
    cases same
    exact track

-- The leader's segment fits the last tag if the leader is the last continued node.
theorem last_placed {segment : SequenceSegment} (good : GoodInit cfg r) (carried : r.segment = some segment)
    (last : cfg.continuedNodes.getLast? = some r.sender) :
    Placed cfg ⟨1,cfg.count,true,metadata,segment⟩ := by
  obtain ⟨k,member,start,cut⟩ := good.segment segment carried
  have inside : k < cfg.count := (List.getElem?_eq_some_iff.mp member).1
  have top := (last_position member).mp last
  refine ⟨segment.fromIdx + cfg.offset,⟨Nat.zero_lt_of_lt inside,le_rfl,?_,rfl⟩,cut⟩
  rw [← top,Nat.add_sub_cancel]
  exact start

-- A condition on what a first ReconfigInit brings along.
def TailSegment (cfg : Config) (r : ReconfigInit) : Prop :=
  r.segment = none ∨ cfg.continuedNodes.getLast? = some r.sender

theorem waiting_previous (pending : c.pendingSeqTransfers[m.configId - 1]? = some (rem,buffer))
    (left : rem ≠ []) : c.pullPrevious m = some (c,[]) := by
  obtain ⟨tag,rest,rfl⟩ := List.exists_cons_of_ne_nil left
  unfold PaxosComp.pullPrevious
  rw [pending]
  split <;> rfl

theorem asked_expects {policy : ReconfigurationPolicy} (everyone : c.activePeers.1.length + c.activePeers.2.length = count)
    (done : (match policy with
      | .pull => c.pullSequence configId seqLen skip
      | .eager => (c.expectSegments configId seqLen count).map (·,[])) = some (next,asked)) :
    c.expectSegments configId seqLen count = some next := by
  split at done
  · unfold PaxosComp.pullSequence at done
    rw [everyone] at done
    dsimp only at done
    split_ifs at done
    obtain ⟨expected,set,same⟩ := Option.map_eq_some_iff.mp done
    cases same
    exact set
  · obtain ⟨expected,set,same⟩ := Option.map_eq_some_iff.mp done
    cases same
    exact set

theorem expected_track (blank : ∀ pair ∈ c.pendingSeqTransfers, pair = ([],[]))
    (done : c.expectSegments configId cfg.finalSequence.length cfg.count = some next) :
    TagsTrack cfg next ∧ next.nextConfigId = c.nextConfigId ∧
      (configId = 1 → next.pendingSeqTransfers[0]? = some (List.range' 1 cfg.count,
        List.replicate cfg.finalSequence.length (.normal []))) := by
  obtain ⟨low,high,rfl⟩ := expected_spec done
  refine ⟨?_,rfl,?_⟩
  · intro rem buffer found
    rcases List.mem_or_eq_of_mem_set (List.mem_of_getElem? found) with old | new
    · exact .inl (Prod.mk.inj (blank _ old))
    · cases new
      exact .inr (expected_tracked cfg)
  · rintro rfl
    dsimp only
    rw [Nat.sub_self] at high ⊢
    rw [List.getElem?_set_self high]

theorem open_track (peers : c.activePeers = ([],[])) (good : GoodInit cfg r) (tail : TailSegment cfg r)
    (done : c.openTransfer r rnd = some (next,effects)) (track : TagsTrack cfg c) : TagsTrack cfg next := by
  obtain ⟨configId,nodes,⟨k,len⟩,sender,segment,skip⟩ := r
  obtain ⟨rfl,rfl,rfl,_⟩ := id good
  unfold PaxosComp.openTransfer at done
  obtain ⟨prepared,set,rest⟩ := Option.bind_eq_some_iff.mp done
  dsimp only at rest
  rw [peers] at rest
  simp only [List.nil_append] at rest
  split at rest
  · obtain ⟨⟨started,effects'⟩,begun,same⟩ := Option.map_eq_some_iff.mp rest
    cases same
    refine start_track ?_ begun
    exact track.transport rfl
  · obtain ⟨tag,skipped,rest⟩ := Option.bind_eq_some_iff.mp rest
    obtain ⟨⟨opened,asked⟩,asking,rest⟩ := Option.bind_eq_some_iff.mp rest
    have expected := asked_expects (ready_unready cfg sender) asking
    obtain ⟨fresh,waiting,first⟩ := expected_track (by simp) expected
    rcases skipTag_spec rfl skipped with ⟨absent,rfl⟩ | ⟨carried,rfl⟩
    · dsimp only at absent
      subst absent
      cases rest
      exact fresh
    · obtain ⟨segment,rfl⟩ := Option.isSome_iff_exists.mp carried
      obtain ⟨⟨last,effects'⟩,handled,same⟩ := Option.map_eq_some_iff.mp rest
      cases same
      by_cases config : k = 1
      · subst config
        have placed : Placed cfg ⟨1,cfg.count,true,⟨1,cfg.finalSequence.length⟩,segment⟩ :=
          last_placed good rfl (tail.resolve_left (by simp))
        have left : List.range' 1 cfg.count ≠ [] := by
          obtain ⟨_,ranged,_⟩ := placed
          have low : 1 ≤ cfg.count := ranged.low
          simp only [ne_eq,List.range'_eq_nil_iff]
          omega
        have previous : opened.pullPrevious ⟨1,cfg.finalSequence.length⟩ = some (opened,[]) :=
          waiting_previous (first rfl) left
        exact transfer_track fresh rfl previous (fun _ => placed) handled
      · -- The segments are expected for configuration 2, and those of 1 never fit.
        have low := (expected_spec expected).1
        unfold PaxosComp.handleSequenceTransfer at handled
        rw [if_pos (by simp [PaxosComp.late,waiting]; omega)] at handled
        cases handled
        exact fresh

theorem init_track (good : NewGood cfg inbox c) (init : GoodInit cfg r) (early : c.activeConfig.id < 2)
    (tail : c.nextConfigId = none → TailSegment cfg r) (track : TagsTrack cfg c)
    (done : c.receiveInit r rnd = some (next,effects)) : TagsTrack cfg next := by
  unfold PaxosComp.receiveInit at done
  split_ifs at done with stopped late
  · cases done
    exact track
  · cases done
    exact track
  · cases good.phase with
    | idle waiting active peers complete absent fresh =>
      rw [waiting] at done
      exact open_track peers init (tail waiting) done track
    | collecting first rest rem buffer waiting active complete absent shape pending held =>
      rw [waiting] at done
      dsimp only at done
      split_ifs at done
      · cases done
        exact track.transport rfl
      · cases done
        exact track
    | started waiting active verdicts => omega

theorem network_track (good : NewGood cfg inbox c) (new : p ∈ cfg.newNodes)
    (packet : GoodEffect cfg src (.tell p msg))
    (tail : ∀ r, msg = .init r → c.activeConfig.id < 2 → c.nextConfigId = none → TailSegment cfg r)
    (track : TagsTrack cfg c) (done : c.receiveNetwork msg src rnd = some (next,effects)) :
    TagsTrack cfg next := by
  by_cases early : c.activeConfig.id < 2
  · cases msg with
    | init r => exact init_track good packet.2 early (tail r rfl early) track done
    | sequenceRequest sr => exact (continued_not_new packet.2.1 new).elim
    | sequenceTransfer st =>
      unfold PaxosComp.receiveNetwork at done
      dsimp only at done
      split_ifs at done with stopped
      · cases done
        exact track
      · by_cases config : st.configId = 1
        · have previous : c.pullPrevious st.metadata = some (c,[]) := by
            simp [PaxosComp.pullPrevious,packet.2.metadata config]
          refine transfer_track track config previous ?_ done
          intro succeeded
          exact ⟨_,packet.2.ranged,packet.2.entries succeeded⟩
        · have low := packet.2.config
          have late : c.late st = true := by
            cases good.phase with
            | idle waiting => simp [PaxosComp.late,waiting]
            | collecting _ _ _ _ waiting =>
              have beyond : 2 ≤ st.configId := by omega
              simp [PaxosComp.late,waiting,beyond]
            | started waiting active verdicts => omega
          unfold PaxosComp.handleSequenceTransfer at done
          rw [if_pos late] at done
          cases done
          exact track
  · obtain ⟨same,_⟩ := network_ignored good new packet (not_lt.mp early) done
    dsimp only at same
    rw [same]
    exact track

theorem run_track (track : TagsTrack cfg c) (done : c.receiveRun = some (next,effects)) :
    TagsTrack cfg next := by
  unfold PaxosComp.receiveRun at done
  split at done
  · exact start_track track done
  · cases done
    exact track

theorem retry_track (track : TagsTrack cfg c) (done : PaxosComp.retryRequestSequence {c with
    retryTransferTimers := timers} configId seqLen total = some (next,effects)) : TagsTrack cfg next := by
  unfold PaxosComp.retryRequestSequence at done
  split at done
  · cases done
    exact track.transport rfl
  · split_ifs at done
    cases done
    exact track.transport rfl

theorem stop_track (track : TagsTrack cfg c) (done : c.stopComponents = some (next,effects)) :
    TagsTrack cfg next := by
  rcases stopComponents_eq done with ⟨rfl,_,_,_⟩ | ⟨configId,started,begun,_⟩
  · exact track.transport rfl
  · refine start_track ?_ begun
    exact track.transport rfl

theorem leader_track (track : TagsTrack cfg c) (configId pid : ℕ) :
    TagsTrack cfg (c.receiveLeader configId pid).1 := by
  unfold PaxosComp.receiveLeader
  split
  · exact track.transport rfl
  · exact track

-- A first ReconfigInit that brings a segment comes from the last continued node.
def TailSends (cfg : Config) (s : System) : Action → Prop
  | .deliver ⟨_,p,.init r⟩ _ =>
    (s.comps p).activeConfig.id < 2 → (s.comps p).nextConfigId = none → TailSegment cfg r
  | _ => True

def Tracking (cfg : Config) (s : System) : Prop := ∀ p ∈ cfg.newNodes, TagsTrack cfg (s.comps p)

theorem commit_tracking {s middle : System} (tracking : Tracking cfg s) (comps : middle.comps = s.comps)
    (one : p ∈ cfg.newNodes → TagsTrack cfg result.1) : Tracking cfg (middle.commit p result) := by
  intro q new
  by_cases same : q = p
  · subst same
    simp only [System.commit,Function.update_self]
    exact one new
  · simp only [System.commit,Function.update_of_ne same,comps]
    exact tracking q new

theorem step_tracking {s next : System} (path : Reached cfg s) (tracking : Tracking cfg s)
    (allowed : TailSends cfg s action) (moved : step cfg s action = some next) : Tracking cfg next := by
  cases action with
  | run p =>
    obtain ⟨⟨c,effects⟩,done,rfl⟩ := Option.map_eq_some_iff.mp moved
    exact commit_tracking tracking rfl fun new => run_track (tracking p new) done
  | leader p configId pid =>
    cases moved
    exact commit_tracking tracking rfl fun new => leader_track (tracking p new) configId pid
  | reconfig p =>
    dsimp only [step] at moved
    split_ifs at moved with able
    obtain ⟨result,done,rfl⟩ := Option.map_eq_some_iff.mp moved
    have kept : Tracking cfg (s.commit p result) :=
      commit_tracking tracking rfl fun new => (initial_not_new able.1 new).elim
    exact kept
  | deliver x rnd =>
    dsimp only [step] at moved
    split_ifs at moved with present
    obtain ⟨⟨c,effects⟩,done,rfl⟩ := Option.map_eq_some_iff.mp moved
    have sound := reached_sound path
    refine commit_tracking tracking (record_fields {s with net := s.net.erase x} x).1 fun new => ?_
    obtain ⟨src,dst,msg⟩ := x
    refine network_track (sound.new dst new) new (sound.net _ present) ?_ (tracking dst new) done
    rintro r rfl
    exact allowed
  | answer x succeeded =>
    dsimp only [step] at moved
    split_ifs at moved with present
    obtain ⟨entries,_,rfl⟩ := Option.map_eq_some_iff.mp moved
    exact commit_tracking tracking rfl fun new => tracking x.pid new
  | retry p configId =>
    obtain ⟨⟨seqLen,total⟩,_,fired⟩ := Option.bind_eq_some_iff.mp moved
    obtain ⟨⟨c,effects⟩,done,rfl⟩ := Option.map_eq_some_iff.mp fired
    exact commit_tracking tracking rfl fun new => retry_track (tracking p new) done
  | stop p =>
    obtain ⟨⟨c,effects⟩,done,rfl⟩ := Option.map_eq_some_iff.mp moved
    exact commit_tracking tracking rfl fun new => stop_track (tracking p new) done

theorem guarded_tracking (path : GuardedRuns.Reached (step cfg) (TailSends cfg) (.initial cfg) s) :
    Reached cfg s ∧ Tracking cfg s := by
  refine path.invariant (fun s => Reached cfg s ∧ Tracking cfg s) ⟨.initial,?_⟩ ?_
  · intro p _ rem buffer found
    cases found
  · intro s action next before allowed moved
    exact ⟨before.1.step moved,step_tracking before.1 before.2 allowed moved⟩

-- The tag of the leader's segment is the last one, whatever the place of the leader.
theorem leader_range_iff {leader receiver : PaxosComp} {segment : SequenceSegment}
    (divides : cfg.count ∣ cfg.finalSequence.length)
    (stored : leader.prevSequences 1 = some cfg.finalSequence)
    (cut : leader.createSegment cfg.continuedNodes 1 = some segment) (own : leader.pid = r.sender)
    (carried : r.segment = some segment)
    (peers : receiver.activePeers = (ready cfg r.sender,unready cfg r.sender))
    (accounted : receiver.skipTag r = some (some tag)) :
    segmentRange segment = tagRange cfg tag ↔ cfg.continuedNodes.getLast? = some r.sender := by
  unfold PaxosComp.createSegment at cut
  obtain ⟨k,found,rest⟩ := Option.bind_eq_some_iff.mp cut
  rw [stored,Option.bind_some] at rest
  obtain ⟨entries,_,rfl⟩ := Option.map_eq_some_iff.mp rest
  obtain ⟨inside,placed,_⟩ := List.findIdx?_eq_some_iff_getElem.mp found
  have member : cfg.continuedNodes[k]? = some r.sender := by
    rw [List.getElem?_eq_getElem inside,← own]
    simpa using placed
  obtain ⟨absent,_⟩ | ⟨_,same⟩ := skipTag_spec peers accounted
  · rw [carried] at absent
    cases absent
  · cases same
    have many : 1 ≤ cfg.count := Nat.zero_lt_of_lt inside
    have some : 0 < cfg.finalSequence.length := by
      rw [SequenceCollect.final_length]
      omega
    have size : 0 < cfg.offset := Nat.div_pos (Nat.le_of_dvd some divides) many
    rw [last_position member,ranged_tagRange ⟨many,le_rfl,rfl,rfl⟩]
    simp only [segmentRange,Prod.mk.injEq]
    change k * cfg.offset = (cfg.count - 1) * cfg.offset ∧
      k * cfg.offset + cfg.offset = (cfg.count - 1) * cfg.offset + cfg.offset ↔ _
    rw [Nat.add_right_cancel_iff,and_self,Nat.mul_left_inj size.ne']
    omega

theorem eager_range {node : PaxosComp} (stored : node.prevSequences 1 = some cfg.finalSequence)
    (done : node.createEagerSequenceTransfer cfg.continuedNodes 1 = some st) :
    segmentRange st.segment = tagRange cfg st.tag := by
  unfold PaxosComp.createEagerSequenceTransfer at done
  obtain ⟨k,found,rest⟩ := Option.bind_eq_some_iff.mp done
  obtain ⟨segment,created,rfl⟩ := Option.map_eq_some_iff.mp rest
  unfold PaxosComp.createSegment at created
  rw [found,Option.bind_some,stored,Option.bind_some] at created
  obtain ⟨entries,_,rfl⟩ := Option.map_eq_some_iff.mp created
  have inside : k < cfg.count := (List.findIdx?_eq_some_iff_getElem.mp found).1
  dsimp only
  rw [ranged_tagRange ⟨Nat.succ_pos k,inside,rfl,rfl⟩]
  rfl

theorem pull_range {skipTag : Option ℕ} {asked : List Effect}
    (peers : c.activePeers.1.length + c.activePeers.2.length = cfg.count)
    (done : c.pullSequence configId cfg.finalSequence.length skipTag = some (next,asked)) :
    ∀ sr ∈ asked.filterMap requested, requestRange sr = tagRange cfg sr.tag := by
  intro sr listed
  rw [(pullSequence_requests peers done).2] at listed
  obtain ⟨tag,_,rfl⟩ := List.mem_map.mp listed
  rfl

-- The tags that a retry asks for, and the requests it sends for them.
def retryTags (c : PaxosComp) (configId : ℕ) : List ℕ :=
  (c.pendingSeqTransfers[configId]?).elim [] Prod.fst

theorem retry_request {effects : List Effect}
    (done : c.retryRequestSequence configId seqLen total = some (next,effects)) (sent : effect ∈ effects) :
    ∃ tag ∈ retryTags c configId, ∃ pid ∈ c.activePeers.1, effect = c.requestSequence pid configId
      ((tag - 1) * (seqLen / total)) ((tag - 1) * (seqLen / total) + seqLen / total) tag := by
  unfold PaxosComp.retryRequestSequence at done
  unfold retryTags
  split at done
  · cases done
    cases sent
  · rename_i found
    split_ifs at done
    cases done
    obtain ⟨tag,listed,asked⟩ := List.mem_filterMap.mp sent
    obtain ⟨pid,ready,rfl⟩ := Option.map_eq_some_iff.mp asked
    rw [found]
    exact ⟨tag,listed,pid,List.mem_of_getElem? ready,rfl⟩

theorem retry_tags {effects : List Effect} (ready : c.activePeers.1 ≠ [])
    (done : c.retryRequestSequence configId seqLen total = some (next,effects)) :
    (effects.filterMap requested).map (·.tag) = retryTags c configId := by
  unfold PaxosComp.retryRequestSequence at done
  unfold retryTags
  split at done
  · rename_i absent
    cases done
    rw [absent]
    rfl
  · rename_i rem buffer found
    split_ifs at done
    cases done
    rw [found]
    dsimp only [Option.elim]
    clear found
    induction rem with
    | nil => rfl
    | cons tag rest ih =>
      have inside : (tag - 1) % c.activePeers.1.length < c.activePeers.1.length :=
        Nat.mod_lt _ (List.length_pos_iff.mpr ready)
      rw [List.filterMap_cons_some (by rw [List.getElem?_eq_getElem inside,Option.map_some]),
        List.filterMap_cons_some (f := requested) rfl,List.map_cons,ih]

theorem retry_range {asked : List Effect} (within : ∀ tag ∈ retryTags c configId, 1 ≤ tag ∧ tag ≤ cfg.count)
    (done : c.retryRequestSequence configId cfg.finalSequence.length cfg.count = some (next,asked)) :
    ∀ sr ∈ asked.filterMap requested, requestRange sr = tagRange cfg sr.tag := by
  intro sr listed
  obtain ⟨effect,sent,asks⟩ := List.mem_filterMap.mp listed
  obtain ⟨tag,left,pid,_,rfl⟩ := retry_request done sent
  cases asks
  obtain ⟨low,high⟩ := within tag left
  exact (pullRange_exact low high).symm

theorem tags_match_segments (cfg : Config) (divides : cfg.count ∣ cfg.finalSequence.length) :
    (∀ (leader receiver : PaxosComp) (r : ReconfigInit) (segment : SequenceSegment) (tag : ℕ),
      leader.prevSequences 1 = some cfg.finalSequence →
      leader.createSegment cfg.continuedNodes 1 = some segment → leader.pid = r.sender →
      r.segment = some segment → receiver.activePeers = (ready cfg r.sender,unready cfg r.sender) →
      receiver.skipTag r = some (some tag) →
      (segmentRange segment = tagRange cfg tag ↔ cfg.continuedNodes.getLast? = some r.sender)) ∧
    (∀ (node : PaxosComp) (st : SequenceTransfer), node.prevSequences 1 = some cfg.finalSequence →
      node.createEagerSequenceTransfer cfg.continuedNodes 1 = some st →
      segmentRange st.segment = tagRange cfg st.tag) ∧
    (∀ (c next : PaxosComp) (configId : ℕ) (skipTag : Option ℕ) (asked : List Effect),
      c.activePeers.1.length + c.activePeers.2.length = cfg.count →
      c.pullSequence configId cfg.finalSequence.length skipTag = some (next,asked) →
      ∀ sr ∈ asked.filterMap requested, requestRange sr = tagRange cfg sr.tag) ∧
    (∀ (c next : PaxosComp) (configId : ℕ) (asked : List Effect),
      (∀ tag ∈ retryTags c configId, 1 ≤ tag ∧ tag ≤ cfg.count) →
      c.retryRequestSequence configId cfg.finalSequence.length cfg.count = some (next,asked) →
      ∀ sr ∈ asked.filterMap requested, requestRange sr = tagRange cfg sr.tag) ∧
    ∀ s, GuardedRuns.Reached (step cfg) (TailSends cfg) (.initial cfg) s → ∀ p ∈ cfg.newNodes,
      ∀ rem buffer, (s.comps p).pendingSeqTransfers[0]? = some (rem,buffer) → buffer ≠ [] →
        Tracked cfg rem buffer := by
  refine ⟨?_,?_,?_,?_,?_⟩
  · intro leader receiver r segment tag stored cut own carried peers accounted
    exact leader_range_iff divides stored cut own carried peers accounted
  · intro node st stored done
    exact eager_range stored done
  · intro c next configId skipTag asked peers done
    exact pull_range peers done
  · intro c next configId asked within done
    exact retry_range within done
  · intro s path p new rem buffer pending some
    rcases (guarded_tracking path).2 p new rem buffer pending with ⟨_,empty⟩ | tracked
    · exact absurd empty some
    · exact tracked

instance (cfg : Config) (r : ReconfigInit) : Decidable (TailSegment cfg r) :=
  inferInstanceAs (Decidable (_ ∨ _))

instance (cfg : Config) (s : System) : ∀ action, Decidable (TailSends cfg s action)
  | .deliver ⟨_,_,.init _⟩ _ => inferInstanceAs (Decidable (_ → _ → _))
  | .deliver ⟨_,_,.sequenceRequest _⟩ _ => .isTrue trivial
  | .deliver ⟨_,_,.sequenceTransfer _⟩ _ => .isTrue trivial
  | .run _ => .isTrue trivial
  | .leader _ _ _ => .isTrue trivial
  | .reconfig _ => .isTrue trivial
  | .answer _ _ => .isTrue trivial
  | .retry _ _ => .isTrue trivial
  | .stop _ => .isTrue trivial

-- Node 2 leads and is the last continued node, so its segment fits tag 2.
theorem last_leader_tracked : ∃ s, Reached (replace .pull 3) s ∧
    (s.comps 4).pendingSeqTransfers[0]? = some ([1],[.normal [],.normal [],third,sign]) ∧
    Tracked (replace .pull 3) [1] [.normal [],.normal [],third,sign] := by
  obtain ⟨s,path,held⟩ : ∃ s, GuardedRuns.Reached (step (replace .pull 3)) (TailSends (replace .pull 3))
      (.initial (replace .pull 3)) s ∧ decide ((s.comps 4).pendingSeqTransfers[0]? =
        some ([1],[.normal [],.normal [],third,sign])) = true :=
    GuardedRuns.runs_check
      (decided 2 [2] ++ [.deliver (initOf (replace .pull 3) 2 (some ⟨2,4,[third,sign]⟩)) 0]) (by decide +kernel)
  have pending := of_decide_eq_true held
  refine ⟨s,(guarded_tracking path).1,pending,?_⟩
  exact (tags_match_segments _ (by decide)).2.2.2.2 s path 4 (by decide) _ _ pending (by simp)

def TagsMatch : Prop :=
  ∀ (cfg : Config) (s : System) (p : ℕ) (rem : List ℕ) (buffer : List Entry),
    cfg.count ∣ cfg.finalSequence.length → Reached cfg s → p ∈ cfg.newNodes →
    (s.comps p).pendingSeqTransfers[0]? = some (rem,buffer) → buffer ≠ [] → Tracked cfg rem buffer

-- Node 1 leads: tag 2 is gone, and the entries are those of tag 1.
theorem first_leader_mismatch : ¬TagsMatch := by
  intro tags_match
  obtain ⟨s,path,pending⟩ := executed (replace .pull 3)
    (decided 1 [1] ++ [.deliver (initOf (replace .pull 3) 1 (some ⟨0,2,[first,second]⟩)) 0])
    (fun s => (s.comps 4).pendingSeqTransfers[0]?) (some ([1],[first,second,.normal [],.normal []]))
    (by decide +kernel)
  rcases tags_match _ s 4 _ _ (by decide) path (by decide) pending (by simp) 2 (by decide) (by decide) with
    ⟨_,filled⟩ | ⟨left,_⟩
  · have third_entry := filled 2 (by decide) (by decide)
    exact absurd third_entry (by decide)
  · exact absurd left (by decide)

-- The tags that are left of the sequence of a configuration.
def remainingTags (c : PaxosComp) (configId : ℕ) : List ℕ :=
  (c.pendingSeqTransfers[configId - 1]?).elim [] Prod.fst

-- One request for each remaining tag, with the range that was pulled.
structure RetryExact (c : PaxosComp) (configId seqLen total : ℕ) (effects : List Effect) : Prop where
  tags : ((effects.filterMap requested).map (·.tag)).Perm (remainingTags c configId)
  each : ∀ effect ∈ effects, ∃ tag ∈ remainingTags c configId, ∃ pid ∈ c.activePeers.1,
    effect = .tell pid (.sequenceRequest (pullRequest c configId seqLen total tag))

-- The retry looks at the transfer that is registered one place further.
theorem retry_exact_iff (within : ∀ tag ∈ remainingTags c configId, 1 ≤ tag ∧ tag ≤ total)
    (peers : c.activePeers.1 ≠ [])
    (done : c.retryRequestSequence configId seqLen total = some (next,effects)) :
    RetryExact c configId seqLen total effects ↔
      (retryTags c configId).Perm (remainingTags c configId) := by
  have tags := retry_tags peers done
  constructor
  · intro exact
    rw [← tags]
    exact exact.tags
  · intro same
    refine ⟨tags ▸ same,?_⟩
    intro effect sent
    obtain ⟨tag,left,pid,peer,rfl⟩ := retry_request done sent
    have member := same.mem_iff.mp left
    obtain ⟨low,high⟩ := within tag member
    refine ⟨tag,member,pid,peer,?_⟩
    unfold pullRequest
    rw [pullRange_exact low high]
    rfl

-- Both places hold tag 2, which is asked for once.
theorem same_tag_retried : ∃ next effects,
    PaxosComp.retryRequestSequence {receiver with pendingSeqTransfers := [([2],[]),([2],[])]} 1 4 2 =
      some (next,effects) ∧
    RetryExact {receiver with pendingSeqTransfers := [([2],[]),([2],[])]} 1 4 2 effects := by
  refine ⟨_,_,rfl,?_⟩
  exact (retry_exact_iff (by decide) (by decide) rfl).mpr (by decide)

def RetryCorrect : Prop :=
  ∀ (cfg : Config) (s : System) (p configId seqLen total : ℕ) (next : PaxosComp) (effects : List Effect),
    Reached cfg s → (s.comps p).retryTransferTimers configId = some (seqLen,total) →
    (s.comps p).activePeers.1 ≠ [] →
    (s.comps p).retryRequestSequence configId seqLen total = some (next,effects) →
    RetryExact (s.comps p) configId seqLen total effects

-- Node 4 still waits for tag 1 of the only transfer, and its retry asks for nothing.
theorem remaining_not_retried : ¬RetryCorrect := by
  intro correct
  obtain ⟨s,path,view⟩ := executed (replace .pull 3)
    (decided 2 [2] ++ [.deliver (initOf (replace .pull 3) 2 (some ⟨2,4,[third,sign]⟩)) 0])
    (fun s => decide ((s.comps 4).retryTransferTimers 1 = some (4,2) ∧ (s.comps 4).activePeers.1 = [2] ∧
      (s.comps 4).pendingSeqTransfers = [([1],[.normal [],.normal [],third,sign]),([],[])])) true
    (by decide +kernel)
  obtain ⟨timer,peers,pending⟩ := of_decide_eq_true view
  obtain ⟨next,fired⟩ : ∃ next, (s.comps 4).retryRequestSequence 1 4 2 = some (next,[]) := by
    unfold PaxosComp.retryRequestSequence
    rw [pending]
    exact ⟨_,rfl⟩
  have exact := correct _ s 4 1 4 2 next [] path timer (by simp [peers]) fired
  have nothing := exact.tags
  simp [remainingTags,pending] at nothing

end KompicsBenches.SegmentTags
