import KompicsBenches.ReconfigInvariant

namespace KompicsBenches.SegmentRanges
open Segments ReconfigComp ReconfigSystem ReconfigInvariant

def requested : Effect → Option SequenceRequest
  | .tell _ (.sequenceRequest sr) => some sr
  | _ => none

def requestRange (sr : SequenceRequest) : ℕ × ℕ := (sr.fromIdx,sr.toIdx)

def segmentRange (segment : SequenceSegment) : ℕ × ℕ := (segment.fromIdx,segment.toIdx)

-- The range that `pull_sequence` asks for under a tag, in either of its loops.
def pullRange (seqLen count tag : ℕ) : ℕ × ℕ :=
  let offset := seqLen / count
  let fromIdx := (tag - 1) * offset
  (fromIdx,if seqLen < fromIdx + offset then seqLen else fromIdx + offset)

-- The upper clamp never applies, also not where a remainder is left.
theorem pullRange_exact (low : 1 ≤ tag) (high : tag ≤ count) : pullRange seqLen count tag =
    ((tag - 1) * (seqLen / count),(tag - 1) * (seqLen / count) + seqLen / count) := by
  have next : (tag - 1) * (seqLen / count) + seqLen / count = tag * (seqLen / count) := by
    obtain ⟨k,rfl⟩ := Nat.exists_eq_add_of_le' low
    rw [Nat.add_sub_cancel,Nat.succ_mul]
  have most : tag * (seqLen / count) ≤ count * (seqLen / count) := Nat.mul_le_mul_right _ high
  have total : count * (seqLen / count) ≤ seqLen := Nat.mul_div_le seqLen count
  unfold pullRange
  dsimp only
  rw [if_neg (by omega)]

def pullRequest (c : PaxosComp) (configId seqLen count tag : ℕ) : SequenceRequest :=
  ⟨configId,tag,(pullRange seqLen count tag).1,(pullRange seqLen count tag).2,c.pid⟩

variable {c next : PaxosComp} {configId seqLen skip : ℕ}

theorem loop_requests (c : PaxosComp) (configId seqLen count skip first start : ℕ) (peers : List ℕ) :
    ((peers.zipIdx start).filterMap fun (pid,i) =>
        let fromIdx := (first + i) * (seqLen / count)
        let toIdx := if seqLen < fromIdx + seqLen / count then seqLen else fromIdx + seqLen / count
        let tag := first + i + 1
        if tag ≠ skip then some (c.requestSequence pid configId fromIdx toIdx tag) else none).filterMap
      requested =
    ((List.range' (first + start + 1) peers.length).filter (· ≠ skip)).map
      (pullRequest c configId seqLen count) := by
  induction peers generalizing start with
  | nil => rfl
  | cons pid rest ih =>
    have more := ih (start + 1)
    rw [List.zipIdx_cons,List.length_cons,List.range'_succ]
    dsimp only at more ⊢
    by_cases same : first + start + 1 = skip
    · rw [List.filterMap_cons_none (by simp [same]),List.filter_cons_of_neg (by simp [same]),more]
      rfl
    · rw [List.filterMap_cons_some (by rw [if_pos same]),List.filter_cons_of_pos (by simpa using same),
        List.map_cons,List.filterMap_cons_some (f := requested) rfl,more]
      rfl

theorem requestSegments_requests (c : PaxosComp) (configId seqLen count skip first : ℕ) (peers : List ℕ) :
    (c.requestSegments configId seqLen (seqLen / count) skip first peers).filterMap requested =
      ((List.range' (first + 1) peers.length).filter (· ≠ skip)).map
        (pullRequest c configId seqLen count) :=
  loop_requests c configId seqLen count skip first 0 peers

theorem pullSequence_requests {skipTag : Option ℕ} {effects : List Effect}
    (peers : c.activePeers.1.length + c.activePeers.2.length = count)
    (done : c.pullSequence configId seqLen skipTag = some (next,effects)) : count ≠ 0 ∧
      effects.filterMap requested = ((List.range' 1 count).filter (· ≠ skipTag.getD 0)).map
        (pullRequest c configId seqLen count) := by
  unfold PaxosComp.pullSequence at done
  rw [peers] at done
  dsimp only at done
  split_ifs at done with none
  obtain ⟨expected,set,same⟩ := Option.map_eq_some_iff.mp done
  cases same
  have own : next.pid = c.pid ∧ next.activePeers = c.activePeers := by
    unfold PaxosComp.expectSegments at set
    split_ifs at set
    cases set
    exact ⟨rfl,rfl⟩
  have requests : pullRequest next configId seqLen count = pullRequest c configId seqLen count := by
    funext tag
    simp [pullRequest,own.1]
  refine ⟨none,?_⟩
  rw [List.filterMap_append,requestSegments_requests,requestSegments_requests,own.2,requests,
    ← List.map_append,← List.filter_append,Nat.zero_add,← peers,add_comm c.activePeers.1.length,
    ← List.range'_append_1]
  rw [add_comm 1]

theorem createSegment_placed {continuedNodes : List ℕ} {final : List Entry}
    (distinct : continuedNodes.Nodup) (k : Fin continuedNodes.length)
    (own : c.pid = continuedNodes[k]) (stored : c.prevSequences configId = some final) :
    ∃ segment, c.createSegment continuedNodes configId = some segment ∧ segmentRange segment =
      (k * (final.length / continuedNodes.length),
        k * (final.length / continuedNodes.length) + final.length / continuedNodes.length) := by
  have placed : c.getContinuedIdx continuedNodes = some k.val := by
    refine List.findIdx?_eq_some_iff_getElem.mpr ⟨k.isLt,by simp [own],?_⟩
    intro j earlier same
    have twin : continuedNodes[j] = continuedNodes[k] := by simpa [own] using same
    have := (List.Nodup.getElem_inj_iff distinct).mp twin
    omega
  have within : k * (final.length / continuedNodes.length) + final.length / continuedNodes.length ≤
      final.length := by
    rw [← Nat.succ_mul]
    exact (Nat.mul_le_mul_right _ k.isLt).trans (Nat.mul_div_le _ _)
  unfold PaxosComp.createSegment
  rw [placed,Option.bind_some,stored,Option.bind_some]
  unfold slice
  dsimp only
  rw [if_pos ⟨Nat.le_add_right _ _,within⟩]
  exact ⟨_,rfl,rfl⟩

theorem pulled_ranges (c : PaxosComp) (configId seqLen count : ℕ) :
    ((List.range' 1 count).map (pullRequest c configId seqLen count)).map requestRange =
      equalRanges count (seqLen / count) := by
  rw [List.map_map,List.range'_eq_map_range,List.map_map]
  apply List.map_congr_left
  intro k inside
  have low : 1 ≤ 1 + k := Nat.le_add_right 1 k
  have high : 1 + k ≤ count := by
    have := List.mem_range.mp inside
    omega
  simp only [Function.comp,pullRequest,requestRange,pullRange_exact low high,Nat.add_sub_cancel_left]

-- Pulled segments and those that the continued nodes cut leave out the same
-- remainder, and where nothing is left to cut the last index of a range is -1.
theorem segments_tile_iff {continuedNodes : List ℕ} {final : List Entry} {asked : List Effect}
    {node : Fin continuedNodes.length → PaxosComp} (distinct : continuedNodes.Nodup)
    (peers : c.activePeers.1.length + c.activePeers.2.length = continuedNodes.length)
    (pulled : c.pullSequence configId final.length none = some (next,asked))
    (pids : ∀ k, (node k).pid = continuedNodes[k])
    (decided : ∀ k, (node k).prevSequences previous = some final) :
    ∃ segments : Fin continuedNodes.length → SequenceSegment,
      (∀ k, (node k).createSegment continuedNodes previous = some (segments k)) ∧
      (asked.filterMap requested).map (·.tag) = List.range' 1 continuedNodes.length ∧
      (Tiles ((asked.filterMap requested).map requestRange) final.length ∧
          Tiles (List.ofFn fun k => segmentRange (segments k)) final.length ∧
          (∀ sr ∈ asked.filterMap requested, 1 ≤ sr.toIdx) ↔
        continuedNodes.length ∣ final.length ∧ 0 < final.length) := by
  obtain ⟨positive,requests⟩ := pullSequence_requests peers pulled
  have everything : (List.range' 1 continuedNodes.length).filter (· ≠ (none : Option ℕ).getD 0) =
      List.range' 1 continuedNodes.length := by
    apply List.filter_eq_self.mpr
    intro tag listed
    have := List.mem_range'_1.mp listed
    simp only [Option.getD_none,ne_eq,decide_eq_true_eq]
    omega
  rw [everything] at requests
  choose segments created placed using fun k =>
    createSegment_placed distinct k (pids k) (decided k)
  have cut : (List.ofFn fun k => segmentRange (segments k)) =
      equalRanges continuedNodes.length (final.length / continuedNodes.length) := by
    refine List.ext_getElem (by simp [equalRanges]) ?_
    intro k inside _
    simp [equalRanges,placed]
  refine ⟨segments,created,?_,?_⟩
  · rw [requests,List.map_map]
    exact List.map_id _
  · rw [cut,requests,pulled_ranges,divided_tiles_iff]
    constructor
    · rintro ⟨divides,_,ends⟩
      refine ⟨divides,?_⟩
      have first := ends (pullRequest c configId final.length continuedNodes.length 1)
        (List.mem_map_of_mem (List.mem_range'_1.mpr (by omega)))
      simp only [pullRequest] at first
      rw [pullRange_exact (Nat.le_refl 1) (Nat.pos_of_ne_zero positive)] at first
      by_contra empty
      simp [Nat.eq_zero_of_not_pos empty] at first
    · rintro ⟨divides,some⟩
      refine ⟨divides,divides,?_⟩
      intro sr listed
      obtain ⟨tag,inside,rfl⟩ := List.mem_map.mp listed
      have bounds := List.mem_range'_1.mp inside
      have size : 0 < final.length / continuedNodes.length :=
        Nat.div_pos (Nat.le_of_dvd some divides) (Nat.pos_of_ne_zero positive)
      simp only [pullRequest]
      rw [pullRange_exact bounds.1 (by omega)]
      dsimp only
      omega

-- Node 4 is new and has heard of two continued nodes, node 2 is the leader.
def receiver : PaxosComp :=
  {PaxosComp.init [1,2,3] [1,2,4] .pull 4 with
    activePeers := ([2],[1])
    pendingSeqTransfers := [([],[]),([],[])]}

def decider (pid length : ℕ) : PaxosComp :=
  {PaxosComp.init [1,2,3] [1,2,4] .pull pid with
    prevSequences := fun _ => some (List.replicate length (.normal [1]))}

theorem receiver_pulls (seqLen : ℕ) :
    ∃ next asked, receiver.pullSequence 1 seqLen none = some (next,asked) := ⟨_,_,rfl⟩

theorem four_entries_tiled : ∃ next asked, receiver.pullSequence 1 4 none = some (next,asked) ∧
    Tiles ((asked.filterMap requested).map requestRange) 4 ∧
    ∀ sr ∈ asked.filterMap requested, 1 ≤ sr.toIdx := by
  obtain ⟨next,asked,pulled⟩ := receiver_pulls (List.replicate 4 (Entry.normal [1])).length
  have distinct : [1,2].Nodup := by decide
  have nodes : ∀ k : Fin [1,2].length, (decider (k.val + 1) 4).pid = [1,2][k] := by decide
  have stored : ∀ k : Fin [1,2].length,
      (decider (k.val + 1) 4).prevSequences 1 = some (List.replicate 4 (Entry.normal [1])) := fun _ => rfl
  obtain ⟨segments,_,_,exact⟩ := segments_tile_iff distinct rfl pulled nodes stored
  obtain ⟨tiled,_,ends⟩ := exact.mpr (by decide)
  exact ⟨next,asked,pulled,tiled,ends⟩

def SegmentsTile : Prop :=
  ∀ (c next : PaxosComp) (configId seqLen : ℕ) (asked : List Effect),
    c.pullSequence configId seqLen none = some (next,asked) →
      Tiles ((asked.filterMap requested).map requestRange) seqLen ∧
      ∀ sr ∈ asked.filterMap requested, 1 ≤ sr.toIdx

-- Of three entries nobody asks for the last one.
theorem remainder_left_out : ¬SegmentsTile := by
  intro tile
  obtain ⟨next,asked,pulled⟩ := receiver_pulls 3
  obtain ⟨tiles,_⟩ := tile receiver next 1 3 asked pulled
  have peers : receiver.activePeers.1.length + receiver.activePeers.2.length = 2 := rfl
  obtain ⟨_,requests⟩ := pullSequence_requests peers pulled
  have everything : (List.range' 1 2).filter (· ≠ (none : Option ℕ).getD 0) = List.range' 1 2 := by decide
  rw [requests,everything,pulled_ranges,divided_tiles_iff] at tiles
  exact absurd tiles (by decide)

end KompicsBenches.SegmentRanges
