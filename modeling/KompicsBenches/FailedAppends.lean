import KompicsBenches.TornLog

namespace KompicsBenches.FailedAppends
open Wire ByteFile Segments DiskLog DiskLog.MemLog DiskRefine DiskFaults TornLog
variable {Entry : Type} {lib : RaftLib Entry}

section Again
variable {c : DiskStorageCore} {log : MemLog Entry} {batch kept : List Entry} {part : List UInt8}
  {first last e : Entry} {i k d n start : ℕ}

theorem consecutive_ends (consecutive : batch.map lib.index = List.range' n batch.length)
    (head : batch.head? = some first) (found : batch.getLast? = some last) :
    lib.index first = n ∧ lib.index last + 1 = n + batch.length := by
  have opens := congrArg List.head? consecutive
  have closes := congrArg List.getLast? consecutive
  have entered : batch.length ≠ 0 := by
    intro empty
    rw [List.length_eq_zero_iff.mp empty] at head
    cases head
  rw [List.head?_map,head,List.head?_range',if_neg entered] at opens
  rw [List.getLast?_map,found,List.getLast?_range',if_neg entered] at closes
  have one := Option.some.inj opens
  have two := Option.some.inj closes
  omega

section Appended
variable (files : Files c) (slots : (k + batch.length) * 8 ≤ fileSize)
include files slots

-- What was there before an append, in front of where it writes, and what it adds.
theorem appended_old (stands : Stands lib c i e start) (before : i < k)
    (behind : start + (recorded lib e).length ≤ c.cursor) : Stands lib (appended lib c k first last batch) i e start := by
  have mapped := files.mapped
  have kept : Stands lib (written lib c k batch) i e start := stands.written before behind files.inside (by omega)
  exact ⟨kept.place,kept.record⟩

theorem appended_files : Files (appended lib c k first last batch) := by
  refine ⟨?_,Nat.le_trans files.sized length_le_write,(holds_write files.inside).bound⟩
  refine (length_write ?_).trans files.mapped
  rw [places_length,files.mapped]
  omega

theorem appended_new (lawful : lib.Lawful) (near : c.cursor + (layout lib batch).length < 2 ^ 64) (found : batch[d]? = some e) :
    (appended lib c k first last batch).getEntry lib (k + d) =
      if c.cursor + (layout lib (batch.take (d + 1))).length ≤ fileSize then some e else none := by
  have mapped := files.mapped
  have new : Stands lib (written lib c k batch) (k + d) e (c.cursor + (layout lib (batch.take d)).length) :=
    written_stands files.inside (by omega) found
  have stands : Stands lib (appended lib c k first last batch) (k + d) e (c.cursor + (layout lib (batch.take d)).length) :=
    ⟨new.place,new.record⟩
  have bound := layout_take_le lib batch (d + 1)
  rw [layout_take_succ found] at bound ⊢
  rw [stands.read lawful (appended_files files slots) (by omega),Nat.add_assoc]

end Appended

-- The same batch appended at two cursors: it reads the same as far as the map of the log
-- covers it behind the further one too.
theorem appended_same_iff {other : DiskStorageCore} {snapshot : ℕ} (lawful : lib.Lawful) (files : Files c)
    (moved : Files other) (frame : Frame c other) (further : c.cursor ≤ other.cursor)
    (older : ∀ i < k, ∃ e start, Stands lib c i e start ∧ Stands lib other i e start ∧
      start + (recorded lib e).length ≤ c.cursor)
    (slots : (k + batch.length) * 8 ≤ fileSize) (near : other.cursor + (layout lib batch).length < 2 ^ 64)
    (opened : (appended lib c k first last batch).firstIndex = some (snapshot + 1))
    (closed : (appended lib c k first last batch).lastIndex = some (snapshot + (k + batch.length))) :
    SameLog lib (appended lib c k first last batch) (appended lib other k first last batch) ↔
      ∀ d < batch.length, c.cursor + (layout lib (batch.take (d + 1))).length ≤ fileSize →
        other.cursor + (layout lib (batch.take (d + 1))).length ≤ fileSize := by
  constructor
  · intro same d within fits
    have entry := List.getElem?_eq_getElem within
    have read := same.reads lawful opened closed (show snapshot + 1 + (k + d) ≤ _ by omega)
    rw [appended_new files slots lawful (by omega) entry,appended_new moved slots lawful near entry,if_pos fits] at read
    by_contra beyond
    rw [if_neg beyond] at read
    cases read
  · intro fits
    have map : other.raftMetadata = c.raftMetadata := by rw [frame]
    have term : other.snapshotTerm = c.snapshotTerm := by rw [frame]
    refine sameLog_of opened closed ?_ (congrArg (closing lib · k first last) map) rfl frame.indices.2.2.2 term ?_
    · show snapshot + (k + batch.length) + 1 = snapshot + 1 + (k + batch.length)
      omega
    · intro i within
      change i < k + batch.length at within
      rcases Nat.lt_or_ge i k with before | after
      · obtain ⟨e,start,left,right,behind⟩ := older i before
        have one : Stands lib (appended lib c k first last batch) i e start := appended_old files slots left before behind
        have two : Stands lib (appended lib other k first last batch) i e start :=
          appended_old moved slots right before (behind.trans further)
        rw [one.read lawful (appended_files files slots) (by omega),two.read lawful (appended_files moved slots) (by omega)]
      · obtain ⟨d,rfl⟩ := Nat.exists_eq_add_of_le after
        have entry := List.getElem?_eq_getElem (show d < batch.length by omega)
        rw [appended_new files slots lawful (by omega) entry,appended_new moved slots lawful near entry]
        refine if_congr ⟨?_,fits d (by omega)⟩ rfl rfl
        omega

section Retry
variable (rep : Represents lib c log) (short : k ≤ log.entries.length)
include rep short

-- Where the append of the batch goes after the one that failed.
theorem torn_seek (room : kept = [] ∨ (k + kept.length) * 8 ≤ fileSize) :
    (torn lib c log k kept part).seekFrom k =
      some (if k = log.entries.length then (torn lib c log k kept part).cursor else place lib log k) := by
  unfold DiskStorageCore.seekFrom
  show (if c.numEntries ≤ k then _ else _) = _
  rw [rep.count]
  by_cases full : k = log.entries.length
  · rw [if_pos full.ge,if_pos full]
  · rw [if_neg (by omega),if_neg full]
    have near := place_fits rep k
    unfold fileSize at near
    refine getLogOffset_at (torn_files rep short part room).mapped ?_ (by omega)
    cases kept with
    | nil =>
      have same : (torn lib c log k [] part).offset = c.offset := write_nil c.offset (k * 8)
      rw [same]
      exact rep.lays.offsets k (by omega)
    | cons top rest =>
      have stands : Stands lib (torn lib c log k (top :: rest) part) (k + 0) top _ := torn_new rep short rfl
      exact stands.place

-- Within the log the whole batch is written over what was written of it.
theorem appended_again (covers : (layout lib kept ++ part).length ≤ (layout lib batch).length)
    (fewer : kept.length ≤ batch.length) :
    appended lib {torn lib c log k kept part with cursor := place lib log k} k first last batch =
      appended lib {c with cursor := place lib log k} k first last batch := by
  obtain ⟨inside,room⟩ := place_inside rep short
  have bytes : write (torn lib c log k kept part).log (place lib log k) (layout lib batch) =
      write c.log (place lib log k) (layout lib batch) := by
    rw [torn_log rep short,write_again inside covers]
  have offset : write (torn lib c log k kept part).offset (k * 8) (places lib (place lib log k) batch) =
      write c.offset (k * 8) (places lib (place lib log k) batch) := by
    apply write_again room
    rw [places_length,places_length]
    omega
  unfold appended written
  dsimp only
  rw [bytes,offset]
  rfl

section Placed
variable (consecutive : batch.map lib.index = List.range' n batch.length) (head : batch.head? = some first)
  (found : batch.getLast? = some last) (located : lib.index first = log.snapshotIndex + 1 + k)
include head found located

theorem append_run : c.appendLog lib batch = if (k + batch.length) * 8 ≤ fileSize then
    some (appended lib {c with cursor := place lib log k} k first last batch) else none := by
  have run := appendEntries_run lib rep.sized (rep.count.symm ▸ short) (rep.seekFrom k) (place_inside rep short).1 head found
  rw [rep.lays.mapped] at run
  exact (appendLog_at rep.first rep.last head located short).trans run

theorem torn_run (room : kept = [] ∨ (k + kept.length) * 8 ≤ fileSize) :
    (torn lib c log k kept part).appendLog lib batch = if (k + batch.length) * 8 ≤ fileSize then
      some (appended lib {torn lib c log k kept part with
        cursor := if k = log.entries.length then (torn lib c log k kept part).cursor else place lib log k} k first last batch)
      else none := by
  obtain ⟨opened,closed,count,_⟩ : (torn lib c log k kept part).firstIndex = c.firstIndex ∧ _ := torn_frame.indices
  have files := torn_files rep short part room
  have inside : (if k = log.entries.length then (torn lib c log k kept part).cursor else place lib log k) ≤
      (torn lib c log k kept part).log.length := by
    split
    · exact files.inside
    · exact Nat.le_trans (place_fits rep k) files.sized
  have entries : k ≤ (torn lib c log k kept part).numEntries := by rwa [count,rep.count]
  have sized : (torn lib c log k kept part).raftMetadata.length = 18 := rep.sized
  have run := appendEntries_run lib sized entries (torn_seek rep short room) inside head found
  rw [files.mapped] at run
  exact (appendLog_at (opened.trans rep.first) (closed.trans rep.last) head located short).trans run

include consecutive

omit short in
theorem placed_indices (room : (k + batch.length) * 8 ≤ fileSize) (other : DiskStorageCore)
    (map : other.raftMetadata = closing lib c.raftMetadata k first last) (snapshot : other.snapshotIndex = c.snapshotIndex) :
    other.firstIndex = some (log.snapshotIndex + 1) ∧ other.lastIndex = some (log.snapshotIndex + (k + batch.length)) := by
  obtain ⟨opens,closes⟩ := consecutive_ends consecutive head found
  have early := rep.early
  unfold fileSize at room
  have same : log.snapshotIndex + (k + batch.length) = lib.index last := by omega
  rw [same]
  exact closing_indices lib other rep.sized rep.first (by omega) (by omega) (by omega) map snapshot

-- At the end the batch goes behind what was written of it, and reads the same as far as
-- the map of the log covers it there too.
theorem moved_iff (lawful : lib.Lawful) (full : k = log.entries.length) (room : kept = [] ∨ (k + kept.length) * 8 ≤ fileSize)
    (slots : (k + batch.length) * 8 ≤ fileSize) (small : (layout lib batch).length < 2 ^ 62)
    (covers : (layout lib kept ++ part).length ≤ (layout lib batch).length) :
    SameLog lib (appended lib {c with cursor := place lib log k} k first last batch)
        (appended lib (torn lib c log k kept part) k first last batch) ↔
      ∀ d < batch.length, place lib log k + (layout lib (batch.take (d + 1))).length ≤ fileSize →
        place lib log k + (layout lib kept ++ part).length + (layout lib (batch.take (d + 1))).length ≤ fileSize := by
  have bound := place_fits rep k
  unfold fileSize at bound
  have cursor : (torn lib c log k kept part).cursor = place lib log k + (layout lib kept ++ part).length := by
    rw [List.length_append,← Nat.add_assoc]
    rfl
  have further : place lib log k ≤ (torn lib c log k kept part).cursor := by
    rw [cursor]
    exact Nat.le_add_right _ _
  have near : (torn lib c log k kept part).cursor + (layout lib batch).length < 2 ^ 64 := by omega
  obtain ⟨opened,closed⟩ := placed_indices rep consecutive head found located slots
    (appended lib {c with cursor := place lib log k} k first last batch) rfl rfl
  rw [← cursor]
  refine appended_same_iff lawful (placed_files rep short) (torn_files rep short part room) torn_frame further ?_ slots near
    opened closed
  intro i before
  have entry := List.getElem?_eq_getElem (show i < log.entries.length by omega)
  obtain ⟨offset,record⟩ := Lays.stands rep.lays entry
  refine ⟨_,_,⟨offset,record⟩,torn_front rep short before entry,?_⟩
  rw [← place_succ entry]
  exact place_mono before

-- Where the batch starts within the log an append after the one that failed ends as it
-- would have ended; at the end the bytes that were written are lost.
theorem retry_iff (lawful : lib.Lawful) (room : kept = [] ∨ (k + kept.length) * 8 ≤ fileSize)
    (small : (layout lib batch).length < 2 ^ 62) (covers : (layout lib kept ++ part).length ≤ (layout lib batch).length)
    (fewer : kept.length ≤ batch.length) :
    Option.Rel (SameLog lib) (c.appendLog lib batch) ((torn lib c log k kept part).appendLog lib batch) ↔
      (k = log.entries.length → (k + batch.length) * 8 ≤ fileSize →
        ∀ d < batch.length, place lib log k + (layout lib (batch.take (d + 1))).length ≤ fileSize →
          place lib log k + (layout lib kept ++ part).length + (layout lib (batch.take (d + 1))).length ≤ fileSize) := by
  rw [append_run rep short head found located,torn_run rep short head found located room]
  by_cases offsets : (k + batch.length) * 8 ≤ fileSize
  · rw [if_pos offsets,if_pos offsets]
    by_cases full : k = log.entries.length
    · rw [if_pos full]
      have moved := moved_iff rep short consecutive head found located lawful full room offsets small covers
      constructor
      · rintro (same | _) _ _
        exact moved.mp same
      · intro fits
        exact .some (moved.mpr (fits full offsets))
    · rw [if_neg full,appended_again rep short covers fewer]
      exact iff_of_true (.some (SameLog.refl _)) fun whole => absurd whole full
  · rw [if_neg offsets,if_neg offsets]
    exact iff_of_true .none fun _ room => absurd room offsets

end Placed

end Retry

end Again

section Failed
variable {c after : DiskStorageCore} {log : MemLog Entry} {batch : List Entry} {first last : Entry} {k n : ℕ}
  {fault : Fault}

-- The number of the entry that a batch begins with.
def position (lib : RaftLib Entry) (log : MemLog Entry) (batch : List Entry) : ℕ :=
  (batch.head?.map lib.index).getD 0 - (log.snapshotIndex + 1)

-- When the length of an entry was written in part: the entries before it repeat those of
-- the log, the length counts bytes that parse as before, and the file has room for the
-- bytes that are lost at its end.
structure Survives (lib : RaftLib Entry) (c : DiskStorageCore) (log : MemLog Entry) (batch : List Entry) (k j m : ℕ) :
    Prop where
  repeats : ∀ d < j, k + d < log.entries.length → batch[d]? = log.entries[k + d]?
  rereads : ∀ old new, log.entries[k + j]? = some old → batch[j]? = some new →
    Rereads lib c (place lib log (k + j)) ((putU64 (lib.writeToBytes new).length).take m) old
  spare : k = log.entries.length → (k + batch.length) * 8 ≤ fileSize →
    ∀ d < batch.length, place lib log k + (layout lib (batch.take (d + 1))).length ≤ fileSize →
      place lib log k + ((layout lib (batch.take j)).length + m) + (layout lib (batch.take (d + 1))).length ≤ fileSize

def Harmless (lib : RaftLib Entry) (c : DiskStorageCore) (log : MemLog Entry) (batch : List Entry) : Fault → Prop
  | .writeLen j m => Survives lib c log batch (position lib log batch) j m
  | .flushLog => log.append lib batch = log
  | .flushOffset => log.append lib batch = log
  | _ => True

-- The log is as it was, and the batch appended now gives the log that it would have given.
def Unchanged (lib : RaftLib Entry) (c after : DiskStorageCore) (batch : List Entry) : Prop :=
  SameLog lib c after ∧ Option.Rel (SameLog lib) (c.appendLog lib batch) (after.appendLog lib batch)

theorem unchanged_refl (c : DiskStorageCore) (batch : List Entry) : Unchanged lib c c batch := by
  refine ⟨SameLog.refl c,?_⟩
  cases c.appendLog lib batch with
  | none => exact .none
  | some next => exact .some (SameLog.refl next)

theorem appendLogUnder_err (rep : Represents lib c log)
    (failed : appendLogUnder lib (some fault) c batch = some (.err after)) :
    ∃ first last k, batch.head? = some first ∧ batch.getLast? = some last ∧
      lib.index first = log.snapshotIndex + 1 + k ∧ k = position lib log batch ∧ k ≤ log.entries.length ∧
      appendEntriesUnder lib (some fault) c batch k = some (.err after) := by
  cases batch with
  | nil => cases failed
  | cons first rest =>
    simp only [appendLogUnder,rep.first,rep.last,Option.bind_eq_bind,Option.bind_some] at failed
    split at failed
    · cases failed
    · split at failed
      · cases failed
      · refine ⟨first,_,lib.index first - (log.snapshotIndex + 1),rfl,List.getLast?_cons,by omega,rfl,by omega,failed⟩

theorem append_same (entries : (log.append lib batch).entries = log.entries) : log.append lib batch = log := by
  cases batch with
  | nil => rfl
  | cons top rest =>
    change log.entries.filter _ ++ top :: rest = log.entries at entries
    rw [MemLog.append,entries]

variable (rep : Represents lib c log) (short : k ≤ log.entries.length)
  (consecutive : batch.map lib.index = List.range' n batch.length) (head : batch.head? = some first)
  (found : batch.getLast? = some last) (located : lib.index first = log.snapshotIndex + 1 + k)
  (lawful : lib.Lawful) (small : (layout lib batch).length < 2 ^ 62)
include rep short consecutive head found located lawful small

theorem torn_unchanged_iff {j m : ℕ} {e : Entry} (entry : batch[j]? = some e) (few : m ≤ 8)
    (room : batch.take j = [] ∨ (k + (batch.take j).length) * 8 ≤ fileSize) :
    Unchanged lib c (torn lib c log k (batch.take j) ((putU64 (lib.writeToBytes e).length).take m)) batch ↔
      Survives lib c log batch k j m := by
  obtain ⟨inside,_⟩ := List.getElem?_eq_some_iff.mp entry
  have count : (batch.take j).length = j := by rw [List.length_take,Nat.min_eq_left inside.le]
  have width : ((putU64 (lib.writeToBytes e).length).take m).length = m := by
    rw [List.length_take,putU64_length,Nat.min_eq_left few]
  have bound := layout_take_le lib batch (j + 1)
  rw [layout_take_succ entry,recorded_length] at bound
  have covers : (layout lib (batch.take j) ++ (putU64 (lib.writeToBytes e).length).take m).length ≤
      (layout lib batch).length := by
    rw [List.length_append,width]
    omega
  have same := torn_same_iff rep short lawful room (show (layout lib (batch.take j)).length < 2 ^ 62 by omega)
    (width.trans_le few)
  have again := retry_iff rep short consecutive head found located lawful room small covers (count.trans_le inside.le)
  rw [List.length_append,width] at again
  rw [count] at same
  have kept : ∀ d < j, (batch.take j)[d]? = batch[d]? := fun d before => List.getElem?_take_of_lt before
  rw [Unchanged,same,again]
  constructor
  · rintro ⟨⟨repeats,rereads⟩,spare⟩
    refine ⟨?_,?_,spare⟩
    · intro d before within
      rw [← kept d before,repeats d before within]
    · intro old new stands comes
      cases entry.symm.trans comes
      exact rereads old stands
  · intro survives
    refine ⟨⟨?_,?_⟩,survives.spare⟩
    · intro d before within
      rw [kept d before,survives.repeats d before within]
    · intro old stands
      exact survives.rereads old e stands entry

-- A batch that leaves the log as it was repeats its end.
theorem appended_repeats (room : (k + batch.length) * 8 ≤ fileSize)
    (same : SameLog lib c (appended lib {c with cursor := place lib log k} k first last batch)) :
    batch = log.entries.drop k := by
  obtain ⟨opened,closed⟩ := placed_indices rep consecutive head found located room
    (appended lib {c with cursor := place lib log k} k first last batch) rfl rfl
  have ends := Option.some.inj (closed.symm.trans (same.last.trans rep.last))
  have near := place_fits rep k
  unfold fileSize at near
  apply List.ext_getElem?
  intro d
  rw [List.getElem?_drop]
  by_cases within : d < batch.length
  · have entry := List.getElem?_eq_getElem within
    have old := List.getElem?_eq_getElem (show k + d < log.entries.length by omega)
    have read := same.reads lawful rep.first rep.last (show log.snapshotIndex + 1 + (k + d) ≤ _ by omega)
    rw [rep.lays.getEntry lawful old,appended_new (placed_files rep short) room lawful
      (show place lib log k + _ < _ by omega) entry] at read
    split at read
    · rw [entry,old,read]
    · cases read
  · rw [List.getElem?_eq_none (by omega),List.getElem?_eq_none (by omega)]

-- A flush that fails leaves the batch in the log.
theorem flushed_unchanged_iff (done : c.appendLog lib batch = some after) :
    Unchanged lib c after batch ↔ log.append lib batch = log := by
  have entries := rep.numbered.append_entries head located
  obtain ⟨opens,closes⟩ := consecutive_ends consecutive head found
  constructor
  · rintro ⟨same,_⟩
    have run := append_run rep short head found located
    rw [done] at run
    split at run
    · rename_i room
      cases run
      have repeats := appended_repeats rep short consecutive head found located lawful small room same
      have whole : log.entries.take k ++ batch = log.entries := by rw [repeats,List.take_append_drop]
      exact append_same (entries.trans whole)
    · cases run
  · intro same
    have accepted : log.Accepts lib batch := by
      refine ⟨first,head,opens ▸ consecutive,?_,?_,?_⟩
      · rw [rep.numbered.firstIndex]
        omega
      · rw [rep.numbered.lastIndex]
        omega
      · rw [same]
        exact rep.lays.fits
    obtain ⟨next,finished,whole⟩ := rep.appendLog accepted
    rw [same] at whole
    cases done.symm.trans finished
    obtain ⟨final,again,rest⟩ := whole.appendLog accepted
    rw [same] at rest
    rw [Unchanged,done,again]
    exact ⟨represents_same lawful rep whole,.some (represents_same lawful whole rest)⟩

end Failed

-- Which failed appends leave the log as it was, and the append that is tried again right.
theorem failed_append_iff {lib : RaftLib Entry} {c after : DiskStorageCore} {log : MemLog Entry} {batch : List Entry}
    {n : ℕ} {fault : Fault} (lawful : lib.Lawful) (rep : Represents lib c log)
    (consecutive : batch.map lib.index = List.range' n batch.length) (small : (layout lib batch).length < 2 ^ 62)
    (failed : appendLogUnder lib (some fault) c batch = some (.err after)) :
    Unchanged lib c after batch ↔ Harmless lib c log batch fault := by
  obtain ⟨first,last,k,head,found,located,same,short,failed⟩ := appendLogUnder_err rep failed
  rcases appendEntriesUnder_err failed with ⟨reason,rfl⟩ | ⟨j,m,e,cursor,done,reason,entry,seek,loop,rfl⟩ | ⟨reason,done⟩
  · cases reason
    exact iff_of_true (unchanged_refl _ batch) trivial
  · cases reason
    rw [Harmless,← same]
    cases (rep.seekFrom k).symm.trans seek
    have run := writeEntries_run lib (c := {c with cursor := place lib log k}) (place_inside rep short).1 k (batch.take j)
    have room := run.symm.trans loop
    split at room
    · rename_i fits
      cases room
      rw [show ({c with cursor := place lib log k} : DiskStorageCore).offset = c.offset from rfl,rep.lays.mapped] at fits
      exact torn_unchanged_iff rep short consecutive head found located lawful small entry m.isLt.le fits
    · cases room
  · have finished := (appendLog_at rep.first rep.last head located short).trans done
    have flushed := flushed_unchanged_iff rep short consecutive head found located lawful small finished
    rcases reason with reason | reason
    · cases reason
      exact flushed
    · cases reason
      exact flushed

section Samples

-- An append that stops at the length of an entry.
theorem torn_reached {lib : RaftLib Entry} {c : DiskStorageCore} {log : MemLog Entry} {batch : List Entry} {first e : Entry}
    {j k : ℕ} (rep : Represents lib c log) (short : k ≤ log.entries.length) (head : batch.head? = some first)
    (located : lib.index first = log.snapshotIndex + 1 + k) (entry : batch[j]? = some e)
    (room : (k + j) * 8 ≤ fileSize) (m : Fin 8) : appendLogUnder lib (some (.writeLen j m)) c batch =
      some (.err (torn lib c log k (batch.take j) ((putU64 (lib.writeToBytes e).length).take m))) := by
  obtain ⟨within,_⟩ := List.getElem?_eq_some_iff.mp entry
  have loop := writeEntries_run lib (c := {c with cursor := place lib log k}) (place_inside rep short).1 k (batch.take j)
  rw [if_pos] at loop
  · have run : writeEntriesUnder lib (some (.writeLen (0 + j) m)) k {c with cursor := place lib log k} 0 batch = _ :=
      writeLen_run entry
    rw [Nat.zero_add,Nat.add_zero,loop] at run
    cases batch with
    | nil => cases head
    | cons top rest =>
      cases head
      have above : ¬lib.index first < log.snapshotIndex + 1 := by omega
      have below : ¬log.snapshotIndex + log.entries.length + 1 < lib.index first := by omega
      have diff : lib.index first - (log.snapshotIndex + 1) = k := by omega
      have seek : c.seekFrom k = some (place lib log k) := rep.seekFrom k
      simp only [appendLogUnder,rep.first,rep.last,Option.bind_eq_bind,Option.bind_some,if_neg above,if_neg below,diff,
        appendEntriesUnder,seek,List.head?_cons,List.getLast?_cons,run]
      rfl
  · right
    rw [List.length_take,Nat.min_eq_left within.le]
    exact room.trans_eq rep.lays.mapped.symm

def stored : List SmallEntry := [⟨2,2⟩,⟨3,3⟩]

theorem stored_represents :
    ∃ c, newWithConfState.appendAll smallLib [stored] = some c ∧ Represents smallLib c ⟨1,1,stored⟩ :=
  initial_represents.appendAll ⟨⟨⟨2,2⟩,rfl,by decide,by decide,by decide,by decide +kernel⟩,trivial⟩

-- The entry before the one that fails repeats the last of the log.
theorem failed_append_iff_repeats : ∃ c after, newWithConfState.appendAll smallLib [stored] = some c ∧
    appendLogUnder smallLib (some (.writeLen 1 3)) c [⟨3,3⟩,⟨4,4⟩] = some (.err after) ∧
    Unchanged smallLib c after [⟨3,3⟩,⟨4,4⟩] := by
  obtain ⟨c,reached,rep⟩ := stored_represents
  have failed : appendLogUnder smallLib (some (.writeLen 1 3)) c [⟨3,3⟩,⟨4,4⟩] =
      some (.err (torn smallLib c ⟨1,1,stored⟩ 1 [⟨3,3⟩] ((putU64 4).take 3))) :=
    torn_reached rep (by decide) rfl rfl rfl (by decide) 3
  refine ⟨c,_,reached,failed,(failed_append_iff smallLib_lawful rep (n := 3) (by decide) (by decide) failed).mpr ?_⟩
  refine ⟨by decide,?_,?_⟩
  · intro old new stands
    cases stands
  · intro full
    exact absurd full (by decide)

-- The entry that was written over is read in place of the old one, although the append
-- returned an error.
theorem failed_append_overwrites : ∃ c after, newWithConfState.appendAll smallLib [stored] = some c ∧
    appendLogUnder smallLib (some (.writeLen 1 0)) c [⟨3,5⟩,⟨4,5⟩] = some (.err after) ∧
    c.term smallLib 3 = some (.ok 3) ∧ after.term smallLib 3 = some (.ok 5) := by
  obtain ⟨c,reached,rep⟩ := stored_represents
  have failed : appendLogUnder smallLib (some (.writeLen 1 0)) c [⟨3,5⟩,⟨4,5⟩] =
      some (.err (torn smallLib c ⟨1,1,stored⟩ 1 [⟨3,5⟩] ((putU64 4).take 0))) :=
    torn_reached rep (by decide) rfl rfl rfl (by decide) 0
  refine ⟨c,_,reached,failed,(rep.term smallLib_lawful 3).trans (by decide),?_⟩
  have read : (torn smallLib c ⟨1,1,stored⟩ 1 [⟨3,5⟩] ((putU64 4).take 0)).getEntry smallLib (1 + 0) = some ⟨3,5⟩ :=
    (torn_read rep (by decide) smallLib_lawful (.inr (by decide)) (by decide) rfl).trans (by decide +kernel)
  obtain ⟨opened,_,count,snapshot⟩ : (torn smallLib c ⟨1,1,stored⟩ 1 [⟨3,5⟩] ((putU64 4).take 0)).firstIndex = c.firstIndex ∧ _ :=
    torn_frame.indices
  exact term_read (by rw [snapshot,rep.snapshot.1]; decide) (opened.trans rep.first) (by rw [count,rep.count]; decide) read

end Samples

end KompicsBenches.FailedAppends
