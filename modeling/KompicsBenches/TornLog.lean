import KompicsBenches.DiskFaults

namespace KompicsBenches.TornLog
open Wire ByteFile Segments DiskLog DiskLog.MemLog DiskRefine DiskFaults
variable {Entry : Type} {lib : RaftLib Entry}

section Observed
variable {c other : DiskStorageCore} {log : MemLog Entry} {i first last : ℕ}

-- Two storages that answer alike: the two indices, the term at every index, and the
-- entries of every range within the log.
structure SameLog (lib : RaftLib Entry) (c other : DiskStorageCore) : Prop where
  first : other.firstIndex = c.firstIndex
  last : other.lastIndex = c.lastIndex
  term : ∀ idx, other.term lib idx = c.term lib idx
  entries : ∀ low high first last, c.firstIndex = some first → c.lastIndex = some last → first ≤ low → low ≤ high →
    high ≤ last + 1 → other.entries lib low high none = c.entries lib low high none

theorem SameLog.refl (c : DiskStorageCore) : SameLog lib c c :=
  ⟨rfl,rfl,fun _ => rfl,fun _ _ _ _ _ _ _ _ _ => rfl⟩

theorem entries_within {low high : ℕ} (opened : c.firstIndex = some first) (closed : c.lastIndex = some last)
    (above : first ≤ low) (ordered : low ≤ high) (below : high ≤ last + 1) : c.entries lib low high none =
      ((List.range' (low - first) (high - low)).mapM (c.getEntry lib)).map fun ents => .ok (lib.limitSize ents none) := by
  have notBelow : ¬low < first := by omega
  have notAbove : ¬last + 1 < high := by omega
  have lo : checkedSub low first = some (low - first) := checkedSub_eq above
  have hi : checkedSub high first = some (high - first) := checkedSub_eq (by omega)
  have width : high - first - (low - first) = high - low := by omega
  simp only [DiskStorageCore.entries,opened,closed,Option.bind_eq_bind,Option.bind_some,if_neg notBelow,if_neg notAbove,
    lo,hi,width]
  rw [Option.map_eq_bind]
  rfl

-- What is observed of the entries is what each of them reads.
theorem SameLog.reads (lawful : lib.Lawful) (same : SameLog lib c other) (opened : c.firstIndex = some first)
    (closed : c.lastIndex = some last) (inside : first + i ≤ last) : other.getEntry lib i = c.getEntry lib i := by
  have single := same.entries (first + i) (first + i + 1) first last opened closed (by omega) (by omega) (by omega)
  rw [entries_within opened closed (by omega) (by omega) (by omega),
    entries_within (same.first.trans opened) (same.last.trans closed) (by omega) (by omega) (by omega),
    Nat.add_sub_cancel_left,Nat.add_sub_cancel_left] at single
  simp only [List.range'_one,List.mapM_cons,List.mapM_nil,lawful.unlimited,Option.bind_eq_bind,Option.pure_def] at single
  cases left : other.getEntry lib i with
  | none => cases right : c.getEntry lib i with
    | none => rfl
    | some e => simp [left,right] at single
  | some d => cases right : c.getEntry lib i with
    | none => simp [left,right] at single
    | some e => simpa [left,right] using single

theorem term_read {e : Entry} (other : first + i ≠ c.snapshotIndex) (opened : c.firstIndex = some first)
    (inside : i < c.numEntries) (read : c.getEntry lib i = some e) : c.term lib (first + i) = some (.ok (lib.term e)) := by
  have above : ¬first + i < first := by omega
  have below : ¬c.numEntries ≤ i := by omega
  rw [DiskStorageCore.term,if_neg other]
  simp only [opened,Option.bind_eq_bind,Option.bind_some,if_neg above,Nat.add_sub_cancel_left,if_neg below,read]
  rfl

theorem mapM_reads {low count : ℕ} (reads : ∀ i, i < low + count → other.getEntry lib i = c.getEntry lib i) :
    (List.range' low count).mapM (other.getEntry lib) = (List.range' low count).mapM (c.getEntry lib) := by
  induction count generalizing low with
  | zero => rfl
  | succ count ih =>
    rw [List.range'_succ,List.mapM_cons,List.mapM_cons,reads low (by omega),ih fun i inside => reads i (by omega)]

theorem sameLog_of (opened : c.firstIndex = some first) (closed : c.lastIndex = some last)
    (width : last + 1 = first + c.numEntries) (map : other.raftMetadata = c.raftMetadata)
    (count : other.numEntries = c.numEntries) (index : other.snapshotIndex = c.snapshotIndex)
    (term : other.snapshotTerm = c.snapshotTerm)
    (reads : ∀ i < c.numEntries, other.getEntry lib i = c.getEntry lib i) : SameLog lib c other := by
  have opens := firstIndex_congr map index
  have closes := lastIndex_congr map index
  refine ⟨opens,closes,?_,?_⟩
  · intro idx
    unfold DiskStorageCore.term
    rw [index,term,opens,count]
    simp only [opened,Option.bind_eq_bind,Option.bind_some]
    split
    · rfl
    · split
      · rfl
      · split
        · rfl
        · rename_i inside
          rw [reads _ (by omega)]
  · intro low high first' last' opened' closed' above ordered below
    cases opened.symm.trans opened'
    cases closed.symm.trans closed'
    rw [entries_within opened closed above ordered below,
      entries_within (opens.trans opened) (closes.trans closed) above ordered below,mapM_reads]
    intro i inside
    exact reads i (by omega)

theorem represents_same (lawful : lib.Lawful) (rep : Represents lib c log) (rep' : Represents lib other log) :
    SameLog lib c other := by
  refine ⟨rep'.first.trans rep.first.symm,rep'.last.trans rep.last.symm,?_,?_⟩
  · intro idx
    rw [rep.term lawful,rep'.term lawful]
  · intro low high first last opened closed above ordered below
    cases rep.first.symm.trans opened
    cases rep.last.symm.trans closed
    rw [← rep.numbered.firstIndex] at above
    rw [← rep.numbered.lastIndex] at below
    rw [rep.range lawful above ordered below,rep'.range lawful above ordered below]

end Observed

section Torn
variable {c : DiskStorageCore} {log : MemLog Entry} {batch kept : List Entry} {part : List UInt8} {e : Entry}
  {i k d start : ℕ}

-- The map of offsets covers its file, the log is at least as long as its map, and the
-- cursor is within the log.
structure Files (c : DiskStorageCore) : Prop where
  mapped : c.offset.length = fileSize
  sized : fileSize ≤ c.log.length
  inside : c.cursor ≤ c.log.length

-- An entry and its place, wherever they are.
structure Stands (lib : RaftLib Entry) (c : DiskStorageCore) (i : ℕ) (e : Entry) (start : ℕ) : Prop where
  place : Holds c.offset (i * 8) (putU64 start)
  record : Holds c.log start (recorded lib e)

theorem Stands.read (lawful : lib.Lawful) (stands : Stands lib c i e start) (files : Files c)
    (near : start + (recorded lib e).length < 2 ^ 64) :
    c.getEntry lib i = if start + (recorded lib e).length ≤ fileSize then some e else none :=
  getEntry_at lawful files.mapped files.sized stands.place stands.record near

-- Writes from the cursor on, for entries from a number on, keep what stands before both.
theorem Stands.written (stands : Stands lib c i e start) (before : i < k) (behind : start + (recorded lib e).length ≤ c.cursor)
    (inside : c.cursor ≤ c.log.length) (room : k * 8 ≤ c.offset.length) : Stands lib (written lib c k batch) i e start := by
  refine ⟨stands.place.apart room (.inl ?_),stands.record.apart inside (.inl behind)⟩
  rw [putU64_length]
  omega

theorem Stands.writeSome (stands : Stands lib c i e start) (behind : start + (recorded lib e).length ≤ c.cursor)
    (inside : c.cursor ≤ c.log.length) : Stands lib (writeSome c part) i e start :=
  ⟨stands.place,stands.record.apart inside (.inl behind)⟩

theorem written_stands (inside : c.cursor ≤ c.log.length) (room : k * 8 ≤ c.offset.length) (found : batch[d]? = some e) :
    Stands lib (written lib c k batch) (k + d) e (c.cursor + (layout lib (batch.take d)).length) :=
  ⟨written_place lib room found,written_record lib inside found⟩

theorem layout_take_succ (found : batch[d]? = some e) : (layout lib (batch.take (d + 1))).length =
    (layout lib (batch.take d)).length + (recorded lib e).length := by
  obtain ⟨inside,value⟩ := List.getElem?_eq_some_iff.mp found
  rw [← List.take_append_getElem inside,value,layout_append,layout_single,List.length_append]

-- Where the entry with a number stands.
def place (lib : RaftLib Entry) (log : MemLog Entry) (i : ℕ) : ℕ := (layout lib (log.entries.take i)).length

theorem place_succ (found : log.entries[i]? = some e) : place lib log (i + 1) = place lib log i + (recorded lib e).length :=
  layout_take_succ found

theorem place_mono {a b : ℕ} (ordered : a ≤ b) : place lib log a ≤ place lib log b := by
  have inner := layout_take_le lib (log.entries.take b) a
  rwa [List.take_take,Nat.min_eq_left ordered] at inner

-- The storage after the length of an entry was written in part: the batch up to that
-- entry stands where the batch was to go, and the part behind it.
def torn (lib : RaftLib Entry) (c : DiskStorageCore) (log : MemLog Entry) (k : ℕ) (kept : List Entry)
    (part : List UInt8) : DiskStorageCore := writeSome (written lib {c with cursor := place lib log k} k kept) part

theorem torn_frame : Frame c (torn lib c log k kept part) := rfl

theorem Lays.stands (lays : Lays lib c log.entries) (found : log.entries[i]? = some e) :
    Stands lib c i e (place lib log i) := by
  obtain ⟨inside,_⟩ := List.getElem?_eq_some_iff.mp found
  exact ⟨lays.offsets i inside,(lays.record found).1⟩

variable (rep : Represents lib c log)
include rep

theorem place_fits (i : ℕ) : place lib log i ≤ fileSize :=
  Nat.le_trans (layout_take_le lib log.entries i) rep.lays.fits

variable (short : k ≤ log.entries.length)
include short

theorem place_inside : place lib log k ≤ c.log.length ∧ k * 8 ≤ c.offset.length := by
  have fits := rep.lays.fits
  have room := layout_room lib log.entries
  rw [rep.lays.sized,rep.lays.mapped]
  exact ⟨place_fits rep k,by omega⟩

theorem torn_log (kept : List Entry) (part : List UInt8) :
    (torn lib c log k kept part).log = write c.log (place lib log k) (layout lib kept ++ part) :=
  write_append (place_inside rep short).1

theorem placed_files : Files {c with cursor := place lib log k} :=
  ⟨rep.lays.mapped,rep.lays.sized.ge,(place_inside rep short).1⟩

theorem torn_files (part : List UInt8) (room : kept = [] ∨ (k + kept.length) * 8 ≤ fileSize) :
    Files (torn lib c log k kept part) := by
  refine ⟨?_,?_,(holds_write (holds_write (place_inside rep short).1).bound).bound⟩
  · show (write c.offset (k * 8) (places lib (place lib log k) kept)).length = fileSize
    rcases room with rfl | room
    · rw [places,write_nil,rep.lays.mapped]
    · rw [length_write,rep.lays.mapped]
      rw [places_length,rep.lays.mapped]
      omega
  · rw [torn_log rep short,← rep.lays.sized]
    exact length_le_write

theorem torn_front (before : i < k) (found : log.entries[i]? = some e) :
    Stands lib (torn lib c log k kept part) i e (place lib log i) := by
  obtain ⟨inside,room⟩ := place_inside rep short
  have behind : place lib log i + (recorded lib e).length ≤ place lib log k := by
    rw [← place_succ found]
    exact place_mono before
  obtain ⟨offset,record⟩ := Lays.stands rep.lays found
  have moved : Stands lib {c with cursor := place lib log k} i e (place lib log i) := ⟨offset,record⟩
  exact (moved.written before behind inside room).writeSome (Nat.le_trans behind (Nat.le_add_right _ _))
    (holds_write inside).bound

theorem torn_new {b : Entry} (found : kept[d]? = some b) :
    Stands lib (torn lib c log k kept part) (k + d) b (place lib log k + (layout lib (kept.take d)).length) := by
  obtain ⟨inside,room⟩ := place_inside rep short
  have stands : Stands lib (written lib {c with cursor := place lib log k} k kept) (k + d) b
      (place lib log k + (layout lib (kept.take d)).length) := written_stands inside room found
  have behind := layout_take_le lib kept (d + 1)
  rw [layout_take_succ found] at behind
  have within : place lib log k + (layout lib (kept.take d)).length + (recorded lib b).length ≤
      place lib log k + (layout lib kept).length := by omega
  exact stands.writeSome within (holds_write inside).bound

omit rep short in
-- Where the kept entries are those of the log, they are at the same places.
theorem agree_place (agree : ∀ d < kept.length, k + d < log.entries.length → kept[d]? = log.entries[k + d]?)
    (inside : d ≤ kept.length) (within : k + d ≤ log.entries.length) :
    place lib log k + (layout lib (kept.take d)).length = place lib log (k + d) := by
  have same : (log.entries.drop k).take d = kept.take d := by
    apply List.ext_getElem?
    intro i
    rw [List.getElem?_take,List.getElem?_take]
    split
    · rw [List.getElem?_drop,agree i (by omega) (by omega)]
    · rfl
  rw [place,place,List.take_add,same,layout_append,List.length_append]

omit rep short in
theorem agree_whole (agree : ∀ d < kept.length, k + d < log.entries.length → kept[d]? = log.entries[k + d]?)
    (within : k + kept.length ≤ log.entries.length) :
    place lib log k + (layout lib kept).length = place lib log (k + kept.length) := by
  have same : place lib log k + (layout lib (kept.take kept.length)).length = place lib log (k + kept.length) :=
    agree_place agree (Nat.le_refl _) within
  rwa [List.take_length] at same

section Behind
variable {old : Entry} (whole : place lib log k + (layout lib kept).length = place lib log (k + kept.length))
  (few : part.length ≤ 8) (found : log.entries[k + kept.length]? = some old)
include whole few found

-- The part stands in the length of the entry that comes next, and nothing behind it changes.
theorem torn_later (after : k + kept.length < i) (later : log.entries[i]? = some e) :
    Stands lib (torn lib c log k kept part) i e (place lib log i) := by
  obtain ⟨inside,room⟩ := place_inside rep short
  obtain ⟨offset,record⟩ := Lays.stands rep.lays later
  refine ⟨offset.apart room (.inr ?_),?_⟩
  · rw [places_length]
    omega
  · rw [torn_log rep short]
    apply record.apart inside
    right
    have next : place lib log (k + kept.length + 1) ≤ place lib log i := place_mono after
    rw [place_succ found,recorded_length] at next
    rw [List.length_append]
    omega

-- The eight bytes of that length, new and old, and what lies behind them.
theorem torn_bytes :
    Holds (torn lib c log k kept part).log (place lib log (k + kept.length))
        (part ++ (putU64 (lib.writeToBytes old).length).drop part.length) ∧
      ∀ stop, slice (torn lib c log k kept part).log (place lib log (k + kept.length) + 8) stop =
        slice c.log (place lib log (k + kept.length) + 8) stop := by
  obtain ⟨inside,_⟩ := place_inside rep short
  have record := (Lays.stands rep.lays found).record
  have bound := record.bound
  rw [recorded_length] at bound
  rw [torn_log rep short]
  refine ⟨holds_append.mpr ⟨?_,?_⟩,?_⟩
  · have both : Holds (write c.log (place lib log k) (layout lib kept ++ part)) (place lib log k)
      (layout lib kept ++ part) := holds_write inside
    rw [← whole]
    exact (holds_append.mp both).2
  · rw [recorded,holds_append] at record
    have parts := record.1
    rw [← List.take_append_drop part.length (putU64 (lib.writeToBytes old).length),holds_append,List.length_take,
      putU64_length,Nat.min_eq_left few] at parts
    apply parts.2.apart inside
    right
    rw [List.length_append]
    omega
  · intro stop
    apply slice_apart
    · rw [List.length_append]
      omega
    · right
      rw [List.length_append]
      omega

-- That entry is read by a length of which the first bytes are new.
theorem torn_at (room : kept = [] ∨ (k + kept.length) * 8 ≤ fileSize) :
    (torn lib c log k kept part).getEntry lib (k + kept.length) =
      (fromBeBytes (part ++ (putU64 (lib.writeToBytes old).length).drop part.length)).bind fun length =>
        (slice (memMap c.log) (place lib log (k + kept.length) + 8)
          (place lib log (k + kept.length) + 8 + length)).bind lib.parseFromBytes := by
  obtain ⟨offset,record⟩ := Lays.stands rep.lays found
  obtain ⟨length,behind⟩ := torn_bytes rep short whole few found
  have files := torn_files rep short part room
  have bound := record.bound
  rw [recorded_length,rep.lays.sized] at bound
  have small := fileSize_fits bound
  have stays : Holds (torn lib c log k kept part).offset ((k + kept.length) * 8)
      (putU64 (place lib log (k + kept.length))) := by
    apply offset.apart (place_inside rep short).2
    right
    rw [places_length]
    omega
  have seek := getLogOffset_at files.mapped stays (by omega)
  rw [Holds,List.length_append,List.length_drop,putU64_length,Nat.add_sub_cancel' few] at length
  simp only [DiskStorageCore.getEntry,seek,memMap_slice files.sized,memMap_slice rep.lays.sized.ge,behind,
    Option.bind_eq_bind,Option.bind_some,length]
  rw [if_pos (by omega),Option.bind_some]

end Behind

-- What the partly written length of an entry reads back, if it is the length of an entry
-- of the log: the first bytes are new, the others stay.
def Rereads (lib : RaftLib Entry) (c : DiskStorageCore) (start : ℕ) (part : List UInt8) (old : Entry) : Prop :=
  ((fromBeBytes (part ++ (putU64 (lib.writeToBytes old).length).drop part.length)).bind fun length =>
    (slice (memMap c.log) (start + 8) (start + 8 + length)).bind lib.parseFromBytes) = some old

theorem torn_old (lawful : lib.Lawful) (room : kept = [] ∨ (k + kept.length) * 8 ≤ fileSize)
    (found : log.entries[i]? = some e) (stands : Stands lib (torn lib c log k kept part) i e (place lib log i)) :
    (torn lib c log k kept part).getEntry lib i = some e := by
  have fits := (rep.lays.record found).2
  have small := fileSize_fits fits
  have near : place lib log i + (recorded lib e).length < 2 ^ 64 := by
    unfold place
    omega
  exact (stands.read lawful (torn_files rep short part room) near).trans (if_pos fits)

theorem torn_read (lawful : lib.Lawful) (room : kept = [] ∨ (k + kept.length) * 8 ≤ fileSize)
    (small : (layout lib kept).length < 2 ^ 62) {b : Entry} (found : kept[d]? = some b) :
    (torn lib c log k kept part).getEntry lib (k + d) =
      if place lib log k + (layout lib (kept.take d)).length + (recorded lib b).length ≤ fileSize then some b else none := by
  have behind := layout_take_le lib kept (d + 1)
  rw [layout_take_succ found] at behind
  have near := place_fits rep k
  unfold fileSize at near
  exact (torn_new rep short found).read lawful (torn_files rep short part room) (by omega)

variable (lawful : lib.Lawful) (room : kept = [] ∨ (k + kept.length) * 8 ≤ fileSize)
  (small : (layout lib kept).length < 2 ^ 62) (few : part.length ≤ 8)
include lawful room small few

theorem torn_agrees (reads : ∀ i < log.entries.length, (torn lib c log k kept part).getEntry lib i = log.entries[i]?) :
    (∀ d < kept.length, k + d < log.entries.length → kept[d]? = log.entries[k + d]?) ∧
      ∀ old, log.entries[k + kept.length]? = some old → Rereads lib c (place lib log (k + kept.length)) part old := by
  have agree : ∀ d < kept.length, k + d < log.entries.length → kept[d]? = log.entries[k + d]? := by
    intro d inside within
    have found := List.getElem?_eq_getElem inside
    have read : (torn lib c log k kept part).getEntry lib (k + d) = _ := torn_read rep short lawful room small found
    rw [reads _ within,List.getElem?_eq_getElem within] at read
    rw [found,List.getElem?_eq_getElem within]
    split at read
    · exact read.symm
    · cases read
  refine ⟨agree,?_⟩
  intro old found
  obtain ⟨within,_⟩ := List.getElem?_eq_some_iff.mp found
  exact (torn_at rep short (agree_whole agree within.le) few found room).symm.trans ((reads _ within).trans found)

-- Before the batch, in it, at the length that was written in part, and behind it.
theorem torn_reads (agree : ∀ d < kept.length, k + d < log.entries.length → kept[d]? = log.entries[k + d]?)
    (rereads : ∀ old, log.entries[k + kept.length]? = some old → Rereads lib c (place lib log (k + kept.length)) part old)
    (inside : i < log.entries.length) (found : log.entries[i]? = some e) :
    (torn lib c log k kept part).getEntry lib i = some e := by
  rcases Nat.lt_or_ge i k with before | after
  · exact torn_old rep short lawful room found (torn_front rep short before found)
  · obtain ⟨d,rfl⟩ := Nat.exists_eq_add_of_le after
    rcases Nat.lt_trichotomy d kept.length with within | rfl | behind
    · have same := (agree d within inside).trans found
      have fits := (rep.lays.record found).2
      have start : place lib log k + (layout lib (kept.take d)).length = place lib log (k + d) :=
        agree_place agree within.le inside.le
      rw [torn_read rep short lawful room small same,start]
      exact if_pos fits
    · exact (torn_at rep short (agree_whole agree inside.le) few found room).trans (rereads _ found)
    · have next := List.getElem?_eq_getElem (show k + kept.length < log.entries.length by omega)
      have whole : place lib log k + (layout lib kept).length = place lib log (k + kept.length) :=
        agree_whole agree (by omega)
      exact torn_old rep short lawful room found (torn_later rep short whole few next (by omega) found)

-- The log reads as before if and only if the batch repeats what it writes over, and the
-- length that was written in part counts the same bytes or others that parse alike.
theorem torn_same_iff : SameLog lib c (torn lib c log k kept part) ↔
    (∀ d < kept.length, k + d < log.entries.length → kept[d]? = log.entries[k + d]?) ∧
      ∀ old, log.entries[k + kept.length]? = some old → Rereads lib c (place lib log (k + kept.length)) part old := by
  constructor
  · intro same
    apply torn_agrees rep short lawful room small few
    intro i inside
    have found := List.getElem?_eq_getElem inside
    rw [same.reads lawful rep.first rep.last (by omega),found]
    exact rep.lays.getEntry lawful found
  · rintro ⟨agree,rereads⟩
    refine sameLog_of rep.first rep.last ?_ rfl rfl rfl rfl ?_
    · rw [rep.count]
      omega
    · intro i inside
      rw [rep.count] at inside
      have found := List.getElem?_eq_getElem inside
      rw [rep.lays.getEntry lawful found]
      exact torn_reads rep short lawful room small few agree rereads inside found

end Torn

end KompicsBenches.TornLog
