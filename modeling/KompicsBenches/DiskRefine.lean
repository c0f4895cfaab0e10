import KompicsBenches.DiskLog

namespace KompicsBenches.DiskRefine
open Wire ByteFile Segments DiskLog DiskLog.MemLog
variable {Entry : Type} {lib : RaftLib Entry} {c next : DiskStorageCore} {log : MemLog Entry}
  {entries kept batch : List Entry} {first e : Entry} {i k : ℕ}

section Layout
variable (lib)

theorem layout_append (kept batch : List Entry) :
    layout lib (kept ++ batch) = layout lib kept ++ layout lib batch :=
  List.flatMap_append

theorem layout_single (e : Entry) : layout lib [e] = recorded lib e := by
  rw [layout,List.flatMap_cons,List.flatMap_nil,List.append_nil]

theorem recorded_length (e : Entry) :
    (recorded lib e).length = 8 + (lib.writeToBytes e).length := by
  rw [recorded,List.length_append,putU64_length]

-- Every entry takes at least the eight bytes of its length, so that the offsets fit
-- wherever the entries do.
theorem layout_room (entries : List Entry) : entries.length * 8 ≤ (layout lib entries).length := by
  induction entries with
  | nil => exact Nat.zero_le _
  | cons e entries ih =>
    rw [layout,List.flatMap_cons,List.length_append,recorded_length,List.length_cons]
    unfold layout at ih
    omega

theorem layout_split (found : entries[i]? = some e) :
    layout lib entries =
      layout lib (entries.take i) ++ (recorded lib e ++ layout lib (entries.drop (i + 1))) := by
  obtain ⟨inside,value⟩ := List.getElem?_eq_some_iff.mp found
  have parts : entries = entries.take i ++ ([e] ++ entries.drop (i + 1)) := by
    rw [← value,List.singleton_append,List.getElem_cons_drop,List.take_append_drop]
  rw [← layout_single lib e,← layout_append,← layout_append,← parts]

theorem layout_take_le (entries : List Entry) (k : ℕ) :
    (layout lib (entries.take k)).length ≤ (layout lib entries).length := by
  have parts := layout_append lib (entries.take k) (entries.drop k)
  rw [List.take_append_drop] at parts
  rw [parts,List.length_append]
  exact Nat.le_add_right _ _

end Layout

theorem fileSize_fits {n : ℕ} (below : n ≤ fileSize) : n + 2 < 2 ^ 64 := by
  unfold fileSize at below
  omega

theorem memMap_eq {file : List UInt8} (sized : file.length = fileSize) : memMap file = file := by
  rw [memMap,← sized,List.take_length]

theorem memMap_slice {file : List UInt8} {start stop : ℕ} (sized : fileSize ≤ file.length) :
    slice (memMap file) start stop = if stop ≤ fileSize then slice file start stop else none := by
  have length : (file.take fileSize).length = fileSize := by rw [List.length_take,Nat.min_eq_left sized]
  unfold slice memMap
  rw [length]
  by_cases near : stop ≤ fileSize
  · rw [if_pos near,List.take_take,Nat.min_eq_left near]
    by_cases ordered : start ≤ stop
    · rw [if_pos ⟨ordered,near⟩,if_pos ⟨ordered,Nat.le_trans near sized⟩]
    · rw [if_neg fun both => ordered both.1,if_neg fun both => ordered both.1]
  · rw [if_neg near,if_neg fun both => near both.2]

theorem getLogOffset_at {start : ℕ} (mapped : c.offset.length = fileSize)
    (placed : Holds c.offset (i * 8) (putU64 start)) (near : start < 2 ^ 64) : c.getLogOffset i = some start := by
  rw [Holds,putU64_length] at placed
  rw [DiskStorageCore.getLogOffset,memMap_eq mapped,placed]
  exact fromBeBytes_put near

-- An entry is read wherever it stands, if the map of the log covers it.
theorem getEntry_at {start : ℕ} (lawful : lib.Lawful) (mapped : c.offset.length = fileSize)
    (sized : fileSize ≤ c.log.length) (placed : Holds c.offset (i * 8) (putU64 start))
    (held : Holds c.log start (recorded lib e)) (near : start + (recorded lib e).length < 2 ^ 64) :
    c.getEntry lib i = if start + (recorded lib e).length ≤ fileSize then some e else none := by
  rw [recorded_length] at near ⊢
  rw [recorded,holds_append,putU64_length] at held
  obtain ⟨length,bytes⟩ := held
  rw [Holds,putU64_length] at length
  rw [Holds] at bytes
  have offset := getLogOffset_at mapped placed (by omega)
  have word : fromBeBytes (putU64 (lib.writeToBytes e).length) = some (lib.writeToBytes e).length :=
    fromBeBytes_put (by omega)
  simp only [DiskStorageCore.getEntry,offset,memMap_slice sized,Option.bind_eq_bind,Option.bind_some,length]
  by_cases first : start + 8 ≤ fileSize
  · rw [if_pos first,Option.bind_some,word,Option.bind_some]
    by_cases second : start + (8 + (lib.writeToBytes e).length) ≤ fileSize
    · rw [if_pos second,if_pos (by omega),bytes,Option.bind_some,lawful.parse_write]
    · rw [if_neg second,if_neg (by omega),Option.bind_none]
  · rw [if_neg first,if_neg (by omega),Option.bind_none]

section Loop
variable (lib)

-- The places of entries that are written one behind the other.
def places : ℕ → List Entry → List UInt8
  | _,[] => []
  | pos,e :: entries => putU64 pos ++ places (pos + (recorded lib e).length) entries

@[simp] theorem places_length (pos : ℕ) (entries : List Entry) :
    (places lib pos entries).length = entries.length * 8 := by
  induction entries generalizing pos with
  | nil => rfl
  | cons e entries ih =>
    rw [places,List.length_append,putU64_length,ih,List.length_cons]
    omega

theorem places_append (pos : ℕ) (kept batch : List Entry) :
    places lib pos (kept ++ batch) = places lib pos kept ++ places lib (pos + (layout lib kept).length) batch := by
  induction kept generalizing pos with
  | nil => rfl
  | cons e kept ih =>
    rw [List.cons_append,places,places,ih,List.append_assoc,Nat.add_assoc,← List.length_append]
    rfl

theorem places_split (pos : ℕ) (found : entries[i]? = some e) : places lib pos entries =
    places lib pos (entries.take i) ++ (putU64 (pos + (layout lib (entries.take i)).length) ++
      places lib (pos + (layout lib (entries.take (i + 1))).length) (entries.drop (i + 1))) := by
  obtain ⟨inside,value⟩ := List.getElem?_eq_some_iff.mp found
  have parts : entries = entries.take i ++ e :: entries.drop (i + 1) := by
    rw [← value,List.getElem_cons_drop,List.take_append_drop]
  have width : (layout lib (entries.take (i + 1))).length =
      (layout lib (entries.take i)).length + (recorded lib e).length := by
    rw [← List.take_append_getElem inside,value,layout_append,layout_single,List.length_append]
  rw [width,← Nat.add_assoc]
  conv_lhs => rw [parts,places_append,places]

-- What the loop leaves behind, entry behind entry from the cursor on.
def written (c : DiskStorageCore) (k : ℕ) (entries : List Entry) : DiskStorageCore :=
  {c with
    log := write c.log c.cursor (layout lib entries)
    cursor := c.cursor + (layout lib entries).length
    offset := write c.offset (k * 8) (places lib c.cursor entries)}

theorem writeEntry_run (inside : c.cursor ≤ c.log.length) (k : ℕ) (e : Entry) :
    c.writeEntry lib k e = if (k + 1) * 8 ≤ c.offset.length then some (written lib c k [e]) else none := by
  have length := putU64_length (lib.writeToBytes e).length
  have log : write (write c.log c.cursor (putU64 (lib.writeToBytes e).length)) (c.cursor + 8) (lib.writeToBytes e) =
      write c.log c.cursor (layout lib [e]) := by
    have joined : write (write c.log c.cursor (putU64 (lib.writeToBytes e).length))
        (c.cursor + (putU64 (lib.writeToBytes e).length).length) (lib.writeToBytes e) =
          write c.log c.cursor (recorded lib e) := write_append inside
    rw [length] at joined
    rw [joined,layout_single]
  split
  · rename_i room
    have fits : k * 8 + (putU64 c.cursor).length ≤ c.offset.length := by
      rw [putU64_length]
      omega
    simp only [DiskStorageCore.writeEntry,overwrite_write fits,Option.bind_eq_bind,Option.bind_some,log]
    rw [written,layout_single,recorded_length,Nat.add_assoc,places,places,List.append_nil]
    rfl
  · rename_i full
    cases done : overwrite c.offset (k * 8) (putU64 c.cursor) with
    | none => simp only [DiskStorageCore.writeEntry,done,Option.bind_eq_bind,Option.bind_none]
    | some out =>
      have fits := overwrite_fits done (List.ne_nil_of_length_pos (by rw [putU64_length]; decide))
      rw [putU64_length] at fits
      omega

theorem written_cons (inside : c.cursor ≤ c.log.length) {k : ℕ} (room : (k + 1) * 8 ≤ c.offset.length) (e : Entry)
    (entries : List Entry) : written lib (written lib c k [e]) (k + 1) entries = written lib c k (e :: entries) := by
  have front : places lib c.cursor [e] = putU64 c.cursor := by rw [places,places,List.append_nil]
  have start : (k + 1) * 8 = k * 8 + (putU64 c.cursor).length := by
    rw [putU64_length]
    omega
  have cursor : c.cursor + (layout lib [e]).length = c.cursor + (recorded lib e).length := by rw [layout_single]
  rw [written,written,written]
  dsimp only
  rw [write_append inside,← layout_append,List.singleton_append,front,start,write_append (by omega),cursor,
    ← places,Nat.add_assoc,← List.length_append,← layout_single lib e,← layout_append,List.singleton_append]

-- The loop goes through as long as the map of offsets has room.
theorem writeEntries_run (inside : c.cursor ≤ c.log.length) (k : ℕ) (entries : List Entry) :
    c.writeEntries lib k entries =
      if entries = [] ∨ (k + entries.length) * 8 ≤ c.offset.length then some (written lib c k entries) else none := by
  induction entries generalizing c k with
  | nil =>
    rw [if_pos (.inl rfl),DiskStorageCore.writeEntries,written,layout,places,List.flatMap_nil,write_nil,write_nil]
    rfl
  | cons e entries ih =>
    rw [DiskStorageCore.writeEntries,writeEntry_run lib inside,List.length_cons]
    by_cases room : (k + 1) * 8 ≤ c.offset.length
    · have length : (written lib c k [e]).offset.length = c.offset.length := by
        apply length_write
        rw [places_length,List.length_singleton]
        omega
      have further : (written lib c k [e]).cursor ≤ (written lib c k [e]).log.length := (holds_write inside).bound
      have same : (entries = [] ∨ (k + 1 + entries.length) * 8 ≤ c.offset.length) ↔
          (e :: entries = [] ∨ (k + (entries.length + 1)) * 8 ≤ c.offset.length) := by
        rw [or_iff_right (List.cons_ne_nil e entries),show k + 1 + entries.length = k + (entries.length + 1) by omega]
        refine or_iff_right_of_imp ?_
        rintro rfl
        exact room
      rw [if_pos room,Option.bind_eq_bind,Option.bind_some,ih further,length,written_cons lib inside room,if_congr same rfl rfl]
    · rw [if_neg room,if_neg]
      · rfl
      · rw [or_iff_right (List.cons_ne_nil e entries)]
        omega

variable {d : ℕ}

theorem written_place (inside : k * 8 ≤ c.offset.length) (found : batch[d]? = some e) :
    Holds (written lib c k batch).offset ((k + d) * 8) (putU64 (c.cursor + (layout lib (batch.take d)).length)) := by
  obtain ⟨within,_⟩ := List.getElem?_eq_some_iff.mp found
  have stored : Holds (written lib c k batch).offset (k * 8) (places lib c.cursor batch) := holds_write inside
  rw [places_split lib c.cursor found,holds_append,holds_append,places_length,List.length_take,
    Nat.min_eq_left within.le,← Nat.add_mul] at stored
  exact stored.2.1

theorem written_record (inside : c.cursor ≤ c.log.length) (found : batch[d]? = some e) :
    Holds (written lib c k batch).log (c.cursor + (layout lib (batch.take d)).length) (recorded lib e) := by
  have stored : Holds (written lib c k batch).log c.cursor (layout lib batch) := holds_write inside
  rw [layout_split lib found,holds_append,holds_append] at stored
  exact stored.2.1

end Loop

section Entries

-- The entries stand one behind the other from the start of the log file, the cursor
-- stands behind the last of them, and each has its place in the map of offsets.
-- What lies behind is left over from entries that were replaced.
structure Lays (lib : RaftLib Entry) (c : DiskStorageCore) (entries : List Entry) : Prop where
  sized : c.log.length = fileSize
  mapped : c.offset.length = fileSize
  cursor : c.cursor = (layout lib entries).length
  held : Holds c.log 0 (layout lib entries)
  offsets : ∀ i, i < entries.length →
    Holds c.offset (i * 8) (putU64 (layout lib (entries.take i)).length)

theorem Lays.fits (lays : Lays lib c entries) : (layout lib entries).length ≤ fileSize := by
  have bound := lays.held.bound
  rw [lays.sized] at bound
  omega

theorem Lays.getLogOffset (lays : Lays lib c entries) (inside : i < entries.length) :
    c.getLogOffset i = some (layout lib (entries.take i)).length := by
  have small := fileSize_fits (Nat.le_trans (layout_take_le lib entries i) lays.fits)
  exact getLogOffset_at lays.mapped (lays.offsets i inside) (by omega)

theorem Lays.record (lays : Lays lib c entries) (found : entries[i]? = some e) :
    Holds c.log (layout lib (entries.take i)).length (recorded lib e) ∧
      (layout lib (entries.take i)).length + (recorded lib e).length ≤ fileSize := by
  have held := lays.held
  have room := lays.fits
  rw [layout_split lib found,List.length_append,List.length_append] at room
  rw [layout_split lib found,holds_append,holds_append,Nat.zero_add] at held
  exact ⟨held.2.1,by omega⟩

theorem Lays.getEntry (lawful : lib.Lawful) (lays : Lays lib c entries)
    (found : entries[i]? = some e) : c.getEntry lib i = some e := by
  obtain ⟨inside,_⟩ := List.getElem?_eq_some_iff.mp found
  obtain ⟨held,room⟩ := lays.record found
  have small := fileSize_fits room
  rw [getEntry_at lawful lays.mapped lays.sized.ge (lays.offsets i inside) held (by omega),if_pos room]

theorem Lays.back (lays : Lays lib c entries) (k : ℕ) :
    Lays lib {c with cursor := (layout lib (entries.take k)).length} (entries.take k) := by
  have parts := layout_append lib (entries.take k) (entries.drop k)
  rw [List.take_append_drop] at parts
  have held := lays.held
  rw [parts,holds_append] at held
  refine ⟨lays.sized,lays.mapped,rfl,held.1,?_⟩
  intro i inside
  rw [List.length_take] at inside
  rw [List.take_take,Nat.min_eq_left (by omega)]
  exact lays.offsets i (by omega)

-- A write changes the log, its cursor and the offsets, and nothing else.
def Frame (c next : DiskStorageCore) : Prop :=
  next = {c with log := next.log, cursor := next.cursor, offset := next.offset}

-- The loop adds a batch behind what is laid out already.
theorem Lays.writeEntries (lays : Lays lib c kept)
    (room : (layout lib (kept ++ batch)).length ≤ fileSize) :
    c.writeEntries lib kept.length batch = some (written lib c kept.length batch) ∧
      Lays lib (written lib c kept.length batch) (kept ++ batch) := by
  have size := layout_append lib kept batch
  have offsets := layout_room lib (kept ++ batch)
  rw [List.length_append] at offsets
  rw [size,List.length_append,← lays.cursor] at room
  have inside : c.cursor ≤ c.log.length := by
    rw [lays.sized]
    omega
  have log : c.cursor + (layout lib batch).length ≤ c.log.length := by
    rw [lays.sized]
    exact room
  rw [size,List.length_append,← lays.cursor] at offsets
  have mapped : kept.length * 8 + (places lib c.cursor batch).length ≤ c.offset.length := by
    rw [lays.mapped,places_length]
    omega
  refine ⟨?_,⟨?_,?_,?_,?_,?_⟩⟩
  · rw [writeEntries_run lib inside,if_pos]
    right
    rw [lays.mapped]
    omega
  · exact (length_write log).trans lays.sized
  · exact (length_write mapped).trans lays.mapped
  · rw [size,List.length_append,← lays.cursor]
    rfl
  · rw [size,holds_append,Nat.zero_add,← lays.cursor]
    refine ⟨lays.held.apart inside (.inl ?_),holds_write inside⟩
    rw [lays.cursor]
    omega
  · intro i before
    rw [List.length_append] at before
    by_cases old : i < kept.length
    · rw [List.take_append_of_le_length (by omega)]
      apply (lays.offsets i old).apart (by omega)
      rw [putU64_length]
      omega
    · obtain ⟨d,rfl⟩ := Nat.exists_eq_add_of_le (Nat.le_of_not_lt old)
      have found := List.getElem?_eq_getElem (show d < batch.length by omega)
      have place := written_place lib (show kept.length * 8 ≤ c.offset.length by omega) found
      rw [List.take_length_add_append,layout_append,List.length_append,← lays.cursor]
      exact place

end Entries

section Metadata

theorem getRaftMetadata_eq {field : Field} {flag : UInt8} {bytes : List UInt8} {value : ℕ}
    (flagged : c.raftMetadata[field.isSet]? = some flag) (set : flag ≠ 0)
    (stored : slice c.raftMetadata field.start (field.start + 8) = some bytes)
    (word : fromBeBytes bytes = some value) : c.getRaftMetadata field = some (some value) := by
  simp [DiskStorageCore.getRaftMetadata,flagged,set,stored,word]

-- The map with one field set.
def stamped (map : List UInt8) (field : Field) (value : ℕ) : List UInt8 :=
  write (write map field.isSet [1]) field.start (putU64 value)

theorem stamp_fits {map : List UInt8} (field : Field) (value : ℕ) (sized : map.length = 18) :
    field.isSet + [(1 : UInt8)].length ≤ map.length ∧
      field.start + (putU64 value).length ≤ (write map field.isSet [1]).length := by
  have first : field.isSet + [(1 : UInt8)].length ≤ map.length := by
    rw [sized]
    cases field <;> decide
  refine ⟨first,?_⟩
  rw [length_write first,sized,putU64_length]
  cases field <;> decide

theorem stamped_length {map : List UInt8} (field : Field) (value : ℕ) (sized : map.length = 18) :
    (stamped map field value).length = 18 := by
  obtain ⟨first,second⟩ := stamp_fits field value sized
  rw [stamped,length_write second,length_write first,sized]

theorem setRaftMetadata_run (field : Field) (value : ℕ) (sized : c.raftMetadata.length = 18) :
    c.setRaftMetadata field value = some {c with raftMetadata := stamped c.raftMetadata field value} := by
  obtain ⟨first,second⟩ := stamp_fits field value sized
  simp only [DiskStorageCore.setRaftMetadata,overwrite_write first,overwrite_write second,
    Option.bind_eq_bind,Option.bind_some]
  rfl

-- The two fields lie apart, so that setting one keeps the other.
theorem stamped_get (field : Field) {value : ℕ} (sized : c.raftMetadata.length = 18) (small : value < 2 ^ 64) :
    DiskStorageCore.getRaftMetadata {c with raftMetadata := stamped c.raftMetadata field value} field =
        some (some value) ∧
      ∀ other, other ≠ field →
        DiskStorageCore.getRaftMetadata {c with raftMetadata := stamped c.raftMetadata field value} other =
          c.getRaftMetadata other := by
  obtain ⟨first,second⟩ := stamp_fits field value sized
  have before := Nat.le_trans (Nat.le_add_right _ _) first
  have inside := Nat.le_trans (Nat.le_add_right _ _) second
  refine ⟨?_,?_⟩
  · have stored : Holds (stamped c.raftMetadata field value) field.start (putU64 value) := holds_write inside
    rw [Holds,putU64_length] at stored
    have one : (1 : UInt8) ≠ 0 := by decide
    refine getRaftMetadata_eq ?_ one stored (fromBeBytes_put small)
    rw [stamped,write_getElem? inside,if_neg,write_getElem? before,if_pos]
    · simp
    · simp
    · rw [putU64_length]
      cases field <;> decide
  · intro other different
    have flag : (stamped c.raftMetadata field value)[other.isSet]? = c.raftMetadata[other.isSet]? := by
      rw [stamped,write_getElem? inside,if_neg,write_getElem? before,if_neg]
      · cases field <;> cases other <;> simp_all [Field.isSet]
      · rw [putU64_length]
        cases field <;> cases other <;> simp_all [Field.isSet,Field.start]
    have bytes : slice (stamped c.raftMetadata field value) other.start (other.start + 8) =
        slice c.raftMetadata other.start (other.start + 8) := by
      rw [stamped,slice_apart second,slice_apart first]
      · cases field <;> cases other <;> simp_all [Field.isSet,Field.start]
      · rw [putU64_length]
        cases field <;> cases other <;> simp_all [Field.start]
    simp only [DiskStorageCore.getRaftMetadata,flag,bytes]

end Metadata

section Log

theorem take_place (member : e ∈ entries.take k) : ∃ i, i < k ∧ entries[i]? = some e := by
  obtain ⟨i,inside,rfl⟩ := List.mem_take_iff_getElem.mp member
  exact ⟨i,by omega,List.getElem?_eq_getElem _⟩

theorem drop_place (member : e ∈ entries.drop k) : ∃ i, k ≤ i ∧ entries[i]? = some e := by
  obtain ⟨i,inside,rfl⟩ := List.mem_drop_iff_getElem.mp member
  exact ⟨k + i,Nat.le_add_right k i,List.getElem?_eq_getElem _⟩

-- The entries of the list log carry consecutive indices from behind the snapshot on.
def Numbered (lib : RaftLib Entry) (log : MemLog Entry) : Prop :=
  ∀ i e, log.entries[i]? = some e → lib.index e = log.snapshotIndex + 1 + i

variable (numbered : Numbered lib log)
include numbered

theorem Numbered.firstIndex : log.firstIndex lib = log.snapshotIndex + 1 := by
  unfold MemLog.firstIndex
  cases found : log.entries.head? with
  | none => rfl
  | some e =>
    rw [List.head?_eq_getElem?] at found
    exact numbered 0 e found

theorem Numbered.lastIndex : log.lastIndex lib = log.snapshotIndex + log.entries.length := by
  unfold MemLog.lastIndex
  cases found : log.entries.getLast? with
  | none =>
    rw [List.getLast?_eq_none_iff] at found
    rw [found]
    rfl
  | some e =>
    rw [List.getLast?_eq_getElem?] at found
    have index := numbered _ e found
    obtain ⟨inside,_⟩ := List.getElem?_eq_some_iff.mp found
    rw [Option.map_some,Option.getD_some,index]
    omega

-- Below an index stand as many entries as the index lies behind the snapshot.
theorem Numbered.filter_lt (bound : ℕ) :
    log.entries.filter (lib.index · < log.snapshotIndex + 1 + bound) = log.entries.take bound := by
  have splits := List.take_append_drop bound log.entries
  conv_lhs => rw [← splits]
  rw [List.filter_append,List.filter_eq_self.mpr,List.filter_eq_nil_iff.mpr,List.append_nil]
  · intro e member
    obtain ⟨i,behind,found⟩ := drop_place member
    have index := numbered i e found
    simp only [decide_eq_true_eq]
    omega
  · intro e member
    obtain ⟨i,before,found⟩ := take_place member
    have index := numbered i e found
    simp only [decide_eq_true_eq]
    omega

theorem Numbered.find_index (k : ℕ) :
    log.entries.find? (lib.index · = log.snapshotIndex + 1 + k) = log.entries[k]? := by
  cases found : log.entries[k]? with
  | none =>
    rw [List.find?_eq_none]
    intro e member
    obtain ⟨i,place⟩ := List.mem_iff_getElem?.mp member
    have index := numbered i e place
    simp only [decide_eq_true_eq]
    intro same
    obtain rfl : i = k := by omega
    rw [place] at found
    cases found
  | some e =>
    have index := numbered k e found
    rw [List.find?_eq_some_iff_getElem]
    obtain ⟨inside,value⟩ := List.getElem?_eq_some_iff.mp found
    refine ⟨by simpa using index,k,inside,value,?_⟩
    intro j before
    have other := numbered j log.entries[j] (List.getElem?_eq_getElem _)
    simp only [other,Bool.not_eq_true',decide_eq_false_iff_not]
    omega

-- From an index on stand the entries behind as many others, also in a log that was
-- cut.
theorem Numbered.filter_ge (low high : ℕ) : (log.entries.take high).filter
    (fun e => log.snapshotIndex + 1 + low ≤ lib.index e) = (log.entries.take high).drop low := by
  have splits := List.take_append_drop low (log.entries.take high)
  conv_lhs => rw [← splits]
  rw [List.filter_append,List.filter_eq_nil_iff.mpr,List.filter_eq_self.mpr,List.nil_append]
  · intro e member
    rw [List.drop_take] at member
    obtain ⟨i,_,found⟩ := take_place member
    rw [List.getElem?_drop] at found
    have index := numbered _ e found
    simp only [decide_eq_true_eq]
    omega
  · intro e member
    rw [List.take_take] at member
    obtain ⟨i,before,found⟩ := take_place member
    have index := numbered i e found
    simp only [decide_eq_true_eq]
    omega

theorem Numbered.range (low high : ℕ) :
    log.range lib (log.snapshotIndex + 1 + low) (log.snapshotIndex + 1 + high) =
      (log.entries.take high).drop low := by
  have both : log.range lib (log.snapshotIndex + 1 + low) (log.snapshotIndex + 1 + high) =
      (log.entries.filter (lib.index · < log.snapshotIndex + 1 + high)).filter
        (fun e => log.snapshotIndex + 1 + low ≤ lib.index e) := by
    rw [List.filter_filter]
    apply List.filter_congr
    intro e _
    simp
  rw [both,numbered.filter_lt high]
  exact numbered.filter_ge low high

theorem Numbered.append_entries (head : batch.head? = some first) (place : lib.index first = log.snapshotIndex + 1 + k) :
    (log.append lib batch).entries = log.entries.take k ++ batch := by
  cases batch with
  | nil => cases head
  | cons top rest =>
    obtain rfl : top = first := Option.some.inj head
    rw [← numbered.filter_lt k,← place]
    rfl

-- An accepted batch starts within the log or right behind it, and replaces what
-- stood from there on.
theorem Numbered.append (accepted : log.Accepts lib batch) :
    ∃ first k, batch.head? = some first ∧ lib.index first = log.snapshotIndex + 1 + k ∧
      k ≤ log.entries.length ∧ (log.append lib batch).entries = log.entries.take k ++ batch ∧
      Numbered lib (log.append lib batch) := by
  obtain ⟨first,head,consecutive,lower,upper,_⟩ := accepted
  rw [numbered.firstIndex] at lower
  rw [numbered.lastIndex] at upper
  obtain ⟨k,place⟩ := Nat.exists_eq_add_of_le lower
  have short : k ≤ log.entries.length := by omega
  have entries := numbered.append_entries head place
  refine ⟨first,k,head,place,short,entries,?_⟩
  have snapshot : (log.append lib batch).snapshotIndex = log.snapshotIndex := by
    cases batch <;> rfl
  have width : (log.entries.take k).length = k := by
    rw [List.length_take]
    omega
  intro i e found
  rw [entries] at found
  rw [snapshot]
  by_cases old : i < k
  · rw [List.getElem?_append_left (by omega),List.getElem?_take,if_pos old] at found
    exact numbered i e found
  · rw [List.getElem?_append_right (by omega),width] at found
    have index := congrArg (fun indices => indices[i - k]?) consecutive
    obtain ⟨inside,_⟩ := List.getElem?_eq_some_iff.mp found
    rw [List.getElem?_map,found,List.getElem?_range' inside] at index
    have := Option.some.inj index
    omega

end Log

section Refinement

-- The files and the fields stand for a list log.
structure Represents (lib : RaftLib Entry) (c : DiskStorageCore) (log : MemLog Entry) : Prop where
  lays : Lays lib c log.entries
  count : c.numEntries = log.entries.length
  sized : c.raftMetadata.length = 18
  first : c.firstIndex = some (log.snapshotIndex + 1)
  last : c.lastIndex = some (log.snapshotIndex + log.entries.length)
  snapshot : c.snapshotIndex = log.snapshotIndex ∧ c.snapshotTerm = log.snapshotTerm
  early : log.snapshotIndex = 1
  numbered : Numbered lib log

theorem initial_represents : Represents lib newWithConfState (MemLog.initial : MemLog Entry) := by
  have sized : newWithConfState.log.length = fileSize := List.length_replicate
  have mapped : newWithConfState.offset.length = fileSize := List.length_replicate
  have held : Holds newWithConfState.log 0 (layout lib []) := by
    rw [holds_iff]
    exact ⟨Nat.zero_le _,rfl⟩
  refine ⟨⟨sized,mapped,rfl,held,?_⟩,rfl,rfl,rfl,rfl,⟨rfl,rfl⟩,rfl,?_⟩
  · intro i inside
    cases inside
  · intro i e found
    cases found

-- Where the batch is written: behind the entries that stay, whether the cursor is
-- there already or has to go back.
theorem Represents.seekFrom (rep : Represents lib c log) (k : ℕ) :
    c.seekFrom k = some (layout lib (log.entries.take k)).length := by
  rw [DiskStorageCore.seekFrom,rep.count]
  split
  · rw [rep.lays.cursor,List.take_of_length_le (by omega)]
  · exact rep.lays.getLogOffset (by omega)

theorem firstIndex_of (stored : c.getRaftMetadata .firstIndex = some (some i)) :
    c.firstIndex = some i := by
  simp [DiskStorageCore.firstIndex,stored]

theorem lastIndex_of (stored : c.getRaftMetadata .lastIndex = some (some i)) :
    c.lastIndex = some i := by
  simp [DiskStorageCore.lastIndex,stored]

theorem checkedSub_eq {a b : ℕ} (below : b ≤ a) : checkedSub a b = some (a - b) := if_pos below

section Closing
variable (lib)

-- The first index is written with the first entry of the log and kept otherwise.
def opening (map : List UInt8) (k : ℕ) (first : Entry) : List UInt8 :=
  if k = 0 then stamped map .firstIndex (lib.index first) else map

def closing (map : List UInt8) (k : ℕ) (first last : Entry) : List UInt8 :=
  stamped (opening lib map k first) .lastIndex (lib.index last)

-- A batch that was written from the cursor on, with the indices and the count.
def appended (c : DiskStorageCore) (k : ℕ) (first last : Entry) (batch : List Entry) : DiskStorageCore :=
  {written lib c k batch with
    raftMetadata := closing lib c.raftMetadata k first last
    numEntries := k + batch.length}

theorem opening_length {map : List UInt8} (sized : map.length = 18) (k : ℕ) (first : Entry) :
    (opening lib map k first).length = 18 := by
  unfold opening
  split
  · exact stamped_length _ _ sized
  · exact sized

theorem closing_length {map : List UInt8} (sized : map.length = 18) (k : ℕ) (first last : Entry) :
    (closing lib map k first last).length = 18 :=
  stamped_length _ _ (opening_length lib sized k first)

theorem opening_firstIndex (sized : c.raftMetadata.length = 18) (kept : c.firstIndex = some i)
    (start : k = 0 → lib.index first = i) (small : i < 2 ^ 64) :
    DiskStorageCore.firstIndex {c with raftMetadata := opening lib c.raftMetadata k first} = some i := by
  unfold opening
  split
  · rename_i zero
    rw [start zero]
    exact firstIndex_of (stamped_get .firstIndex sized small).1
  · exact kept

theorem firstIndex_congr {other : DiskStorageCore} (map : other.raftMetadata = c.raftMetadata)
    (snapshot : other.snapshotIndex = c.snapshotIndex) : other.firstIndex = c.firstIndex := by
  simp only [DiskStorageCore.firstIndex,DiskStorageCore.getRaftMetadata,map,snapshot]

theorem lastIndex_congr {other : DiskStorageCore} (map : other.raftMetadata = c.raftMetadata)
    (snapshot : other.snapshotIndex = c.snapshotIndex) : other.lastIndex = c.lastIndex := by
  simp only [DiskStorageCore.lastIndex,DiskStorageCore.getRaftMetadata,map,snapshot]

theorem Frame.indices (frame : Frame c next) : next.firstIndex = c.firstIndex ∧ next.lastIndex = c.lastIndex ∧
    next.numEntries = c.numEntries ∧ next.snapshotIndex = c.snapshotIndex := by
  rw [frame]
  exact ⟨rfl,rfl,rfl,rfl⟩

theorem closing_indices {last : Entry} (other : DiskStorageCore) (sized : c.raftMetadata.length = 18)
    (kept : c.firstIndex = some i) (start : k = 0 → lib.index first = i) (small : i < 2 ^ 64)
    (bound : lib.index last < 2 ^ 64) (map : other.raftMetadata = closing lib c.raftMetadata k first last)
    (snapshot : other.snapshotIndex = c.snapshotIndex) :
    other.firstIndex = some i ∧ other.lastIndex = some (lib.index last) := by
  let middle := {c with raftMetadata := opening lib c.raftMetadata k first}
  have opened : middle.firstIndex = some i := opening_firstIndex lib sized kept start small
  obtain ⟨stored,others⟩ := stamped_get (c := middle) .lastIndex (opening_length lib sized k first) bound
  have same := others .firstIndex (by decide)
  refine ⟨?_,?_⟩
  · rw [← opened,firstIndex_congr (c := {middle with raftMetadata := closing lib c.raftMetadata k first last}) map snapshot]
    unfold DiskStorageCore.firstIndex
    rw [← same]
    rfl
  · rw [lastIndex_congr (c := {middle with raftMetadata := closing lib c.raftMetadata k first last}) map snapshot]
    exact lastIndex_of stored

-- An append writes the batch as long as the map of offsets has room.
theorem appendEntries_run {cursor : ℕ} {last : Entry} (sized : c.raftMetadata.length = 18) (short : k ≤ c.numEntries)
    (seek : c.seekFrom k = some cursor) (inside : cursor ≤ c.log.length) (head : batch.head? = some first)
    (found : batch.getLast? = some last) : c.appendEntries lib batch k =
      if (k + batch.length) * 8 ≤ c.offset.length then some (appended lib {c with cursor} k first last batch)
      else none := by
  have entered : batch ≠ [] := by
    rintro rfl
    cases head
  have loop := writeEntries_run lib (c := {c with cursor}) inside k batch
  rw [if_congr (or_iff_right entered) rfl rfl] at loop
  simp only [DiskStorageCore.appendEntries,seek,head,found,loop,Option.bind_eq_bind,Option.bind_some]
  by_cases room : (k + batch.length) * 8 ≤ c.offset.length
  · have opened : (written lib {c with cursor} k batch).setFirstIndex k (lib.index first) =
        some {written lib {c with cursor} k batch with raftMetadata := opening lib c.raftMetadata k first} := by
      unfold DiskStorageCore.setFirstIndex opening
      split
      · exact setRaftMetadata_run .firstIndex _ sized
      · rfl
    have removed : checkedSub c.numEntries k = some (c.numEntries - k) := checkedSub_eq short
    have added : checkedSub (c.numEntries + batch.length) (c.numEntries - k) = some (k + batch.length) := by
      rw [checkedSub_eq (by omega)]
      congr 1
      omega
    rw [if_pos room,if_pos room,Option.bind_some,opened,Option.bind_some]
    show (checkedSub c.numEntries k).bind _ = _
    rw [removed,Option.bind_some]
    show (checkedSub (c.numEntries + batch.length) (c.numEntries - k)).bind _ = _
    rw [added,Option.bind_some,setRaftMetadata_run .lastIndex _ (opening_length lib sized k first)]
    rfl
  · rw [if_neg room,if_neg room,Option.bind_none]

end Closing

theorem append_snapshot (log : MemLog Entry) (batch : List Entry) :
    (log.append lib batch).snapshotIndex = log.snapshotIndex ∧
      (log.append lib batch).snapshotTerm = log.snapshotTerm := by
  cases batch <;> exact ⟨rfl,rfl⟩

-- The last entry of a batch is the last of the log it leads to.
theorem Numbered.bottom {last : Entry} (numbered : Numbered lib (log.append lib batch))
    (entries : (log.append lib batch).entries = kept ++ batch) (found : batch.getLast? = some last) :
    lib.index last = log.snapshotIndex + (log.append lib batch).entries.length := by
  have index := numbered.lastIndex
  rw [MemLog.lastIndex,entries,List.getLast?_append,found,Option.some_or,Option.map_some,
    Option.getD_some,(append_snapshot log batch).1] at index
  rw [index,entries]

theorem Represents.appendEntries (rep : Represents lib c log)
    (room : (layout lib (log.append lib batch).entries).length ≤ fileSize)
    (head : batch.head? = some first) (place : lib.index first = log.snapshotIndex + 1 + k)
    (short : k ≤ log.entries.length)
    (entries : (log.append lib batch).entries = log.entries.take k ++ batch)
    (numbered : Numbered lib (log.append lib batch)) :
    ∃ next, c.appendEntries lib batch k = some next ∧ Represents lib next (log.append lib batch) := by
  have width : (log.entries.take k).length = k := by
    rw [List.length_take]
    omega
  have size : (log.append lib batch).entries.length = k + batch.length := by
    rw [entries,List.length_append,width]
  have few : (log.append lib batch).entries.length + 2 < 2 ^ 64 := by
    apply fileSize_fits
    have := layout_room lib (log.append lib batch).entries
    omega
  have early := rep.early
  obtain ⟨last,found⟩ : ∃ last, batch.getLast? = some last := by
    cases batch with
    | nil => cases head
    | cons top rest => exact ⟨_,List.getLast?_cons⟩
  have lastPlace := numbered.bottom entries found
  have laid := (rep.lays.back k).writeEntries (entries ▸ room)
  rw [width,← entries] at laid
  have inside : (layout lib (log.entries.take k)).length ≤ c.log.length := by
    rw [rep.lays.sized]
    exact Nat.le_trans (layout_take_le lib log.entries k) rep.lays.fits
  have run := appendEntries_run lib rep.sized (rep.count.symm ▸ short) (rep.seekFrom k) inside head found
  rw [if_pos] at run
  · have start : k = 0 → lib.index first = log.snapshotIndex + 1 := by omega
    obtain ⟨firstIndex,lastIndex⟩ := closing_indices lib
      (appended lib {c with cursor := (layout lib (log.entries.take k)).length} k first last batch)
      rep.sized rep.first start (by omega) (by omega) rfl rfl
    obtain ⟨sameIndex,sameTerm⟩ := append_snapshot log batch
    refine ⟨_,run,⟨⟨laid.2.sized,laid.2.mapped,laid.2.cursor,laid.2.held,laid.2.offsets⟩,size.symm,
      closing_length lib rep.sized k first last,?_,?_,?_,?_,numbered⟩⟩
    · rw [sameIndex]
      exact firstIndex
    · rw [lastIndex,lastPlace,sameIndex]
    · rw [sameIndex,sameTerm]
      exact rep.snapshot
    · rw [sameIndex]
      exact early
  · rw [rep.lays.mapped,← size]
    exact Nat.le_trans (layout_room lib _) room

-- A batch that starts within the log or right behind it goes to its place.
theorem appendLog_at {snapshot : ℕ} (opened : c.firstIndex = some (snapshot + 1))
    (closed : c.lastIndex = some (snapshot + i)) (head : batch.head? = some first)
    (place : lib.index first = snapshot + 1 + k) (short : k ≤ i) :
    c.appendLog lib batch = c.appendEntries lib batch k := by
  cases batch with
  | nil => cases head
  | cons top rest =>
    obtain rfl : top = first := Option.some.inj head
    have above : ¬lib.index top < snapshot + 1 := by omega
    have below : ¬snapshot + i + 1 < lib.index top := by omega
    have diff : lib.index top - (snapshot + 1) = k := by omega
    simp only [DiskStorageCore.appendLog,opened,closed,Option.bind_eq_bind,Option.bind_some,
      if_neg above,if_neg below,diff]

theorem Represents.appendLog (rep : Represents lib c log) (accepted : log.Accepts lib batch) :
    ∃ next, c.appendLog lib batch = some next ∧ Represents lib next (log.append lib batch) := by
  obtain ⟨first,k,head,place,short,entries,numbered⟩ := rep.numbered.append accepted
  obtain ⟨_,_,_,_,_,room⟩ := accepted
  obtain ⟨next,done,final⟩ := rep.appendEntries room head place short entries numbered
  exact ⟨next,(appendLog_at rep.first rep.last head place short).trans done,final⟩

theorem Represents.appendAll {batches : List (List Entry)} (rep : Represents lib c log)
    (accepted : AcceptsAll lib log batches) :
    ∃ next, c.appendAll lib batches = some next ∧ Represents lib next (log.appendAll lib batches) := by
  induction batches generalizing c log with
  | nil => exact ⟨c,rfl,rep⟩
  | cons batch batches ih =>
    obtain ⟨middle,done,middleRep⟩ := rep.appendLog accepted.1
    obtain ⟨next,rest,final⟩ := ih middleRep accepted.2
    refine ⟨next,?_,final⟩
    rw [DiskStorageCore.appendAll,done]
    exact rest

theorem Represents.term (lawful : lib.Lawful) (rep : Represents lib c log) (idx : ℕ) :
    c.term lib idx = some (log.term lib idx) := by
  unfold DiskStorageCore.term MemLog.term
  rw [rep.snapshot.1,rep.snapshot.2,rep.numbered.firstIndex]
  split
  · rfl
  · simp only [rep.first,Option.bind_eq_bind,Option.bind_some]
    split
    · rfl
    · rename_i behind
      obtain ⟨k,rfl⟩ := Nat.exists_eq_add_of_le (Nat.le_of_not_lt behind)
      rw [rep.numbered.find_index k,Nat.add_sub_cancel_left,rep.count]
      split
      · rename_i outside
        rw [List.getElem?_eq_none outside]
        rfl
      · rename_i inside
        have found := List.getElem?_eq_getElem (Nat.lt_of_not_le inside)
        rw [found,rep.lays.getEntry lawful found]
        rfl

theorem getEntries (lawful : lib.Lawful) (lays : Lays lib c entries) {low count : ℕ}
    (inside : low + count ≤ entries.length) :
    (List.range' low count).mapM (c.getEntry lib) = some ((entries.take (low + count)).drop low) := by
  induction count generalizing low with
  | zero => simp
  | succ count ih =>
    have found := List.getElem?_eq_getElem (show low < entries.length by omega)
    have next : low + (count + 1) = low + 1 + count := by omega
    have within : low < (entries.take (low + 1 + count)).length := by
      rw [List.length_take]
      omega
    rw [List.range'_succ,List.mapM_cons,lays.getEntry lawful found,ih (by omega),next,
      List.drop_eq_getElem_cons within,List.getElem_take]
    rfl

theorem Represents.range (lawful : lib.Lawful) (rep : Represents lib c log) {low high : ℕ}
    (above : log.firstIndex lib ≤ low) (ordered : low ≤ high) (below : high ≤ log.lastIndex lib + 1) :
    c.entries lib low high none = some (.ok (log.range lib low high)) := by
  rw [rep.numbered.firstIndex] at above
  rw [rep.numbered.lastIndex] at below
  obtain ⟨lo,rfl⟩ := Nat.exists_eq_add_of_le above
  obtain ⟨count,rfl⟩ := Nat.exists_eq_add_of_le ordered
  have inside : lo + count ≤ log.entries.length := by omega
  have notBelow : ¬log.snapshotIndex + 1 + lo < log.snapshotIndex + 1 := by omega
  have notAbove : ¬log.snapshotIndex + log.entries.length + 1 < log.snapshotIndex + 1 + lo + count := by
    omega
  have loEq : checkedSub (log.snapshotIndex + 1 + lo) (log.snapshotIndex + 1) = some lo := by
    rw [checkedSub_eq (by omega),Nat.add_sub_cancel_left]
  have hiEq : checkedSub (log.snapshotIndex + 1 + lo + count) (log.snapshotIndex + 1) =
      some (lo + count) := by
    rw [checkedSub_eq (by omega),Nat.add_assoc,Nat.add_sub_cancel_left]
  rw [Nat.add_assoc _ lo,rep.numbered.range,← Nat.add_assoc]
  simp only [DiskStorageCore.entries,rep.first,rep.last,Option.bind_eq_bind,Option.bind_some,
    if_neg notBelow,if_neg notAbove,loEq,hiEq,Nat.add_sub_cancel_left,
    getEntries lawful rep.lays inside,lawful.unlimited]
  rfl

-- However batches are appended, what the storage answers is what the list log
-- answers, and the count of entries follows from the two indices.
theorem disk_log_refines (lawful : lib.Lawful) (batches : List (List Entry))
    (accepted : AcceptsAll lib MemLog.initial batches) :
    ∃ core, newWithConfState.appendAll lib batches = some core ∧
      core.firstIndex = some ((MemLog.initial.appendAll lib batches).firstIndex lib) ∧
      core.lastIndex = some ((MemLog.initial.appendAll lib batches).lastIndex lib) ∧
      (∀ idx, core.term lib idx = some ((MemLog.initial.appendAll lib batches).term lib idx)) ∧
      (∀ low high, (MemLog.initial.appendAll lib batches).firstIndex lib ≤ low → low ≤ high →
        high ≤ (MemLog.initial.appendAll lib batches).lastIndex lib + 1 →
        core.entries lib low high none =
          some (.ok ((MemLog.initial.appendAll lib batches).range lib low high))) ∧
      ((MemLog.initial.appendAll lib batches).entries ≠ [] →
        core.numEntries = (MemLog.initial.appendAll lib batches).lastIndex lib -
          (MemLog.initial.appendAll lib batches).firstIndex lib + 1) := by
  obtain ⟨core,done,rep⟩ := initial_represents.appendAll accepted
  refine ⟨core,done,?_,?_,rep.term lawful,?_,?_⟩
  · rw [rep.numbered.firstIndex]
    exact rep.first
  · rw [rep.numbered.lastIndex]
    exact rep.last
  · intro low high above ordered below
    exact rep.range lawful above ordered below
  · intro stored
    have := List.length_pos_iff.mpr stored
    rw [rep.numbered.firstIndex,rep.numbered.lastIndex,rep.count]
    omega

end Refinement

section Sample

-- Entries with small terms and indices, in the bytes the generated code gives them.
structure SmallEntry where
  index : UInt8
  term : UInt8
  deriving DecidableEq, Repr

def smallLib : RaftLib SmallEntry where
  index e := e.index.toNat
  term e := e.term.toNat
  writeToBytes e := [16,e.term,24,e.index]
  parseFromBytes bytes :=
    match bytes with
    | [16,term,24,index] => some ⟨index,term⟩
    | _ => none
  limitSize ents maxSize :=
    match maxSize with
    | none => ents
    | some max => ents.take (Nat.max 1 (max / 4))

theorem smallLib_lawful : smallLib.Lawful := ⟨fun _ => rfl,fun _ => rfl⟩

def overwriteRun : List (List SmallEntry) :=
  [[⟨2,2⟩,⟨3,3⟩,⟨4,3⟩,⟨5,3⟩,⟨6,3⟩],[⟨3,3⟩,⟨4,4⟩,⟨5,5⟩]]

theorem overwriteRun_accepted : AcceptsAll smallLib MemLog.initial overwriteRun :=
  ⟨⟨⟨2,2⟩,rfl,by decide,by decide,by decide,by decide +kernel⟩,
    ⟨⟨3,3⟩,rfl,by decide,by decide,by decide,by decide +kernel⟩,trivial⟩

theorem overwriteRun_refines :
    ∃ core, newWithConfState.appendAll smallLib overwriteRun = some core ∧
      core.firstIndex = some 2 ∧ core.lastIndex = some 5 ∧
      core.term smallLib 4 = some (.ok 4) ∧ core.term smallLib 6 = some (.error .unavailable) ∧
      core.entries smallLib 3 5 none = some (.ok [⟨3,3⟩,⟨4,4⟩]) := by
  obtain ⟨core,done,first,last,terms,ranges,_⟩ :=
    disk_log_refines smallLib_lawful overwriteRun overwriteRun_accepted
  exact ⟨core,done,first,last,terms 4,terms 6,ranges 3 5 (by decide) (by decide) (by decide)⟩

end Sample

end KompicsBenches.DiskRefine
