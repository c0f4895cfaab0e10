import KompicsBenches.Wire
import KompicsBenches.ByteFile

namespace KompicsBenches.DiskLog
open Wire ByteFile Segments
variable {Entry : Type}

-- What the storage uses of the Raft library and of its generated code: the indices
-- and terms of entries, their bytes, and the limit on the size of an answer.
structure RaftLib (Entry : Type) where
  index : Entry → ℕ
  term : Entry → ℕ
  writeToBytes : Entry → List UInt8
  parseFromBytes : List UInt8 → Option Entry
  limitSize : List Entry → Option ℕ → List Entry

structure RaftLib.Lawful (lib : RaftLib Entry) : Prop where
  parse_write : ∀ e, lib.parseFromBytes (lib.writeToBytes e) = some e
  unlimited : ∀ ents, lib.limitSize ents none = ents

inductive StorageError where
  | compacted
  | unavailable
  deriving DecidableEq, Repr

def fileSize : ℕ := 20971520

-- A map covers the length its file had when it was mapped, and shows what the file
-- holds there.
def memMap (file : List UInt8) : List UInt8 := file.take fileSize

inductive Field where
  | firstIndex
  | lastIndex
  deriving DecidableEq, Repr

def Field.isSet : Field → ℕ
  | .firstIndex => 0
  | .lastIndex => 9

def Field.start : Field → ℕ
  | .firstIndex => 1
  | .lastIndex => 10

structure DiskStorageCore where
  log : List UInt8
  cursor : ℕ
  offset : List UInt8
  raftMetadata : List UInt8
  numEntries : ℕ
  snapshotIndex : ℕ
  snapshotTerm : ℕ

def newWithConfState : DiskStorageCore where
  log := List.replicate fileSize 0
  cursor := 0
  offset := List.replicate fileSize 0
  raftMetadata := List.replicate 18 0
  numEntries := 0
  snapshotIndex := 1
  snapshotTerm := 1

def checkedSub (a b : ℕ) : Option ℕ := if b ≤ a then some (a - b) else none

-- `none` stands for a panic in all of the operations below.
namespace DiskStorageCore
variable (lib : RaftLib Entry) (c : DiskStorageCore)

def getLogOffset (logIndex : ℕ) : Option ℕ := do
  let bytes ← slice (memMap c.offset) (logIndex * 8) (logIndex * 8 + 8)
  fromBeBytes bytes

def getEntry (index : ℕ) : Option Entry := do
  let start ← c.getLogOffset index
  let stop := start + 8
  let entryLen ← slice (memMap c.log) start stop
  let desEntryLen ← fromBeBytes entryLen
  let entry ← slice (memMap c.log) stop (stop + desEntryLen)
  lib.parseFromBytes entry

def setRaftMetadata (field : Field) (value : ℕ) : Option DiskStorageCore := do
  let flagged ← overwrite c.raftMetadata field.isSet [1]
  let raftMetadata ← overwrite flagged field.start (putU64 value)
  return {c with raftMetadata}

def getRaftMetadata (field : Field) : Option (Option ℕ) := do
  let flag ← c.raftMetadata[field.isSet]?
  if flag = 0 then return none
  let bytes ← slice c.raftMetadata field.start (field.start + 8)
  let value ← fromBeBytes bytes
  return some value

def firstIndex : Option ℕ := do
  match ← c.getRaftMetadata .firstIndex with
  | some index => return index
  | none => return c.snapshotIndex + 1

def lastIndex : Option ℕ := do
  match ← c.getRaftMetadata .lastIndex with
  | some index => return index
  | none => return c.snapshotIndex

-- One round of the loop: the length and the entry go to the cursor of the log, and
-- the place where the length went to the map of offsets.
def writeEntry (logIndex : ℕ) (e : Entry) : Option DiskStorageCore := do
  let currentOffset := c.cursor
  let serEntry := lib.writeToBytes e
  let log := write c.log c.cursor (putU64 serEntry.length)
  let log := write log (c.cursor + 8) serEntry
  let offset ← overwrite c.offset (logIndex * 8) (putU64 currentOffset)
  return {c with log, offset, cursor := c.cursor + 8 + serEntry.length}

def writeEntries (c : DiskStorageCore) : ℕ → List Entry → Option DiskStorageCore
  | _,[] => some c
  | logIndex,e :: entries => do
    let c ← c.writeEntry lib logIndex e
    writeEntries c (logIndex + 1) entries

-- Where an append goes: on from the cursor behind the last entry, else to the entry
-- that stands there.
def seekFrom (fromLogIndex : ℕ) : Option ℕ :=
  if c.numEntries ≤ fromLogIndex then some c.cursor else c.getLogOffset fromLogIndex

def setFirstIndex (fromLogIndex newFirstIndex : ℕ) : Option DiskStorageCore :=
  if fromLogIndex = 0 then c.setRaftMetadata .firstIndex newFirstIndex else some c

def appendEntries (entries : List Entry) (fromLogIndex : ℕ) : Option DiskStorageCore := do
  let cursor ← c.seekFrom fromLogIndex
  let first ← entries.head?
  let last ← entries.getLast?
  let c ← writeEntries lib {c with cursor} fromLogIndex entries
  let c ← c.setFirstIndex fromLogIndex (lib.index first)
  let numRemovedEntries ← checkedSub c.numEntries fromLogIndex
  let numEntries ← checkedSub (c.numEntries + entries.length) numRemovedEntries
  setRaftMetadata {c with numEntries} .lastIndex (lib.index last)

def appendLog (entries : List Entry) : Option DiskStorageCore :=
  match entries with
  | [] => some c
  | first :: _ => do
    let firstIndex ← c.firstIndex
    if lib.index first < firstIndex then none
    let lastIndex ← c.lastIndex
    if lastIndex + 1 < lib.index first then none
    c.appendEntries lib entries (lib.index first - firstIndex)

def entries (low high : ℕ) (maxSize : Option ℕ) : Option (Except StorageError (List Entry)) := do
  let firstIndex ← c.firstIndex
  if low < firstIndex then return .error .compacted
  let lastIndex ← c.lastIndex
  if lastIndex + 1 < high then none
  let lo ← checkedSub low firstIndex
  let hi ← checkedSub high firstIndex
  let ents ← (List.range' lo (hi - lo)).mapM (c.getEntry lib)
  return .ok (lib.limitSize ents maxSize)

def term (idx : ℕ) : Option (Except StorageError ℕ) :=
  if idx = c.snapshotIndex then some (.ok c.snapshotTerm) else do
    let offset ← c.firstIndex
    if idx < offset then return .error .compacted
    let logIndex := idx - offset
    if c.numEntries ≤ logIndex then return .error .unavailable
    let entry ← c.getEntry lib logIndex
    return .ok (lib.term entry)

def appendAll (c : DiskStorageCore) : List (List Entry) → Option DiskStorageCore
  | [] => some c
  | batch :: batches => do
    let c ← c.appendLog lib batch
    appendAll c batches

end DiskStorageCore

-- The log as the Raft library wants it: a list of entries behind a snapshot.
structure MemLog (Entry : Type) where
  snapshotIndex : ℕ
  snapshotTerm : ℕ
  entries : List Entry

namespace MemLog
variable (lib : RaftLib Entry) (log : MemLog Entry)

def initial : MemLog Entry := ⟨1,1,[]⟩

def firstIndex : ℕ := (log.entries.head?.map lib.index).getD (log.snapshotIndex + 1)

def lastIndex : ℕ := (log.entries.getLast?.map lib.index).getD log.snapshotIndex

def term (idx : ℕ) : Except StorageError ℕ :=
  if idx = log.snapshotIndex then .ok log.snapshotTerm
  else if idx < log.firstIndex lib then .error .compacted
  else match log.entries.find? (lib.index · = idx) with
    | some entry => .ok (lib.term entry)
    | none => .error .unavailable

def range (low high : ℕ) : List Entry :=
  log.entries.filter fun e => low ≤ lib.index e ∧ lib.index e < high

-- Appending at an index drops every entry from that index on.
def append : List Entry → MemLog Entry
  | [] => log
  | first :: rest =>
    {log with entries := log.entries.filter (lib.index · < lib.index first) ++ (first :: rest)}

-- The bytes of an entry in the log file, behind their length.
def recorded (e : Entry) : List UInt8 := putU64 (lib.writeToBytes e).length ++ lib.writeToBytes e

def layout (entries : List Entry) : List UInt8 := entries.flatMap (recorded lib)

-- What an append takes: consecutive indices from within the log or right behind it,
-- and no more bytes than the file was made for.
def Accepts (batch : List Entry) : Prop :=
  ∃ first, batch.head? = some first ∧
    batch.map lib.index = List.range' (lib.index first) batch.length ∧
    log.firstIndex lib ≤ lib.index first ∧ lib.index first ≤ log.lastIndex lib + 1 ∧
    (layout lib (log.append lib batch).entries).length ≤ fileSize

def AcceptsAll (log : MemLog Entry) : List (List Entry) → Prop
  | [] => True
  | batch :: batches => log.Accepts lib batch ∧ AcceptsAll (log.append lib batch) batches

def appendAll (batches : List (List Entry)) : MemLog Entry := batches.foldl (append lib) log

end MemLog

end KompicsBenches.DiskLog
