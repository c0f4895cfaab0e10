import KompicsBenches.DiskRefine

namespace KompicsBenches.DiskFaults
open Wire ByteFile Segments DiskLog DiskLog.MemLog DiskRefine
variable {Entry : Type} (lib : RaftLib Entry)

-- The file operations of an append that can fail. A write that fails has put some of its
-- bytes into the file.
inductive Fault where
  | seek
  | tell (entry : ℕ)
  | writeLen (entry : ℕ) (written : Fin 8)
  | writeEntry (entry : ℕ)
  | flushMetadata (field : Field)
  | flushLog
  | flushOffset
  deriving DecidableEq, Repr

-- What an append that does not panic returns, and the storage it leaves.
inductive Attempt where
  | ok (c : DiskStorageCore)
  | err (c : DiskStorageCore)

def Fault.lengthAt (i : ℕ) : Fault → Option (Fin 8)
  | .writeLen entry written => if entry = i then some written else none
  | _ => none

def writeSome (c : DiskStorageCore) (bytes : List UInt8) : DiskStorageCore :=
  {c with log := write c.log c.cursor bytes, cursor := c.cursor + bytes.length}

-- The append again, with at most one operation that fails; `none` is a panic as before.
def writeEntriesUnder (fault : Option Fault) (fromLogIndex : ℕ) : DiskStorageCore → ℕ → List Entry → Option Attempt
  | c,_,[] => some (.ok c)
  | c,i,e :: entries =>
    if fault = some (.tell i) then none
    else
      let serLen := putU64 (lib.writeToBytes e).length
      match fault.bind (Fault.lengthAt i) with
      | some written => some (.err (writeSome c (serLen.take written)))
      | none =>
        if fault = some (.writeEntry i) then none
        else (c.writeEntry lib (fromLogIndex + i) e).bind fun c => writeEntriesUnder fault fromLogIndex c (i + 1) entries

def setRaftMetadataUnder (fault : Option Fault) (c : DiskStorageCore) (field : Field) (value : ℕ) :
    Option DiskStorageCore :=
  if fault = some (.flushMetadata field) then none else c.setRaftMetadata field value

def setFirstIndexUnder (fault : Option Fault) (c : DiskStorageCore) (fromLogIndex newFirstIndex : ℕ) :
    Option DiskStorageCore :=
  if fromLogIndex = 0 then setRaftMetadataUnder fault c .firstIndex newFirstIndex else some c

def finishUnder (fault : Option Fault) (c : DiskStorageCore) (first last : Entry) (numAddedEntries fromLogIndex : ℕ) :
    Option Attempt := do
  let c ← setFirstIndexUnder fault c fromLogIndex (lib.index first)
  let numRemovedEntries ← checkedSub c.numEntries fromLogIndex
  let numEntries ← checkedSub (c.numEntries + numAddedEntries) numRemovedEntries
  let c ← setRaftMetadataUnder fault {c with numEntries} .lastIndex (lib.index last)
  if fault = some .flushLog then return .err c
  if fault = some .flushOffset then return .err c
  return .ok c

def appendEntriesUnder (fault : Option Fault) (c : DiskStorageCore) (entries : List Entry) (fromLogIndex : ℕ) :
    Option Attempt := do
  let cursor ← c.seekFrom fromLogIndex
  if fault = some .seek then return .err c
  let first ← entries.head?
  let last ← entries.getLast?
  match ← writeEntriesUnder lib fault fromLogIndex {c with cursor} 0 entries with
  | .err c => return .err c
  | .ok c => finishUnder lib fault c first last entries.length fromLogIndex

def appendLogUnder (fault : Option Fault) (c : DiskStorageCore) (entries : List Entry) : Option Attempt :=
  match entries with
  | [] => some (.ok c)
  | first :: _ => do
    let firstIndex ← c.firstIndex
    if lib.index first < firstIndex then none
    let lastIndex ← c.lastIndex
    if lastIndex + 1 < lib.index first then none
    appendEntriesUnder lib fault c entries (lib.index first - firstIndex)

section Faultless
variable {lib} {c after : DiskStorageCore} {batch : List Entry} {i k : ℕ} {fault : Option Fault}

theorem writeEntriesUnder_ok (done : writeEntriesUnder lib fault k c i batch = some (.ok after)) :
    c.writeEntries lib (k + i) batch = some after := by
  induction batch generalizing c i with
  | nil =>
    cases done
    rfl
  | cons e batch ih =>
    unfold writeEntriesUnder at done
    split at done
    · cases done
    · dsimp only at done
      split at done
      · cases done
      · split at done
        · cases done
        · obtain ⟨middle,written,rest⟩ := Option.bind_eq_some_iff.mp done
          rw [DiskStorageCore.writeEntries,written]
          exact ih rest

-- The loop gives up only at the length of an entry, behind the entries before it.
theorem writeEntriesUnder_err (failed : writeEntriesUnder lib fault k c i batch = some (.err after)) :
    ∃ (j : ℕ) (m : Fin 8) (e : Entry) (done : DiskStorageCore), fault = some (.writeLen (i + j) m) ∧
      batch[j]? = some e ∧ c.writeEntries lib (k + i) (batch.take j) = some done ∧
      after = writeSome done ((putU64 (lib.writeToBytes e).length).take m) := by
  induction batch generalizing c i with
  | nil => cases failed
  | cons e batch ih =>
    unfold writeEntriesUnder at failed
    split at failed
    · cases failed
    · dsimp only at failed
      split at failed
      · rename_i written reached
        obtain ⟨reason,rfl,length⟩ := Option.bind_eq_some_iff.mp reached
        cases failed
        cases reason with
        | writeLen entry m =>
          obtain ⟨rfl,rfl⟩ : entry = i ∧ m = written := by simpa [Fault.lengthAt] using length
          exact ⟨0,m,e,c,rfl,rfl,rfl,rfl⟩
        | _ => cases length
      · split at failed
        · cases failed
        · obtain ⟨middle,written,rest⟩ := Option.bind_eq_some_iff.mp failed
          obtain ⟨j,m,other,done,reason,found,entries,final⟩ := ih rest
          refine ⟨j + 1,m,other,done,?_,found,?_,final⟩
          · rw [reason,Nat.add_assoc,Nat.add_comm 1]
          · rw [List.take_succ_cons,DiskStorageCore.writeEntries,written]
            exact entries

-- Every length can fail to be written, whole or in part.
theorem writeLen_run {j : ℕ} {m : Fin 8} {e : Entry} (entry : batch[j]? = some e) :
    writeEntriesUnder lib (some (.writeLen (i + j) m)) k c i batch =
      (c.writeEntries lib (k + i) (batch.take j)).map fun done =>
        .err (writeSome done ((putU64 (lib.writeToBytes e).length).take m)) := by
  induction batch generalizing c i j with
  | nil => cases entry
  | cons top batch ih =>
    rw [writeEntriesUnder,if_neg (fun found => by cases found)]
    cases j with
    | zero =>
      cases entry
      have reached : Fault.lengthAt i (.writeLen (i + 0) m) = some m := if_pos rfl
      simp only [Option.bind_some,reached]
      rfl
    | succ j =>
      have passed : Fault.lengthAt i (.writeLen (i + (j + 1)) m) = none := if_neg (by omega)
      simp only [Option.bind_some,passed]
      rw [if_neg (fun found => by cases found),List.take_succ_cons,DiskStorageCore.writeEntries,
        show i + (j + 1) = i + 1 + j by omega]
      cases c.writeEntry lib (k + i) top with
      | none => rfl
      | some middle => exact ih entry

theorem writeEntriesUnder_none (batch : List Entry) (c : DiskStorageCore) (i : ℕ) :
    writeEntriesUnder lib none k c i batch = (c.writeEntries lib (k + i) batch).map .ok := by
  induction batch generalizing c i with
  | nil => rfl
  | cons e batch ih =>
    rw [writeEntriesUnder,DiskStorageCore.writeEntries,if_neg (fun found => by cases found)]
    dsimp only [Option.bind_none]
    rw [if_neg (fun found => by cases found)]
    cases c.writeEntry lib (k + i) e with
    | none => rfl
    | some middle => exact ih middle (i + 1)

theorem setRaftMetadataUnder_some {field : Field} {value : ℕ}
    (done : setRaftMetadataUnder fault c field value = some after) : c.setRaftMetadata field value = some after := by
  unfold setRaftMetadataUnder at done
  split at done
  · cases done
  · exact done

theorem setFirstIndexUnder_some {value : ℕ} (done : setFirstIndexUnder fault c k value = some after) :
    c.setFirstIndex k value = some after := by
  unfold setFirstIndexUnder at done
  unfold DiskStorageCore.setFirstIndex
  split at done
  · rename_i zero
    rw [if_pos zero]
    exact setRaftMetadataUnder_some done
  · rename_i later
    rw [if_neg later]
    exact done

theorem setRaftMetadataUnder_none (c : DiskStorageCore) (field : Field) (value : ℕ) :
    setRaftMetadataUnder none c field value = c.setRaftMetadata field value :=
  if_neg fun found => by cases found

theorem setFirstIndexUnder_none (c : DiskStorageCore) (k value : ℕ) :
    setFirstIndexUnder none c k value = c.setFirstIndex k value := by
  unfold setFirstIndexUnder DiskStorageCore.setFirstIndex
  rw [setRaftMetadataUnder_none]

-- Once the entries are written only the two flushes return an error, after all is done.
theorem finishUnder_err {first last : Entry} {count : ℕ}
    (failed : finishUnder lib fault c first last count k = some (.err after)) :
    (fault = some .flushLog ∨ fault = some .flushOffset) ∧
      finishUnder lib none c first last count k = some (.ok after) := by
  simp only [finishUnder,Option.bind_eq_bind,Option.bind_eq_some_iff] at failed
  obtain ⟨opened,opens,removed,less,numEntries,more,closed,closes,final⟩ := failed
  have same : finishUnder lib none c first last count k = some (.ok closed) := by
    simp only [finishUnder,Option.bind_eq_bind,setFirstIndexUnder_none,setFirstIndexUnder_some opens,Option.bind_some,
      less,more,setRaftMetadataUnder_none,setRaftMetadataUnder_some closes]
    rfl
  split at final
  · rename_i reason
    cases final
    exact ⟨.inl reason,same⟩
  · split at final
    · rename_i reason
      cases final
      exact ⟨.inr reason,same⟩
    · cases final

theorem finishUnder_none (c : DiskStorageCore) (first last : Entry) (count k : ℕ) :
    finishUnder lib none c first last count k =
      ((c.setFirstIndex k (lib.index first)).bind fun c => (checkedSub c.numEntries k).bind fun removed =>
        (checkedSub (c.numEntries + count) removed).bind fun numEntries =>
          DiskStorageCore.setRaftMetadata {c with numEntries} .lastIndex (lib.index last)).map .ok := by
  simp only [finishUnder,Option.bind_eq_bind,setFirstIndexUnder_none,setRaftMetadataUnder_none]
  cases c.setFirstIndex k (lib.index first) with
  | none => rfl
  | some opened =>
    simp only [Option.bind_some]
    cases checkedSub opened.numEntries k with
    | none => rfl
    | some removed =>
      simp only [Option.bind_some]
      cases checkedSub (opened.numEntries + count) removed with
      | none => rfl
      | some numEntries =>
        simp only [Option.bind_some]
        cases DiskStorageCore.setRaftMetadata {opened with numEntries} .lastIndex (lib.index last) with
        | none => rfl
        | some closed => rfl

theorem appendEntriesUnder_none (c : DiskStorageCore) (batch : List Entry) (k : ℕ) :
    appendEntriesUnder lib none c batch k = (c.appendEntries lib batch k).map .ok := by
  simp only [appendEntriesUnder,DiskStorageCore.appendEntries,writeEntriesUnder_none,Nat.add_zero,Option.bind_eq_bind]
  cases c.seekFrom k with
  | none => rfl
  | some cursor =>
    simp only [Option.bind_some,reduceCtorEq,if_false]
    cases batch.head? with
    | none => rfl
    | some first =>
      cases batch.getLast? with
      | none => rfl
      | some last =>
        simp only [Option.bind_some]
        cases DiskStorageCore.writeEntries lib {c with cursor} k batch with
        | none => rfl
        | some done => exact finishUnder_none done first last batch.length k

-- Without a fault the append is the one that was verified before.
theorem appendLogUnder_none (c : DiskStorageCore) (batch : List Entry) :
    appendLogUnder lib none c batch = (c.appendLog lib batch).map .ok := by
  cases batch with
  | nil => rfl
  | cons first rest =>
    simp only [appendLogUnder,DiskStorageCore.appendLog,appendEntriesUnder_none,Option.bind_eq_bind]
    cases c.firstIndex with
    | none => rfl
    | some opened =>
      simp only [Option.bind_some]
      split
      · rfl
      · cases c.lastIndex with
        | none => rfl
        | some closed =>
          simp only [Option.bind_some]
          split
          · rfl
          · rfl

-- The three ways in which an append returns an error.
theorem appendEntriesUnder_err (failed : appendEntriesUnder lib fault c batch k = some (.err after)) :
    (fault = some .seek ∧ after = c) ∨
      (∃ (j : ℕ) (m : Fin 8) (e : Entry) (cursor : ℕ) (done : DiskStorageCore), fault = some (.writeLen j m) ∧
        batch[j]? = some e ∧ c.seekFrom k = some cursor ∧
        DiskStorageCore.writeEntries lib {c with cursor} k (batch.take j) = some done ∧
        after = writeSome done ((putU64 (lib.writeToBytes e).length).take m)) ∨
      ((fault = some .flushLog ∨ fault = some .flushOffset) ∧ c.appendEntries lib batch k = some after) := by
  have clean : appendEntriesUnder lib none c batch k = (c.appendEntries lib batch k).map .ok :=
    appendEntriesUnder_none c batch k
  simp only [appendEntriesUnder,Option.bind_eq_bind] at failed clean
  obtain ⟨cursor,seek,failed⟩ := Option.bind_eq_some_iff.mp failed
  split at failed
  · rename_i reason
    cases failed
    exact .inl ⟨reason,rfl⟩
  · right
    obtain ⟨first,head,failed⟩ := Option.bind_eq_some_iff.mp failed
    obtain ⟨last,found,failed⟩ := Option.bind_eq_some_iff.mp failed
    obtain ⟨attempt,loop,failed⟩ := Option.bind_eq_some_iff.mp failed
    cases attempt with
    | err stopped =>
      cases failed
      obtain ⟨j,m,e,done,reason,entry,entries,final⟩ := writeEntriesUnder_err loop
      rw [Nat.zero_add] at reason
      exact .inl ⟨j,m,e,cursor,done,reason,entry,seek,entries,final⟩
    | ok done =>
      obtain ⟨reason,finished⟩ := finishUnder_err failed
      have entries : writeEntriesUnder lib none k {c with cursor} 0 batch = some (.ok done) := by
        rw [writeEntriesUnder_none]
        exact congrArg (Option.map Attempt.ok) (writeEntriesUnder_ok loop)
      rw [seek,Option.bind_some,if_neg (fun found => by cases found),head,Option.bind_some,found,Option.bind_some,
        entries,Option.bind_some] at clean
      obtain ⟨next,same,equal⟩ := Option.map_eq_some_iff.mp (clean.symm.trans finished)
      cases equal
      exact .inr ⟨reason,same⟩

end Faultless

end KompicsBenches.DiskFaults
