import KompicsBenches.DiskRefine

namespace KompicsBenches.DiskStates
open Wire ByteFile Segments DiskLog DiskLog.MemLog DiskRefine
variable {Entry : Type} {lib : RaftLib Entry}

abbrev ConfState := List ℕ × List ℕ

structure HardState where
  term : ℕ
  vote : ℕ
  commit : ℕ
  deriving DecidableEq, Repr

inductive HardField where
  | term
  | vote
  | commit
  deriving DecidableEq, Repr

def HardField.start : HardField → ℕ
  | .term => 0
  | .vote => 8
  | .commit => 16

-- `core` has the log, its map of offsets, the metadata and the snapshot.
structure DiskStorage where
  core : DiskStorageCore
  hardState : List UInt8
  confState : ConfState
  pendingConfState : Option ConfState
  pendingConfStateStartIndex : Option ℕ

namespace DiskStorage
variable (lib) (s : DiskStorage)

def writeField (field : HardField) (value : ℕ) : Option DiskStorage :=
  (overwrite s.hardState field.start (putU64 value)).map fun hardState => { s with hardState }

-- `none` is a panic or an error.
def setHardState (commit term : ℕ) : Option DiskStorage := do
  let s ← s.writeField .term term
  s.writeField .commit commit

def newWithConfState (confState : ConfState) : Option DiskStorage :=
  setHardState ⟨DiskLog.newWithConfState,List.replicate 24 0,confState,none,none⟩ 1 1

def readHardStateField (field : HardField) : Option ℕ := do
  let bytes ← slice s.hardState field.start (field.start + 8)
  fromBeBytes bytes

def getHardState : Option HardState := do
  let term ← s.readHardStateField .term
  let commit ← s.readHardStateField .commit
  let vote ← s.readHardStateField .vote
  return ⟨term,vote,commit⟩

def setConfState (cs : ConfState) (pendingMembershipChange : Option (ConfState × ℕ)) : DiskStorage :=
  let s := { s with confState := cs }
  match pendingMembershipChange with
  | some (cs,idx) => { s with pendingConfState := some cs, pendingConfStateStartIndex := some idx }
  | none => s

def appendLog (entries : List Entry) : Option DiskStorage :=
  (s.core.appendLog lib entries).map fun core => { s with core }

def initialState : Option (HardState × ConfState) := do
  let hardState ← s.getHardState
  return (hardState,s.confState)

end DiskStorage

-- What the replica does to its storage.
inductive Op (Entry : Type) where
  | appendLog (entries : List Entry)
  | setHardState (commit term : ℕ)
  | setConfState (cs : ConfState) (pendingMembershipChange : Option (ConfState × ℕ))

def DiskStorage.run (lib : RaftLib Entry) (s : DiskStorage) : List (Op Entry) → Option DiskStorage
  | [] => some s
  | .appendLog entries :: ops => do
    let s ← s.appendLog lib entries
    run lib s ops
  | .setHardState commit term :: ops => do
    let s ← s.setHardState commit term
    run lib s ops
  | .setConfState cs pending :: ops => run lib (s.setConfState cs pending) ops

-- The storage in memory, whose operations set fields.
structure MemStorage (Entry : Type) where
  log : MemLog Entry
  hardState : HardState
  confState : ConfState
  pendingConfState : Option ConfState
  pendingConfStateStartIndex : Option ℕ

namespace MemStorage

def newWithConfState (confState : ConfState) : MemStorage Entry := ⟨.initial,⟨1,0,1⟩,confState,none,none⟩

variable (lib) (mem : MemStorage Entry)

def apply : Op Entry → MemStorage Entry
  | .appendLog entries => { mem with log := mem.log.append lib entries }
  | .setHardState commit term => { mem with hardState := { mem.hardState with commit, term } }
  | .setConfState cs none => { mem with confState := cs }
  | .setConfState cs (some (pending,idx)) =>
    { mem with confState := cs, pendingConfState := some pending, pendingConfStateStartIndex := some idx }

def run (ops : List (Op Entry)) : MemStorage Entry := ops.foldl (apply lib) mem

-- Batches of the Raft library and numbers of 64 bits.
def Accepts : Op Entry → Prop
  | .appendLog entries => entries = [] ∨ mem.log.Accepts lib entries
  | .setHardState commit term => commit < 2 ^ 64 ∧ term < 2 ^ 64
  | .setConfState _ _ => True

def AcceptsAll (mem : MemStorage Entry) : List (Op Entry) → Prop
  | [] => True
  | op :: ops => mem.Accepts lib op ∧ AcceptsAll (mem.apply lib op) ops

end MemStorage

section Words
variable {s : DiskStorage}

theorem start_fits (field : HardField) : field.start + 8 ≤ 24 := by
  cases field <;> decide

-- The fields lie apart, so that setting one keeps the others.
theorem writeField_run (sized : s.hardState.length = 24) (field : HardField) {value : ℕ} (small : value < 2 ^ 64) :
    ∃ hardState, s.writeField field value = some { s with hardState } ∧ hardState.length = 24 ∧
      DiskStorage.readHardStateField { s with hardState } field = some value ∧
      ∀ other, other ≠ field →
        DiskStorage.readHardStateField { s with hardState } other = s.readHardStateField other := by
  have within := start_fits field
  have fits : field.start + (putU64 value).length ≤ s.hardState.length := by
    rw [putU64_length,sized]
    exact within
  refine ⟨write s.hardState field.start (putU64 value),?_,(length_write fits).trans sized,?_,?_⟩
  · rw [DiskStorage.writeField,overwrite_write fits]
    rfl
  · have stored : Holds (write s.hardState field.start (putU64 value)) field.start (putU64 value) :=
      holds_write (Nat.le_trans (Nat.le_add_right _ _) fits)
    rw [Holds,putU64_length] at stored
    simp only [DiskStorage.readHardStateField,stored,Option.bind_eq_bind,Option.bind_some]
    exact fromBeBytes_put small
  · intro other different
    have apart : other.start + 8 ≤ field.start ∨ field.start + (putU64 value).length ≤ other.start := by
      rw [putU64_length]
      cases field <;> cases other <;> first | exact absurd rfl different | decide
    simp only [DiskStorage.readHardStateField,slice_apart fits apart]

theorem setHardState_run (sized : s.hardState.length = 24) {commit term : ℕ} (small : commit < 2 ^ 64 ∧ term < 2 ^ 64) :
    ∃ hardState, s.setHardState commit term = some { s with hardState } ∧ hardState.length = 24 ∧
      ∀ vote, s.readHardStateField .vote = some vote →
        DiskStorage.getHardState { s with hardState } = some ⟨term,vote,commit⟩ := by
  obtain ⟨first,done,first_sized,first_read,first_kept⟩ := writeField_run sized .term small.2
  obtain ⟨last,done_again,last_sized,last_read,last_kept⟩ :=
    writeField_run (s := { s with hardState := first }) first_sized .commit small.1
  refine ⟨last,?_,last_sized,?_⟩
  · rw [DiskStorage.setHardState,done]
    exact done_again
  · intro vote voted
    have term_read := (last_kept .term (by decide)).trans first_read
    have vote_read := ((last_kept .vote (by decide)).trans (first_kept .vote (by decide))).trans voted
    simp only [DiskStorage.getHardState,term_read,last_read,vote_read,Option.bind_eq_bind,Option.bind_some]
    rfl

theorem getHardState_vote {hard : HardState} (stored : s.getHardState = some hard) :
    s.readHardStateField .vote = some hard.vote := by
  obtain ⟨term,_,rest⟩ := Option.bind_eq_some_iff.mp stored
  obtain ⟨commit,_,rest⟩ := Option.bind_eq_some_iff.mp rest
  obtain ⟨vote,voted,same⟩ := Option.bind_eq_some_iff.mp rest
  cases same
  exact voted

end Words

section Refinement
variable {s : DiskStorage} {mem : MemStorage Entry}

structure Stands (lib : RaftLib Entry) (s : DiskStorage) (mem : MemStorage Entry) : Prop where
  log : Represents lib s.core mem.log
  sized : s.hardState.length = 24
  hardState : s.getHardState = some mem.hardState
  confState : s.confState = mem.confState
  pending : s.pendingConfState = mem.pendingConfState
  startIndex : s.pendingConfStateStartIndex = mem.pendingConfStateStartIndex

theorem initial_stands (lib : RaftLib Entry) (confState : ConfState) :
    ∃ s, DiskStorage.newWithConfState confState = some s ∧ Stands lib s (MemStorage.newWithConfState confState) := by
  have blank : List.length (List.replicate 24 (0 : UInt8)) = 24 := List.length_replicate
  have one : 1 < 2 ^ 64 := by decide
  obtain ⟨hardState,done,sized,stored⟩ := setHardState_run
    (s := ⟨DiskLog.newWithConfState,List.replicate 24 0,confState,none,none⟩) blank ⟨one,one⟩
  exact ⟨_,done,initial_represents,sized,stored 0 rfl,rfl,rfl,rfl⟩

theorem Stands.appendLog (stands : Stands lib s mem) {entries : List Entry}
    (accepted : mem.Accepts lib (.appendLog entries)) :
    ∃ next, s.appendLog lib entries = some next ∧ Stands lib next (mem.apply lib (.appendLog entries)) := by
  obtain rfl | fits := accepted
  · exact ⟨s,rfl,stands⟩
  · obtain ⟨core,done,rep⟩ := stands.log.appendLog fits
    refine ⟨{ s with core },?_,rep,stands.sized,stands.hardState,stands.confState,stands.pending,stands.startIndex⟩
    rw [DiskStorage.appendLog,done]
    rfl

theorem Stands.setHardState (stands : Stands lib s mem) {commit term : ℕ} (small : commit < 2 ^ 64 ∧ term < 2 ^ 64) :
    ∃ next, s.setHardState commit term = some next ∧ Stands lib next (mem.apply lib (.setHardState commit term)) := by
  obtain ⟨hardState,done,sized,stored⟩ := setHardState_run stands.sized small
  exact ⟨_,done,stands.log,sized,stored _ (getHardState_vote stands.hardState),stands.confState,stands.pending,
    stands.startIndex⟩

theorem Stands.setConfState (stands : Stands lib s mem) (cs : ConfState) (pending : Option (ConfState × ℕ)) :
    Stands lib (s.setConfState cs pending) (mem.apply lib (.setConfState cs pending)) := by
  cases pending with
  | none => exact ⟨stands.log,stands.sized,stands.hardState,rfl,stands.pending,stands.startIndex⟩
  | some change => exact ⟨stands.log,stands.sized,stands.hardState,rfl,rfl,rfl⟩

theorem Stands.run {ops : List (Op Entry)} (stands : Stands lib s mem) (accepted : mem.AcceptsAll lib ops) :
    ∃ next, s.run lib ops = some next ∧ Stands lib next (mem.run lib ops) := by
  induction ops generalizing s mem with
  | nil => exact ⟨s,rfl,stands⟩
  | cons op ops ih =>
    obtain ⟨fits,later⟩ := accepted
    cases op with
    | appendLog entries =>
      obtain ⟨middle,done,after⟩ := stands.appendLog fits
      obtain ⟨next,rest,final⟩ := ih after later
      exact ⟨next,by rw [DiskStorage.run,done]; exact rest,final⟩
    | setHardState commit term =>
      obtain ⟨middle,done,after⟩ := stands.setHardState fits
      obtain ⟨next,rest,final⟩ := ih after later
      exact ⟨next,by rw [DiskStorage.run,done]; exact rest,final⟩
    | setConfState cs pending => exact ih (stands.setConfState cs pending) later

-- However appends and changes of the two states are mixed, the storage on disk answers
-- what the storage in memory does: neither disturbs the bytes of the other.
theorem disk_storage_refines (lawful : lib.Lawful) (confState : ConfState) (ops : List (Op Entry))
    (accepted : (MemStorage.newWithConfState confState).AcceptsAll lib ops) :
    ∃ s mem, (DiskStorage.newWithConfState confState).bind (·.run lib ops) = some s ∧
      mem = (MemStorage.newWithConfState confState).run lib ops ∧
      s.initialState = some (mem.hardState,mem.confState) ∧
      s.pendingConfState = mem.pendingConfState ∧
      s.pendingConfStateStartIndex = mem.pendingConfStateStartIndex ∧
      s.core.firstIndex = some (mem.log.firstIndex lib) ∧ s.core.lastIndex = some (mem.log.lastIndex lib) ∧
      (∀ idx, s.core.term lib idx = some (mem.log.term lib idx)) ∧
      ∀ low high, mem.log.firstIndex lib ≤ low → low ≤ high → high ≤ mem.log.lastIndex lib + 1 →
        s.core.entries lib low high none = some (.ok (mem.log.range lib low high)) := by
  obtain ⟨fresh,made,begun⟩ := initial_stands lib confState
  obtain ⟨s,done,stands⟩ := begun.run accepted
  refine ⟨s,_,by rw [made]; exact done,rfl,?_,stands.pending,stands.startIndex,?_,?_,stands.log.term lawful,?_⟩
  · rw [DiskStorage.initialState,stands.hardState,stands.confState]
    rfl
  · rw [stands.log.numbered.firstIndex]
    exact stands.log.first
  · rw [stands.log.numbered.lastIndex]
    exact stands.log.last
  · intro low high above ordered below
    exact stands.log.range lawful above ordered below

end Refinement

section Committed
variable {log : MemLog Entry} {batch : List Entry} {mem : MemStorage Entry} {idx : ℕ}

-- What stands before a batch is not touched by it.
theorem term_kept (numbered : Numbered lib log) (accepted : log.Accepts lib batch)
    (below : ∀ first ∈ batch.head?, idx < lib.index first) : (log.append lib batch).term lib idx = log.term lib idx := by
  obtain ⟨first,k,head,place,short,entries,after⟩ := numbered.append accepted
  have before := below first head
  obtain ⟨sameIndex,sameTerm⟩ : (log.append lib batch).snapshotIndex = log.snapshotIndex ∧
      (log.append lib batch).snapshotTerm = log.snapshotTerm := append_snapshot log batch
  unfold MemLog.term
  rw [numbered.firstIndex,after.firstIndex,sameIndex,sameTerm]
  split
  · rfl
  · split
    · rfl
    · rename_i behind
      obtain ⟨j,rfl⟩ := Nat.exists_eq_add_of_le (Nat.le_of_not_lt behind)
      have found := after.find_index j
      rw [sameIndex] at found
      have width : (log.entries.take k).length = k := by
        rw [List.length_take]
        omega
      rw [found,numbered.find_index j,entries,List.getElem?_append_left (by omega),List.getElem?_take,if_pos (by omega)]

-- The replica records the place of a committed entry of its log, and the Raft library
-- never hands it a batch that replaces one.
def MemStorage.Commits (lib : RaftLib Entry) (mem : MemStorage Entry) : Op Entry → Prop
  | .appendLog entries => ∀ first ∈ entries.head?, mem.hardState.commit < lib.index first
  | .setHardState commit term => mem.log.term lib commit = .ok term
  | .setConfState _ _ => True

def MemStorage.CommitsAll (lib : RaftLib Entry) (mem : MemStorage Entry) : List (Op Entry) → Prop
  | [] => True
  | op :: ops => mem.Commits lib op ∧ CommitsAll lib (mem.apply lib op) ops

-- The committed place names an entry of the log by its index and term.
structure Recorded (lib : RaftLib Entry) (mem : MemStorage Entry) : Prop where
  numbered : Numbered lib mem.log
  stored : mem.log.term lib mem.hardState.commit = .ok mem.hardState.term

theorem Recorded.apply (recorded : Recorded lib mem) {op : Op Entry} (accepted : mem.Accepts lib op)
    (commits : mem.Commits lib op) : Recorded lib (mem.apply lib op) := by
  cases op with
  | appendLog entries =>
    obtain rfl | fits := accepted
    · exact recorded
    · obtain ⟨_,_,_,_,_,_,after⟩ := recorded.numbered.append fits
      exact ⟨after,(term_kept recorded.numbered fits commits).trans recorded.stored⟩
  | setHardState commit term => exact ⟨recorded.numbered,commits⟩
  | setConfState cs pending => cases pending <;> exact ⟨recorded.numbered,recorded.stored⟩

theorem Recorded.run {ops : List (Op Entry)} (recorded : Recorded lib mem) (accepted : mem.AcceptsAll lib ops)
    (commits : mem.CommitsAll lib ops) : Recorded lib (mem.run lib ops) := by
  induction ops generalizing mem with
  | nil => exact recorded
  | cons op ops ih => exact ih (recorded.apply accepted.1 commits.1) accepted.2 commits.2

-- What the storage says is committed stands in its log, with the term it says.
theorem commit_stored (lawful : lib.Lawful) (confState : ConfState) (ops : List (Op Entry))
    (accepted : (MemStorage.newWithConfState confState).AcceptsAll lib ops)
    (commits : (MemStorage.newWithConfState confState).CommitsAll lib ops) :
    ∃ s hard, (DiskStorage.newWithConfState confState).bind (·.run lib ops) = some s ∧
      s.getHardState = some hard ∧ s.core.term lib hard.commit = some (.ok hard.term) := by
  obtain ⟨fresh,made,begun⟩ := initial_stands lib confState
  obtain ⟨s,done,stands⟩ := begun.run accepted
  have start : Recorded lib (MemStorage.newWithConfState confState) := ⟨begun.log.numbered,rfl⟩
  refine ⟨s,_,by rw [made]; exact done,stands.hardState,?_⟩
  rw [stands.log.term lawful,(start.run accepted commits).stored]

end Committed

-- A log whose tail is replaced while the committed place moves on.
section Sample

def mixedRun : List (Op SmallEntry) :=
  [.appendLog [⟨2,2⟩,⟨3,3⟩],.setHardState 2 2,.setConfState ([1,2,4],[]) (some (([1,2],[]),3)),.appendLog [⟨3,4⟩],
    .setHardState 3 4]

theorem mixedRun_accepted : (MemStorage.newWithConfState ([1,2,3],[])).AcceptsAll smallLib mixedRun :=
  ⟨.inr ⟨⟨2,2⟩,rfl,by decide,by decide,by decide,by decide +kernel⟩,⟨by decide,by decide⟩,trivial,
    .inr ⟨⟨3,4⟩,rfl,by decide,by decide,by decide,by decide +kernel⟩,⟨by decide,by decide⟩,trivial⟩

theorem mixedRun_refines : ∃ s, (DiskStorage.newWithConfState ([1,2,3],[])).bind (·.run smallLib mixedRun) = some s ∧
    s.initialState = some (⟨4,0,3⟩,([1,2,4],[])) ∧ s.core.term smallLib 3 = some (.ok 4) := by
  obtain ⟨s,mem,done,rfl,initial,_,_,_,_,terms,_⟩ :=
    disk_storage_refines smallLib_lawful ([1,2,3],[]) mixedRun mixedRun_accepted
  exact ⟨s,done,initial,terms 3⟩

theorem mixedRun_committed : ∃ s hard,
    (DiskStorage.newWithConfState ([1,2,3],[])).bind (·.run smallLib mixedRun) = some s ∧
      s.getHardState = some hard ∧ s.core.term smallLib hard.commit = some (.ok hard.term) := by
  apply commit_stored smallLib_lawful ([1,2,3],[]) mixedRun mixedRun_accepted
  refine ⟨?_,rfl,trivial,?_,rfl,trivial⟩
  · intro first head
    cases head
    decide
  · intro first head
    cases head
    decide

end Sample

end KompicsBenches.DiskStates
