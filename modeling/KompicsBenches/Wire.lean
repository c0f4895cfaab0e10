import Mathlib

namespace KompicsBenches.Wire

-- Why a read stops. The accessors of a buffer panic on a buffer that is too short,
-- a decoder panics on a tag it cannot meet, or it reports the tag as an error.
inductive ReadError where
  | underflow
  | panicked (message : String)
  | invalidType (message : String)
  deriving DecidableEq, Repr

abbrev Reader := StateT (List UInt8) (Except ReadError)

-- Big endian: the most significant byte first, and a number that does not fit is
-- cut to the width as a cast cuts it.
def putUint : ℕ → ℕ → List UInt8
  | 0,_ => []
  | width + 1,n => UInt8.ofNat (n / 256 ^ width) :: putUint width n

def getByte : Reader UInt8 := fun bytes =>
  match bytes with
  | [] => .error .underflow
  | byte :: rest => .ok (byte,rest)

def getUint : ℕ → ℕ → Reader ℕ
  | 0,acc => pure acc
  | width + 1,acc => getByte >>= fun byte => getUint width (acc * 256 + byte.toNat)

def putU8 (n : ℕ) : List UInt8 := putUint 1 n
def putU32 (n : ℕ) : List UInt8 := putUint 4 n
def putU64 (n : ℕ) : List UInt8 := putUint 8 n
def getU8 : Reader ℕ := getUint 1 0
def getU32 : Reader ℕ := getUint 4 0
def getU64 : Reader ℕ := getUint 8 0

-- Signed words travel in two's complement.
def signed (word : ℕ) : ℤ := if word < 2 ^ 63 then word else word - 2 ^ 64
def putI64 (n : ℤ) : List UInt8 := putU64 (n % 2 ^ 64).toNat
def getI64 : Reader ℤ := getU64 >>= fun word => pure (signed word)

-- A word read from exactly its own bytes.
def fromBeBytes (bytes : List UInt8) : Option ℕ :=
  match getU64.run bytes with
  | .ok (word,[]) => some word
  | _ => none

def getSlice (count : ℕ) : Reader (List UInt8) := fun bytes =>
  if count ≤ bytes.length then .ok (bytes.take count,bytes.drop count) else .error .underflow

def getMany (read : Reader α) : ℕ → Reader (List α)
  | 0 => pure []
  | count + 1 => read >>= fun item => getMany read count >>= fun items => pure (item :: items)

-- Items whose encoding may fail, one after the other; the first failure ends it.
def putAll (put : α → Option (List UInt8)) : List α → Option (List UInt8)
  | [] => some []
  | item :: items => do
    let bytes ← put item
    let more ← putAll put items
    return bytes ++ more

-- A collection behind its own length.
def putList (put : α → List UInt8) (items : List α) : List UInt8 :=
  putU32 items.length ++ items.flatMap put

def getList (read : Reader α) : Reader (List α) := getU32 >>= getMany read

def putBytes (data : List UInt8) : List UInt8 := putU32 data.length ++ data

def getBytes : Reader (List UInt8) := getU32 >>= getSlice

-- A reader meets an encoding: whatever follows the encoding, it returns the value
-- and stops right behind it.
def Reads (read : Reader α) (bytes : List UInt8) (value : α) : Prop :=
  ∀ rest, read.run (bytes ++ rest) = .ok (value,rest)

variable {read : Reader α} {bytes more : List UInt8} {value : α}

theorem Reads.pure (value : α) : Reads (pure value) [] value := by
  intro rest
  rfl

theorem Reads.bind {next : α → Reader β} {result : β} (first : Reads read bytes value)
    (second : Reads (next value) more result) : Reads (read >>= next) (bytes ++ more) result := by
  intro rest
  rw [List.append_assoc,StateT.run_bind,first (more ++ rest)]
  exact second rest

theorem Reads.last {next : α → Reader β} {result : β} (first : Reads read bytes value)
    (final : next value = Pure.pure result) : Reads (read >>= next) bytes result := by
  intro rest
  rw [StateT.run_bind,first rest]
  exact congrArg (fun final => final.run rest) final

theorem run_bind_ok {next : α → Reader β} {result : β} {left : List UInt8}
    (done : (read >>= next).run bytes = .ok (result,left)) :
    ∃ value middle, read.run bytes = .ok (value,middle) ∧ (next value).run middle = .ok (result,left) := by
  rw [StateT.run_bind] at done
  cases first : read.run bytes with
  | error reason =>
    rw [first] at done
    cases done
  | ok pair =>
    rw [first] at done
    exact ⟨pair.1,pair.2,rfl,done⟩

theorem reads_byte (byte : UInt8) : Reads getByte [byte] byte := by
  intro rest
  rfl

theorem getUint_put (width n acc : ℕ) :
    Reads (getUint width acc) (putUint width n) (acc * 256 ^ width + n % 256 ^ width) := by
  induction width generalizing acc with
  | zero =>
    have none_left : acc * 256 ^ 0 + n % 256 ^ 0 = acc := by
      rw [Nat.pow_zero,Nat.mod_one,Nat.mul_one,Nat.add_zero]
    rw [none_left]
    exact Reads.pure acc
  | succ width ih =>
    have digit : (UInt8.ofNat (n / 256 ^ width)).toNat = n / 256 ^ width % 256 := by simp
    have split : acc * 256 ^ (width + 1) + n % 256 ^ (width + 1) =
        (acc * 256 + n / 256 ^ width % 256) * 256 ^ width + n % 256 ^ width := by
      rw [Nat.pow_succ,Nat.mod_mul]
      ring
    rw [split,← digit]
    exact (reads_byte _).bind (ih _)

theorem reads_uint {width n : ℕ} (fits : n < 256 ^ width) :
    Reads (getUint width 0) (putUint width n) n := by
  have read := getUint_put width n 0
  rwa [Nat.zero_mul,Nat.zero_add,Nat.mod_eq_of_lt fits] at read

theorem reads_u8 {n : ℕ} (fits : n < 2 ^ 8) : Reads getU8 (putU8 n) n := by
  apply reads_uint
  simpa using fits

theorem reads_u32 {n : ℕ} (fits : n < 2 ^ 32) : Reads getU32 (putU32 n) n := by
  apply reads_uint
  simpa using fits

theorem reads_u64 {n : ℕ} (fits : n < 2 ^ 64) : Reads getU64 (putU64 n) n := by
  apply reads_uint
  simpa using fits

theorem putUint_length (width n : ℕ) : (putUint width n).length = width := by
  induction width with
  | zero => rfl
  | succ width ih => rw [putUint,List.length_cons,ih]

@[simp] theorem putU64_length (n : ℕ) : (putU64 n).length = 8 := putUint_length 8 n

theorem fromBeBytes_put {n : ℕ} (fits : n < 2 ^ 64) : fromBeBytes (putU64 n) = some n := by
  have read := reads_u64 fits []
  rw [List.append_nil] at read
  rw [fromBeBytes,read]

theorem reads_i64 {n : ℤ} (lower : -2 ^ 63 ≤ n) (upper : n < 2 ^ 63) : Reads getI64 (putI64 n) n := by
  have fits : (n % 2 ^ 64).toNat < 2 ^ 64 := by omega
  have sign : signed (n % 2 ^ 64).toNat = n := by
    unfold signed
    split <;> omega
  exact (reads_u64 fits).last (congrArg pure sign)

theorem reads_slice (data : List UInt8) : Reads (getSlice data.length) data data := by
  intro rest
  simp [getSlice,StateT.run]

theorem reads_many {put : α → List UInt8} {items : List α}
    (each : ∀ item ∈ items, Reads read (put item) item) :
    Reads (getMany read items.length) (items.flatMap put) items := by
  induction items with
  | nil => exact Reads.pure []
  | cons item items ih =>
    rw [List.forall_mem_cons] at each
    exact each.1.bind ((ih each.2).last rfl)

-- What every item is when it is read, the items of a collection are.
theorem getMany_all {holds : α → Prop} (each : ∀ bytes item left, read.run bytes = .ok (item,left) → holds item)
    {count : ℕ} {items : List α} {left : List UInt8} (done : (getMany read count).run bytes = .ok (items,left)) :
    ∀ item ∈ items, holds item := by
  induction count generalizing bytes items with
  | zero =>
    cases done
    intro item member
    cases member
  | succ count ih =>
    obtain ⟨first,middle,read_first,done⟩ := run_bind_ok done
    obtain ⟨others,behind,read_others,done⟩ := run_bind_ok done
    cases done
    rw [List.forall_mem_cons]
    exact ⟨each _ _ _ read_first,ih read_others⟩

theorem reads_all {put : α → Option (List UInt8)} {items : List α}
    (each : ∀ item ∈ items, ∃ bytes, put item = some bytes ∧ Reads read bytes item) :
    ∃ bytes, putAll put items = some bytes ∧ Reads (getMany read items.length) bytes items := by
  induction items with
  | nil => exact ⟨[],rfl,Reads.pure []⟩
  | cons item items ih =>
    rw [List.forall_mem_cons] at each
    obtain ⟨bytes,written,reads⟩ := each.1
    obtain ⟨more,writtenMore,readsMore⟩ := ih each.2
    refine ⟨bytes ++ more,?_,reads.bind (readsMore.last rfl)⟩
    simp [putAll,written,writtenMore]

-- Items whose encoding went through, each of at least one byte.
theorem reads_written {put : α → Option (List UInt8)} {items : List α} {all : List UInt8}
    (each : ∀ item ∈ items, ∀ bytes, put item = some bytes → Reads read bytes item ∧ 0 < bytes.length)
    (written : putAll put items = some all) :
    Reads (getMany read items.length) all items ∧ items.length ≤ all.length := by
  induction items generalizing all with
  | nil =>
    cases written
    exact ⟨Reads.pure [],le_refl 0⟩
  | cons item items ih =>
    rw [List.forall_mem_cons] at each
    obtain ⟨bytes,written_item,written⟩ := Option.bind_eq_some_iff.mp written
    obtain ⟨more,written_more,written⟩ := Option.bind_eq_some_iff.mp written
    cases written
    obtain ⟨reads,some_byte⟩ := each.1 bytes written_item
    obtain ⟨reads_more,shorter⟩ := ih each.2 written_more
    refine ⟨reads.bind (reads_more.last rfl),?_⟩
    rw [List.length_cons,List.length_append]
    omega

theorem reads_list {put : α → List UInt8} {items : List α} (short : items.length < 2 ^ 32)
    (each : ∀ item ∈ items, Reads read (put item) item) :
    Reads (getList read) (putList put items) items :=
  (reads_u32 short).bind (reads_many each)

theorem reads_bytes {data : List UInt8} (short : data.length < 2 ^ 32) :
    Reads getBytes (putBytes data) data :=
  (reads_u32 short).bind (reads_slice data)

end KompicsBenches.Wire
