import KompicsBenches.Wire
import KompicsBenches.LinearCheck

namespace KompicsBenches.JvmCodec

open Wire
open LinearCheck (KVOperation)

abbrev JInt := BitVec 32
abbrev JLong := BitVec 64

structure KVTimestamp where
  key : JLong
  operation : KVOperation
  value : Option JInt
  time : JLong
  sender : JInt
  deriving DecidableEq, Repr

inductive Message (Node : Type) where
  | init (rank initId : JInt) (nodes : List Node) (min max : JLong)
  | initAck (initId : JInt)
  | run
  | done
  | testDone (timestamps : List KVTimestamp)
  | identify
  deriving DecidableEq, Repr

def writeShort (n : ℕ) : List UInt8 := putUint 2 n
def writeInt (n : JInt) : List UInt8 := putU32 n.toNat
def writeLong (n : JLong) : List UInt8 := putU64 n.toNat
def readUnsignedShort : Reader (BitVec 16) := getUint 2 0 >>= fun word => pure (BitVec.ofNat 16 word)
def readInt : Reader JInt := getU32 >>= fun word => pure (BitVec.ofNat 32 word)
def readLong : Reader JLong := getU64 >>= fun word => pure (BitVec.ofNat 64 word)

-- A loop up to a negative number has no rounds.
def readTimes (read : Reader α) : Reader (List α) := readInt >>= fun n => getMany read n.toInt.toNat

@[match_pattern] abbrev initFlag : ℕ := 1
@[match_pattern] abbrev initAckFlag : ℕ := 2
@[match_pattern] abbrev runFlag : ℕ := 3
@[match_pattern] abbrev doneFlag : ℕ := 4
@[match_pattern] abbrev testDoneFlag : ℕ := 5
@[match_pattern] abbrev identifyFlag : ℕ := 6

@[match_pattern] abbrev writeInvokationFlag : ℕ := 6
@[match_pattern] abbrev readInvokationFlag : ℕ := 7
@[match_pattern] abbrev writeResponseFlag : ℕ := 8
@[match_pattern] abbrev readResponseFlag : ℕ := 9

-- What the three serializers do differently: their nodes, the operation they take
-- a flag for that is not of a `ReadInvokation`, and the messages they know.
structure Serializer (Node : Type) where
  writeNode : Node → Option (List UInt8)
  readNode : Reader Node
  operation : ℕ → Reader KVOperation
  identifies : Bool
  invalid : ℕ → Reader (Option (Message Node))

-- `get` raises on a value that is missing.
def writeOperation (ts : KVTimestamp) : Option (List UInt8) :=
  match ts.operation with
  | .readInvokation => some (putU8 readInvokationFlag)
  | .readResponse => ts.value.map fun value => putU8 readResponseFlag ++ writeInt value
  | .writeInvokation => ts.value.map fun value => putU8 writeInvokationFlag ++ writeInt value
  | .writeResponse => ts.value.map fun value => putU8 writeResponseFlag ++ writeInt value

def writeTimestamp (ts : KVTimestamp) : Option (List UInt8) := do
  let operation ← writeOperation ts
  return writeLong ts.key ++ (operation ++ (writeLong ts.time ++ writeInt ts.sender))

section Serializers
variable {Node : Type} (serializer : Serializer Node)

def readPayload (key : JLong) : ℕ → Reader KVTimestamp
  | readInvokationFlag => do
    let time ← readLong
    let sender ← readInt
    return ⟨key,.readInvokation,none,time,sender⟩
  | flag => do
    let operation ← serializer.operation flag
    let value ← readInt
    let time ← readLong
    let sender ← readInt
    return ⟨key,operation,some value,time,sender⟩

def readTimestamp : Reader KVTimestamp := do
  let key ← readLong
  let operation ← getU8
  readPayload serializer key operation

def write : Message Node → Option (List UInt8)
  | .init rank initId nodes min max => do
    let all ← putAll serializer.writeNode nodes
    return putU8 initFlag ++ (writeInt rank ++ (writeInt initId ++ (writeLong min ++ (writeLong max ++
      (putU32 nodes.length ++ all)))))
  | .initAck initId => some (putU8 initAckFlag ++ writeInt initId)
  | .run => some (putU8 runFlag)
  | .done => some (putU8 doneFlag)
  | .testDone timestamps => do
    let all ← putAll writeTimestamp timestamps
    return putU8 testDoneFlag ++ (putU32 timestamps.length ++ all)
  | .identify => if serializer.identifies then some (putU8 identifyFlag) else none

-- A buffer that cannot grow any more raises.
def toBinary (capacity : ℕ) (m : Message Node) : Option (List UInt8) := do
  let bytes ← write serializer m
  if bytes.length ≤ capacity then some bytes else none

-- `none` is `null`.
def fromBinary : Reader (Option (Message Node)) := do
  match ← getU8 with
  | initFlag =>
    let rank ← readInt
    let initId ← readInt
    let min ← readLong
    let max ← readLong
    let nodes ← readTimes serializer.readNode
    return some (.init rank initId nodes min max)
  | initAckFlag =>
    let initId ← readInt
    return some (.initAck initId)
  | runFlag => return some .run
  | doneFlag => return some .done
  | testDoneFlag =>
    let timestamps ← readTimes (readTimestamp serializer)
    return some (.testDone timestamps)
  | flag => if serializer.identifies && flag = identifyFlag then return some .identify else serializer.invalid flag

end Serializers

section Addresses

-- An address as its bytes in network order, read as one number.
inductive InetAddress where
  | inet4 (address : BitVec 32)
  | inet6 (address : BitVec 128)
  deriving DecidableEq, Repr

def InetAddress.getAddress : InetAddress → List UInt8
  | .inet4 address => putUint 4 address.toNat
  | .inet6 address => putUint 16 address.toNat

structure NetAddress where
  ip : InetAddress
  port : BitVec 16
  deriving DecidableEq, Repr

def readAddress : Reader NetAddress := do
  let address ← getUint 4 0
  let port ← readUnsignedShort
  return ⟨.inet4 (BitVec.ofNat 32 address),port⟩

def matchOperation : ℕ → Reader KVOperation
  | readResponseFlag => return .readResponse
  | writeInvokationFlag => return .writeInvokation
  | writeResponseFlag => return .writeResponse
  | _ => throw (.panicked "MatchError")

def partitioningCompSerializer : Serializer NetAddress where
  writeNode node :=
    let ip := node.ip.getAddress
    if ip.length = 4 then some (ip ++ writeShort node.port.toNat) else none
  readNode := readAddress
  operation := matchOperation
  identifies := false
  invalid _ := return none

def jPartitioningCompSerializer : Serializer NetAddress where
  writeNode node := some (node.ip.getAddress ++ writeShort node.port.toNat)
  readNode := readAddress
  operation
    | readResponseFlag => return .readResponse
    | writeInvokationFlag => return .writeInvokation
    | _ => return .writeResponse
  identifies := false
  invalid flag := throw (.invalidType ("Invalid flag: " ++ toString (BitVec.ofNat 8 flag).toInt))

end Addresses

section Paths

def getBytes (s : String) : List UInt8 := s.toUTF8.data.toList

-- Bytes that are no UTF-8 do not fail: the malformed parts are replaced.
def newString (replaced : List UInt8 → String) (bytes : List UInt8) : String :=
  (String.fromUTF8? bytes.toByteArray).getD (replaced bytes)

def stringIntoByteString (s : String) : List UInt8 := writeShort (getBytes s).length ++ getBytes s

def stringFromByteBuffer (replaced : List UInt8 → String) : Reader String := do
  let pathLength ← readUnsignedShort
  if pathLength.toInt < 0 then throw (.panicked "NegativeArraySizeException")
  let pathBytes ← getSlice pathLength.toInt.toNat
  return newString replaced pathBytes

def partitioningActorSerializer (replaced : List UInt8 → String) : Serializer String where
  writeNode path := some (stringIntoByteString path)
  readNode := stringFromByteBuffer replaced
  operation := matchOperation
  identifies := true
  invalid _ := throw (.panicked "MatchError")

end Paths

-- A value is there exactly when the operation carries one.
def KVTimestamp.Valued (ts : KVTimestamp) : Prop := ts.value.isSome ↔ ts.operation ≠ .readInvokation

instance (ts : KVTimestamp) : Decidable ts.Valued := inferInstanceAs (Decidable (_ ↔ _))

def Message.Valued : Message Node → Prop
  | .testDone timestamps => ∀ ts ∈ timestamps, ts.Valued
  | _ => True

-- An error, or the same message back from the bytes and nothing behind them.
def Faithful (serializer : Serializer Node) (capacity : ℕ) (m : Message Node) : Prop :=
  ∀ bytes, toBinary serializer capacity m = some bytes → Reads (fromBinary serializer) bytes (some m)

structure Knows (serializer : Serializer Node) : Prop where
  readResponse : serializer.operation readResponseFlag = pure .readResponse
  writeInvokation : serializer.operation writeInvokationFlag = pure .writeInvokation
  writeResponse : serializer.operation writeResponseFlag = pure .writeResponse

theorem reads_int (n : JInt) : Reads readInt (writeInt n) n := by
  apply (reads_u32 n.isLt).last
  rw [BitVec.ofNat_toNat,BitVec.setWidth_eq]

theorem reads_long (n : JLong) : Reads readLong (writeLong n) n := by
  apply (reads_u64 n.isLt).last
  rw [BitVec.ofNat_toNat,BitVec.setWidth_eq]

theorem reads_short {n : ℕ} (fits : n < 2 ^ 16) : Reads readUnsignedShort (writeShort n) (BitVec.ofNat 16 n) := by
  have word : Reads (getUint 2 0) (putUint 2 n) n := by
    apply reads_uint
    simpa using fits
  exact word.last rfl

theorem reads_times {read : Reader α} {items : List α} {all : List UInt8} (short : items.length < 2 ^ 31)
    (reads : Reads (getMany read items.length) all items) :
    Reads (readTimes read) (putU32 items.length ++ all) items := by
  have word : Reads readInt (putU32 items.length) (BitVec.ofNat 32 items.length) :=
    (reads_u32 (by omega)).last rfl
  have rounds : (BitVec.ofNat 32 items.length).toInt.toNat = items.length := by
    have small : (BitVec.ofNat 32 items.length).toNat = items.length := by
      rw [BitVec.toNat_ofNat]
      omega
    rw [BitVec.toInt_eq_toNat_of_lt (by omega),small,Int.toNat_natCast]
  apply word.bind
  rw [rounds]
  exact reads

theorem reads_payload {serializer : Serializer Node} (other : flag ≠ readInvokationFlag)
    (known : serializer.operation flag = pure operation) (key : JLong) (value : JInt) (time : JLong) (sender : JInt) :
    Reads (readPayload serializer key flag) (writeInt value ++ (writeLong time ++ writeInt sender))
      ⟨key,operation,some value,time,sender⟩ := by
  unfold readPayload
  split
  · exact absurd rfl other
  · rw [known,pure_bind]
    apply (reads_int value).bind
    apply (reads_long time).bind
    exact (reads_int sender).last rfl

theorem reads_timestamp {serializer : Serializer Node} (knows : Knows serializer) (valued : ts.Valued)
    (written : writeTimestamp ts = some bytes) :
    Reads (readTimestamp serializer) bytes ts ∧ 0 < bytes.length := by
  obtain ⟨key,operation,value,time,sender⟩ := ts
  obtain ⟨tag,written_tag,written⟩ := Option.bind_eq_some_iff.mp written
  cases written
  have some_byte : 0 < (writeLong key ++ (tag ++ (writeLong time ++ writeInt sender))).length := by
    rw [List.length_append,writeLong,putU64_length]
    omega
  refine ⟨?_,some_byte⟩
  apply (reads_long key).bind
  cases value with
  | none =>
    cases operation with
    | readInvokation =>
      cases written_tag
      apply (reads_u8 (by decide)).bind
      apply (reads_long time).bind
      exact (reads_int sender).last rfl
    | readResponse | writeInvokation | writeResponse => cases written_tag
  | some value =>
    cases operation with
    | readInvokation => exact absurd rfl (valued.mp rfl)
    | readResponse =>
      cases written_tag
      rw [List.append_assoc]
      exact (reads_u8 (by decide)).bind (reads_payload (by decide) knows.readResponse key value time sender)
    | writeInvokation =>
      cases written_tag
      rw [List.append_assoc]
      exact (reads_u8 (by decide)).bind (reads_payload (by decide) knows.writeInvokation key value time sender)
    | writeResponse =>
      cases written_tag
      rw [List.append_assoc]
      exact (reads_u8 (by decide)).bind (reads_payload (by decide) knows.writeResponse key value time sender)

-- The general case: a serializer that reads back the nodes it writes, and knows
-- the flags of the operations, is faithful.
theorem faithful {serializer : Serializer Node} (knows : Knows serializer) (bounded : capacity < 2 ^ 31)
    (valued : m.Valued) (nodes : ∀ rank initId nodes min max, m = .init rank initId nodes min max →
      ∀ node ∈ nodes, ∀ bytes, serializer.writeNode node = some bytes →
        Reads serializer.readNode bytes node ∧ 0 < bytes.length) : Faithful serializer capacity m := by
  intro bytes done
  obtain ⟨written,wrote,done⟩ := Option.bind_eq_some_iff.mp done
  split at done
  · rename_i fits
    cases done
    cases m with
    | init rank initId all min max =>
      obtain ⟨encoded,wrote_nodes,wrote⟩ := Option.bind_eq_some_iff.mp wrote
      cases wrote
      obtain ⟨reads,shorter⟩ := reads_written (nodes _ _ _ _ _ rfl) wrote_nodes
      have short : all.length < 2 ^ 31 := by
        simp only [List.length_append] at fits
        omega
      apply (reads_u8 (by decide)).bind
      apply (reads_int rank).bind
      apply (reads_int initId).bind
      apply (reads_long min).bind
      apply (reads_long max).bind
      exact (reads_times short reads).last rfl
    | initAck initId =>
      cases wrote
      apply (reads_u8 (by decide)).bind
      exact (reads_int initId).last rfl
    | run =>
      cases wrote
      exact (reads_u8 (by decide)).last rfl
    | done =>
      cases wrote
      exact (reads_u8 (by decide)).last rfl
    | testDone timestamps =>
      obtain ⟨encoded,wrote_all,wrote⟩ := Option.bind_eq_some_iff.mp wrote
      cases wrote
      obtain ⟨reads,shorter⟩ := reads_written
        (fun ts member bytes wrote_one => reads_timestamp knows (valued ts member) wrote_one) wrote_all
      have short : timestamps.length < 2 ^ 31 := by
        simp only [List.length_append] at fits
        omega
      apply (reads_u8 (by decide)).bind
      exact (reads_times short reads).last rfl
    | identify =>
      simp only [write] at wrote
      split at wrote
      · rename_i identifies
        cases wrote
        apply (reads_u8 (by decide)).last
        simp [identifies]
      · cases wrote
  · cases done

section Nodes

def InetAddress.isInet4 : InetAddress → Bool
  | .inet4 _ => true
  | .inet6 _ => false

def InetAddress.width : InetAddress → ℕ
  | .inet4 _ => 4
  | .inet6 _ => 16

theorem getAddress_length (ip : InetAddress) : ip.getAddress.length = ip.width := by
  cases ip with
  | inet4 address => exact putUint_length 4 address.toNat
  | inet6 address => exact putUint_length 16 address.toNat

theorem reads_address {node : NetAddress} (inet4 : node.ip.isInet4 = true) :
    Reads readAddress (node.ip.getAddress ++ writeShort node.port.toNat) node := by
  obtain ⟨ip,port⟩ := node
  cases ip with
  | inet4 address =>
    have word : Reads (getUint 4 0) (putUint 4 address.toNat) address.toNat := by
      apply reads_uint
      exact address.isLt
    apply word.bind
    apply (reads_short port.isLt).last
    simp
  | inet6 address => cases inet4

theorem readAddress_inet4 (done : readAddress.run bytes = .ok (node,left)) : node.ip.isInet4 = true := by
  obtain ⟨address,middle,_,done⟩ := run_bind_ok done
  obtain ⟨port,behind,_,done⟩ := run_bind_ok done
  cases done
  rfl

theorem writeNode_length (node : NetAddress) :
    (node.ip.getAddress ++ writeShort node.port.toNat).length = node.ip.width + 2 := by
  rw [List.length_append,getAddress_length,writeShort,putUint_length]

theorem fromUTF8_getBytes (replaced : List UInt8 → String) (s : String) : newString replaced (getBytes s) = s := by
  have same : (getBytes s).toByteArray = s.toUTF8 := by
    apply ByteArray.ext
    rw [List.data_toByteArray,getBytes,Array.toArray_toList]
  unfold newString String.fromUTF8?
  rw [same,String.toUTF8_eq_toByteArray,dif_pos s.isValidUTF8]
  rfl

theorem reads_path (replaced : List UInt8 → String) {path : String} (short : (getBytes path).length < 2 ^ 15) :
    Reads (stringFromByteBuffer replaced) (stringIntoByteString path) path := by
  have small : (BitVec.ofNat 16 (getBytes path).length).toNat = (getBytes path).length := by
    rw [BitVec.toNat_ofNat]
    omega
  have length : (BitVec.ofNat 16 (getBytes path).length).toInt = (getBytes path).length := by
    rw [BitVec.toInt_eq_toNat_of_lt (by omega),small]
  apply (reads_short (by omega)).bind
  have negative : ¬(BitVec.ofNat 16 (getBytes path).length).toInt < 0 := by omega
  rw [if_neg negative]
  dsimp only
  rw [length,Int.toNat_natCast]
  apply (reads_slice (getBytes path)).last
  rw [fromUTF8_getBytes]

end Nodes

theorem comp_faithful (bounded : capacity < 2 ^ 31) (valued : m.Valued) :
    Faithful partitioningCompSerializer capacity m := by
  apply faithful ⟨rfl,rfl,rfl⟩ bounded valued
  intro _ _ _ _ _ _ node _ bytes written
  simp only [partitioningCompSerializer] at written
  split at written
  · rename_i four
    cases written
    have inet4 : node.ip.isInet4 = true := by
      rw [getAddress_length] at four
      cases ip : node.ip with
      | inet4 address => rfl
      | inet6 address =>
        rw [ip] at four
        cases four
    refine ⟨reads_address inet4,?_⟩
    rw [writeNode_length]
    omega
  · cases written

theorem actor_faithful (replaced : List UInt8 → String) {m : Message String} (bounded : capacity < 2 ^ 31)
    (valued : m.Valued) (short : ∀ rank initId nodes min max, m = .init rank initId nodes min max →
      ∀ path ∈ nodes, (getBytes path).length < 2 ^ 15) :
    Faithful (partitioningActorSerializer replaced) capacity m := by
  apply faithful ⟨rfl,rfl,rfl⟩ bounded valued
  intro rank initId nodes min max same path member bytes written
  cases written
  refine ⟨reads_path replaced (short _ _ _ _ _ same path member),?_⟩
  rw [stringIntoByteString,List.length_append,writeShort,putUint_length]
  omega

section Java
variable {capacity : ℕ} {m : Message NetAddress}

-- What the nodes take behind the 29 bytes of an `Init` without nodes.
def nodesSize (nodes : List NetAddress) : ℕ := (nodes.map fun node => node.ip.width + 2).sum

-- The addresses are of the width that is read, or the buffer is too small for them.
def FourBytes (capacity : ℕ) : Message NetAddress → Prop
  | .init _ _ nodes _ _ => (∀ node ∈ nodes, node.ip.isInet4 = true) ∨ capacity < 29 + nodesSize nodes
  | _ => True

theorem nodes_written (nodes : List NetAddress) : ∃ all,
    putAll jPartitioningCompSerializer.writeNode nodes = some all ∧ all.length = nodesSize nodes := by
  induction nodes with
  | nil => exact ⟨[],rfl,rfl⟩
  | cons node nodes ih =>
    obtain ⟨all,written,size⟩ := ih
    refine ⟨node.ip.getAddress ++ writeShort node.port.toNat ++ all,?_,?_⟩
    · rw [putAll,written]
      rfl
    · rw [List.length_append,writeNode_length,size,nodesSize,nodesSize,List.map_cons,List.sum_cons]

theorem init_written (rank initId : JInt) (nodes : List NetAddress) (min max : JLong) : ∃ bytes,
    write jPartitioningCompSerializer (.init rank initId nodes min max) = some bytes ∧
      bytes.length = 29 + nodesSize nodes := by
  obtain ⟨all,written,size⟩ := nodes_written nodes
  refine ⟨_,by rw [write,written]; rfl,?_⟩
  simp only [List.length_append,writeInt,writeLong,putU8,putU32,putU64,putUint_length,size]
  omega

theorem fromBinary_inet4 {nodes : List NetAddress} {min max : JLong}
    (done : (fromBinary jPartitioningCompSerializer).run bytes = .ok (some (.init rank initId nodes min max),left)) :
    ∀ node ∈ nodes, node.ip.isInet4 = true := by
  obtain ⟨flag,middle,_,done⟩ := run_bind_ok done
  split at done
  · obtain ⟨_,_,_,done⟩ := run_bind_ok done
    obtain ⟨_,_,_,done⟩ := run_bind_ok done
    obtain ⟨_,_,_,done⟩ := run_bind_ok done
    obtain ⟨_,_,_,done⟩ := run_bind_ok done
    obtain ⟨all,_,read_nodes,done⟩ := run_bind_ok done
    cases done
    obtain ⟨n,_,_,read_nodes⟩ := run_bind_ok read_nodes
    exact getMany_all (fun _ _ _ read => readAddress_inet4 read) read_nodes
  · obtain ⟨_,_,_,done⟩ := run_bind_ok done
    cases done
  · cases done
  · cases done
  · obtain ⟨_,_,_,done⟩ := run_bind_ok done
    cases done
  · cases done

theorem comp_faithful_iff (bounded : capacity < 2 ^ 31) (valued : m.Valued) :
    Faithful jPartitioningCompSerializer capacity m ↔ FourBytes capacity m := by
  constructor
  · intro faithful
    cases m with
    | init rank initId nodes min max =>
      obtain ⟨bytes,written,size⟩ := init_written rank initId nodes min max
      by_cases fits : capacity < 29 + nodesSize nodes
      · exact .inr fits
      · have sent : toBinary jPartitioningCompSerializer capacity (.init rank initId nodes min max) = some bytes := by
          rw [toBinary,written,Option.bind_eq_bind,Option.bind_some,if_pos (by omega)]
        exact .inl (fromBinary_inet4 (faithful bytes sent []))
    | initAck | run | done | testDone | identify => trivial
  · intro widths bytes sent
    apply faithful ⟨rfl,rfl,rfl⟩ bounded valued ?_ bytes sent
    rintro rank initId nodes min max rfl node member encoded wrote
    cases wrote
    obtain ⟨all,written,size⟩ := init_written rank initId nodes min max
    rw [toBinary,written,Option.bind_eq_bind,Option.bind_some] at sent
    have fits : ¬capacity < 29 + nodesSize nodes := by
      intro large
      rw [if_neg (by omega)] at sent
      cases sent
    refine ⟨reads_address (widths.resolve_right fits node member),?_⟩
    rw [writeNode_length]
    omega

end Java

-- Paths that a `Short` holds the length of.
def Message.Short : Message String → Prop
  | .init _ _ nodes _ _ => ∀ path ∈ nodes, (getBytes path).length < 2 ^ 15
  | _ => True

theorem control_codecs_faithful (replaced : List UInt8 → String) {capacity : ℕ} (bounded : capacity < 2 ^ 31)
    {m : Message NetAddress} (valued : m.Valued) {a : Message String} (carried : a.Valued) (short : a.Short) :
    Faithful partitioningCompSerializer capacity m ∧
      Faithful (partitioningActorSerializer replaced) capacity a ∧
        (Faithful jPartitioningCompSerializer capacity m ↔ FourBytes capacity m) := by
  refine ⟨comp_faithful bounded valued,actor_faithful replaced bounded carried ?_,comp_faithful_iff bounded valued⟩
  rintro _ _ nodes _ _ rfl
  exact short

-- An address that is written in 16 bytes and read in four.
def loopback6 : Message NetAddress := .init 0 1 [⟨.inet6 1,8080⟩] 0 9

theorem inet6_misread : (∃ bytes, toBinary jPartitioningCompSerializer (2 ^ 31 - 1) loopback6 = some bytes ∧
    (fromBinary jPartitioningCompSerializer).run bytes =
      .ok (some (.init 0 1 [⟨.inet4 0,0⟩] 0 9),[0,0,0,0,0,0,0,0,0,1,31,144])) ∧
      ¬Faithful jPartitioningCompSerializer (2 ^ 31 - 1) loopback6 := by
  have read : ∃ bytes, toBinary jPartitioningCompSerializer (2 ^ 31 - 1) loopback6 = some bytes ∧
      (fromBinary jPartitioningCompSerializer).run bytes =
        .ok (some (.init 0 1 [⟨.inet4 0,0⟩] 0 9),[0,0,0,0,0,0,0,0,0,1,31,144]) := ⟨_,rfl,rfl⟩
  refine ⟨read,?_⟩
  intro faithful
  obtain ⟨bytes,sent,misread⟩ := read
  have back := faithful bytes sent []
  rw [List.append_nil,misread] at back
  cases back

theorem inet4_read_back : Faithful jPartitioningCompSerializer 1024 (.init 0 1 [⟨.inet4 2130706433,8080⟩] 0 9) ∧
    Faithful (partitioningActorSerializer fun _ => "") 1024 (.init 0 1 ["akka://atomicregister"] 0 9) := by
  have bounded : 1024 < 2 ^ 31 := by decide
  have short : Message.Short (.init 0 1 ["akka://atomicregister"] 0 9) := by
    intro path member
    cases List.mem_singleton.mp member
    decide
  have all := control_codecs_faithful (fun _ => "") bounded (m := .init 0 1 [⟨.inet4 2130706433,8080⟩] 0 9)
    (a := .init 0 1 ["akka://atomicregister"] 0 9) trivial trivial short
  have four : FourBytes 1024 (.init 0 1 [⟨.inet4 2130706433,8080⟩] 0 9) := by
    apply Or.inl
    intro node member
    cases List.mem_singleton.mp member
    rfl
  exact ⟨all.2.2.mpr four,all.2.1⟩

end KompicsBenches.JvmCodec
