import Mathlib.Data.List.Basic
import Jio.Library.ByteOrder

/-! The on-disk format of `upstream/journal-def.h`: object types, the headers of
files and objects, and the alignment every object is padded to. Fields hold the
values a program sees once they are in host order. -/
namespace Jio
open ByteOrder

/-! ## Results -/

def EPERM : Int := 1
def E2BIG : Int := 7
def ENOMEM : Int := 12
def EACCES : Int := 13
def EINVAL : Int := 22
def EBADMSG : Int := 74
def ENOBUFS : Int := 105

/-- What ends a run without a result: a failed assertion, an access outside its
object, or a null pointer followed. -/
inductive Fault where
  | assertion
  | outOfBounds
  | nullDeref
  deriving DecidableEq, Repr

@[simp] theorem bind_ok {α β : Type} (a : α) (f : α → Except Fault β) :
    (Except.ok a >>= f) = f a := rfl

theorem bind_eq_ok {α β : Type} {x : Except Fault α} {f : α → Except Fault β} {b : β} :
    (x >>= f) = .ok b ↔ ∃ a, x = .ok a ∧ f a = .ok b := by
  cases x with
  | error fault =>
    constructor
    · intro ran; cases ran
    · rintro ⟨a, ran, -⟩; cases ran
  | ok a => simp

/-! ## Alignment -/

/-- `ALIGN64`, in the 64-bit arithmetic it is used in. -/
def align64 (x : UInt64) : UInt64 := (x + 7) &&& ~~~(7 : UInt64)

/-- The next multiple of 8, computed without wrap-around. -/
def roundUp8 (n : Nat) : Nat := (n + 7) / 8 * 8

/-- Clearing the low bits rounds down. -/
theorem and_not_low (x : UInt64) (k : Nat) :
    (x &&& ~~~(UInt64.ofNat (2 ^ k - 1))).toNat = x.toNat / 2 ^ k * 2 ^ k := by
  have shifts : x.toBitVec &&& ~~~(BitVec.ofNat 64 (2 ^ k - 1)) = x.toBitVec >>> k <<< k := by
    ext i inside
    have mask : (BitVec.ofNat 64 (2 ^ k - 1))[i] = decide (i < k) := by
      rw [← BitVec.getLsbD_eq_getElem, BitVec.getLsbD_ofNat, Nat.testBit_two_pow_sub_one]
      simp [inside]
    rw [BitVec.getElem_and, BitVec.getElem_not, mask, BitVec.getElem_shiftLeft]
    by_cases low : i < k
    · simp [low]
    · have back : k + (i - k) = i := by omega
      simp [low, back, BitVec.getLsbD_eq_getElem inside]
  have same := congrArg BitVec.toNat shifts
  rw [BitVec.toNat_shiftLeft, BitVec.toNat_ushiftRight, Nat.shiftLeft_eq,
    Nat.shiftRight_eq_div_pow] at same
  have bound := x.toNat_lt
  have down := Nat.div_mul_le_self x.toNat (2 ^ k)
  rw [Nat.mod_eq_of_lt (by change x.toNat / 2 ^ k * 2 ^ k < _; omega)] at same
  exact same

/-- Rounding up wraps around when the addition does, and then yields zero. -/
theorem align64_toNat (x : UInt64) :
    (align64 x).toNat = if x.toNat + 7 < 2 ^ 64 then roundUp8 x.toNat else 0 := by
  have bound := x.toNat_lt
  have down := and_not_low (x + 7) 3
  rw [UInt64.toNat_add, UInt64.toNat_ofNat] at down
  unfold align64 roundUp8
  rw [show (7 : UInt64) = UInt64.ofNat (2 ^ 3 - 1) from rfl] at down ⊢
  rw [down]
  split <;> omega

theorem le_roundUp8 (n : Nat) : n ≤ roundUp8 n := by
  unfold roundUp8; omega

theorem roundUp8_pos {n : Nat} (positive : 0 < n) : 0 < roundUp8 n :=
  Nat.lt_of_lt_of_le positive (le_roundUp8 n)

theorem roundUp8_lt (n : Nat) : roundUp8 n < n + 8 := by
  unfold roundUp8; omega

/-! ## Objects -/

/-- `ObjectType`, without the terminating `_OBJECT_TYPE_MAX`. -/
inductive ObjectType where
  | unused
  | data
  | field
  | entry
  | dataHashTable
  | fieldHashTable
  | entryArray
  | tag
  deriving DecidableEq, Repr

/-- `_OBJECT_TYPE_MAX`. -/
def OBJECT_TYPE_MAX : Nat := 8

def ObjectType.toByte : ObjectType → UInt8
  | .unused => 0
  | .data => 1
  | .field => 2
  | .entry => 3
  | .dataHashTable => 4
  | .fieldHashTable => 5
  | .entryArray => 6
  | .tag => 7

/-- The type a byte of an object header names, if there is one. -/
def ObjectType.ofByte? (byte : UInt8) : Option ObjectType :=
  match byte.toNat with
  | 0 => some .unused
  | 1 => some .data
  | 2 => some .field
  | 3 => some .entry
  | 4 => some .dataHashTable
  | 5 => some .fieldHashTable
  | 6 => some .entryArray
  | 7 => some .tag
  | _ => none

@[simp] theorem ObjectType.ofByte?_toByte (type : ObjectType) :
    ObjectType.ofByte? type.toByte = some type := by
  cases type <;> rfl

theorem ObjectType.toByte_injective : Function.Injective ObjectType.toByte := by
  intro type type' same
  exact Option.some.inj (by rw [← ofByte?_toByte, same, ofByte?_toByte])

theorem ObjectType.eq_toByte {byte : UInt8} {type : ObjectType}
    (named : ObjectType.ofByte? byte = some type) : byte = type.toByte := by
  rw [← UInt8.toNat_inj]
  unfold ofByte? at named
  split at named <;> rename_i value <;> cases named <;> exact value

/-- `ObjectHeader`. The payload follows it and is not part of it. -/
structure ObjectHeader where
  type : UInt8
  flags : UInt8
  reserved : Vector UInt8 6
  size : UInt64
  deriving DecidableEq

/-- `sizeof(ObjectHeader)`. -/
def sizeofObjectHeader : UInt64 := 16

/-- `HashedObjectHeader`. -/
structure HashedObjectHeader where
  object : ObjectHeader
  hash : UInt64
  nextHashOffset : UInt64
  deriving DecidableEq

/-- `DataObject`. -/
structure DataObject where
  hashed : HashedObjectHeader
  nextFieldOffset : UInt64
  entryOffset : UInt64
  entryArrayOffset : UInt64
  nEntries : UInt64
  payload : List UInt8
  deriving DecidableEq

/-- `FieldObject`. -/
structure FieldObject where
  hashed : HashedObjectHeader
  headDataOffset : UInt64
  payload : List UInt8
  deriving DecidableEq

/-- `EntryItem`. -/
structure EntryItem where
  objectOffset : UInt64
  hash : UInt64
  deriving DecidableEq

/-- `EntryObject`. -/
structure EntryObject where
  object : ObjectHeader
  seqnum : UInt64
  realtime : UInt64
  monotonic : UInt64
  bootId : Vector UInt8 16
  xorHash : UInt64
  items : List EntryItem
  deriving DecidableEq

/-- `HashItem`, one bucket of a hash table. -/
structure HashItem where
  headHashOffset : UInt64
  tailHashOffset : UInt64
  deriving DecidableEq

/-- `HashTableObject`. -/
structure HashTableObject where
  object : ObjectHeader
  items : List HashItem
  deriving DecidableEq

/-- `EntryArrayObject`. -/
structure EntryArrayObject where
  object : ObjectHeader
  nextEntryArrayOffset : UInt64
  items : List UInt64
  deriving DecidableEq

/-- `TagObject`. -/
structure TagObject where
  object : ObjectHeader
  seqnum : UInt64
  epoch : UInt64
  tag : Vector UInt8 32
  deriving DecidableEq

/-- `Object`, with the variant its type selects. -/
inductive Object where
  | data (object : DataObject)
  | field (object : FieldObject)
  | entry (object : EntryObject)
  | dataHashTable (object : HashTableObject)
  | fieldHashTable (object : HashTableObject)
  | entryArray (object : EntryArrayObject)
  | tag (object : TagObject)
  deriving DecidableEq

def Object.type : Object → ObjectType
  | .data _ => .data
  | .field _ => .field
  | .entry _ => .entry
  | .dataHashTable _ => .dataHashTable
  | .fieldHashTable _ => .fieldHashTable
  | .entryArray _ => .entryArray
  | .tag _ => .tag

def Object.header : Object → ObjectHeader
  | .data object => object.hashed.object
  | .field object => object.hashed.object
  | .entry object => object.object
  | .dataHashTable object => object.object
  | .fieldHashTable object => object.object
  | .entryArray object => object.object
  | .tag object => object.object

/-- `OBJECT_COMPRESSED_ZSTD`. -/
def OBJECT_COMPRESSED_ZSTD : UInt8 := 4

/-- `OBJECT_COMPRESSION_MASK`: xz, lz4 and zstd. -/
def OBJECT_COMPRESSION_MASK : UInt8 := 7

/-! ## Sizes and offsets -/

/-- `sizeof(EntryItem)`. -/
def sizeofEntryItem : UInt64 := 16

/-- `sizeof(le64_t)`. -/
def sizeofLe64 : UInt64 := 8

/-- `sizeof(HashItem)`. -/
def sizeofHashItem : UInt64 := 16

/-- `sizeof(HashedObjectHeader)`. -/
def sizeofHashedObjectHeader : UInt64 := 32

/-- `sizeof(DataObject)`, and `offsetof(DataObject, payload)`. -/
def sizeofDataObject : UInt64 := 64

/-- `sizeof(FieldObject)`, and `offsetof(FieldObject, payload)`. -/
def sizeofFieldObject : UInt64 := 40

/-- `offsetof(EntryObject, items)`. -/
def entryItemsOffset : UInt64 := 64

/-- `offsetof(HashTableObject, items)`. -/
def hashTableItemsOffset : UInt64 := 16

/-- `offsetof(EntryArrayObject, items)`. -/
def entryArrayItemsOffset : UInt64 := 24

/-! ## The file header -/

/-- `STATE_OFFLINE`. -/
def STATE_OFFLINE : UInt8 := 0

/-- `STATE_ONLINE`. -/
def STATE_ONLINE : UInt8 := 1

/-- `STATE_ARCHIVED`. -/
def STATE_ARCHIVED : UInt8 := 2

/-- `_STATE_MAX`. -/
def STATE_MAX : Nat := 3

/-- `HEADER_INCOMPATIBLE_KEYED_HASH`. -/
def HEADER_INCOMPATIBLE_KEYED_HASH : UInt32 := 4

/-- `Header`. -/
structure Header where
  signature : Vector UInt8 8
  compatibleFlags : UInt32
  incompatibleFlags : UInt32
  state : UInt8
  reserved : Vector UInt8 7
  fileId : Vector UInt8 16
  machineId : Vector UInt8 16
  bootId : Vector UInt8 16
  seqnumId : Vector UInt8 16
  headerSize : UInt64
  arenaSize : UInt64
  dataHashTableOffset : UInt64
  dataHashTableSize : UInt64
  fieldHashTableOffset : UInt64
  fieldHashTableSize : UInt64
  tailObjectOffset : UInt64
  nObjects : UInt64
  nEntries : UInt64
  tailEntrySeqnum : UInt64
  headEntrySeqnum : UInt64
  entryArrayOffset : UInt64
  headEntryRealtime : UInt64
  tailEntryRealtime : UInt64
  tailEntryMonotonic : UInt64
  nData : UInt64
  nFields : UInt64
  nTags : UInt64
  nEntryArrays : UInt64
  dataHashChainDepth : UInt64
  fieldHashChainDepth : UInt64
  deriving Inhabited, DecidableEq

/-- `sizeof(Header)`, which the source asserts. -/
def sizeofHeader : UInt64 := 256

/-! ## Numbers in memory -/

/-- A 64-bit field of a structure in memory, as the host reads it. -/
def readU64 (host : Endian) (mem : List UInt8) (off : Nat) : UInt64 :=
  UInt64.ofNat (host.value ((mem.drop off).take 8))

/-- A 32-bit field of a structure in memory, as the host reads it. -/
def readU32 (host : Endian) (mem : List UInt8) (off : Nat) : UInt32 :=
  UInt32.ofNat (host.value ((mem.drop off).take 4))

/-- An array of bytes in a structure in memory. -/
def readBytes (n : Nat) (mem : List UInt8) (off : Nat) : Vector UInt8 n :=
  .ofFn fun i => ((mem.drop off).take n).getD i 0

/-- A `Header` in memory, as the host reads it. -/
def Header.ofMemory (host : Endian) (mem : List UInt8) : Header where
  signature := readBytes 8 mem 0
  compatibleFlags := readU32 host mem 8
  incompatibleFlags := readU32 host mem 12
  state := (readBytes 1 mem 16)[0]
  reserved := readBytes 7 mem 17
  fileId := readBytes 16 mem 24
  machineId := readBytes 16 mem 40
  bootId := readBytes 16 mem 56
  seqnumId := readBytes 16 mem 72
  headerSize := readU64 host mem 88
  arenaSize := readU64 host mem 96
  dataHashTableOffset := readU64 host mem 104
  dataHashTableSize := readU64 host mem 112
  fieldHashTableOffset := readU64 host mem 120
  fieldHashTableSize := readU64 host mem 128
  tailObjectOffset := readU64 host mem 136
  nObjects := readU64 host mem 144
  nEntries := readU64 host mem 152
  tailEntrySeqnum := readU64 host mem 160
  headEntrySeqnum := readU64 host mem 168
  entryArrayOffset := readU64 host mem 176
  headEntryRealtime := readU64 host mem 184
  tailEntryRealtime := readU64 host mem 192
  tailEntryMonotonic := readU64 host mem 200
  nData := readU64 host mem 208
  nFields := readU64 host mem 216
  nTags := readU64 host mem 224
  nEntryArrays := readU64 host mem 232
  dataHashChainDepth := readU64 host mem 240
  fieldHashChainDepth := readU64 host mem 248

/-- `le64toh`. -/
def le64toh (host : Endian) (value : UInt64) : UInt64 :=
  UInt64.ofNat (host.fromLittle 8 value.toNat)

/-- Reading a little-endian field natively and converting it gives its value. -/
theorem le64toh_readU64 (host : Endian) {mem : List UInt8} {off : Nat}
    (inside : off + 8 ≤ mem.length) :
    le64toh host (readU64 host mem off) = readU64 .little mem off := by
  have width : ((mem.drop off).take 8).length = 8 := by simp; omega
  have bound : host.value ((mem.drop off).take 8) < 2 ^ 64 := by
    have := ofLE_lt ((mem.drop off).take 8)
    have reversed := ofLE_lt ((mem.drop off).take 8).reverse
    rw [List.length_reverse, width] at reversed
    rw [width] at this
    cases host <;> simpa [Endian.value] using by assumption
  have converted := host.fromLittle_value ((mem.drop off).take 8)
  rw [width] at converted
  rw [le64toh, readU64, UInt64.toNat_ofNat_of_lt' bound, converted]
  rfl

end Jio
