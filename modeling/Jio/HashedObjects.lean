import Jio.ObjectLoads
import Jio.PayloadHash

/-! `verify hashed-objects` on one object: the two buffers it reuses, the zstd
frame it may have to decompress first, and what it makes of the hash. -/
namespace Jio.HashedObjects
open ByteOrder ReadProgram

/-! ## Memory -/

/-- A pointer to memory of `malloc`. A block is as long as `malloc_usable_size`
says it is. -/
inductive Pointer where
  | null
  | block (bytes : List UInt8)
  | freed
  deriving DecidableEq

/-- `malloc_usable_size`. There is nothing left to measure of a freed block. -/
def Pointer.usableSize : Pointer → Except Fault Nat
  | .null => .ok 0
  | .block bytes => .ok bytes.length
  | .freed => .error .outOfBounds

/-- `free`. It leaves the pointer as it is, which is then worth nothing. -/
def Pointer.free : Pointer → Except Fault Pointer
  | .null => .ok .null
  | .block _ => .ok .freed
  | .freed => .error .outOfBounds

/-- What is read of a block, which no block is read of that is null. -/
def Pointer.read (n : Nat) : Pointer → Except Fault (Option (List UInt8))
  | .null => .ok none
  | .block bytes => if n ≤ bytes.length then .ok (some (bytes.take n)) else .error .outOfBounds
  | .freed => .error .outOfBounds

/-- Bytes written to the start of a block. -/
def Pointer.write (written : List UInt8) : Pointer → Pointer
  | .block bytes => .block (written ++ bytes.drop written.length)
  | p => p

/-- `malloc`: no memory, or a block with room for what was asked for and anything
in it. -/
abbrev Allocator := (size : UInt64) → Option { block : List UInt8 // size.toNat ≤ block.length }

/-- What the allocators answer while one object is verified. -/
structure Allocs where
  iterObject : Allocator
  decompressed : Allocator
  createDCtx : Bool

/-- Allocations succeed. -/
structure Allocs.Succeed (allocs : Allocs) : Prop where
  iterObject : ∀ size, (allocs.iterObject size).isSome
  decompressed : ∀ size, (allocs.decompressed size).isSome
  createDCtx : allocs.createDCtx = true

/-- `if (malloc_usable_size(*p) < size)`: another block takes the place of one
that is too small. -/
def ensureUsable (malloc : Allocator) (size : UInt64) (p : Pointer) :
    Except Fault (Int × Pointer) := do
  if (← p.usableSize) < size.toNat then
    let _ ← p.free
    match malloc size with
    | none => return (-ENOMEM, .null)
    | some block => return (0, .block block.1)
  else return (0, p)

/-! ## zstd -/

/-- `ZSTD_ErrorCode`, as far as it matters. -/
inductive ZstdErrorCode where
  | dstSizeTooSmall
  | memoryAllocation
  | other
  deriving DecidableEq

/-- What one `ZSTD_decompressStream` writes, and its error if it has one. -/
structure Streamed where
  written : List UInt8
  error : Option ZstdErrorCode

/-- The library, which writes no more than there is room for. -/
structure Zstd where
  getFrameContentSize : List UInt8 → UInt64
  decompressStream : (src : List UInt8) → (room : UInt64) → Streamed
  inRoom : ∀ src room, (decompressStream src room).written.length ≤ room.toNat

/-- `ZSTD_CONTENTSIZE_UNKNOWN`. -/
def ZSTD_CONTENTSIZE_UNKNOWN : UInt64 := 0xffffffffffffffff

/-- `ZSTD_CONTENTSIZE_ERROR`. -/
def ZSTD_CONTENTSIZE_ERROR : UInt64 := 0xfffffffffffffffe

/-- `SIZE_MAX`. -/
def SIZE_MAX : UInt64 := 0xffffffffffffffff

/-- `zstd_ret_to_errno`. -/
def zstdRetToErrno : ZstdErrorCode → Int
  | .dstSizeTooSmall => -ENOBUFS
  | .memoryAllocation => -ENOMEM
  | .other => -EBADMSG

/-- `decompress`: its error, or what it puts into `*dest_size`, and what it leaves
in `*dest`. -/
def decompress (zstd : Zstd) (allocs : Allocs) (compression : UInt8) (src : List UInt8)
    (dest : Pointer) : Except Fault (Except Int UInt64 × Pointer) := do
  if ¬0 < src.length then throw .assertion
  if compression &&& OBJECT_COMPRESSED_ZSTD = 0 then throw .assertion
  let size := zstd.getFrameContentSize src
  if size = ZSTD_CONTENTSIZE_ERROR ∨ size = ZSTD_CONTENTSIZE_UNKNOWN then
    return (.error (-EBADMSG), dest)
  if size > SIZE_MAX then return (.error (-E2BIG), dest)
  let (r, dest) ← ensureUsable allocs.decompressed size dest
  if r < 0 then return (.error r, dest)
  -- `*dest` is freed and not cleared
  if ¬allocs.createDCtx then return (.error (-ENOMEM), ← dest.free)
  let streamed := zstd.decompressStream src size
  let dest := dest.write streamed.written
  match streamed.error with
  | some code => return (.error (zstdRetToErrno code), dest)
  | none =>
    if ¬streamed.written.length ≥ size.toNat then throw .assertion
    return (.ok size, dest)

/-! ## Verification -/

/-- The header asks for keyed hashes. -/
def keyed (header : Header) : Bool :=
  header.incompatibleFlags &&& HEADER_INCOMPATIBLE_KEYED_HASH ≠ 0

/-- `hash`. A null payload has no bytes, which only `siphash24` minds. -/
def hash (header : Header) (payload : Option (List UInt8)) : Except Fault UInt64 :=
  if keyed header then siphash24 payload header.fileId
  else .ok (jenkinsHash64 (payload.getD []))

/-- `verify_stats_t`. -/
structure VerifyStats where
  nFieldObjects : UInt64
  nDataObjects : UInt64
  nFieldBytes : UInt64
  nDataBytes : UInt64

/-- The result of `verify_hashed_object`, and what it leaves in `*decompressed` and
in `*stats`. -/
structure Verified where
  r : Int
  decompressed : Pointer
  stats : VerifyStats

/-- `verify_hashed_object` behind its switch, of a payload and the hash stored
with it. -/
def verifyPayload (zstd : Zstd) (allocs : Allocs) (header : Header) (compression : UInt8)
    (payload : List UInt8) (stored : UInt64) (decompressed : Pointer) :
    Except Fault (Int × Pointer) := do
  if compression ≠ 0 then
    let (r, decompressed) ← decompress zstd allocs compression payload decompressed
    match r with
    | .error r => return (r, decompressed)
    | .ok size =>
      let h ← hash header (← decompressed.read size.toNat)
      return (if h ≠ stored then -EBADMSG else 0, decompressed)
  else
    let h ← hash header (some payload)
    return (if h ≠ stored then -EBADMSG else 0, decompressed)

/-- The payload of an object in memory. -/
def payloadOf (o : List UInt8) (offset payloadSize : UInt64) : Except Fault (List UInt8) :=
  if offset.toNat + payloadSize.toNat ≤ o.length then
    .ok ((o.drop offset.toNat).take payloadSize.toNat)
  else .error .outOfBounds

/-- `verify_hashed_object`. -/
def verifyHashedObject (zstd : Zstd) (allocs : Allocs) (host : Endian) (header : Header)
    (iterObject decompressed : Pointer) (stats : VerifyStats) : Except Fault Verified :=
  match iterObject with
  | .null => .error .assertion
  | .freed => .error .outOfBounds
  | .block o => do
    let (offset, stats) ← match ObjectType.ofByte? (o.getD 0 0) with
      | some .field => .ok (sizeofFieldObject, { stats with
          nFieldObjects := stats.nFieldObjects + 1
          nFieldBytes := stats.nFieldBytes + (readU64 host o 8 - sizeofFieldObject) })
      | some .data => .ok (sizeofDataObject, { stats with
          nDataObjects := stats.nDataObjects + 1
          nDataBytes := stats.nDataBytes + (readU64 host o 8 - sizeofDataObject) })
      | _ => .error .assertion
    let payload ← payloadOf o offset (readU64 host o 8 - offset)
    let (r, decompressed) ← verifyPayload zstd allocs header
      (o.getD 1 0 &&& OBJECT_COMPRESSION_MASK) payload (readU64 host o 16) decompressed
    return { r, decompressed, stats }

/-- The cells `per_object` keeps from one object to the next. -/
structure VerifyCells where
  iterObject : Pointer
  decompressed : Pointer
  stats : VerifyStats

/-- `got_object`, of an object that was read to the start of `*iter_object`. -/
def gotIterObject (host : Endian) (iterObject : Pointer) (mem : List UInt8) :
    Except Fault Pointer :=
  match iterObject with
  | .block bytes => (gotObject host (mem ++ bytes.drop mem.length)).map .block
  | _ => .error .nullDeref

/-- An object that was read is made to fit into `*iter_object`, converted there, and
verified. -/
def loadAndVerify (zstd : Zstd) (allocs : Allocs) (host : Endian) (header : Header)
    (mem : List UInt8) (cells : VerifyCells) : Except Fault (Int × VerifyCells) := do
  let (r, iterObject) ← ensureUsable allocs.iterObject (UInt64.ofNat mem.length) cells.iterObject
  if r < 0 then return (r, { cells with iterObject })
  let iterObject ← gotIterObject host iterObject mem
  let verified ← verifyHashedObject zstd allocs host header iterObject cells.decompressed cells.stats
  return (verified.r, ⟨iterObject, verified.decompressed, verified.stats⟩)

/-! ## Objects -/

/-- A field or data object as it is on the disk, as large as its header says and no
smaller than its fixed part. -/
structure HashedObject where
  bytes : List UInt8
  type : ObjectType
  hashed : type = .field ∨ type = .data
  typed : ObjectType.ofByte? (bytes.getD 0 0) = some type
  sized : (readU64 .little bytes 8).toNat = bytes.length
  reached : type.reach ≤ bytes.length

/-- The bits of its flags that say how its payload is compressed. -/
def HashedObject.compression (o : HashedObject) : UInt8 :=
  o.bytes.getD 1 0 &&& OBJECT_COMPRESSION_MASK

/-- What follows the fixed part. -/
def HashedObject.payload (o : HashedObject) : List UInt8 := o.bytes.drop o.type.reach

/-- The hash it is stored with. -/
def HashedObject.stored (o : HashedObject) : UInt64 := readU64 .little o.bytes 16

/-- A block holds the object in host order, and maybe something behind it. -/
structure Holds (host : Endian) (o : HashedObject) (block : List UInt8) : Prop where
  type : block.getD 0 0 = o.bytes.getD 0 0
  flags : block.getD 1 0 = o.bytes.getD 1 0
  size : readU64 host block 8 = readU64 .little o.bytes 8
  stored : readU64 host block 16 = o.stored
  payload : (block.drop o.type.reach).take o.payload.length = o.payload
  room : o.bytes.length ≤ block.length

theorem HashedObject.large (o : HashedObject) : 40 ≤ o.bytes.length := by
  have reached := o.reached
  rcases o.hashed with type | type
  · have fixed : o.type.reach = 40 := by rw [type]; rfl
    omega
  · have fixed : o.type.reach = 64 := by rw [type]; rfl
    omega

theorem take_getD {mem mem' : List UInt8} {k i : Nat} (same : mem'.take k = mem.take k)
    (inside : i < k) : mem'.getD i 0 = mem.getD i 0 := by
  have at_i := congrArg (fun bytes => bytes.getD i 0) same
  simpa [List.getD_eq_getElem?_getD, List.getElem?_take, inside] using at_i

/-- Wherever fields are converted that are apart, behind the flags and not in the payload, a
block that begins with the object holds it. -/
theorem holds_swapped (host : Endian) (o : HashedObject) (stale : List UInt8)
    {fields : List (Nat × Nat)} (apart : fields.Pairwise Apart) (size : (8, 8) ∈ fields)
    (stored : (8, 16) ∈ fields) (within : ∀ field ∈ fields, 8 ≤ field.2 ∧
      field.2 + field.1 ≤ o.type.reach) {block : List UInt8}
    (ran : swapFields host fields (o.bytes ++ stale) = some block) : Holds host o block := by
  have large := o.large
  have length := swapFields_length ran
  have front := swapFields_take (k := 8) (fun field member => (within field member).1) ran
  have start : (o.bytes ++ stale).take 8 = o.bytes.take 8 :=
    List.take_append_of_le_length (by omega)
  have number {off : Nat} (listed : (8, off) ∈ fields) (inside : off + 8 ≤ 40) :
      readU64 host block off = readU64 .little o.bytes off := by
    have read := load_swapFields apart listed ran
    rw [load, load, length, if_pos (by simp; omega), if_pos (by simp; omega), Option.some.injEq,
      List.drop_append_of_le_length (by omega),
      List.take_append_of_le_length (by simp; omega)] at read
    exact congrArg UInt64.ofNat read
  constructor
  · exact take_getD (front.trans start) (by decide)
  · exact take_getD (front.trans start) (by decide)
  · exact number size (by decide)
  · exact number stored (by decide)
  · have behind := swapFields_apart (n := o.payload.length) (o := o.type.reach)
      (fun field member => .inl (within field member).2) ran
    rw [behind, List.drop_append_of_le_length o.reached]
    exact List.take_left
  · rw [length, List.length_append]
    omega

/-- Whatever is left behind it in the buffer, an object is converted. -/
theorem gotObject_holds (host : Endian) (o : HashedObject) (stale : List UInt8) :
    ∃ block, gotObject host (o.bytes ++ stale) = .ok block ∧ Holds host o block := by
  have large := o.large
  have converts (fields : List (Nat × Nat))
      (within : ∀ field ∈ fields, 8 ≤ field.2 ∧ field.2 + field.1 ≤ o.type.reach) :
      ∃ block, swapFields host fields (o.bytes ++ stale) = some block := by
    apply Option.isSome_iff_exists.mp
    apply swapFields_isSome_iff.mpr
    intro field member
    have inside := (within field member).2
    have reached := o.reached
    rw [List.length_append]
    omega
  have begun {fields : List (Nat × Nat)} {block : List UInt8}
      (ran : swapFields host ((8, 8) :: fields) (o.bytes ++ stale) = some block) :
      ∃ mem, swapFields host [(8, 8)] (o.bytes ++ stale) = some mem ∧
        swapFields host fields mem = some block ∧
        ObjectType.ofByte? (mem.getD 0 0) = some o.type := by
    rw [show (8, 8) :: fields = [(8, 8)] ++ fields from rfl, swapFields_append] at ran
    obtain ⟨mem, first, rest⟩ := Option.bind_eq_some_iff.mp ran
    refine ⟨mem, first, rest, ?_⟩
    have front := swapFields_take (k := 8) (by simp) first
    rw [List.take_append_of_le_length (by omega)] at front
    rw [take_getD front (by decide), o.typed]
  rcases o.hashed with type | type
  · have inner : ∀ field ∈ [(8, 8), (8, 16), (8, 24), (8, 32)],
        8 ≤ field.2 ∧ field.2 + field.1 ≤ o.type.reach := by
      rw [type]
      decide
    obtain ⟨block, ran⟩ := converts _ inner
    obtain ⟨mem, first, rest, named⟩ := begun ran
    refine ⟨block, ?_, holds_swapped host o stale (by decide) (by decide) (by decide) inner ran⟩
    rw [gotObject, first, within_some, bind_ok, named, type, gotObjectOfType, rest, within_some]
  · have inner : ∀ field ∈ [(8, 8), (8, 16), (8, 24), (8, 32), (8, 40), (8, 48), (8, 56)],
        8 ≤ field.2 ∧ field.2 + field.1 ≤ o.type.reach := by
      rw [type]
      decide
    obtain ⟨block, ran⟩ := converts _ inner
    obtain ⟨mem, first, rest, named⟩ := begun ran
    refine ⟨block, ?_, holds_swapped host o stale (by decide) (by decide) (by decide) inner ran⟩
    rw [gotObject, first, within_some, bind_ok, named, type, gotObjectOfType, rest, within_some]

/-! ## One object -/

section Verdicts

variable {zstd : Zstd} {allocs : Allocs} {header : Header} {dest : Pointer}

/-- The pointer is one that may be passed to `free`. -/
def Pointer.Valid (p : Pointer) : Prop := p ≠ .freed

/-- How much of a pointer that may be freed is usable. -/
def Pointer.usable : Pointer → Nat
  | .block bytes => bytes.length
  | _ => 0

/-- The block a pointer has been given, if there was room for it. -/
def Pointer.grown (malloc : Allocator) (size : UInt64) (p : Pointer) : Option Pointer :=
  if p.usable < size.toNat then (malloc size).map fun block => .block block.1 else some p

theorem ensureUsable_eq {p : Pointer} (valid : p.Valid) (malloc : Allocator) (size : UInt64) :
    ensureUsable malloc size p = .ok (match p.grown malloc size with
      | none => (-ENOMEM, .null)
      | some p => (0, p)) := by
  have measured : p.usableSize = .ok p.usable := by
    cases p with
    | null => rfl
    | block bytes => rfl
    | freed => exact absurd rfl valid
  have released : ∃ p', p.free = .ok p' := by
    cases p with
    | null => exact ⟨_, rfl⟩
    | block bytes => exact ⟨_, rfl⟩
    | freed => exact absurd rfl valid
  obtain ⟨p', released⟩ := released
  unfold ensureUsable Pointer.grown
  rw [measured, bind_ok]
  split
  · rw [released, bind_ok]
    cases malloc size with
    | none => rfl
    | some block => rfl
  · rfl

/-- A pointer that was made to fit does, and is null only where nothing had to. -/
theorem Pointer.grown_spec {p p' : Pointer} {malloc : Allocator} {size : UInt64}
    (valid : p.Valid) (fits : p.grown malloc size = some p') :
    p'.Valid ∧ size.toNat ≤ p'.usable ∧ (p' = .null ↔ p = .null ∧ size = 0) := by
  unfold grown at fits
  split at fits
  · rename_i short
    obtain ⟨block, -, rfl⟩ := Option.map_eq_some_iff.mp fits
    refine ⟨nofun, block.2, iff_of_false nofun ?_⟩
    rintro ⟨-, rfl⟩
    exact Nat.not_lt_zero _ short
  · rename_i enough
    cases fits
    refine ⟨valid, Nat.le_of_not_lt enough, ?_⟩
    constructor
    · rintro rfl
      refine ⟨rfl, UInt64.toNat_inj.mp ?_⟩
      exact Nat.le_zero.mp (Nat.le_of_not_lt enough)
    · exact And.left

theorem Pointer.grown_isSome {p : Pointer} {malloc : Allocator} {size : UInt64} :
    (p.grown malloc size).isSome ↔ (p.usable < size.toNat → (malloc size).isSome) := by
  unfold grown
  split
  · rename_i short
    simp [short]
  · rename_i enough
    simp [enough]

/-- The frame says how large it is decompressed. -/
def Zstd.Declares (zstd : Zstd) (src : List UInt8) : Prop :=
  zstd.getFrameContentSize src ≠ ZSTD_CONTENTSIZE_ERROR ∧
    zstd.getFrameContentSize src ≠ ZSTD_CONTENTSIZE_UNKNOWN

/-- `decompress` past its assertions, in the terms of what `ensureUsable` comes to. -/
theorem decompress_eq (zstd : Zstd) (allocs : Allocs) {compression : UInt8} {src : List UInt8}
    {dest : Pointer} (valid : dest.Valid) (nonempty : src ≠ [])
    (known : compression &&& OBJECT_COMPRESSED_ZSTD ≠ 0) (declares : zstd.Declares src) :
    decompress zstd allocs compression src dest =
      match dest.grown allocs.decompressed (zstd.getFrameContentSize src) with
      | none => .ok (.error (-ENOMEM), .null)
      | some dest =>
        if allocs.createDCtx = false then dest.free.map fun dest => (.error (-ENOMEM), dest)
        else match (zstd.decompressStream src (zstd.getFrameContentSize src)).error with
        | some code => .ok (.error (zstdRetToErrno code), dest.write
            (zstd.decompressStream src (zstd.getFrameContentSize src)).written)
        | none =>
          if (zstd.decompressStream src (zstd.getFrameContentSize src)).written.length <
              (zstd.getFrameContentSize src).toNat then .error .assertion
          else .ok (.ok (zstd.getFrameContentSize src), dest.write
            (zstd.decompressStream src (zstd.getFrameContentSize src)).written) := by
  have some : 0 < src.length := List.length_pos_iff.mpr nonempty
  have small : ¬zstd.getFrameContentSize src > SIZE_MAX := by
    have bound := (zstd.getFrameContentSize src).toNat_lt
    rw [gt_iff_lt, UInt64.lt_iff_toNat_lt, show SIZE_MAX.toNat = 2 ^ 64 - 1 from rfl]
    omega
  unfold decompress
  simp only [some, known, not_true_eq_false, ↓reduceIte, small, ensureUsable_eq valid,
    if_neg (not_or.mpr declares), bind_ok]
  cases dest.grown allocs.decompressed (zstd.getFrameContentSize src) with
  | none => rfl
  | some dest =>
    cases createDCtx : allocs.createDCtx with
    | false =>
      simp only [Int.lt_irrefl, ↓reduceIte, Bool.false_eq_true, not_false_eq_true]
      cases dest.free <;> rfl
    | true =>
      simp only [Int.lt_irrefl, ↓reduceIte, not_true_eq_false, Bool.true_eq_false, ge_iff_le,
        not_le]
      cases (zstd.decompressStream src (zstd.getFrameContentSize src)).error with
      | some code => rfl
      | none =>
        simp only
        split <;> rfl

/-- The hash of the contents of an object. -/
def contentHash (header : Header) (content : List UInt8) : UInt64 :=
  if keyed header then
    siphash24Finalize (siphash24Compress content (siphash24Init header.fileId))
  else jenkinsHash64 content

theorem hash_some (header : Header) (content : List UInt8) :
    hash header (some content) = .ok (contentHash header content) := by
  unfold hash contentHash
  split <;> rfl

theorem hash_none (header : Header) : hash header none =
    if keyed header then .error .assertion else .ok (contentHash header []) := by
  unfold hash contentHash
  split <;> rfl

theorem Pointer.write_valid {p : Pointer} (valid : p.Valid) (written : List UInt8) :
    (p.write written).Valid := by
  cases p with
  | null => exact nofun
  | block bytes => exact nofun
  | freed => exact absurd rfl valid

theorem Pointer.write_null {p : Pointer} {written : List UInt8} :
    p.write written = .null ↔ p = .null := by
  cases p <;> simp [write]

/-- What was written is read back, if there is anything to read it from. -/
theorem Pointer.read_write {p : Pointer} (valid : p.Valid) {written : List UInt8}
    (room : written.length ≤ p.usable) : (p.write written).read written.length =
      .ok (if p = .null then none else some written) := by
  cases p with
  | null => rfl
  | block bytes => simp [write, read]
  | freed => exact absurd rfl valid

/-! ## Every object is reported -/

/-- A negative errno of `verify_hashed_object`. -/
def IsErrno (r : Int) : Prop := r = -EBADMSG ∨ r = -E2BIG ∨ r = -ENOMEM ∨ r = -ENOBUFS

/-- No assertion fails and nothing is read that is not there; the result is 0 or an
errno; and `free` may be called with what is left in `*decompressed`. -/
def Reported (ran : Except Fault Verified) : Prop :=
  ∃ verified, ran = .ok verified ∧ (verified.r = 0 ∨ IsErrno verified.r) ∧
    verified.decompressed.Valid

/-- The object is not compressed; or it is with zstd, has a payload, and if that is a frame of
known size for which there is room, no allocated buffer is lost to a failing
`ZSTD_createDCtx`, the frame is not cut short, and the keyed hash of nothing is not
asked for without a buffer. -/
def Verifiable (zstd : Zstd) (allocs : Allocs) (header : Header) (o : HashedObject)
    (decompressed : Pointer) : Prop :=
  let size := zstd.getFrameContentSize o.payload
  let streamed := zstd.decompressStream o.payload size
  o.compression = 0 ∨
    o.compression &&& OBJECT_COMPRESSED_ZSTD ≠ 0 ∧ o.payload ≠ [] ∧
      (zstd.Declares o.payload →
        (decompressed.usable < size.toNat → (allocs.decompressed size).isSome) →
        (allocs.createDCtx = false → decompressed = .null ∧ size = 0) ∧
        (allocs.createDCtx = true → streamed.error = none →
          size.toNat ≤ streamed.written.length ∧
          (keyed header → ¬(decompressed = .null ∧ size = 0))))

theorem zstdRetToErrno_isErrno (code : ZstdErrorCode) : IsErrno (zstdRetToErrno code) := by
  cases code with
  | dstSizeTooSmall => exact .inr (.inr (.inr rfl))
  | memoryAllocation => exact .inr (.inr (.inl rfl))
  | other => exact .inl rfl

theorem verdict_isErrno (h stored : UInt64) :
    (if h ≠ stored then -EBADMSG else 0) = 0 ∨ IsErrno (if h ≠ stored then -EBADMSG else 0) := by
  split
  · exact .inr (.inl rfl)
  · exact .inl rfl

/-- The payload is found behind the fixed part. -/
theorem payloadOf_holds {host : Endian} {o : HashedObject} {block : List UInt8}
    (holds : Holds host o block) {offset : UInt64} (fixed : offset.toNat = o.type.reach) :
    payloadOf block offset (readU64 host block 8 - offset) = .ok o.payload := by
  have reached := o.reached
  have room := holds.room
  have rest : o.payload.length = o.bytes.length - o.type.reach := List.length_drop ..
  have length : (readU64 host block 8 - offset).toNat = o.payload.length := by
    rw [holds.size, UInt64.toNat_sub_of_le _ _ (by rw [UInt64.le_iff_toNat_le, o.sized]; omega),
      o.sized, fixed, rest]
  unfold payloadOf
  rw [length, fixed, if_pos (by omega), holds.payload]

/-- What `verifyPayload` comes to is what `verify_hashed_object` does. -/
theorem verifyHashedObject_eq (zstd : Zstd) (allocs : Allocs) (header : Header) {host : Endian}
    {o : HashedObject} {block : List UInt8} (holds : Holds host o block) (decompressed : Pointer)
    (stats : VerifyStats) : ∃ stats',
      verifyHashedObject zstd allocs host header (.block block) decompressed stats =
        (verifyPayload zstd allocs header o.compression o.payload o.stored decompressed).map
          fun (r, decompressed) => ⟨r, decompressed, stats'⟩ := by
  rcases o.hashed with type | type
  · have fixed : sizeofFieldObject.toNat = o.type.reach := by rw [type]; rfl
    simp only [verifyHashedObject, HashedObject.compression, holds.type, holds.flags, holds.stored,
      o.typed, type, bind_ok, payloadOf_holds holds fixed]
    cases verifyPayload zstd allocs header (o.bytes.getD 1 0 &&& OBJECT_COMPRESSION_MASK) o.payload
      o.stored decompressed with
    | error fault => exact ⟨stats, rfl⟩
    | ok reply => exact ⟨_, rfl⟩
  · have fixed : sizeofDataObject.toNat = o.type.reach := by rw [type]; rfl
    simp only [verifyHashedObject, HashedObject.compression, holds.type, holds.flags, holds.stored,
      o.typed, type, bind_ok, payloadOf_holds holds fixed]
    cases verifyPayload zstd allocs header (o.bytes.getD 1 0 &&& OBJECT_COMPRESSION_MASK) o.payload
      o.stored decompressed with
    | error fault => exact ⟨stats, rfl⟩
    | ok reply => exact ⟨_, rfl⟩

theorem verifyPayload_plain (zstd : Zstd) (allocs : Allocs) (header : Header)
    (payload : List UInt8) (stored : UInt64) (decompressed : Pointer) :
    verifyPayload zstd allocs header 0 payload stored decompressed =
      .ok (if contentHash header payload ≠ stored then -EBADMSG else 0, decompressed) := by
  unfold verifyPayload
  simp only [ne_eq, not_true_eq_false, ↓reduceIte, hash_some, bind_ok]
  rfl

theorem compressed_of_zstd {compression : UInt8}
    (known : compression &&& OBJECT_COMPRESSED_ZSTD ≠ 0) : compression ≠ 0 := by
  rintro rfl
  exact known (UInt8.zero_and ..)

/-- Where a frame was decompressed, the hash is that of what was written, unless there
was nothing to write and nowhere to write it. -/
theorem verifyPayload_streamed (zstd : Zstd) (allocs : Allocs) (header : Header)
    {compression : UInt8} {payload : List UInt8} (stored : UInt64) {decompressed dest : Pointer}
    (valid : decompressed.Valid) (nonempty : payload ≠ [])
    (known : compression &&& OBJECT_COMPRESSED_ZSTD ≠ 0) (declares : zstd.Declares payload)
    (room : decompressed.grown allocs.decompressed (zstd.getFrameContentSize payload) = some dest)
    (createDCtx : allocs.createDCtx = true) {written : List UInt8}
    (streams : zstd.decompressStream payload (zstd.getFrameContentSize payload) = ⟨written, none⟩)
    (whole : (zstd.getFrameContentSize payload).toNat ≤ written.length) :
    verifyPayload zstd allocs header compression payload stored decompressed =
      if keyed header ∧ dest = .null then .error .assertion
      else .ok (if contentHash header written ≠ stored then -EBADMSG else 0,
        dest.write written) := by
  have compressed := compressed_of_zstd known
  obtain ⟨destValid, fits, -⟩ := Pointer.grown_spec valid room
  have inRoom := zstd.inRoom payload (zstd.getFrameContentSize payload)
  rw [streams] at inRoom
  have exact : (zstd.getFrameContentSize payload).toNat = written.length :=
    Nat.le_antisymm whole inRoom
  unfold verifyPayload
  rw [if_pos compressed, decompress_eq zstd allocs valid nonempty known declares, room]
  simp only [createDCtx, Bool.true_eq_false, ↓reduceIte, streams, exact, lt_irrefl, bind_ok,
    Pointer.read_write destValid (exact ▸ fits)]
  by_cases null : dest = .null
  · subst null
    have nothing : written = [] := by
      apply List.eq_nil_of_length_eq_zero
      exact Nat.le_zero.mp (exact ▸ fits)
    subst nothing
    simp only [↓reduceIte, and_true, hash_none]
    split <;> rfl
  · simp only [null, ↓reduceIte, and_false, hash_some, bind_ok]
    rfl

/-- An error of `decompress` is one of `verify_hashed_object`. -/
theorem verifyPayload_of_error (header : Header) {compression : UInt8} {payload : List UInt8}
    (stored : UInt64) {decompressed dest : Pointer} {r : Int} (compressed : compression ≠ 0)
    (ran : decompress zstd allocs compression payload decompressed = .ok (.error r, dest)) :
    verifyPayload zstd allocs header compression payload stored decompressed = .ok (r, dest) := by
  unfold verifyPayload
  rw [if_pos compressed, ran]
  rfl

theorem verifyPayload_of_fault (header : Header) {compression : UInt8} {payload : List UInt8}
    (stored : UInt64) {decompressed : Pointer} {fault : Fault} (compressed : compression ≠ 0)
    (ran : decompress zstd allocs compression payload decompressed = .error fault) :
    verifyPayload zstd allocs header compression payload stored decompressed = .error fault := by
  unfold verifyPayload
  rw [if_pos compressed, ran]
  rfl

/-- The assertions of `decompress` are about what is in the file. -/
theorem decompress_asserts (zstd : Zstd) (allocs : Allocs) {compression : UInt8}
    {src : List UInt8} (dest : Pointer)
    (bad : ¬(compression &&& OBJECT_COMPRESSED_ZSTD ≠ 0 ∧ src ≠ [])) :
    decompress zstd allocs compression src dest = .error .assertion := by
  unfold decompress
  by_cases nonempty : 0 < src.length
  · have unknown : compression &&& OBJECT_COMPRESSED_ZSTD = 0 := by
      by_contra known
      exact bad ⟨known, List.length_pos_iff.mp nonempty⟩
    rw [if_neg (not_not.mpr nonempty), if_pos unknown]
    rfl
  · rw [if_pos nonempty]
    rfl

theorem decompress_undeclared (zstd : Zstd) (allocs : Allocs) {compression : UInt8}
    {src : List UInt8} (dest : Pointer) (nonempty : src ≠ [])
    (known : compression &&& OBJECT_COMPRESSED_ZSTD ≠ 0) (undeclared : ¬zstd.Declares src) :
    decompress zstd allocs compression src dest = .ok (.error (-EBADMSG), dest) := by
  have size : zstd.getFrameContentSize src = ZSTD_CONTENTSIZE_ERROR ∨
      zstd.getFrameContentSize src = ZSTD_CONTENTSIZE_UNKNOWN := by
    by_contra neither
    exact undeclared (not_or.mp neither)
  unfold decompress
  rw [if_neg (not_not.mpr (List.length_pos_iff.mpr nonempty)), if_neg known]
  simp only [if_pos size]
  rfl

/-- What is reported of `verify_hashed_object` is what is reported behind its switch. -/
private def PayloadReported (ran : Except Fault (Int × Pointer)) : Prop :=
  ∃ r decompressed, ran = .ok (r, decompressed) ∧ (r = 0 ∨ IsErrno r) ∧ decompressed.Valid

private theorem payloadReported_error (fault : Fault) : ¬PayloadReported (.error fault) := nofun

private theorem payloadReported_ok {r : Int} {decompressed : Pointer}
    (known : r = 0 ∨ IsErrno r) : PayloadReported (.ok (r, decompressed)) ↔ decompressed.Valid :=
  ⟨fun ⟨_, _, same, _, valid⟩ => by cases same; exact valid, fun valid => ⟨_, _, rfl, known, valid⟩⟩

/-- A failing `ZSTD_createDCtx` loses the buffer, if there is one. -/
theorem free_valid {dest : Pointer} (valid : dest.Valid) :
    ∃ dest', dest.free = .ok dest' ∧ (dest'.Valid ↔ dest = .null) := by
  cases dest with
  | null => exact ⟨.null, rfl, iff_of_true nofun rfl⟩
  | block bytes => exact ⟨.freed, rfl, iff_of_false (fun valid => valid rfl) nofun⟩
  | freed => exact absurd rfl valid

private theorem streamed_reported_iff (zstd : Zstd) (allocs : Allocs) (header : Header)
    {compression : UInt8} {payload : List UInt8} (stored : UInt64) {decompressed dest : Pointer}
    (valid : decompressed.Valid) (nonempty : payload ≠ [])
    (known : compression &&& OBJECT_COMPRESSED_ZSTD ≠ 0) (declares : zstd.Declares payload)
    (room : decompressed.grown allocs.decompressed (zstd.getFrameContentSize payload) = some dest)
    (createDCtx : allocs.createDCtx = true) :
    PayloadReported (verifyPayload zstd allocs header compression payload stored decompressed) ↔
      ((zstd.decompressStream payload (zstd.getFrameContentSize payload)).error = none →
        (zstd.getFrameContentSize payload).toNat ≤
          (zstd.decompressStream payload (zstd.getFrameContentSize payload)).written.length ∧
        (keyed header → dest ≠ .null)) := by
  have compressed := compressed_of_zstd known
  have ran := decompress_eq zstd allocs valid nonempty known declares
  simp only [room, createDCtx, Bool.true_eq_false, ↓reduceIte] at ran
  obtain ⟨destValid, -, -⟩ := Pointer.grown_spec valid room
  cases streams : zstd.decompressStream payload (zstd.getFrameContentSize payload) with
  | mk written error =>
    simp only [streams] at ran ⊢
    cases error with
    | some code =>
      rw [verifyPayload_of_error header stored compressed ran,
        payloadReported_ok (.inr (zstdRetToErrno_isErrno code))]
      exact iff_of_true (Pointer.write_valid destValid written) nofun
    | none =>
      rw [imp_iff_right (rfl : (none : Option ZstdErrorCode) = none)]
      by_cases whole : (zstd.getFrameContentSize payload).toNat ≤ written.length
      · rw [and_iff_right whole, verifyPayload_streamed zstd allocs header stored valid nonempty
          known declares room createDCtx streams whole, ← not_and]
        split
        · rename_i nowhere
          exact iff_of_false (payloadReported_error _) (not_not.mpr nowhere)
        · rename_i somewhere
          rw [payloadReported_ok (verdict_isErrno ..)]
          exact iff_of_true (Pointer.write_valid destValid written) somewhere
      · simp only [Nat.lt_of_not_le whole, ↓reduceIte] at ran
        rw [verifyPayload_of_fault header stored compressed ran]
        exact iff_of_false (payloadReported_error _) fun both => whole both.1

private theorem verifyPayload_reported_iff (zstd : Zstd) (allocs : Allocs) (header : Header)
    (o : HashedObject) {decompressed : Pointer} (valid : decompressed.Valid) :
    PayloadReported (verifyPayload zstd allocs header o.compression o.payload o.stored
      decompressed) ↔ Verifiable zstd allocs header o decompressed := by
  unfold Verifiable
  by_cases compressed : o.compression = 0
  · rw [compressed, verifyPayload_plain, payloadReported_ok (verdict_isErrno ..)]
    exact iff_of_true valid (.inl rfl)
  rw [or_iff_right compressed, ← and_assoc]
  by_cases asserted : ¬(o.compression &&& OBJECT_COMPRESSED_ZSTD ≠ 0 ∧ o.payload ≠ [])
  · rw [verifyPayload_of_fault header o.stored compressed
      (decompress_asserts zstd allocs decompressed asserted)]
    exact iff_of_false (payloadReported_error _) fun both => asserted both.1
  rw [and_iff_right (not_not.mp asserted)]
  obtain ⟨known, nonempty⟩ := not_not.mp asserted
  by_cases undeclared : ¬zstd.Declares o.payload
  · rw [verifyPayload_of_error header o.stored compressed
      (decompress_undeclared zstd allocs decompressed nonempty known undeclared),
      payloadReported_ok (.inr (.inl rfl))]
    exact iff_of_true valid fun declares => absurd declares undeclared
  have declares := not_not.mp undeclared
  rw [imp_iff_right declares, ← Pointer.grown_isSome]
  have ran := decompress_eq zstd allocs valid nonempty known declares
  cases room : decompressed.grown allocs.decompressed (zstd.getFrameContentSize o.payload) with
  | none =>
    rw [room] at ran
    rw [verifyPayload_of_error header o.stored compressed ran,
      payloadReported_ok (.inr (.inr (.inr (.inl rfl))))]
    exact iff_of_true nofun nofun
  | some dest =>
    obtain ⟨destValid, -, null⟩ := Pointer.grown_spec valid room
    rw [imp_iff_right (show (some dest).isSome from rfl), ← null]
    cases createDCtx : allocs.createDCtx with
    | false =>
      obtain ⟨dest', released, lost⟩ := free_valid destValid
      simp only [room, createDCtx, ↓reduceIte, released, Except.map] at ran
      rw [verifyPayload_of_error header o.stored compressed ran,
        payloadReported_ok (.inr (.inr (.inr (.inl rfl)))), lost]
      exact ⟨fun null => ⟨fun _ => null, nofun⟩, fun kept => kept.1 rfl⟩
    | true =>
      rw [and_iff_right (nofun : true = false → _), imp_iff_right (rfl : true = true)]
      exact streamed_reported_iff zstd allocs header o.stored valid nonempty known declares room
        createDCtx

private theorem reported_iff_payload (zstd : Zstd) (allocs : Allocs) (header : Header)
    {host : Endian} {o : HashedObject} {block : List UInt8} (holds : Holds host o block)
    (decompressed : Pointer) (stats : VerifyStats) :
    Reported (verifyHashedObject zstd allocs host header (.block block) decompressed stats) ↔
      PayloadReported (verifyPayload zstd allocs header o.compression o.payload o.stored
        decompressed) := by
  obtain ⟨stats', ran⟩ := verifyHashedObject_eq zstd allocs header holds decompressed stats
  rw [ran]
  cases verifyPayload zstd allocs header o.compression o.payload o.stored decompressed with
  | error fault => exact iff_of_false nofun (payloadReported_error fault)
  | ok reply =>
    constructor
    · rintro ⟨verified, same, known, valid⟩
      cases same
      exact ⟨_, _, rfl, known, valid⟩
    · rintro ⟨r, decompressed, same, known, valid⟩
      cases same
      exact ⟨_, rfl, known, valid⟩

/-- Verification turns an object into a result exactly when nothing in it, and no allocation
that fails, gets to an assertion or leaves the buffer lost. -/
theorem verification_reports_iff (zstd : Zstd) (allocs : Allocs) (header : Header)
    {host : Endian} {o : HashedObject} {block : List UInt8} (holds : Holds host o block)
    {decompressed : Pointer} (valid : decompressed.Valid) (stats : VerifyStats) :
    Reported (verifyHashedObject zstd allocs host header (.block block) decompressed stats) ↔
      Verifiable zstd allocs header o decompressed := by
  rw [reported_iff_payload zstd allocs header holds]
  exact verifyPayload_reported_iff zstd allocs header o valid

end Verdicts

/-! ## Objects as they are written -/

/-- The object as it is on the disk is what a little-endian host has of it. -/
theorem holds_self (o : HashedObject) : Holds .little o o.bytes where
  type := rfl
  flags := rfl
  size := rfl
  stored := rfl
  payload := List.take_length
  room := le_rfl

/-- A field object on the disk. -/
def fieldParts (flags : UInt8) (stored : UInt64) (payload : List UInt8) : List Part :=
  ObjectHeader.parts ⟨ObjectType.field.toByte, flags, .replicate 6 0,
    UInt64.ofNat (40 + payload.length)⟩ ++ [u64 stored, u64 0, u64 0, .raw payload]

theorem fieldParts_length (flags : UInt8) (stored : UInt64) (payload : List UInt8) :
    (render .little (fieldParts flags stored payload)).length = 40 + payload.length := by
  simp only [render_length, fieldParts, List.map_append, List.sum_append,
    ObjectHeader.parts_width, List.map_cons, List.map_nil, List.sum_cons, List.sum_nil, Part.width,
    u64]
  omega

theorem fieldParts_fit (flags : UInt8) (stored : UInt64) (payload : List UInt8) :
    ∀ part ∈ fieldParts flags stored payload, part.Fits := by
  intro part member
  rcases List.mem_append.mp member with member | member
  · exact ObjectHeader.parts_fit _ part member
  · simp only [List.mem_cons, List.not_mem_nil, or_false] at member
    rcases member with rfl | rfl | rfl | rfl
    · exact u64_fits _
    · exact u64_fits _
    · exact u64_fits _
    · exact trivial

/-- A number in front of the payload reads as its value. -/
theorem readU64_fieldParts (flags : UInt8) (stored : UInt64) (payload : List UInt8)
    (value : UInt64) {off : Nat}
    (listed : (8, off, value.toNat) ∈ numbersOf 0 (fieldParts flags stored payload)) :
    readU64 .little (render .little (fieldParts flags stored payload)) off = value := by
  have read := readU64_render .little (fieldParts_fit flags stored payload) listed []
  rwa [List.append_nil] at read

/-- A field object with these flags, this hash and this payload. -/
def fieldObject (flags : UInt8) (stored : UInt64) (payload : List UInt8)
    (small : 40 + payload.length < 2 ^ 64) : HashedObject where
  bytes := render .little (fieldParts flags stored payload)
  type := .field
  hashed := .inl rfl
  typed := rfl
  sized := by
    rw [readU64_fieldParts flags stored payload (UInt64.ofNat (40 + payload.length))
      (by simp [fieldParts, ObjectHeader.parts, numbersOf, u64]), fieldParts_length]
    exact UInt64.toNat_ofNat_of_lt' small
  reached := by
    rw [fieldParts_length]
    exact Nat.le_add_right ..

section FieldObjects

variable (flags : UInt8) (stored : UInt64) (payload : List UInt8)
  (small : 40 + payload.length < 2 ^ 64)

theorem fieldObject_compression : (fieldObject flags stored payload small).compression =
    flags &&& OBJECT_COMPRESSION_MASK := rfl

theorem fieldObject_stored : (fieldObject flags stored payload small).stored = stored :=
  readU64_fieldParts flags stored payload stored
    (by simp [fieldParts, ObjectHeader.parts, numbersOf, u64])

theorem fieldObject_payload : (fieldObject flags stored payload small).payload = payload := by
  have parts : render .little (fieldParts flags stored payload) =
      render .little (ObjectHeader.parts ⟨ObjectType.field.toByte, flags, .replicate 6 0,
        UInt64.ofNat (40 + payload.length)⟩ ++ [u64 stored, u64 0, u64 0]) ++ payload := by
    simp [fieldParts, render_append, Part.render]
  have front : (render .little (ObjectHeader.parts ⟨ObjectType.field.toByte, flags,
      .replicate 6 0, UInt64.ofNat (40 + payload.length)⟩ ++ [u64 stored, u64 0, u64 0])).length =
      ObjectType.field.reach := by
    simp [render_length, Part.width, u64, ObjectType.reach]
  exact (congrArg (List.drop ObjectType.field.reach) parts).trans (List.drop_left' front)

end FieldObjects

/-- A library that knows the frames of a table: the size each declares and what comes
of it. -/
def tableZstd (frames : List (List UInt8 × UInt64 × List UInt8)) : Zstd where
  getFrameContentSize src := match frames.lookup src with
    | some (size, _) => size
    | none => ZSTD_CONTENTSIZE_ERROR
  decompressStream src room := match frames.lookup src with
    | some (_, content) => ⟨content.take room.toNat, none⟩
    | none => ⟨[], some .other⟩
  inRoom src room := by
    split
    · exact List.length_take_le ..
    · exact Nat.zero_le _

/-- A frame of `hello`. -/
def helloFrame : List UInt8 :=
  [0x28, 0xb5, 0x2f, 0xfd, 0x20, 5, 0x29, 0, 0, 0x68, 0x65, 0x6c, 0x6c, 0x6f]

/-- The same frame without its only block. -/
def cutFrame : List UInt8 := [0x28, 0xb5, 0x2f, 0xfd, 0x20, 5]

/-- A frame of nothing. -/
def emptyFrame : List UInt8 := [0x28, 0xb5, 0x2f, 0xfd, 0x20, 0, 1, 0, 0]

def someFrames : Zstd := tableZstd [(helloFrame, 5, [0x68, 0x65, 0x6c, 0x6c, 0x6f]),
  (cutFrame, 5, []), (emptyFrame, 0, [])]

/-- Allocators that have the memory, all of it zeros. -/
def zeroAllocs : Allocs where
  iterObject size := some ⟨.replicate size.toNat 0, by simp⟩
  decompressed size := some ⟨.replicate size.toNat 0, by simp⟩
  createDCtx := true

def keyedHeader : Header :=
  { (default : Header) with incompatibleFlags := HEADER_INCOMPATIBLE_KEYED_HASH }

theorem verification_reports_iff_hello :
    let o := fieldObject OBJECT_COMPRESSED_ZSTD 0 helloFrame (by decide)
    Reported (verifyHashedObject someFrames zeroAllocs .little keyedHeader (.block o.bytes) .null
      ⟨0, 0, 0, 0⟩) ↔ Verifiable someFrames zeroAllocs keyedHeader o .null :=
  verification_reports_iff someFrames zeroAllocs keyedHeader (holds_self _)
    (show Pointer.null ≠ .freed by decide) _

/-- An lz4 payload, an empty one, and a frame that is cut short fail an assertion, and so
does an empty frame under a keyed hash; and a failing `ZSTD_createDCtx` leaves
`*decompressed` freed. -/
theorem bad_objects_are_not_reported :
    let ran (allocs : Allocs) (flags : UInt8) (payload : List UInt8)
        (small : 40 + payload.length < 2 ^ 64) :=
      verifyHashedObject someFrames allocs .little keyedHeader
        (.block (fieldObject flags 0 payload small).bytes) .null ⟨0, 0, 0, 0⟩
    ¬Reported (ran zeroAllocs 2 helloFrame (by decide)) ∧
      ¬Reported (ran zeroAllocs 4 [] (by decide)) ∧
      ¬Reported (ran zeroAllocs 4 cutFrame (by decide)) ∧
      ¬Reported (ran zeroAllocs 4 emptyFrame (by decide)) ∧
      ¬Reported (ran { zeroAllocs with createDCtx := false } 4 helloFrame (by decide)) := by
  have reported (allocs : Allocs) (o : HashedObject) :
      Reported (verifyHashedObject someFrames allocs .little keyedHeader (.block o.bytes) .null
        ⟨0, 0, 0, 0⟩) ↔ Verifiable someFrames allocs keyedHeader o .null := by
    rw [reported_iff_payload someFrames allocs keyedHeader (holds_self o)]
    exact verifyPayload_reported_iff someFrames allocs keyedHeader o nofun
  simp only [reported, Verifiable, Zstd.Declares, fieldObject_compression, fieldObject_payload]
  refine ⟨?_, ?_, ?_, ?_, ?_⟩ <;> decide

end Jio.HashedObjects
