import Jio.ObjectDecode
import Jio.ObjectIteration

/-! Whole objects are loaded by the size their header gives: by
`journal_get_object` and `journal_get_object_full`, by `verify hashed-objects`,
and, the items only, by `report entry-arrays`. Each subtracts what its type has
in front of the variable part. -/
namespace Jio
open ByteOrder ReadProgram

/-! ## Programs -/

/-- `journal_get_header`, which stores what it loads with `store`. -/
def journalGetHeader {σ : Type} (host : Endian) (cells : σ) (store : Header → σ) : Reading σ :=
  .read (0, sizeofHeader) cells fun mem =>
    match gotHeader host mem with
    | .error fault => .abort fault
    | .ok mem => .dispatch (store (.ofMemory host mem))

/-- `got_object_header`. -/
def gotObjectHeader (host : Endian) (objectHeader : ObjectHeader) : ObjectHeader :=
  { objectHeader with size := le64toh host objectHeader.size }

/-- `journal_get_object_header`, which stores what it loads with `store`. -/
def journalGetObjectHeader {σ : Type} (host : Endian) (offset : UInt64) (cells : σ)
    (store : ObjectHeader → σ) : Reading σ :=
  .read (offset, sizeofObjectHeader) cells fun mem =>
    .dispatch (store (gotObjectHeader host (.ofMemory host mem)))

/-- `*object_header`, `*object`, and the `payload_size` computed from it. -/
structure Load where
  objectHeader : ObjectHeader
  object : List UInt8
  payloadSize : UInt64

/-- `journal_get_object`, into `size` bytes of memory. -/
def journalGetObject (host : Endian) (offset size : UInt64) (cells : Load) : Reading Load :=
  .read (offset, size) cells fun mem =>
    match gotObject host mem with
    | .error fault => .abort fault
    | .ok object => .dispatch { cells with object }

/-- `get_object_full_got_header`. `alloc` is whether `malloc` has so many bytes. -/
def getObjectFullGotHeader (alloc : UInt64 → Bool) (host : Endian) (offset : UInt64)
    (cells : Load) : Reading Load :=
  if alloc cells.objectHeader.size then
    journalGetObject host offset cells.objectHeader.size cells
  else .fail (-ENOMEM) cells

/-- `journal_get_object_full`. -/
def journalGetObjectFull (alloc : UInt64 → Bool) (host : Endian) (offset : UInt64)
    (cells : Load) : Reading Load :=
  (journalGetObjectHeader host offset cells fun objectHeader =>
    { cells with objectHeader }).andThen (getObjectFullGotHeader alloc host offset)

/-- `verify_hashed_object`, up to the payload it hashes. -/
def verifyHashedObject (host : Endian) (cells : Load) : Reading Load :=
  match ObjectType.ofByte? (cells.object.getD 0 0) with
  | some .field =>
    .dispatch { cells with payloadSize := readU64 host cells.object 8 - sizeofFieldObject }
  | some .data =>
    .dispatch { cells with payloadSize := readU64 host cells.object 8 - sizeofDataObject }
  | _ => .abort .assertion

/-- `per_object` of `verify hashed-objects`, at an object whose header is loaded.
`usable` is what `*iter_object` already has room for. -/
def verifyPerObject (alloc : UInt64 → Bool) (usable : UInt64) (host : Endian) (offset : UInt64)
    (cells : Load) : Reading Load :=
  -- skip non-hashed objects
  if cells.objectHeader.type ≠ ObjectType.field.toByte ∧
      cells.objectHeader.type ≠ ObjectType.data.toByte then .dispatch cells
  else if usable < cells.objectHeader.size ∧ alloc cells.objectHeader.size = false then
    .fail (-ENOMEM) cells
  else
    (journalGetObject host offset cells.objectHeader.size cells).andThen (verifyHashedObject host)

/-- `per_object` of `report entry-arrays`, at an object whose header is loaded,
up to the payload it hashes. -/
def reportEntryArraysPerObject (alloc : UInt64 → Bool) (offset : UInt64) (cells : Load) :
    Reading Load :=
  -- skip non-entry-array objects
  if cells.objectHeader.type ≠ ObjectType.entryArray.toByte then .dispatch cells
  else
    let payloadSize := cells.objectHeader.size - entryArrayItemsOffset
    if alloc payloadSize then
      .read (offset + entryArrayItemsOffset, payloadSize) { cells with payloadSize } fun buf =>
        .dispatch { cells with object := buf, payloadSize }
    else .fail (-ENOMEM) { cells with payloadSize }

/-! ## What `got_object` reaches -/

/-- How far `got_object` reaches into an object before it looks at any items. -/
def ObjectType.reach : ObjectType → Nat
  | .unused => 0
  | .data => 64
  | .field => 40
  | .entry => 64
  | .dataHashTable | .fieldHashTable => 16
  | .entryArray => 24
  | .tag => 32

/-- Where the items of an object start, and how large each is. -/
def ObjectType.items : ObjectType → Option (UInt64 × UInt64)
  | .entry => some (entryItemsOffset, sizeofEntryItem)
  | .dataHashTable | .fieldHashTable => some (hashTableItemsOffset, sizeofHashItem)
  | .entryArray => some (entryArrayItemsOffset, sizeofLe64)
  | _ => none

/-- The object headers of two memories of one length are the same. -/
def SameHeader (mem mem' : List UInt8) : Prop :=
  mem'.length = mem.length ∧ mem'.take 16 = mem.take 16

theorem SameHeader.type {mem mem' : List UInt8} (same : SameHeader mem mem') :
    mem'.getD 0 0 = mem.getD 0 0 := by
  have first := congrArg (fun bytes => bytes.getD 0 0) same.2
  simpa [List.getD_eq_getElem?_getD, List.getElem?_take] using first

theorem SameHeader.size {mem mem' : List UInt8} (same : SameHeader mem mem') (host : Endian) :
    readU64 host mem' 8 = readU64 host mem 8 := by
  have bytes (mem : List UInt8) : (mem.drop 8).take 8 = (mem.take 16).drop 8 := by
    rw [List.take_drop]
  rw [readU64, readU64, bytes, bytes, same.2]

/-- Fields behind the object header are converted as far as all of them fit. -/
theorem swapFields_behind (host : Endian) (mem : List UInt8) (fields : List (Nat × Nat))
    (reach : Nat) (behind : ∀ field ∈ fields, 16 ≤ field.2)
    (needs : (∀ field ∈ fields, field.2 + field.1 ≤ mem.length) ↔ reach ≤ mem.length) :
    reach ≤ mem.length ∧ (∃ mem', swapFields host fields mem = some mem' ∧ SameHeader mem mem') ∨
      mem.length < reach ∧ swapFields host fields mem = none := by
  have needs (host : Endian) : (swapFields host fields mem).isSome ↔ reach ≤ mem.length :=
    swapFields_isSome_iff.trans needs
  by_cases inside : reach ≤ mem.length
  · obtain ⟨mem', ran⟩ := Option.isSome_iff_exists.mp ((needs host).mpr inside)
    exact .inl ⟨inside, mem', ran, swapFields_length ran, swapFields_take behind ran⟩
  · exact .inr ⟨Nat.lt_of_not_le inside, Option.not_isSome_iff_eq_none.mp (inside ∘ (needs host).mp)⟩

/-- The items of an object as large as its header says lie in the object. -/
theorem swapItems_behind (host : Endian) (mem : List UInt8) (fields : List (Nat × Nat))
    (itemsOffset itemSize : UInt64) (behind : 16 ≤ itemsOffset.toNat)
    (fit : ∀ field ∈ fields, field.2 + field.1 ≤ itemSize.toNat)
    (inside : itemsOffset.toNat ≤ mem.length) (sized : (readU64 host mem 8).toNat = mem.length) :
    ∃ mem', swapItems host fields itemSize.toNat
        (objectNItems host mem itemsOffset itemSize).toNat itemsOffset.toNat mem = some mem' ∧
      SameHeader mem mem' := by
  have count : (objectNItems host mem itemsOffset itemSize).toNat =
      (mem.length - itemsOffset.toNat) / itemSize.toNat := by
    rw [objectNItems, UInt64.toNat_div,
      UInt64.toNat_sub_of_le _ _ (by rw [UInt64.le_iff_toNat_le]; omega), sized]
  have room := Nat.div_mul_le_self (mem.length - itemsOffset.toNat) itemSize.toNat
  rw [← count] at room
  have converts : (swapItems host fields itemSize.toNat
      (objectNItems host mem itemsOffset itemSize).toNat itemsOffset.toNat mem).isSome :=
    swapItems_isSome fit (by omega)
  obtain ⟨mem', ran⟩ := Option.isSome_iff_exists.mp converts
  exact ⟨mem', ran, swapItems_length ran, swapItems_take behind ran⟩

theorem swap_size (host : Endian) {mem : List UInt8} (large : 16 ≤ mem.length) :
    ∃ mem', swapFields host [(8, 8)] mem = some mem' ∧ mem'.length = mem.length ∧
      mem'.getD 0 0 = mem.getD 0 0 ∧ readU64 host mem' 8 = readU64 .little mem 8 := by
  have converts : (swapAt host 8 8 mem).isSome := (swapAt_isSome_iff host).mpr large
  obtain ⟨mem', ran⟩ := Option.isSome_iff_exists.mp converts
  refine ⟨mem', by rw [swapFields, ran]; rfl, swapAt_length ran, ?_, ?_⟩
  · have first := congrArg (fun bytes => bytes.getD 0 0) (swapAt_take (k := 8) le_rfl ran)
    simpa [List.getD_eq_getElem?_getD, List.getElem?_take] using first
  · have read := load_swapAt ran
    rw [load, load, if_pos (by rw [swapAt_length ran]; omega), if_pos (by omega)] at read
    rw [readU64, readU64, Option.some.inj read]

private theorem gotObjectOfType_spec (host : Endian) (mem : List UInt8) {type : ObjectType}
    (used : type ≠ .unused) (large : 16 ≤ mem.length)
    (sized : (readU64 host mem 8).toNat = mem.length) :
    type.reach ≤ mem.length ∧ (∃ object, gotObjectOfType host mem (some type) = .ok object ∧
        SameHeader mem object) ∨
      mem.length < type.reach ∧
        gotObjectOfType host mem (some type) = .error .outOfBounds := by
  cases type with
  | unused => exact absurd rfl used
  | data =>
    rcases swapFields_behind host mem [(8, 16), (8, 24), (8, 32), (8, 40), (8, 48), (8, 56)] 64
        (by simp) (by simp; omega) with ⟨inside, object, ran, same⟩ | ⟨short, ran⟩
    · exact .inl ⟨inside, object, congrArg within ran, same⟩
    · exact .inr ⟨short, congrArg within ran⟩
  | field =>
    rcases swapFields_behind host mem [(8, 16), (8, 24), (8, 32)] 40 (by simp) (by simp; omega)
      with ⟨inside, object, ran, same⟩ | ⟨short, ran⟩
    · exact .inl ⟨inside, object, congrArg within ran, same⟩
    · exact .inr ⟨short, congrArg within ran⟩
  | entry =>
    rcases swapFields_behind host mem [(8, 16), (8, 24), (8, 32), (8, 56)] 64 (by simp)
      (by simp; omega) with ⟨inside, mem', ran, same⟩ | ⟨short, ran⟩
    · obtain ⟨object, converted, same'⟩ := swapItems_behind host mem' [(8, 0), (8, 8)]
        entryItemsOffset sizeofEntryItem (by decide) (by decide) (by rw [same.1]; exact inside)
        (by rw [same.size, sized, same.1])
      refine .inl ⟨inside, object, ?_, same'.1.trans same.1, same'.2.trans same.2⟩
      rw [gotObjectOfType, ran, within_some, bind_ok, converted, within_some]
    · exact .inr ⟨short, by rw [gotObjectOfType, ran]; rfl⟩
  | dataHashTable | fieldHashTable =>
    obtain ⟨object, converted, same⟩ := swapItems_behind host mem [(8, 0), (8, 8)]
      hashTableItemsOffset sizeofHashItem (by decide) (by decide) large sized
    exact .inl ⟨large, object, congrArg within converted, same⟩
  | entryArray =>
    rcases swapFields_behind host mem [(8, 16)] 24 (by simp) (by simp)
      with ⟨inside, mem', ran, same⟩ | ⟨short, ran⟩
    · obtain ⟨object, converted, same'⟩ := swapItems_behind host mem' [(8, 0)]
        entryArrayItemsOffset sizeofLe64 (by decide) (by decide) (by rw [same.1]; exact inside)
        (by rw [same.size, sized, same.1])
      refine .inl ⟨inside, object, ?_, same'.1.trans same.1, same'.2.trans same.2⟩
      rw [gotObjectOfType, ran, within_some, bind_ok, converted, within_some]
    · exact .inr ⟨short, by rw [gotObjectOfType, ran]; rfl⟩
  | tag =>
    rcases swapFields_behind host mem [(8, 16), (8, 24)] 32 (by simp) (by simp; omega)
      with ⟨inside, object, ran, same⟩ | ⟨short, ran⟩
    · exact .inl ⟨inside, object, congrArg within ran, same⟩
    · exact .inr ⟨short, congrArg within ran⟩

/-- An object as large as its header says is converted if it is as large as
every object of its type; else `got_object` leaves the loaded bytes. -/
theorem gotObject_spec (host : Endian) {mem : List UInt8} {type : ObjectType}
    (typed : ObjectType.ofByte? (mem.getD 0 0) = some type) (used : type ≠ .unused)
    (sized : 16 ≤ mem.length → (readU64 .little mem 8).toNat = mem.length) :
    type.reach ≤ mem.length ∧ (∃ object, gotObject host mem = .ok object ∧
        object.getD 0 0 = mem.getD 0 0 ∧ readU64 host object 8 = readU64 .little mem 8) ∨
      mem.length < type.reach ∧ gotObject host mem = .error .outOfBounds := by
  by_cases large : 16 ≤ mem.length
  · obtain ⟨mem', ran, length, first, size⟩ := swap_size host large
    rw [gotObject, ran, within_some, bind_ok, first, typed, ← length, ← first, ← size]
    rcases gotObjectOfType_spec host mem' used (by omega) (by rw [size, sized large, length]) with
      ⟨inside, object, converted, same⟩ | ⟨short, faulted⟩
    · exact .inl ⟨inside, object, converted, same.type, same.size host⟩
    · exact .inr ⟨short, faulted⟩
  · have short : swapFields host [(8, 8)] mem = none := by
      rw [← Option.not_isSome_iff_eq_none, swapFields_isSome_iff]
      simpa using large
    refine .inr ⟨?_, by rw [gotObject, short]; rfl⟩
    cases type with
    | unused => exact absurd rfl used
    | data | field | entry | dataHashTable | fieldHashTable | entryArray | tag =>
      simp only [ObjectType.reach]
      omega

/-! ## Loads -/

/-- Any load of an object shows the type its header has. -/
theorem JournalFile.slice_type (file : JournalFile) (off : Nat) {n : Nat} (positive : 0 < n) :
    (file.slice off n).getD 0 0 = (file.objectHeader off).type := by
  have first {n : Nat} (positive : 0 < n) : (file.slice off n).getD 0 0 = file.byte off := by
    simp [slice, bytesAt, List.getD_eq_getElem?_getD, positive]
  rw [first positive, objectHeader, ObjectHeader.ofMemory, first (by decide)]

/-- A load that has room for it shows the size the header has. -/
theorem JournalFile.slice_size (file : JournalFile) (off : Nat) {n : Nat} (large : 16 ≤ n) :
    readU64 .little (file.slice off n) 8 = (file.objectHeader off).size := by
  have field {n : Nat} (large : 16 ≤ n) :
      ((file.slice off n).drop 8).take 8 = bytesAt file.byte (off + 8) 8 := bytesAt_sub _ _ (by omega)
  rw [objectHeader, ObjectHeader.ofMemory, readU64, readU64, field large, field le_rfl]

/-- `*object` is an object of this type and size, as the host reads it, and is no
smaller than all objects of its type are. -/
structure Loaded (host : Endian) (type : ObjectType) (size : UInt64) (object : List UInt8) :
    Prop where
  typed : ObjectType.ofByte? (object.getD 0 0) = some type
  sized : readU64 host object 8 = size
  reached : type.reach ≤ size.toNat

/-- A program ends without having left the memory of an object, and where it
dispatches its closure, the cells are as they should be. -/
inductive EndsInside (good : Load → Prop) : Except Fault (Cache × Ended Int Load) → Prop
  | fault {fault : Fault} (inside : fault ≠ .outOfBounds) : EndsInside good (.error fault)
  | failed (cache : Cache) (code : Int) (cells : Load) :
      EndsInside good (.ok (cache, .failed code cells))
  | dispatched (cache : Cache) {cells : Load} (holds : good cells) :
      EndsInside good (.ok (cache, .dispatched cells))

/-- The object is at least as large as `got_object` needs, unless its bytes
cannot be loaded at all. -/
def FitsItsType (file : JournalFile) (offset : UInt64) (type : ObjectType) : Prop :=
  0 < (file.objectHeader offset.toNat).size.toNat →
  offset.toNat + (file.objectHeader offset.toNat).size.toNat ≤ file.size →
  type.reach ≤ (file.objectHeader offset.toNat).size.toNat

section Loads

variable {kernel : Kernel} {file : JournalFile} {cache : Cache} {offset : UInt64}
  {type : ObjectType}

/-- Reads that start inside a file have the outcome of plain reads, or fail. -/
theorem cachedReader_inFile {length : UInt64} (serves : kernel.ServesFile file)
    (invariant : CacheInvariant file cache.journal) (starts : offset.toNat ≤ file.size)
    (positive : 0 < length.toNat) :
    ∃ journal outcome,
      cachedReader kernel cache (offset, length) = .ok (⟨journal, cache.clock + 1⟩, outcome) ∧
      CacheInvariant file journal ∧
      ReadOutcome kernel file cache offset length outcome := by
  have bound := file.size_lt
  by_cases straight : offset.toNat + length.toNat < 2 ^ 64
  · exact cachedReader_spec serves invariant positive straight
  · exact readOutcome_direct serves invariant (by unfold JOURNAL_BUF_SIZE; omega)

theorem cachedReader_zero : cachedReader kernel cache (offset, 0) = .error .assertion := rfl

theorem EndsInside.andThen {good good' : Load → Prop} {p : Reading Load}
    {closure : Load → Reading Load} (first : EndsInside good (exec (cachedReader kernel) cache p))
    (next : ∀ cache cells, good cells →
      EndsInside good' (exec (cachedReader kernel) cache (closure cells))) :
    EndsInside good' (exec (cachedReader kernel) cache (p.andThen closure)) := by
  rw [exec_andThen]
  generalize exec (cachedReader kernel) cache p = ended at first ⊢
  cases first with
  | fault inside => exact .fault inside
  | failed cache code cells => exact .failed cache code cells
  | dispatched cache holds => exact next cache _ holds

theorem journalGetObject_endsInside (host : Endian) (serves : kernel.ServesFile file)
    (invariant : CacheInvariant file cache.journal) (starts : offset.toNat ≤ file.size)
    (typed : ObjectType.ofByte? (file.objectHeader offset.toNat).type = some type)
    (used : type ≠ .unused) (fits : FitsItsType file offset type) (cells : Load) :
    EndsInside (fun cells => Loaded host type (file.objectHeader offset.toNat).size cells.object)
      (exec (cachedReader kernel) cache
        (journalGetObject host offset (file.objectHeader offset.toNat).size cells)) := by
  rw [FitsItsType] at fits
  generalize named : (file.objectHeader offset.toNat).size = size at fits ⊢
  by_cases zero : size = 0
  · rw [zero, journalGetObject, exec, cachedReader_zero]
    exact .fault (by decide)
  have positive : 0 < size.toNat := by
    rw [Nat.pos_iff_ne_zero]
    exact fun none => zero (UInt64.toNat_inj.mp none)
  obtain ⟨journal, outcome, ran, -, answered⟩ :=
    cachedReader_inFile serves invariant starts positive
  have failed (code : Int) (error : outcome = .error code) : EndsInside
      (fun cells => Loaded host type size cells.object)
      (exec (cachedReader kernel) cache (journalGetObject host offset size cells)) := by
    rw [journalGetObject, exec, ran, error]
    exact .failed ..
  rcases answered with plain | ⟨code, error, -⟩
  · rw [plainRead] at plain
    split at plain
    · rename_i inside
      have length : (file.slice offset.toNat size.toNat).length = size.toNat := bytesAt_length ..
      rcases gotObject_spec host
          (by rw [file.slice_type offset.toNat positive, typed]) used
          (fun large => by rw [length] at large ⊢; rw [file.slice_size offset.toNat large, named])
        with ⟨-, object, converted, first, sized⟩ | ⟨short, -⟩
      · rw [journalGetObject, exec, ran, plain]
        have reached := fits positive inside.2
        have large : 16 ≤ size.toNat := by
          cases type <;> simp only [ObjectType.reach, ne_eq, not_true_eq_false] at reached used <;> omega
        simp only [converted, exec]
        exact .dispatched _ ⟨by rw [first, file.slice_type _ positive, typed],
          by rw [sized, file.slice_size _ large, named], reached⟩
      · have reached := fits positive inside.2
        rw [length] at short
        omega
    · exact failed _ plain
  · exact failed code error

/-- Whatever the bytes of an object header are, the host gets their values. -/
theorem gotObjectHeader_slice (host : Endian) (file : JournalFile) (off : Nat) :
    gotObjectHeader host (.ofMemory host (file.slice off 16)) = file.objectHeader off := by
  have width : (file.slice off 16).length = 16 := bytesAt_length ..
  simp only [gotObjectHeader, ObjectHeader.ofMemory, JournalFile.objectHeader,
    le64toh_readU64 host (show 8 + 8 ≤ (file.slice off 16).length by omega)]

theorem journalGetObjectFull_endsInside (host : Endian) (serves : kernel.ServesFile file)
    (invariant : CacheInvariant file cache.journal) (inFile : offset.toNat + 16 ≤ file.size)
    (typed : ObjectType.ofByte? (file.objectHeader offset.toNat).type = some type)
    (used : type ≠ .unused) (fits : FitsItsType file offset type) (alloc : UInt64 → Bool)
    (cells : Load) :
    EndsInside (fun cells => Loaded host type (file.objectHeader offset.toNat).size cells.object)
      (exec (cachedReader kernel) cache (journalGetObjectFull alloc host offset cells)) := by
  have size : sizeofObjectHeader.toNat = 16 := rfl
  obtain ⟨journal, outcome, ran, kept, answered⟩ :=
    cachedReader_inFile serves invariant (show offset.toNat ≤ file.size by omega)
      (show 0 < sizeofObjectHeader.toNat by decide)
  rw [journalGetObjectFull, exec_andThen, journalGetObjectHeader, exec, ran]
  rcases answered with plain | ⟨code, rfl, -⟩
  · rw [plainRead, if_pos (readable_header.mpr inFile)] at plain
    subst plain
    simp only [exec, size, gotObjectHeader_slice, getObjectFullGotHeader]
    split
    · exact journalGetObject_endsInside host serves kept (by omega) typed used fits _
    · exact .failed ..
  · exact .failed ..

end Loads

/-! ## The lengths -/

/-- `OBJECT_N_ITEMS` items lie within the bytes that were loaded. -/
def ItemsFit (host : Endian) (size : UInt64) (object : List UInt8) : Prop :=
  ∀ type itemsOffset itemSize, ObjectType.ofByte? (object.getD 0 0) = some type →
    type.items = some (itemsOffset, itemSize) →
    itemsOffset.toNat + (objectNItems host object itemsOffset itemSize).toNat * itemSize.toNat ≤
      size.toNat

/-- A payload is read only if it is one of the object's own, or the object is
rejected with an error. -/
def PayloadInside (size : UInt64) : Reading Load → Prop
  | .read request _ _ => 1 ≤ request.2.toNat ∧ request.2.toNat + 24 ≤ size.toNat
  | .fail code _ => code < 0
  | .dispatch _ | .abort _ => False

/-- `malloc` has no memory of more than `PTRDIFF_MAX` bytes. -/
def Malloc (alloc : UInt64 → Bool) : Prop := ∀ n, alloc n = true → n.toNat < 2 ^ 63

/-- However the object at `offset` is loaded, whatever is cached and however the
kernel answers, all lengths taken from its size stay inside what was loaded. -/
structure LengthsStayInside (host : Endian) (file : JournalFile) (offset : UInt64)
    (type : ObjectType) : Prop where
  loaded : ∀ (kernel : Kernel) (cache : Cache) (cells : Load), kernel.ServesFile file →
    CacheInvariant file cache.journal →
    EndsInside (fun cells => ItemsFit host (file.objectHeader offset.toNat).size cells.object)
      (exec (cachedReader kernel) cache
        (journalGetObject host offset (file.objectHeader offset.toNat).size cells))
  loadedFull : ∀ (kernel : Kernel) (cache : Cache) (alloc : UInt64 → Bool) (cells : Load),
    kernel.ServesFile file → CacheInvariant file cache.journal →
    EndsInside (fun cells => ItemsFit host (file.objectHeader offset.toNat).size cells.object)
      (exec (cachedReader kernel) cache (journalGetObjectFull alloc host offset cells))
  verified : type = .data ∨ type = .field →
    ∀ (kernel : Kernel) (cache : Cache) (alloc : UInt64 → Bool) (usable : UInt64) (cells : Load),
    kernel.ServesFile file → CacheInvariant file cache.journal →
    cells.objectHeader = file.objectHeader offset.toNat →
    EndsInside (fun cells => cells.payloadSize ≤ (file.objectHeader offset.toNat).size)
      (exec (cachedReader kernel) cache (verifyPerObject alloc usable host offset cells))
  entryArray : type = .entryArray → ∀ (alloc : UInt64 → Bool) (cells : Load), Malloc alloc →
    cells.objectHeader = file.objectHeader offset.toNat →
    PayloadInside (file.objectHeader offset.toNat).size
      (reportEntryArraysPerObject alloc offset cells)

theorem Loaded.itemsFit {host : Endian} {type : ObjectType} {size : UInt64} {object : List UInt8}
    (loaded : Loaded host type size object) : ItemsFit host size object := by
  obtain ⟨typed, sized, reached⟩ := loaded
  intro type' itemsOffset itemSize typed' items
  obtain rfl : type = type' := Option.some.inj (typed.symm.trans typed')
  have below : itemsOffset.toNat ≤ type.reach := by
    cases type <;> cases items <;> decide
  have count : (objectNItems host object itemsOffset itemSize).toNat =
      (size.toNat - itemsOffset.toNat) / itemSize.toNat := by
    rw [objectNItems, sized, UInt64.toNat_div,
      UInt64.toNat_sub_of_le _ _ (by rw [UInt64.le_iff_toNat_le]; omega)]
  have room := Nat.div_mul_le_self (size.toNat - itemsOffset.toNat) itemSize.toNat
  rw [count]
  omega

theorem Loaded.verifyHashedObject {kernel : Kernel} {cache : Cache} {host : Endian}
    {type : ObjectType} {size : UInt64} {cells : Load}
    (loaded : Loaded host type size cells.object) (hashed : type = .data ∨ type = .field) :
    EndsInside (fun cells => cells.payloadSize ≤ size)
      (exec (cachedReader kernel) cache (verifyHashedObject host cells)) := by
  obtain ⟨typed, sized, reached⟩ := loaded
  rcases hashed with rfl | rfl
  all_goals
    rw [Jio.verifyHashedObject, typed]
    refine .dispatched _ ?_
    rw [sized, UInt64.le_iff_toNat_le, UInt64.toNat_sub_of_le]
    · omega
    · exact UInt64.le_iff_toNat_le.mpr reached

theorem EndsInside.mono {good good' : Load → Prop}
    {ended : Except Fault (Cache × Ended Int Load)} (ends : EndsInside good ended)
    (weaker : ∀ cells, good cells → good' cells) : EndsInside good' ended := by
  cases ends with
  | fault inside => exact .fault inside
  | failed cache code cells => exact .failed cache code cells
  | dispatched cache holds => exact .dispatched cache (weaker _ holds)

/-- `report entry-arrays` goes wrong only at an entry array without items, which
it reads nothing of. -/
theorem reportEntryArraysPerObject_inside_iff {alloc : UInt64 → Bool} (malloc : Malloc alloc)
    (offset : UInt64) {cells : Load}
    (entryArray : cells.objectHeader.type = ObjectType.entryArray.toByte) :
    PayloadInside cells.objectHeader.size (reportEntryArraysPerObject alloc offset cells) ↔
      cells.objectHeader.size ≠ entryArrayItemsOffset ∨ alloc 0 = false := by
  rw [reportEntryArraysPerObject, if_neg (not_not.mpr entryArray)]
  generalize cells.objectHeader.size = size
  by_cases empty : size = entryArrayItemsOffset
  · rw [empty, UInt64.sub_self]
    cases room : alloc 0 <;> simp [room, PayloadInside, ENOMEM]
  · have items : entryArrayItemsOffset.toNat = 24 := rfl
    have bound := size.toNat_lt
    have payload : (size - entryArrayItemsOffset).toNat = (2 ^ 64 - 24 + size.toNat) % 2 ^ 64 := by
      rw [UInt64.toNat_sub, items]
    have different : size.toNat ≠ 24 := fun same => empty (UInt64.toNat_inj.mp same)
    refine iff_of_true ?_ (.inl empty)
    dsimp only
    split
    · rename_i some
      have small := malloc _ some
      exact show 1 ≤ (size - entryArrayItemsOffset).toNat ∧
        (size - entryArrayItemsOffset).toNat + 24 ≤ size.toNat by omega
    · exact show -ENOMEM < 0 by decide

/-- An object that can be loaded, but is smaller than its type, makes
`got_object` leave the loaded bytes. -/
theorem journalGetObject_leaves {kernel : Kernel} {file : JournalFile} {cache : Cache}
    {offset : UInt64} {type : ObjectType} (host : Endian) (serves : kernel.ServesFile file)
    (reliable : kernel.Reliable) (invariant : CacheInvariant file cache.journal)
    (typed : ObjectType.ofByte? (file.objectHeader offset.toNat).type = some type)
    (used : type ≠ .unused) (misfit : ¬FitsItsType file offset type) (cells : Load) :
    exec (cachedReader kernel) cache
        (journalGetObject host offset (file.objectHeader offset.toNat).size cells) =
      .error .outOfBounds := by
  rw [FitsItsType] at misfit
  generalize named : (file.objectHeader offset.toNat).size = size at misfit ⊢
  push Not at misfit
  obtain ⟨positive, inside, short⟩ := misfit
  have length : (file.slice offset.toNat size.toNat).length = size.toNat := bytesAt_length ..
  have small : size.toNat < 2 ^ 31 :=
    lt_of_lt_of_le short (by cases type <;> decide)
  have answer : fileReader file () (offset, size) =
      .ok ((), .ok (file.slice offset.toNat size.toNat)) :=
    fileReader_inside positive ⟨small, inside⟩
  obtain ⟨next, ran, -⟩ := cachedReader_refines serves reliable cache () _ _ _ invariant answer
  rcases gotObject_spec host (by rw [file.slice_type offset.toNat positive, typed]) used
      (fun large => by rw [length] at large ⊢; rw [file.slice_size offset.toNat large, named])
    with ⟨reached, -⟩ | ⟨-, faulted⟩
  · rw [length] at reached
    omega
  · rw [journalGetObject, exec, ran]
    simp only [faulted, exec]

/-- Loads stay inside the object exactly when it is no smaller than its type,
unless it cannot be loaded, and an entry array has at least one item. -/
theorem lengths_stay_inside_iff {file : JournalFile} {offset : UInt64} {type : ObjectType}
    (inFile : offset.toNat + 16 ≤ file.size)
    (typed : ObjectType.ofByte? (file.objectHeader offset.toNat).type = some type)
    (used : type ≠ .unused) (host : Endian) :
    LengthsStayInside host file offset type ↔ FitsItsType file offset type ∧
      (type = .entryArray → (file.objectHeader offset.toNat).size ≠ entryArrayItemsOffset) := by
  constructor
  · intro inside
    obtain ⟨journal, ready, -⟩ := freshJournal_spec "system.journal" 3 0
    constructor
    · by_contra misfit
      have ends := inside.loaded (fileKernel file) ⟨journal, 0⟩ ⟨file.objectHeader offset.toNat, [], 0⟩
        (fileKernel_servesFile file) (.fresh ready)
      rw [journalGetObject_leaves host (fileKernel_servesFile file) (fileKernel_reliable file)
        (.fresh ready) typed used misfit] at ends
      cases ends with
      | fault inside => exact inside rfl
    · rintro rfl
      have malloc : Malloc fun n => decide (n.toNat < 2 ^ 63) := fun n => of_decide_eq_true
      have ends := inside.entryArray rfl _ ⟨file.objectHeader offset.toNat, [], 0⟩ malloc rfl
      rw [← show (Load.mk (file.objectHeader offset.toNat) [] 0).objectHeader =
        file.objectHeader offset.toNat from rfl, reportEntryArraysPerObject_inside_iff malloc offset
          (ObjectType.eq_toByte typed)] at ends
      exact ends.resolve_right (by simp)
  · rintro ⟨fits, items⟩
    refine ⟨?_, ?_, ?_, ?_⟩
    · intro kernel cache cells serves invariant
      exact (journalGetObject_endsInside host serves invariant (by omega) typed used fits cells).mono
        fun _ loaded => loaded.itemsFit
    · intro kernel cache alloc cells serves invariant
      exact (journalGetObjectFull_endsInside host serves invariant inFile typed used fits alloc
        cells).mono fun _ loaded => loaded.itemsFit
    · intro hashed kernel cache alloc usable cells serves invariant header
      have object := journalGetObject_endsInside host serves invariant (by omega) typed used fits cells
      rw [verifyPerObject, header, if_neg (by
        rcases hashed with rfl | rfl <;> simp [ObjectType.eq_toByte typed])]
      split
      · exact .failed ..
      · exact object.andThen fun cache cells loaded => loaded.verifyHashedObject hashed
    · intro entryArray alloc cells malloc header
      rw [← header, reportEntryArraysPerObject_inside_iff malloc offset (by
        rw [header, ObjectType.eq_toByte typed, entryArray]), header]
      exact .inl (items entryArray)

theorem lengths_stay_inside_iff_twoObjects : LengthsStayInside .big twoObjects 336 .entry := by
  have inFile : (336 : UInt64).toNat + 16 ≤ twoObjects.size := by decide
  have typed : ObjectType.ofByte? (twoObjects.objectHeader (336 : UInt64).toNat).type =
      some .entry := by decide
  exact (lengths_stay_inside_iff inFile typed (by decide) .big).mpr ⟨fun _ _ => by decide, nofun⟩

/-- A data object of 20 bytes and an entry array of 24, behind a header of 256. -/
def shortObjects : JournalFile where
  size := 304
  byte := fun i => match i with
    | 256 => ObjectType.data.toByte
    | 264 => 20
    | 280 => ObjectType.entryArray.toByte
    | 288 => 24
    | _ => 0
  size_lt := by decide

/-- Loading the data object writes behind the 20 bytes, and no payload of the
entry array is asked for with a positive length. -/
theorem short_objects_are_overrun :
    ¬LengthsStayInside .little shortObjects 256 .data ∧
    ¬LengthsStayInside .little shortObjects 280 .entryArray := by
  obtain ⟨journal, ready, -⟩ := freshJournal_spec "system.journal" 3 0
  constructor
  · intro inside
    have ends := inside.loaded (fileKernel shortObjects) ⟨journal, 0⟩
      ⟨shortObjects.objectHeader 256, [], 0⟩ (fileKernel_servesFile shortObjects) (.fresh ready)
    have leaves := journalGetObject_leaves .little (fileKernel_servesFile shortObjects)
      (fileKernel_reliable shortObjects)
      (show CacheInvariant shortObjects (Cache.mk journal 0).journal from .fresh ready)
      (show ObjectType.ofByte? (shortObjects.objectHeader (256 : UInt64).toNat).type = some .data
        by decide) (by decide) (fun fits => absurd (fits (by decide) (by decide)) (by decide))
      ⟨shortObjects.objectHeader 256, [], 0⟩
    rw [leaves] at ends
    cases ends with
    | fault inside => exact inside rfl
  · intro inside
    have malloc : Malloc fun n => decide (n.toNat < 2 ^ 63) := fun n => of_decide_eq_true
    have payload := inside.entryArray rfl _ ⟨shortObjects.objectHeader 280, [], 0⟩ malloc rfl
    exact absurd (show 1 ≤ (0 : Nat) ∧ 0 + 24 ≤ 24 from payload) (by decide)

end Jio
