import Jio.ReclaimTailWaste

/-! A whole journal as bytes: a header, objects one behind the other, each padded to a
multiple of eight, and what the file was grown by. On every host and through every
cache, the loads and the iteration of `journals.c` get back what was laid out, and no
other journal has the same bytes. -/
namespace Jio
open ByteOrder ReadProgram

/-! ## Images -/

/-- A file of these bytes. -/
def JournalFile.ofBytes (bytes : List UInt8) (small : bytes.length < 2 ^ 63) : JournalFile where
  size := bytes.length
  byte i := bytes.getD i 0
  size_lt := small

/-- An object and its padding. -/
def StoredObject.padded (stored : StoredObject) : List UInt8 :=
  let bytes := stored.object.layout .little
  bytes ++ .replicate (roundUp8 bytes.length - bytes.length) 0

/-- Objects one behind the other, and where they are. -/
def placeFrom : Nat → List StoredObject → List (UInt64 × StoredObject)
  | _, [] => []
  | off, stored :: objects =>
    (UInt64.ofNat off, stored) :: placeFrom (off + stored.padded.length) objects

/-- What a journal holds. A header may be larger than `Header` is. -/
structure JournalImage where
  header : Header
  gap : List UInt8
  objects : List StoredObject
  waste : List UInt8
  starts : header.headerSize.toNat = 256 + gap.length
  aligned : header.headerSize.toNat % 8 = 0
  last : (placeFrom header.headerSize.toNat objects).getLast?.map Prod.fst =
    some header.tailObjectOffset
  small : (render .little header.parts ++
    (gap ++ (objects.flatMap StoredObject.padded ++ waste))).length < 2 ^ 63

/-- Where its objects are. -/
def JournalImage.placed (image : JournalImage) : List (UInt64 × StoredObject) :=
  placeFrom image.header.headerSize.toNat image.objects

/-- The journal on the disk. -/
def JournalImage.file (image : JournalImage) : JournalFile :=
  .ofBytes (render .little image.header.parts ++
    (image.gap ++ (image.objects.flatMap StoredObject.padded ++ image.waste))) image.small

/-- What an iteration shows of an object. -/
def shown (placed : UInt64 × StoredObject) : UInt64 × ObjectHeader :=
  (placed.1, placed.2.object.header)

/-! ## Headers in memory -/

theorem readU32_render (host : Endian) {parts : List Part} (fit : ∀ part ∈ parts, part.Fits)
    {off : Nat} {value : UInt32} (listed : (4, off, value.toNat) ∈ numbersOf 0 parts)
    (after : List UInt8) : readU32 host (render host parts ++ after) off = value := by
  have read := (render_laidOut host fit after).numbers 4 off value.toNat listed
  rw [load] at read
  split at read
  · rw [readU32, Option.some.inj read, UInt32.ofNat_toNat]
  · cases read

theorem readBytes_render (host : Endian) {parts : List Part} (fit : ∀ part ∈ parts, part.Fits)
    {n off : Nat} {bytes : Vector UInt8 n} (listed : (off, bytes.toList) ∈ stringsOf 0 parts)
    (after : List UInt8) : readBytes n (render host parts ++ after) off = bytes := by
  have stands := (render_laidOut host fit after).strings off bytes.toList listed
  rw [Vector.length_toList] at stands
  apply Vector.ext
  intro i below
  simp only [readBytes, stands, Vector.getElem_ofFn]
  simp [List.getD_eq_getElem?_getD, below]

theorem Header.ofMemory_render (host : Endian) (header : Header) (after : List UInt8) :
    Header.ofMemory host (render host header.parts ++ after) = header := by
  have numbers : numbersOf 0 header.parts = [
      (4, 8, header.compatibleFlags.toNat), (4, 12, header.incompatibleFlags.toNat),
      (8, 88, header.headerSize.toNat), (8, 96, header.arenaSize.toNat),
      (8, 104, header.dataHashTableOffset.toNat), (8, 112, header.dataHashTableSize.toNat),
      (8, 120, header.fieldHashTableOffset.toNat), (8, 128, header.fieldHashTableSize.toNat),
      (8, 136, header.tailObjectOffset.toNat), (8, 144, header.nObjects.toNat),
      (8, 152, header.nEntries.toNat), (8, 160, header.tailEntrySeqnum.toNat),
      (8, 168, header.headEntrySeqnum.toNat), (8, 176, header.entryArrayOffset.toNat),
      (8, 184, header.headEntryRealtime.toNat), (8, 192, header.tailEntryRealtime.toNat),
      (8, 200, header.tailEntryMonotonic.toNat), (8, 208, header.nData.toNat),
      (8, 216, header.nFields.toNat), (8, 224, header.nTags.toNat),
      (8, 232, header.nEntryArrays.toNat), (8, 240, header.dataHashChainDepth.toNat),
      (8, 248, header.fieldHashChainDepth.toNat)] := by
    simp [parts, numbersOf, u64, u32]
  have strings : stringsOf 0 header.parts = [
      (0, header.signature.toList), (16, [header.state]), (17, header.reserved.toList),
      (24, header.fileId.toList), (40, header.machineId.toList), (56, header.bootId.toList),
      (72, header.seqnumId.toList)] := by
    simp [parts, stringsOf, u64, u32]
  have number64 {off : Nat} {value : UInt64}
      (listed : (8, off, value.toNat) ∈ numbersOf 0 header.parts) :=
    readU64_render host header.parts_fit listed after
  have number32 {off : Nat} {value : UInt32}
      (listed : (4, off, value.toNat) ∈ numbersOf 0 header.parts) :=
    readU32_render host header.parts_fit listed after
  have bytes {n off : Nat} {value : Vector UInt8 n}
      (listed : (off, value.toList) ∈ stringsOf 0 header.parts) :=
    readBytes_render host header.parts_fit listed after
  rw [numbers] at number64 number32
  rw [strings] at bytes
  have state : readBytes 1 (render host header.parts ++ after) 16 = #v[header.state] :=
    bytes (by simp)
  obtain ⟨⟩ := header
  simp only [Header.ofMemory, Header.mk.injEq]
  refine ⟨bytes (by simp), number32 (by simp), number32 (by simp), by rw [state]; rfl, ?_⟩
  refine ⟨bytes (by simp), bytes (by simp), bytes (by simp), bytes (by simp), bytes (by simp), ?_⟩
  refine ⟨?_, ?_, ?_, ?_, ?_, ?_, ?_, ?_, ?_, ?_, ?_, ?_, ?_, ?_, ?_, ?_, ?_, ?_, ?_, ?_, ?_⟩ <;>
    exact number64 (by simp)

theorem ObjectHeader.ofMemory_render (host : Endian) (header : ObjectHeader)
    (after : List UInt8) :
    ObjectHeader.ofMemory host (render host header.parts ++ after) = header := by
  have size := header.size_inMemory host after
  obtain ⟨type, flags, reserved, _⟩ := header
  simp only [ofMemory, ObjectHeader.mk.injEq]
  refine ⟨by simp [parts, Part.render], by simp [parts, Part.render], ?_, size⟩
  apply Vector.ext
  intro i below
  have front : i + 2 = (i + 1) + 1 := rfl
  simp only [Vector.getElem_ofFn, parts, render_cons, Part.render, List.cons_append,
    List.nil_append, Nat.add_comm 2 i, front, List.getD_cons_succ, List.append_assoc]
  simp [List.getD_eq_getElem?_getD, List.getElem?_append_left, below]

/-! ## Where things lie -/

theorem JournalFile.ofBytes_slice {bytes before middle after : List UInt8}
    {small : bytes.length < 2 ^ 63} (shape : bytes = before ++ (middle ++ after)) :
    (JournalFile.ofBytes bytes small).slice before.length middle.length = middle := by
  apply List.ext_getElem (bytesAt_length ..)
  intro i _ inside
  have here : bytes[before.length + i]? = some middle[i] := by
    rw [shape, List.getElem?_append_right (Nat.le_add_right ..), Nat.add_sub_cancel_left,
      List.getElem?_append_left inside, List.getElem?_eq_getElem inside]
  simp [bytesAt, ofBytes, here]

theorem StoredObject.padded_length (stored : StoredObject) :
    stored.padded.length = roundUp8 stored.object.header.size.toNat := by
  have atLeast := le_roundUp8 (stored.object.layout .little).length
  rw [padded, stored.sized, List.length_append, List.length_replicate]
  omega

theorem StoredObject.large (stored : StoredObject) :
    16 ≤ (stored.object.layout .little).length := by
  rw [Object.layout_eq, List.length_append, ObjectHeader.render_length]
  exact Nat.le_add_right ..

/-- The bytes of the object lie there. -/
structure LiesAt (file : JournalFile) (offset : UInt64) (stored : StoredObject) : Prop where
  bytes : file.slice offset.toNat (stored.object.layout .little).length =
    stored.object.layout .little
  inside : offset.toNat + (stored.object.layout .little).length ≤ file.size

theorem LiesAt.header {file : JournalFile} {offset : UInt64} {stored : StoredObject}
    (lies : LiesAt file offset stored) :
    file.objectHeader offset.toNat = stored.object.header := by
  have large := stored.large
  have front : file.slice offset.toNat 16 = (stored.object.layout .little).take 16 := by
    rw [← lies.bytes]
    exact (bytesAt_sub file.byte offset.toNat (i := 0) (by omega)).symm
  rw [JournalFile.objectHeader, front, Object.layout_eq, List.take_left' (ObjectHeader.render_length ..)]
  simpa using ObjectHeader.ofMemory_render .little stored.object.header []

theorem placeFrom_length (off : Nat) (objects : List StoredObject) :
    (placeFrom off objects).length = objects.length := by
  induction objects generalizing off with
  | nil => rfl
  | cons stored objects ih => rw [placeFrom, List.length_cons, ih, List.length_cons]

section Placing

variable {bytes before after : List UInt8} {objects : List StoredObject}
  {small : bytes.length < 2 ^ 63}

theorem ofBytes_lies {stored : StoredObject}
    (shape : bytes = before ++ (stored.object.layout .little ++ after)) :
    LiesAt (.ofBytes bytes small) (UInt64.ofNat before.length) stored := by
  have length := congrArg List.length shape
  simp only [List.length_append] at length
  have start : (UInt64.ofNat before.length).toNat = before.length :=
    UInt64.toNat_ofNat_of_lt' (show before.length < 2 ^ 64 by omega)
  constructor
  · rw [start]
    exact JournalFile.ofBytes_slice shape
  · rw [start]
    show _ ≤ bytes.length
    omega

theorem placeFrom_lie
    (shape : bytes = before ++ (objects.flatMap StoredObject.padded ++ after)) :
    ∀ placed ∈ placeFrom before.length objects,
      LiesAt (.ofBytes bytes small) placed.1 placed.2 := by
  induction objects generalizing before with
  | nil => nofun
  | cons stored objects ih =>
    rw [List.flatMap_cons, List.append_assoc] at shape
    rw [placeFrom, List.forall_mem_cons]
    constructor
    · rw [StoredObject.padded, List.append_assoc] at shape
      exact ofBytes_lies shape
    · have rest := @ih (before ++ stored.padded) (by rw [shape, List.append_assoc])
      rwa [List.length_append] at rest

theorem placeFrom_backToBack
    (shape : bytes = before ++ (objects.flatMap StoredObject.padded ++ after)) :
    BackToBack (.ofBytes bytes small) before.length ((placeFrom before.length objects).map shown) := by
  induction objects generalizing before with
  | nil => trivial
  | cons stored objects ih =>
    have lies := @placeFrom_lie _ _ _ _ small shape _ (List.mem_cons_self ..)
    have large := stored.large
    have length := congrArg List.length shape
    simp only [List.length_append] at length
    have start : (UInt64.ofNat before.length).toNat = before.length :=
      UInt64.toNat_ofNat_of_lt' (show before.length < 2 ^ 64 by omega)
    have header := lies.header
    have inside := lies.inside
    rw [start] at header inside
    rw [List.flatMap_cons, List.append_assoc] at shape
    rw [placeFrom, stored.padded_length]
    refine ⟨start, header.symm, ?_, ?_, ?_⟩
    · exact stored.sized ▸ large
    · exact stored.sized ▸ inside
    · have rest := @ih (before ++ stored.padded) (by rw [shape, List.append_assoc])
      rwa [List.length_append, stored.padded_length] at rest

end Placing

section Images

variable (image : JournalImage)

theorem JournalImage.shape : render .little image.header.parts ++
    (image.gap ++ (image.objects.flatMap StoredObject.padded ++ image.waste)) =
      (render .little image.header.parts ++ image.gap) ++
        (image.objects.flatMap StoredObject.padded ++ image.waste) := by
  rw [List.append_assoc]

theorem Header.render_length (host : Endian) (header : Header) :
    (render host header.parts).length = 256 := by
  rw [ByteOrder.render_length]
  simp [parts, Part.width, u64, u32]

theorem JournalImage.start :
    (render .little image.header.parts ++ image.gap).length = image.header.headerSize.toNat := by
  rw [List.length_append, Header.render_length, image.starts]

theorem JournalImage.large : 256 ≤ image.file.size := by
  show 256 ≤ List.length _
  rw [List.length_append, Header.render_length]
  exact Nat.le_add_right ..

theorem JournalImage.header_eq : image.file.header = image.header := by
  have front : image.file.slice 0 256 = render .little image.header.parts := by
    have slice := @JournalFile.ofBytes_slice _ [] (render .little image.header.parts) _ image.small rfl
    rwa [Header.render_length] at slice
  rw [JournalFile.header, front]
  simpa using Header.ofMemory_render .little image.header []

theorem JournalImage.lie : ∀ placed ∈ image.placed, LiesAt image.file placed.1 placed.2 := by
  have lie := @placeFrom_lie _ _ _ _ image.small image.shape
  rwa [image.start] at lie

theorem JournalImage.wellFormed :
    WellFormed image.file image.header (image.placed.map shown) where
  positive := by
    rw [image.starts]
    omega
  aligned := image.aligned
  consecutive := by
    have consecutive := @placeFrom_backToBack _ _ _ _ image.small image.shape
    rwa [image.start] at consecutive
  last := by
    rw [List.getLast?_map, Option.map_map]
    exact image.last

end Images

/-! ## Reading it back -/

/-- `journal_get_object_full` loads what lies there, in host order, if an `int` can count its
bytes. -/
theorem exec_journalGetObjectFull {file : JournalFile} {offset : UInt64} {stored : StoredObject}
    (lies : LiesAt file offset stored) (short : stored.object.header.size.toNat < 2 ^ 31)
    (host : Endian) {alloc : UInt64 → Bool}
    (room : alloc stored.object.header.size = true) (cells : Load) :
    exec (fileReader file) () (journalGetObjectFull alloc host offset cells) =
      .ok ((), .dispatched { cells with
        objectHeader := stored.object.header
        object := stored.object.layout host }) := by
  have large := stored.large
  have inside := lies.inside
  have sized := stored.sized
  have loaded := exec_journalGetObjectHeader (show offset.toNat + 16 ≤ file.size by omega) host cells
    fun objectHeader => { cells with objectHeader }
  have read : fileReader file () (offset, stored.object.header.size) =
      .ok ((), .ok (stored.object.layout .little)) := by
    rw [fileReader_inside (by omega) ⟨short, by omega⟩, sized, lies.bytes]
  unfold journalGetObjectFull
  rw [exec_andThen, loaded]
  simp only [lies.header, getObjectFullGotHeader, room, ↓reduceIte, journalGetObject, exec, read,
    gotObject_layout]

/-- An iteration shows the objects of a journal, and once more its last one at the end. -/
theorem JournalImage.iterates {υ : Type} (image : JournalImage) {kernel : Kernel}
    (serves : kernel.ServesFile image.file) (reliable : kernel.Reliable) (host : Endian)
    {cache : Cache} (invariant : CacheInvariant image.file cache.journal) :
    ∃ last, image.placed.getLast? = some last ∧
      ∀ (closure : Handler υ) (cells : Iteration υ) (fuel : Nat),
        (∀ object ∈ image.placed.map shown ++ [(0, (shown last).2)], Accepts closure object) →
        image.objects.length < fuel →
        ∃ cache' trace, journalIterObjects (cachedReader kernel) host image.header closure fuel
            cache cells = .ok (cache', trace, .finished) ∧
          trace.map Iteration.object = image.placed.map shown ++ [(0, (shown last).2)] ∧
          CacheInvariant image.file cache'.journal := by
  obtain ⟨last, final, -⟩ := Option.map_eq_some_iff.mp image.last
  refine ⟨last, final, ?_⟩
  intro closure cells fuel accepts enough
  have held : (image.placed.map shown).getLast? = some (shown last) := by
    rw [List.getLast?_map]
    exact congrArg (Option.map shown) final
  have length : (image.placed.map shown).length = image.objects.length := by
    rw [List.length_map, JournalImage.placed, placeFrom_length]
  rw [← iterationFrom_of_last held cells.iterObjectHeader] at accepts ⊢
  obtain ⟨cache', ran, kept⟩ := loop_refines (cachedReader_refines serves reliable) invariant
    (image.wellFormed.packed.pass host cells accepts (length ▸ enough))
  exact ⟨cache', _, ran, visits_object .., kept⟩

/-- It fails on an object whose bytes an `int` cannot count. -/
theorem journalGetObjectFull_fails {file : JournalFile} {offset : UInt64} {stored : StoredObject}
    (lies : LiesAt file offset stored) (long : 2 ^ 31 ≤ stored.object.header.size.toNat)
    {kernel : Kernel} (serves : kernel.ServesFile file) (reliable : kernel.Reliable)
    (host : Endian) {alloc : UInt64 → Bool} (room : alloc stored.object.header.size = true)
    {cache : Cache} (invariant : CacheInvariant file cache.journal) (cells : Load) :
    ∃ cache' code cells', exec (cachedReader kernel) cache
        (journalGetObjectFull alloc host offset cells) = .ok (cache', .failed code cells') ∧
      CacheInvariant file cache'.journal := by
  have large := stored.large
  have inside := lies.inside
  obtain ⟨next, loaded, kept⟩ := exec_refines (cachedReader_refines serves reliable) invariant
    (exec_journalGetObjectHeader (show offset.toNat + 16 ≤ file.size by omega) host cells
      fun objectHeader => { cells with objectHeader })
  obtain ⟨code, refused⟩ := @cachedReader_long _ _ next offset _ serves long
  refine ⟨⟨next.journal, next.clock + 1⟩, code,
    { cells with objectHeader := stored.object.header }, ?_, kept⟩
  unfold journalGetObjectFull
  rw [exec_andThen, loaded]
  simp only [lies.header, getObjectFullGotHeader, room, ↓reduceIte, journalGetObject, exec, refused]

/-- Whatever is cached and whatever the host, a journal gives back its header, an iteration
the objects in their order, and a load of one the object, unless its bytes are more than an
`int` can count. -/
theorem journal_reads_back {υ : Type} (image : JournalImage) {kernel : Kernel}
    (serves : kernel.ServesFile image.file) (reliable : kernel.Reliable) (host : Endian)
    {cache : Cache} (invariant : CacheInvariant image.file cache.journal) :
    (∀ {σ : Type} (cells : σ) (store : Header → σ), ∃ cache',
      exec (cachedReader kernel) cache (journalGetHeader host cells store) =
        .ok (cache', .dispatched (store image.header)) ∧
      CacheInvariant image.file cache'.journal) ∧
    (∃ last, image.placed.getLast? = some last ∧
      ∀ (closure : Handler υ) (cells : Iteration υ) (fuel : Nat),
        (∀ object ∈ image.placed.map shown ++ [(0, (shown last).2)], Accepts closure object) →
        image.objects.length < fuel →
        ∃ cache' trace, journalIterObjects (cachedReader kernel) host image.header closure fuel
            cache cells = .ok (cache', trace, .finished) ∧
          trace.map Iteration.object = image.placed.map shown ++ [(0, (shown last).2)] ∧
          CacheInvariant image.file cache'.journal) ∧
    ∀ placed ∈ image.placed, ∀ (alloc : UInt64 → Bool) (cells : Load),
      alloc placed.2.object.header.size = true →
      ∃ cache' ended, exec (cachedReader kernel) cache
          (journalGetObjectFull alloc host placed.1 cells) = .ok (cache', ended) ∧
        CacheInvariant image.file cache'.journal ∧
        if placed.2.object.header.size.toNat < 2 ^ 31 then
          ended = .dispatched { cells with
            objectHeader := placed.2.object.header
            object := placed.2.object.layout host }
        else ∃ code cells', ended = .failed code cells' := by
  have refines := cachedReader_refines serves reliable
  refine ⟨?_, image.iterates serves reliable host invariant, ?_⟩
  · intro σ cells store
    have ran := exec_journalGetHeader image.large host cells store
    rw [image.header_eq] at ran
    exact exec_refines refines invariant ran
  · intro placed member alloc cells room
    have lies := image.lie placed member
    by_cases short : placed.2.object.header.size.toNat < 2 ^ 31
    · obtain ⟨cache', ran, kept⟩ := exec_refines refines invariant
        (exec_journalGetObjectFull lies short host room cells)
      exact ⟨cache', _, ran, kept, by rw [if_pos short]⟩
    · obtain ⟨cache', code, cells', ran, kept⟩ := journalGetObjectFull_fails lies
        (not_lt.mp short) serves reliable host room invariant cells
      exact ⟨cache', _, ran, kept, by rw [if_neg short]; exact ⟨code, cells', rfl⟩⟩

/-! ## No two journals have the same bytes -/

@[simp] theorem u64_inj {value value' : UInt64} : u64 value = u64 value' ↔ value = value' := by
  simp [u64, UInt64.toNat_inj]

section Records

variable {α : Type} {record : α → List Part} {items items' : List α}

theorem records_shape (alike : ∀ a b, (record a).map Part.shape = (record b).map Part.shape)
    (length : items.length = items'.length) :
    ((items.map record).flatten).map Part.shape = ((items'.map record).flatten).map Part.shape := by
  induction items generalizing items' with
  | nil => rw [List.length_eq_zero_iff.mp length.symm]
  | cons item items ih =>
    obtain ⟨item', items', rfl⟩ := List.exists_cons_of_length_eq_add_one length.symm
    simp only [List.map_cons, List.flatten_cons, List.map_append]
    rw [alike item item', ih (Nat.succ.inj length)]

theorem records_inj {n : Nat} (long : ∀ a, (record a).length = n + 1)
    (apart : Function.Injective record)
    (same : (items.map record).flatten = (items'.map record).flatten) : items = items' := by
  induction items generalizing items' with
  | nil =>
    cases items' with
    | nil => rfl
    | cons item' items' =>
      have length := congrArg List.length same
      simp [long] at length
      omega
  | cons item items ih =>
    cases items' with
    | nil =>
      have length := congrArg List.length same
      simp [long] at length
    | cons item' items' =>
      obtain ⟨first, rest⟩ := List.append_inj same (by rw [long, long])
      rw [apart first, ih rest]

end Records

theorem EntryItem.parts_injective : Function.Injective EntryItem.parts := by
  rintro ⟨⟩ ⟨⟩ same
  simpa [parts] using same

theorem HashItem.parts_injective : Function.Injective HashItem.parts := by
  rintro ⟨⟩ ⟨⟩ same
  simpa [parts] using same

theorem ObjectHeader.parts_injective : Function.Injective ObjectHeader.parts := by
  rintro ⟨⟩ ⟨⟩ same
  simpa [parts, Vector.toList_inj] using same

theorem HashedObjectHeader.eq_of_fields {hashed hashed' : HashedObjectHeader}
    (header : hashed.object = hashed'.object) (same : hashed.fields = hashed'.fields) :
    hashed = hashed' := by
  cases hashed
  cases hashed'
  simp_all [fields]

theorem Object.fields_shape {a b : Object} (types : a.type = b.type) :
    a.fields.map Part.shape = b.fields.map Part.shape := by
  cases a <;> cases b <;>
    first
    | simp [fields, HashedObjectHeader.fields, DataObject.fields, FieldObject.fields, Part.shape,
        u64]; done
    | cases types

/-- What ends an object is as long as it is wide. -/
theorem Object.rest_shape {a b : Object} (types : a.type = b.type)
    (widths : (a.rest.map Part.width).sum = (b.rest.map Part.width).sum) :
    a.rest.map Part.shape = b.rest.map Part.shape := by
  have payloads {bytes bytes' : List UInt8}
      (widths : (([.raw bytes] : List Part).map Part.width).sum =
        (([.raw bytes'] : List Part).map Part.width).sum) :
      ([.raw bytes] : List Part).map Part.shape = ([.raw bytes'] : List Part).map Part.shape := by
    simpa [Part.width, Part.shape] using widths
  have records {α : Type} {record : α → List Part} {items items' : List α} {size : Nat}
      (size_pos : 0 < size) (width : ∀ a, ((record a).map Part.width).sum = size)
      (alike : ∀ a b, (record a).map Part.shape = (record b).map Part.shape)
      (widths : (((items.map record).flatten).map Part.width).sum =
        (((items'.map record).flatten).map Part.width).sum) :
      ((items.map record).flatten).map Part.shape = ((items'.map record).flatten).map Part.shape := by
    rw [items_width width, items_width width] at widths
    exact records_shape alike (Nat.eq_of_mul_eq_mul_right size_pos widths)
  cases a <;> cases b <;>
    first
    | exact payloads widths
    | exact records (Nat.succ_pos 15) (fun _ => rfl) (fun _ _ => rfl) widths
    | exact records (Nat.succ_pos 7) (fun _ => rfl) (fun _ _ => rfl) widths
    | cases types

theorem Object.parts_shape {a b : Object} (types : a.type = b.type)
    (lengths : (a.layout .little).length = (b.layout .little).length) :
    a.parts.map Part.shape = b.parts.map Part.shape := by
  have headers : a.header.parts.map Part.shape = b.header.parts.map Part.shape := by
    simp [ObjectHeader.parts, Part.shape, u64]
  have fields := fields_shape types
  have widths : (a.fields.map Part.width).sum = (b.fields.map Part.width).sum := by
    have width : Part.width = Prod.snd ∘ Part.shape := funext fun part => by cases part <;> rfl
    rw [width, ← List.map_map, ← List.map_map, fields]
  simp only [layout, ByteOrder.render_length, parts, List.map_append, List.sum_append,
    ObjectHeader.parts_width] at lengths
  have rests := rest_shape types (by omega)
  simp only [parts, List.map_append, headers, fields, rests]

/-- An object of a known type is what its parts are. -/
theorem Object.eq_of_parts {a b : Object} (types : a.type = b.type)
    (header : a.header = b.header) (fields : a.fields = b.fields) (rest : a.rest = b.rest) :
    a = b := by
  cases a with
  | data a =>
    cases b with
    | data b =>
      obtain ⟨hashed, others⟩ := List.append_inj fields rfl
      have hashed := HashedObjectHeader.eq_of_fields header hashed
      cases a
      cases b
      simp_all [DataObject.fields, Object.rest]
    | _ => cases types
  | field a =>
    cases b with
    | field b =>
      obtain ⟨hashed, others⟩ := List.append_inj fields rfl
      have hashed := HashedObjectHeader.eq_of_fields header hashed
      cases a
      cases b
      simp_all [FieldObject.fields, Object.rest]
    | _ => cases types
  | entry a =>
    cases b with
    | entry b =>
      have items := records_inj (fun _ => rfl) EntryItem.parts_injective rest
      cases a
      cases b
      simp_all [Object.header, Object.fields, Vector.toList_inj]
    | _ => cases types
  | dataHashTable a =>
    cases b with
    | dataHashTable b =>
      have items := records_inj (fun _ => rfl) HashItem.parts_injective rest
      cases a
      cases b
      simp_all [Object.header]
    | _ => cases types
  | fieldHashTable a =>
    cases b with
    | fieldHashTable b =>
      have items := records_inj (fun _ => rfl) HashItem.parts_injective rest
      cases a
      cases b
      simp_all [Object.header]
    | _ => cases types
  | entryArray a =>
    cases b with
    | entryArray b =>
      have items := @records_inj _ (fun item => [u64 item]) _ _ 0 (fun _ => rfl)
        (fun _ _ same => by simpa using same) rest
      cases a
      cases b
      simp_all [Object.header, Object.fields]
    | _ => cases types
  | tag a =>
    cases b with
    | tag b =>
      cases a
      cases b
      simp_all [Object.header, Object.fields, Object.rest, Vector.toList_inj]
    | _ => cases types

theorem StoredObject.eq_of_layout {a b : StoredObject}
    (same : a.object.layout .little = b.object.layout .little) : a = b := by
  have types : a.object.type = b.object.type := by
    have first := congrArg (fun bytes : List UInt8 => bytes.getD 0 0) same
    simp only [Object.layout_eq, ObjectHeader.type_inMemory, a.typed, b.typed] at first
    exact ObjectType.toByte_injective first
  have parts := render_injective .little
    (Object.parts_shape types (congrArg List.length same)) a.object.parts_fit b.object.parts_fit same
  obtain ⟨first, behind⟩ := List.append_inj parts rfl
  have length := congrArg List.length (Object.fields_shape types)
  rw [List.length_map, List.length_map] at length
  obtain ⟨fields, rest⟩ := List.append_inj behind length
  have object := Object.eq_of_parts types (ObjectHeader.parts_injective first) fields rest
  cases a
  cases b
  cases object
  rfl

/-- Nothing lies behind the object the header calls the last. -/
theorem BackToBack.last_of_tail {file : JournalFile} {off : Nat} {object : UInt64 × ObjectHeader}
    {objects : List (UInt64 × ObjectHeader)} (consecutive : BackToBack file off (object :: objects))
    (last : (object :: objects).getLast?.map Prod.fst = some object.1) : objects = [] := by
  cases objects with
  | nil => rfl
  | cons next objects =>
    obtain ⟨here, -, large, -, rest⟩ := consecutive
    obtain ⟨final, chosen, same⟩ := Option.map_eq_some_iff.mp last
    rw [List.getLast?_cons_cons] at chosen
    have later := rest.le (List.mem_of_getLast? chosen)
    have grown := le_roundUp8 object.2.size.toNat
    rw [same] at later
    omega

/-- What lies back to back up to the tail object is determined by the file. -/
theorem BackToBack.unique {file : JournalFile} {off : Nat} {tail : UInt64}
    {objects objects' : List (UInt64 × ObjectHeader)} (consecutive : BackToBack file off objects)
    (consecutive' : BackToBack file off objects')
    (last : objects.getLast?.map Prod.fst = some tail)
    (last' : objects'.getLast?.map Prod.fst = some tail) : objects = objects' := by
  induction objects generalizing off objects' with
  | nil => cases last
  | cons object objects ih =>
    cases objects' with
    | nil => cases last'
    | cons object' objects' =>
      have ends : object.1 = tail → objects = [] := fun same => consecutive.last_of_tail (same ▸ last)
      have ends' : object'.1 = tail → objects' = [] :=
        fun same => consecutive'.last_of_tail (same ▸ last')
      obtain ⟨offset, header⟩ := object
      obtain ⟨offset', header'⟩ := object'
      obtain ⟨here, rfl, -, -, rest⟩ := consecutive
      obtain ⟨here', rfl, -, -, rest'⟩ := consecutive'
      obtain rfl : offset = offset' := UInt64.toNat_inj.mp (here.trans here'.symm)
      refine congrArg _ ?_
      cases objects with
      | nil => exact (ends' (Option.some.inj last)).symm
      | cons next objects =>
        cases objects' with
        | nil => exact ends (Option.some.inj last')
        | cons next' objects' => exact ih rest rest' last last'

theorem LiesAt.unique {file : JournalFile} {offset : UInt64} {stored stored' : StoredObject}
    (lies : LiesAt file offset stored) (lies' : LiesAt file offset stored') : stored = stored' := by
  have length : (stored.object.layout .little).length = (stored'.object.layout .little).length := by
    rw [← stored.sized, ← stored'.sized, ← lies.header, ← lies'.header]
  apply StoredObject.eq_of_layout
  rw [← lies.bytes, ← lies'.bytes, length]

theorem placeFrom_objects (off : Nat) (objects : List StoredObject) :
    (placeFrom off objects).map Prod.snd = objects := by
  induction objects generalizing off with
  | nil => rfl
  | cons stored objects ih => rw [placeFrom, List.map_cons, ih]

/-- Objects that lie in one place are the same. -/
theorem placed_unique {file : JournalFile} {placed placed' : List (UInt64 × StoredObject)}
    (lie : ∀ object ∈ placed, LiesAt file object.1 object.2)
    (lie' : ∀ object ∈ placed', LiesAt file object.1 object.2)
    (same : placed.map shown = placed'.map shown) : placed = placed' := by
  induction placed generalizing placed' with
  | nil => exact (List.map_eq_nil_iff.mp same.symm).symm
  | cons object placed ih =>
    cases placed' with
    | nil => cases same
    | cons object' placed' =>
      obtain ⟨here, lie⟩ := List.forall_mem_cons.mp lie
      obtain ⟨here', lie'⟩ := List.forall_mem_cons.mp lie'
      obtain ⟨first, rest⟩ := List.cons.inj same
      have offset : object.1 = object'.1 :=
        congrArg (fun object : UInt64 × ObjectHeader => object.1) first
      rw [ih lie lie' rest, Prod.ext offset ((offset ▸ here).unique here')]

theorem JournalFile.ofBytes_injective {bytes bytes' : List UInt8} {small : bytes.length < 2 ^ 63}
    {small' : bytes'.length < 2 ^ 63} (same : ofBytes bytes small = ofBytes bytes' small') :
    bytes = bytes' := by
  have length : bytes.length = bytes'.length := congrArg JournalFile.size same
  apply List.ext_getElem length
  intro i inside inside'
  have byte := congrFun (congrArg JournalFile.byte same) i
  simpa [ofBytes, inside, inside'] using byte

/-- Journals that differ in any value, object or byte differ on the disk. -/
theorem journals_are_told_apart : Function.Injective JournalImage.file := by
  intro image image' same
  have headers : image.header = image'.header := by
    rw [← image.header_eq, ← image'.header_eq, same]
  have wellFormed := image.wellFormed
  have lie := image.lie
  rw [same, headers] at wellFormed
  rw [same] at lie
  have shows := wellFormed.consecutive.unique image'.wellFormed.consecutive wellFormed.last
    image'.wellFormed.last
  have placed := placed_unique lie image'.lie shows
  have objects := congrArg (List.map Prod.snd) placed
  rw [JournalImage.placed, JournalImage.placed, placeFrom_objects, placeFrom_objects] at objects
  have bytes := JournalFile.ofBytes_injective same
  have starts := image.starts
  rw [headers, image'.starts] at starts
  rw [headers, objects] at bytes
  obtain ⟨gaps, wastes⟩ := List.append_inj (List.append_cancel_left bytes) (by omega)
  have waste := List.append_cancel_left wastes
  cases image
  cases image'
  simp_all

/-! ## A journal of two fields -/

/-- The field object of `MESSAGE` twice, and some waste. -/
def twoMessages : JournalImage where
  header := { (default : Header) with
    state := STATE_ARCHIVED
    headerSize := 256
    tailObjectOffset := 304 }
  gap := []
  objects := [messageField, messageField]
  waste := .replicate 48 0
  starts := rfl
  aligned := rfl
  last := by decide
  small := by
    simp only [List.length_append, Header.render_length, List.flatMap_cons, List.flatMap_nil,
      StoredObject.padded_length, List.length_replicate]
    decide

theorem journal_reads_back_twoMessages :
    ∃ journal, freshJournal "system.journal" 3 0 = .ok journal ∧
      (∃ cache', exec (cachedReader (fileKernel twoMessages.file)) ⟨journal, 0⟩
          (journalGetHeader .big (default : Header) id) =
        .ok (cache', .dispatched twoMessages.header)) ∧
      (∃ cache' trace, journalIterObjects (cachedReader (fileKernel twoMessages.file)) .big
          twoMessages.header (fun _ _ (user : Unit) => .ok (0, user)) 3 ⟨journal, 0⟩
          ⟨0, messageField.object.header, ()⟩ = .ok (cache', trace, .finished) ∧
        trace.map Iteration.object = [(256, messageField.object.header),
          (304, messageField.object.header), (0, messageField.object.header)]) ∧
      ∀ offset ∈ [(256 : UInt64), 304], ∃ cache',
        exec (cachedReader (fileKernel twoMessages.file)) ⟨journal, 0⟩ (journalGetObjectFull
          (fun _ => true) .big offset ⟨twoMessages.file.objectHeader 0, [], 0⟩) =
        .ok (cache', .dispatched
          ⟨messageField.object.header, messageField.object.layout .big, 0⟩) := by
  obtain ⟨journal, ready, -⟩ := freshJournal_spec "system.journal" 3 0
  obtain ⟨header, ⟨last, final, iterates⟩, loads⟩ := journal_reads_back twoMessages
    (fileKernel_servesFile _) (fileKernel_reliable _) .big
    (show CacheInvariant twoMessages.file (Cache.mk journal 0).journal from .fresh ready)
  have placed : twoMessages.placed = [(256, messageField), (304, messageField)] := rfl
  rw [placed] at final iterates loads
  obtain rfl : (304, messageField) = last := Option.some.inj final
  refine ⟨journal, ready, ?_, ?_, ?_⟩
  · obtain ⟨cache', ran, -⟩ := header (default : Header) id
    exact ⟨cache', ran⟩
  · obtain ⟨cache', trace, ran, dispatched, -⟩ := iterates (fun _ _ (user : Unit) => .ok (0, user))
      ⟨0, messageField.object.header, ()⟩ 3 (fun _ _ user => ⟨0, user, rfl, le_rfl⟩) (by decide)
    exact ⟨cache', trace, ran, dispatched⟩
  · intro offset member
    have listed : (offset, messageField) ∈ [((256 : UInt64), messageField), (304, messageField)] := by
      simpa using member
    obtain ⟨cache', ended, ran, -, loaded⟩ := loads _ listed (fun _ => true)
      ⟨twoMessages.file.objectHeader 0, [], 0⟩ rfl
    rw [if_pos (show messageField.object.header.size.toNat < 2 ^ 31 by decide)] at loaded
    exact ⟨cache', loaded ▸ ran⟩

end Jio
