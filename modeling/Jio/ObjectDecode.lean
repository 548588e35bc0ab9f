import Jio.JournalDef

/-! What `journals.c` does to headers and objects once their bytes are loaded:
`got_header`, `got_object` and `got_hash_table_iter_object_header` convert the
little-endian fields in place. A loaded object is as many bytes of memory as its
size says, and an access past them is a fault. -/
namespace Jio
open ByteOrder

/-! ## Layouts -/

def u64 (value : UInt64) : Part := .num 8 value.toNat

def u32 (value : UInt32) : Part := .num 4 value.toNat

def ObjectHeader.parts (header : ObjectHeader) : List Part :=
  [.raw [header.type], .raw [header.flags], .raw header.reserved.toList, u64 header.size]

def HashedObjectHeader.fields (hashed : HashedObjectHeader) : List Part :=
  [u64 hashed.hash, u64 hashed.nextHashOffset]

def EntryItem.parts (item : EntryItem) : List Part := [u64 item.objectOffset, u64 item.hash]

def HashItem.parts (item : HashItem) : List Part :=
  [u64 item.headHashOffset, u64 item.tailHashOffset]

/-- The members behind the hashed header. -/
def DataObject.fields (object : DataObject) : List Part :=
  [u64 object.nextFieldOffset, u64 object.entryOffset, u64 object.entryArrayOffset,
    u64 object.nEntries]

/-- The members behind the hashed header. -/
def FieldObject.fields (object : FieldObject) : List Part := [u64 object.headDataOffset]

/-- The members every object of a type has behind the object header. -/
def Object.fields : Object → List Part
  | .data object => object.hashed.fields ++ object.fields
  | .field object => object.hashed.fields ++ object.fields
  | .entry object => [u64 object.seqnum, u64 object.realtime, u64 object.monotonic,
      .raw object.bootId.toList, u64 object.xorHash]
  | .dataHashTable _ | .fieldHashTable _ => []
  | .entryArray object => [u64 object.nextEntryArrayOffset]
  | .tag object => [u64 object.seqnum, u64 object.epoch]

/-- The payload, the items or the tag behind them. -/
def Object.rest : Object → List Part
  | .data object => [.raw object.payload]
  | .field object => [.raw object.payload]
  | .entry object => (object.items.map EntryItem.parts).flatten
  | .dataHashTable object | .fieldHashTable object => (object.items.map HashItem.parts).flatten
  | .entryArray object => (object.items.map fun item => [u64 item]).flatten
  | .tag object => [.raw object.tag.toList]

/-- The format structs, member by member. -/
def Object.parts (object : Object) : List Part :=
  object.header.parts ++ (object.fields ++ object.rest)

/-- An object in the memory of a host; on the disk for the little-endian one. -/
def Object.layout (host : Endian) (object : Object) : List UInt8 := render host object.parts

/-- An object that can be on a disk: its header names its type and its size. -/
structure StoredObject where
  object : Object
  typed : object.header.type = object.type.toByte
  sized : object.header.size.toNat = (object.layout .little).length

def Header.parts (header : Header) : List Part :=
  [.raw header.signature.toList, u32 header.compatibleFlags, u32 header.incompatibleFlags,
    .raw [header.state], .raw header.reserved.toList, .raw header.fileId.toList,
    .raw header.machineId.toList, .raw header.bootId.toList, .raw header.seqnumId.toList,
    u64 header.headerSize, u64 header.arenaSize, u64 header.dataHashTableOffset,
    u64 header.dataHashTableSize, u64 header.fieldHashTableOffset, u64 header.fieldHashTableSize,
    u64 header.tailObjectOffset, u64 header.nObjects, u64 header.nEntries,
    u64 header.tailEntrySeqnum, u64 header.headEntrySeqnum, u64 header.entryArrayOffset,
    u64 header.headEntryRealtime, u64 header.tailEntryRealtime, u64 header.tailEntryMonotonic,
    u64 header.nData, u64 header.nFields, u64 header.nTags, u64 header.nEntryArrays,
    u64 header.dataHashChainDepth, u64 header.fieldHashChainDepth]

/-! ## Decoders -/

/-- An access that leaves the loaded bytes is a fault. -/
def within {α : Type} : Option α → Except Fault α
  | some a => .ok a
  | none => .error .outOfBounds

@[simp] theorem within_some {α : Type} (a : α) : within (some a) = .ok a := rfl

/-- Width and offset of the members `got_header` converts. -/
def headerFields : List (Nat × Nat) := [
  (4, 8), -- compatible_flags
  (4, 12), -- incompatible_flags
  (8, 88), -- header_size
  (8, 96), -- arena_size
  (8, 104), -- data_hash_table_offset
  (8, 112), -- data_hash_table_size
  (8, 120), -- field_hash_table_offset
  (8, 128), -- field_hash_table_size
  (8, 136), -- tail_object_offset
  (8, 144), -- n_objects
  (8, 152), -- n_entries
  (8, 160), -- tail_entry_seqnum
  (8, 168), -- head_entry_seqnum
  (8, 176), -- entry_array_offset
  (8, 184), -- head_entry_realtime
  (8, 192), -- tail_entry_realtime
  (8, 200), -- tail_entry_monotonic
  (8, 208), -- n_data
  (8, 216), -- n_fields
  (8, 224), -- n_tags
  (8, 232), -- n_entry_arrays
  (8, 240), -- data_hash_chain_depth
  (8, 248)] -- field_hash_chain_depth

/-- `got_header`. -/
def gotHeader (host : Endian) (mem : List UInt8) : Except Fault (List UInt8) :=
  within (swapFields host headerFields mem)

/-- `OBJECT_N_ITEMS`, of the size that was just converted. -/
def objectNItems (host : Endian) (mem : List UInt8) (itemsOffset itemSize : UInt64) : UInt64 :=
  (readU64 host mem 8 - itemsOffset) / itemSize

/-- The `switch` of `got_object`. -/
def gotObjectOfType (host : Endian) (mem : List UInt8) :
    Option ObjectType → Except Fault (List UInt8)
  | some .data =>
    -- hash, next_hash_offset, next_field_offset, entry_offset, entry_array_offset, n_entries
    within (swapFields host [(8, 16), (8, 24), (8, 32), (8, 40), (8, 48), (8, 56)] mem)
  | some .field =>
    -- hash, next_hash_offset, head_data_offset
    within (swapFields host [(8, 16), (8, 24), (8, 32)] mem)
  | some .entry => do
    -- seqnum, realtime, monotonic, xor_hash
    let mem ← within (swapFields host [(8, 16), (8, 24), (8, 32), (8, 56)] mem)
    within (swapItems host [(8, 0), (8, 8)] sizeofEntryItem.toNat
      (objectNItems host mem entryItemsOffset sizeofEntryItem).toNat entryItemsOffset.toNat mem)
  | some .dataHashTable | some .fieldHashTable =>
    within (swapItems host [(8, 0), (8, 8)] sizeofHashItem.toNat
      (objectNItems host mem hashTableItemsOffset sizeofHashItem).toNat
        hashTableItemsOffset.toNat mem)
  | some .entryArray => do
    -- next_entry_array_offset
    let mem ← within (swapFields host [(8, 16)] mem)
    within (swapItems host [(8, 0)] sizeofLe64.toNat
      (objectNItems host mem entryArrayItemsOffset sizeofLe64).toNat
        entryArrayItemsOffset.toNat mem)
  | some .tag =>
    -- seqnum, epoch
    within (swapFields host [(8, 16), (8, 24)] mem)
  | some .unused | none => .error .assertion

/-- `got_object`. -/
def gotObject (host : Endian) (mem : List UInt8) : Except Fault (List UInt8) := do
  let mem ← within (swapFields host [(8, 8)] mem)
  gotObjectOfType host mem (ObjectType.ofByte? (mem.getD 0 0))

/-- `got_hash_table_iter_object_header`, which its caller gives the size of the
hash table for the number of buckets. -/
def gotHashTableIterObjectHeader (host : Endian) (nbuckets iterBucket iterObjectSize : UInt64)
    (mem : List UInt8) : Except Fault (List UInt8) := do
  if ¬iterBucket < nbuckets then .error .assertion else
  -- size, hash, next_hash_offset
  let mem ← within (swapFields host [(8, 8), (8, 16), (8, 24)] mem)
  if iterObjectSize > sizeofHashedObjectHeader then
    match ObjectType.ofByte? (mem.getD 0 0) with
    | some .data =>
      if ¬iterObjectSize ≥ sizeofDataObject then .error .assertion else
      -- next_field_offset, entry_offset, entry_array_offset, n_entries
      within (swapFields host [(8, 32), (8, 40), (8, 48), (8, 56)] mem)
    | some .field =>
      if ¬iterObjectSize ≥ sizeofFieldObject then .error .assertion else
      -- head_data_offset
      within (swapFields host [(8, 32)] mem)
    | _ => .error .assertion
  else .ok mem

/-! ## Parts -/

theorem u64_fits (value : UInt64) : (u64 value).Fits := value.toNat_lt

theorem u32_fits (value : UInt32) : (u32 value).Fits := value.toNat_lt

theorem ObjectHeader.parts_fit (header : ObjectHeader) : ∀ part ∈ header.parts, part.Fits := by
  simp [parts, u64_fits]

theorem Header.parts_fit (header : Header) : ∀ part ∈ header.parts, part.Fits := by
  simp [parts, u64_fits, u32_fits]

private theorem items_fit {α : Type} {parts : α → List Part} {items : List α}
    (fit : ∀ item, ∀ part ∈ parts item, part.Fits) :
    ∀ part ∈ (items.map parts).flatten, part.Fits := by
  intro part member
  obtain ⟨record, listed, inside⟩ := List.mem_flatten.mp member
  obtain ⟨item, -, rfl⟩ := List.mem_map.mp listed
  exact fit item part inside

theorem Object.parts_fit (object : Object) : ∀ part ∈ object.parts, part.Fits := by
  intro part member
  rw [parts, List.mem_append, List.mem_append] at member
  rcases member with member | member | member
  · exact object.header.parts_fit part member
  · revert part
    cases object <;>
      simp [fields, HashedObjectHeader.fields, DataObject.fields, FieldObject.fields, u64_fits]
  · cases object with
    | data object | field object | tag object =>
      obtain rfl := List.mem_singleton.mp member
      exact Part.raw_fits _
    | entry object => exact items_fit (fun item => by simp [EntryItem.parts, u64_fits]) part member
    | dataHashTable object | fieldHashTable object =>
      exact items_fit (fun item => by simp [HashItem.parts, u64_fits]) part member
    | entryArray object => exact items_fit (fun item => by simp [u64_fits]) part member

@[simp] theorem ObjectHeader.parts_width (header : ObjectHeader) :
    (header.parts.map Part.width).sum = 16 := by
  simp [parts, Part.width, u64]

theorem ObjectHeader.render_length (host : Endian) (header : ObjectHeader) :
    (render host header.parts).length = 16 := by
  rw [ByteOrder.render_length, parts_width]

theorem ObjectHeader.swap (host : Endian) (header : ObjectHeader) (after : List UInt8) :
    swapFields host [(8, 8)] (render .little header.parts ++ after) =
      some (render host header.parts ++ after) := by
  have swapped := swapFields_render host header.parts [] after
  simpa [parts, fieldsOf, u64] using swapped

theorem ObjectHeader.type_inMemory (host : Endian) (header : ObjectHeader) (after : List UInt8) :
    (render host header.parts ++ after).getD 0 0 = header.type := by
  simp [parts, Part.render]

/-- Any 64-bit field of a record in host order reads as its value. -/
theorem readU64_render (host : Endian) {parts : List Part} (fit : ∀ part ∈ parts, part.Fits)
    {off : Nat} {value : UInt64} (listed : (8, off, value.toNat) ∈ numbersOf 0 parts)
    (after : List UInt8) : readU64 host (render host parts ++ after) off = value := by
  have read := (render_laidOut host fit after).numbers 8 off value.toNat listed
  rw [load] at read
  split at read
  · rw [readU64, Option.some.inj read, UInt64.ofNat_toNat]
  · cases read

theorem ObjectHeader.size_inMemory (host : Endian) (header : ObjectHeader) (after : List UInt8) :
    readU64 host (render host header.parts ++ after) 8 = header.size :=
  readU64_render host header.parts_fit (by simp [parts, numbersOf, u64]) after

/-- The fields behind an object header are converted where they lie. -/
theorem ObjectHeader.swap_behind (host : Endian) (header : ObjectHeader) (parts : List Part)
    (after : List UInt8) :
    swapFields host (fieldsOf 16 parts)
        (render host header.parts ++ (render .little parts ++ after)) =
      some (render host header.parts ++ (render host parts ++ after)) := by
  have swapped := swapFields_render host parts (render host header.parts) after
  rwa [header.render_length, List.append_assoc, List.append_assoc] at swapped

theorem objectNItems_inMemory (host : Endian) (header : ObjectHeader) (after : List UInt8)
    {itemsOffset itemSize : UInt64} {count : Nat} (positive : 0 < itemSize.toNat)
    (sized : header.size.toNat = itemsOffset.toNat + count * itemSize.toNat) :
    (objectNItems host (render host header.parts ++ after) itemsOffset itemSize).toNat = count := by
  have below : itemsOffset ≤ header.size := by rw [UInt64.le_iff_toNat_le]; omega
  rw [objectNItems, header.size_inMemory, UInt64.toNat_div, UInt64.toNat_sub_of_le _ _ below, sized,
    Nat.add_sub_cancel_left, Nat.mul_div_cancel _ positive]

/-- An array of items that ends an object is converted as far as its size says. -/
theorem ObjectHeader.swap_items (host : Endian) (header : ObjectHeader) (parts : List Part)
    (itemsOffset itemSize : UInt64) {α : Type} (item : α → List Part) (items : List α)
    {fields : List (Nat × Nat)} (positive : 0 < itemSize.toNat) (same : ∀ a, fieldsOf 0 (item a) = fields)
    (width : ∀ a, ((item a).map Part.width).sum = itemSize.toNat)
    (starts : 16 + (parts.map Part.width).sum = itemsOffset.toNat)
    (sized : header.size.toNat = itemsOffset.toNat + items.length * itemSize.toNat) :
    (let mem := render host header.parts ++
      (render host parts ++ render .little (items.map item).flatten)
    swapItems host fields itemSize.toNat (objectNItems host mem itemsOffset itemSize).toNat
      itemsOffset.toNat mem) =
      some (render host header.parts ++ (render host parts ++
        render host (items.map item).flatten)) := by
  have length : (render host header.parts ++ render host parts).length = itemsOffset.toNat := by
    rw [List.length_append, header.render_length, ByteOrder.render_length, starts]
  have swapped := swapItems_render host (items.map item)
    (show ∀ record ∈ items.map item, fieldsOf 0 record = fields by simp [same])
    (show ∀ record ∈ items.map item, (record.map Part.width).sum = itemSize.toNat by simp [width])
    (render host header.parts ++ render host parts) []
  rw [List.append_nil, List.append_nil, List.length_map, length, List.append_assoc,
    List.append_assoc] at swapped
  dsimp only
  rw [objectNItems_inMemory host header _ positive sized, swapped]

/-! ## Objects -/

theorem gotObject_header (host : Endian) (header : ObjectHeader) (after : List UInt8) :
    gotObject host (render .little header.parts ++ after) =
      gotObjectOfType host (render host header.parts ++ after) (ObjectType.ofByte? header.type) := by
  rw [gotObject, header.swap, within_some, bind_ok, header.type_inMemory]

theorem Object.layout_eq (host : Endian) (object : Object) :
    object.layout host = render host object.header.parts ++
      (render host object.fields ++ render host object.rest) := by
  rw [layout, parts, render_append, render_append]

/-- How many bytes an array of items takes. -/
theorem items_width {α : Type} {parts : α → List Part} {items : List α} {size : Nat}
    (width : ∀ a, ((parts a).map Part.width).sum = size) :
    (((items.map parts).flatten).map Part.width).sum = items.length * size := by
  induction items with
  | nil => simp
  | cons item items ih =>
    rw [List.map_cons, List.flatten_cons, List.map_append, List.sum_append, width, ih,
      List.length_cons]
    ring

/-- `got_object` turns an object as it is on the disk into the host's own. -/
theorem gotObject_layout (host : Endian) (stored : StoredObject) :
    gotObject host (stored.object.layout .little) = .ok (stored.object.layout host) := by
  obtain ⟨object, typed, sized⟩ := stored
  dsimp only
  have fields := object.header.swap_behind host object.fields (render .little object.rest)
  rw [Object.layout_eq, gotObject_header, typed, ObjectType.ofByte?_toByte, Object.layout_eq]
  rw [Object.layout, render_length, Object.parts, List.map_append, List.sum_append,
    List.map_append, List.sum_append, ObjectHeader.parts_width] at sized
  cases object with
  | data object | field object | tag object => exact congrArg within fields
  | entry object =>
    have places : fieldsOf 16 (Object.entry object).fields =
        [(8, 16), (8, 24), (8, 32), (8, 56)] := by simp [Object.fields, fieldsOf, u64]
    have starts : 16 + ((Object.entry object).fields.map Part.width).sum = 64 := by
      simp [Object.fields, Part.width, u64]
    rw [places] at fields
    rw [Object.type, gotObjectOfType, fields, within_some, bind_ok]
    refine congrArg within (ObjectHeader.swap_items host _ _ entryItemsOffset sizeofEntryItem
      EntryItem.parts object.items (by decide) (fun _ => rfl) (fun _ => rfl) starts ?_)
    rw [sized, ← Nat.add_assoc, starts]
    exact congrArg _ (items_width fun _ => rfl)
  | dataHashTable object | fieldHashTable object =>
    rw [Object.type, gotObjectOfType]
    refine congrArg within (ObjectHeader.swap_items host _ [] hashTableItemsOffset sizeofHashItem
      HashItem.parts object.items (by decide) (fun _ => rfl) (fun _ => rfl) rfl ?_)
    rw [sized, ← Nat.add_assoc]
    exact congrArg _ (items_width fun _ => rfl)
  | entryArray object =>
    have places : fieldsOf 16 (Object.entryArray object).fields = [(8, 16)] := rfl
    rw [places] at fields
    rw [Object.type, gotObjectOfType, fields, within_some, bind_ok]
    refine congrArg within (ObjectHeader.swap_items host _ [u64 object.nextEntryArrayOffset]
      entryArrayItemsOffset sizeofLe64 (fun item => [u64 item]) object.items (by decide) (fun _ => rfl) (fun _ => rfl) rfl ?_)
    rw [sized, ← Nat.add_assoc]
    exact congrArg _ (items_width fun _ => rfl)

/-- `got_header` turns a header as it is on the disk into the host's own. -/
theorem gotHeader_layout (host : Endian) (header : Header) :
    gotHeader host (render .little header.parts) = .ok (render host header.parts) := by
  have swapped := swapFields_render host header.parts [] []
  have places : fieldsOf 0 header.parts = headerFields := by
    simp [Header.parts, headerFields, fieldsOf, u64, u32]
  rw [List.nil_append, List.nil_append, List.append_nil, List.append_nil, List.length_nil,
    places] at swapped
  exact congrArg within swapped

theorem within_ok {α : Type} {x : Option α} {a : α} (ran : within x = .ok a) : x = some a := by
  cases x with
  | none => cases ran
  | some b => rw [Except.ok.inj ran]

theorem readU64_more (host : Endian) {mem : List UInt8} {off : Nat} (inside : off + 8 ≤ mem.length)
    (behind : List UInt8) : readU64 host (mem ++ behind) off = readU64 host mem off := by
  unfold readU64
  rw [List.drop_append_of_le_length (by omega), List.take_append_of_le_length]
  rw [List.length_drop]
  omega

/-- An object is converted alike in a larger block. -/
theorem gotObject_more {host : Endian} {mem object : List UInt8}
    (ran : gotObject host mem = .ok object) (behind : List UInt8) :
    gotObject host (mem ++ behind) = .ok (object ++ behind) := by
  unfold gotObject at ran ⊢
  cases first : swapFields host [(8, 8)] mem with
  | none =>
    rw [first] at ran
    cases ran
  | some mem' =>
    have sized : 16 ≤ mem'.length := by
      rw [swapFields_length first]
      exact swapFields_isSome_iff.mp (Option.isSome_iff_exists.mpr ⟨mem', first⟩) (8, 8) (.head _)
    have type : (mem' ++ behind).getD 0 0 = mem'.getD 0 0 := by
      rw [List.getD_eq_getElem?_getD, List.getElem?_append_left (by omega),
        List.getD_eq_getElem?_getD]
    have items {mem : List UInt8} (large : 16 ≤ mem.length) (itemsOffset itemSize : UInt64) :
        objectNItems host (mem ++ behind) itemsOffset itemSize =
          objectNItems host mem itemsOffset itemSize := by
      rw [objectNItems, readU64_more host large, objectNItems]
    rw [first, within_some, bind_ok] at ran
    rw [swapFields_more first, within_some, bind_ok, type]
    unfold gotObjectOfType at ran ⊢
    split at ran
    · rw [swapFields_more (within_ok ran), within_some]
    · rw [swapFields_more (within_ok ran), within_some]
    · cases second : swapFields host [(8, 16), (8, 24), (8, 32), (8, 56)] mem' with
      | none =>
        rw [second] at ran
        cases ran
      | some mem'' =>
        rw [second, within_some, bind_ok] at ran
        rw [swapFields_more second, within_some, bind_ok,
          items (sized.trans_eq (swapFields_length second).symm), swapItems_more (within_ok ran),
          within_some]
    · rw [items sized, swapItems_more (within_ok ran), within_some]
    · rw [items sized, swapItems_more (within_ok ran), within_some]
    · cases second : swapFields host [(8, 16)] mem' with
      | none =>
        rw [second] at ran
        cases ran
      | some mem'' =>
        rw [second, within_some, bind_ok] at ran
        rw [swapFields_more second, within_some, bind_ok,
          items (sized.trans_eq (swapFields_length second).symm), swapItems_more (within_ok ran),
          within_some]
    · rw [swapFields_more (within_ok ran), within_some]
    · cases ran
    · cases ran

/-- Whatever the bytes of a header are, `got_header` leaves the host the values
they have on the disk. -/
theorem gotHeader_values {host : Endian} {mem mem' : List UInt8}
    (ran : gotHeader host mem = .ok mem') :
    Header.ofMemory host mem' = Header.ofMemory .little mem := by
  have converted := within_ok ran
  have apart : headerFields.Pairwise Apart := by decide
  have number {w off : Nat} (listed : (w, off) ∈ headerFields) :
      host.value ((mem'.drop off).take w) = Endian.little.value ((mem.drop off).take w) := by
    have inside := swapFields_isSome_iff.mp (Option.isSome_of_mem converted) (w, off) listed
    have read := load_swapFields apart listed converted
    rw [load, load, swapFields_length converted, if_pos inside, if_pos inside] at read
    exact Option.some.inj read
  have number64 {off : Nat} (listed : (8, off) ∈ headerFields) :
      readU64 host mem' off = readU64 .little mem off := congrArg UInt64.ofNat (number listed)
  have number32 {off : Nat} (listed : (4, off) ∈ headerFields) :
      readU32 host mem' off = readU32 .little mem off := congrArg UInt32.ofNat (number listed)
  have bytes {n off : Nat} (outside : ∀ field ∈ headerFields, Apart field (n, off)) :
      readBytes n mem' off = readBytes n mem off := by
    rw [readBytes, readBytes, swapFields_apart outside converted]
  simp only [Header.ofMemory, Header.mk.injEq]
  refine ⟨bytes (by decide), number32 (by decide), number32 (by decide), ?_, bytes (by decide),
    bytes (by decide), bytes (by decide), bytes (by decide), bytes (by decide), ?_⟩
  · rw [bytes (by decide)]
  · refine ⟨?_, ?_, ?_, ?_, ?_, ?_, ?_, ?_, ?_, ?_, ?_, ?_, ?_, ?_, ?_, ?_, ?_, ?_, ?_, ?_, ?_⟩ <;>
      exact number64 (by decide)

/-! ## Prefixes -/

/-- An object of this type may be iterated over by loading this many bytes. -/
def Object.Loads (iterObjectSize : UInt64) : Object → Prop
  | .data _ => iterObjectSize = sizeofHashedObjectHeader ∨ sizeofDataObject ≤ iterObjectSize
  | .field _ => iterObjectSize = sizeofHashedObjectHeader ∨ sizeofFieldObject ≤ iterObjectSize
  | _ => False

/-- The members an iteration that loads this many bytes converts, and those
between them. -/
def Object.prefixParts (iterObjectSize : UInt64) (object : Object) : List Part :=
  object.header.parts ++
    if iterObjectSize > sizeofHashedObjectHeader then object.fields else object.fields.take 2

/-- `HashedObjectHeader`, member by member. -/
def HashedObjectHeader.parts (hashed : HashedObjectHeader) : List Part :=
  hashed.object.parts ++ hashed.fields

theorem HashedObjectHeader.render_length (host : Endian) (hashed : HashedObjectHeader) :
    (render host hashed.parts).length = 32 := by
  rw [ByteOrder.render_length, parts, List.map_append, List.sum_append, ObjectHeader.parts_width]
  rfl

theorem HashedObjectHeader.swap (host : Endian) (hashed : HashedObjectHeader)
    (after : List UInt8) :
    swapFields host [(8, 8), (8, 16), (8, 24)] (render .little hashed.parts ++ after) =
      some (render host hashed.parts ++ after) := by
  have places : fieldsOf 0 hashed.parts = [(8, 8), (8, 16), (8, 24)] := by
    simp [parts, fields, ObjectHeader.parts, fieldsOf, u64]
  have swapped := swapFields_render host hashed.parts [] after
  rwa [List.nil_append, List.nil_append, List.length_nil, places] at swapped

theorem HashedObjectHeader.swap_behind (host : Endian) (hashed : HashedObjectHeader)
    (parts : List Part) (after : List UInt8) :
    swapFields host (fieldsOf 32 parts)
        (render host hashed.parts ++ (render .little parts ++ after)) =
      some (render host hashed.parts ++ (render host parts ++ after)) := by
  have swapped := swapFields_render host parts (render host hashed.parts) after
  rwa [hashed.render_length, List.append_assoc, List.append_assoc] at swapped

theorem HashedObjectHeader.type_inMemory (host : Endian) (hashed : HashedObjectHeader)
    (after : List UInt8) : (render host hashed.parts ++ after).getD 0 0 = hashed.object.type := by
  rw [parts, render_append, List.append_assoc, hashed.object.type_inMemory]

theorem HashedObjectHeader.next_inMemory (host : Endian) (hashed : HashedObjectHeader)
    (after : List UInt8) :
    readU64 host (render host hashed.parts ++ after) 24 = hashed.nextHashOffset := by
  refine readU64_render host (fun part member => ?_)
    (by simp [parts, fields, ObjectHeader.parts, numbersOf, u64]) after
  rw [parts, List.mem_append] at member
  rcases member with member | member
  · exact hashed.object.parts_fit part member
  · revert part
    simp [fields, u64_fits]

theorem HashedObjectHeader.render_behind (host : Endian) (hashed : HashedObjectHeader)
    (parts : List Part) (after : List UInt8) :
    render host (hashed.object.parts ++ (hashed.fields ++ parts)) ++ after =
      render host hashed.parts ++ (render host parts ++ after) := by
  rw [← List.append_assoc, render_append, List.append_assoc]
  rfl

/-- Iteration converts the members it loads, whatever follows them in memory. -/
theorem gotHashTableIterObjectHeader_prefix (host : Endian) (stored : StoredObject)
    {nbuckets iterBucket iterObjectSize : UInt64} (inTable : iterBucket < nbuckets)
    (loads : stored.object.Loads iterObjectSize) (after : List UInt8) :
    gotHashTableIterObjectHeader host nbuckets iterBucket iterObjectSize
        (render .little (stored.object.prefixParts iterObjectSize) ++ after) =
      .ok (render host (stored.object.prefixParts iterObjectSize) ++ after) := by
  obtain ⟨object, typed, sized⟩ := stored
  dsimp only at loads ⊢
  rw [gotHashTableIterObjectHeader, if_neg (not_not.mpr inTable), Object.prefixParts]
  by_cases more : iterObjectSize > sizeofHashedObjectHeader
  · have beyond : iterObjectSize ≠ sizeofHashedObjectHeader := by rintro rfl; simp at more
    cases object with
    | data object | field object =>
      have large := loads.resolve_left beyond
      simp only [Object.header, Object.type] at typed
      simp only [if_pos more, Object.header, Object.fields, HashedObjectHeader.render_behind]
      rw [object.hashed.swap, within_some, bind_ok, object.hashed.type_inMemory, typed,
        ObjectType.ofByte?_toByte]
      dsimp only
      rw [if_neg (not_not.mpr large)]
      exact congrArg within (object.hashed.swap_behind host object.fields after)
    | entry object | dataHashTable object | fieldHashTable object | entryArray object
    | tag object => exact loads.elim
  · simp only [if_neg more]
    cases object with
    | data object | field object =>
      change (within (swapFields host _ (render .little object.hashed.parts ++ after)) >>= _) = _
      rw [object.hashed.swap, within_some, bind_ok]
      rfl
    | entry object | dataHashTable object | fieldHashTable object | entryArray object
    | tag object => exact loads.elim

/-- Loading so many bytes of an object, and of what follows it, yields the
members to convert and then the same bytes on every host. -/
theorem Object.take_layout {object : Object} {iterObjectSize : UInt64}
    (loads : object.Loads iterObjectSize) (after : List UInt8) :
    ∃ rest, ∀ host, (object.layout host ++ after).take iterObjectSize.toNat =
      render host (object.prefixParts iterObjectSize) ++ rest := by
  have fixed : sizeofHashedObjectHeader.toNat = 32 ∧ sizeofDataObject.toNat = 64 ∧
    sizeofFieldObject.toNat = 40 := by decide
  by_cases more : iterObjectSize > sizeofHashedObjectHeader
  · have beyond : iterObjectSize ≠ sizeofHashedObjectHeader := by rintro rfl; simp at more
    have enough : ∃ payload, object.rest = [.raw payload] ∧
        ((object.header.parts ++ object.fields).map Part.width).sum ≤ iterObjectSize.toNat := by
      cases object with
      | data object =>
        have large := UInt64.le_iff_toNat_le.mp (loads.resolve_left beyond)
        refine ⟨object.payload, rfl, ?_⟩
        rw [List.map_append, List.sum_append, ObjectHeader.parts_width]
        exact show 64 ≤ _ by omega
      | field object =>
        have large := UInt64.le_iff_toNat_le.mp (loads.resolve_left beyond)
        refine ⟨object.payload, rfl, ?_⟩
        rw [List.map_append, List.sum_append, ObjectHeader.parts_width]
        exact show 40 ≤ _ by omega
      | entry object | dataHashTable object | fieldHashTable object | entryArray object
      | tag object => exact loads.elim
    obtain ⟨payload, rest, enough⟩ := enough
    refine ⟨(payload ++ after).take
      (iterObjectSize.toNat - ((object.header.parts ++ object.fields).map Part.width).sum), ?_⟩
    intro host
    have raw : render host object.rest = payload := by simp [rest, Part.render]
    rw [Object.layout, Object.parts, ← List.append_assoc, render_append, raw, List.append_assoc,
      List.take_append, List.take_of_length_le (by rwa [render_length]), render_length,
      Object.prefixParts, if_pos more]
  · refine ⟨[], fun host => ?_⟩
    have size : iterObjectSize.toNat = 32 := by
      rw [gt_iff_lt, UInt64.lt_iff_toNat_lt] at more
      cases object with
      | data object | field object =>
        simp only [Object.Loads, UInt64.le_iff_toNat_le, ← UInt64.toNat_inj] at loads
        omega
      | entry object | dataHashTable object | fieldHashTable object | entryArray object
      | tag object => exact loads.elim
    rw [Object.layout, Object.parts, Object.prefixParts, if_neg more, List.append_nil, size]
    cases object with
    | data object | field object =>
      simp only [Object.header, Object.fields, List.append_assoc]
      rw [HashedObjectHeader.render_behind, List.take_left' (object.hashed.render_length host)]
      rfl
    | entry object | dataHashTable object | fieldHashTable object | entryArray object
    | tag object => exact loads.elim

/-- An iteration that loads the start of an object converts it as `got_object`
converts the whole. -/
theorem gotHashTableIterObjectHeader_layout (host : Endian) (stored : StoredObject)
    {nbuckets iterBucket iterObjectSize : UInt64} (inTable : iterBucket < nbuckets)
    (loads : stored.object.Loads iterObjectSize) (after : List UInt8) :
    gotHashTableIterObjectHeader host nbuckets iterBucket iterObjectSize
        ((stored.object.layout .little ++ after).take iterObjectSize.toNat) =
      .ok ((stored.object.layout host ++ after).take iterObjectSize.toNat) := by
  obtain ⟨rest, loaded⟩ := Object.take_layout loads after
  rw [loaded, loaded]
  exact gotHashTableIterObjectHeader_prefix host stored inTable loads rest

/-- On every host, loading an object, a prefix of it for an iteration, or a
header converts exactly what the format stores as numbers. -/
theorem loading_inverts_the_format (host : Endian) :
    (∀ stored : StoredObject,
      gotObject host (stored.object.layout .little) = .ok (stored.object.layout host) ∧
      LaidOut host stored.object.parts (stored.object.layout host)) ∧
    (∀ (stored : StoredObject) (nbuckets iterBucket iterObjectSize : UInt64) (after : List UInt8),
      iterBucket < nbuckets → stored.object.Loads iterObjectSize →
      gotHashTableIterObjectHeader host nbuckets iterBucket iterObjectSize
          ((stored.object.layout .little ++ after).take iterObjectSize.toNat) =
        .ok ((stored.object.layout host ++ after).take iterObjectSize.toNat)) ∧
    ∀ header : Header,
      gotHeader host (render .little header.parts) = .ok (render host header.parts) ∧
      LaidOut host header.parts (render host header.parts) := by
  refine ⟨fun stored => ⟨gotObject_layout host stored, ?_⟩, ?_,
    fun header => ⟨gotHeader_layout host header, ?_⟩⟩
  · simpa [Object.layout] using render_laidOut host stored.object.parts_fit []
  · intro stored nbuckets iterBucket iterObjectSize after inTable loads
    exact gotHashTableIterObjectHeader_layout host stored inTable loads after
  · simpa using render_laidOut host header.parts_fit []

/-- The field object of `MESSAGE`. -/
def messageField : StoredObject where
  object := .field {
    hashed := {
      object := ⟨ObjectType.field.toByte, 0, .replicate 6 0, 47⟩
      hash := 0x0123456789abcdef
      nextHashOffset := 4096 }
    headDataOffset := 8192
    payload := [0x4d, 0x45, 0x53, 0x53, 0x41, 0x47, 0x45] }
  typed := rfl
  sized := by decide

theorem loading_inverts_the_format_messageField :
    gotObject .big (messageField.object.layout .little) = .ok (messageField.object.layout .big) ∧
    gotHashTableIterObjectHeader .big 2 1 sizeofFieldObject
        ((messageField.object.layout .little ++ []).take sizeofFieldObject.toNat) =
      .ok ((messageField.object.layout .big ++ []).take sizeofFieldObject.toNat) := by
  obtain ⟨objects, prefixes, -⟩ := loading_inverts_the_format .big
  exact ⟨(objects messageField).1,
    prefixes messageField 2 1 sizeofFieldObject [] (by decide) (Or.inr (by decide))⟩

end Jio
