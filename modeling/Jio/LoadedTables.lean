import Jio.HashTableIteration
import Jio.JournalImage

/-! `journal_get_hash_table`, and a walk over the table it loads. Where a journal has
chained its objects of a type into its hash table, the walk over the table and the walk
over all objects come to the same ones. -/
namespace Jio
open ByteOrder ReadProgram

/-! ## Loading -/

/-- The buckets in the memory of a table. -/
def HashTable.ofMemory (host : Endian) (size : UInt64) (mem : List UInt8) : HashTable where
  size
  items := (List.range (size / sizeofHashItem).toNat).map fun i =>
    { headHashOffset := readU64 host mem (sizeofHashItem.toNat * i)
      tailHashOffset := readU64 host mem (sizeofHashItem.toNat * i + 8) }
  loaded := by simp

/-- `got_hashtable`. -/
def gotHashtable (host : Endian) (size : UInt64) (table : List UInt8) :
    Except Fault (List UInt8) :=
  -- head_hash_offset, tail_hash_offset
  within (swapItems host [(8, 0), (8, 8)] sizeofHashItem.toNat (size / sizeofHashItem).toNat 0 table)

/-- `journal_get_hash_table`, which stores what it loads with `store`. -/
def journalGetHashTable {σ : Type} (alloc : UInt64 → Bool) (host : Endian)
    (hashTableOffset hashTableSize : UInt64) (cells : σ) (store : HashTable → σ) : Reading σ :=
  if alloc hashTableSize then
    .read (hashTableOffset, hashTableSize) cells fun table =>
      match gotHashtable host hashTableSize table with
      | .error fault => .abort fault
      | .ok table => .dispatch (store (.ofMemory host hashTableSize table))
  else .fail (-ENOMEM) cells

/-- The table a file has there. -/
def JournalFile.hashTable (file : JournalFile) (offset size : UInt64) : HashTable :=
  .ofMemory .little size (file.slice offset.toNat size.toNat)

theorem sizeofHashItem_toNat : sizeofHashItem.toNat = 16 := rfl

theorem gotHashtable_ok (host : Endian) {size : UInt64} {mem : List UInt8}
    (large : size.toNat ≤ mem.length) : ∃ mem', gotHashtable host size mem = .ok mem' := by
  have inside : 0 + (size / sizeofHashItem).toNat * sizeofHashItem.toNat ≤ mem.length := by
    rw [UInt64.toNat_div, sizeofHashItem_toNat]
    omega
  have fit : ∀ field ∈ [(8, 0), (8, 8)], field.2 + field.1 ≤ sizeofHashItem.toNat := by decide
  have converts : (swapItems host [(8, 0), (8, 8)] sizeofHashItem.toNat
      (size / sizeofHashItem).toNat 0 mem).isSome := swapItems_isSome fit inside
  obtain ⟨mem', converted⟩ := Option.isSome_iff_exists.mp converts
  exact ⟨mem', congrArg within converted⟩

/-- Whatever the bytes of a table are, the host is left the offsets they have on the disk. -/
theorem gotHashtable_values {host : Endian} {size : UInt64} {mem mem' : List UInt8}
    (ran : gotHashtable host size mem = .ok mem') :
    HashTable.ofMemory host size mem' = HashTable.ofMemory .little size mem := by
  have converted := within_ok ran
  have length := swapItems_length converted
  have number (i o : Nat) (below : i < (size / sizeofHashItem).toNat)
      (listed : (8, o) ∈ [(8, 0), (8, 8)]) :
      readU64 host mem' (sizeofHashItem.toNat * i + o) =
        readU64 .little mem (sizeofHashItem.toNat * i + o) := by
    have fields := (swapItems_eq ..).symm.trans converted
    have fits := swapFields_isSome_iff.mp (Option.isSome_of_mem fields) _
      (mem_itemFields listed below)
    have read := load_swapItems (by decide) (by decide) listed below converted
    rw [load, load, length, if_pos fits, if_pos fits, Nat.zero_add, Nat.mul_comm i] at read
    exact congrArg UInt64.ofNat (Option.some.inj read)
  have items : (HashTable.ofMemory host size mem').items =
      (HashTable.ofMemory .little size mem).items := by
    refine List.map_congr_left fun i member => ?_
    have below := List.mem_range.mp member
    rw [← Nat.add_zero (sizeofHashItem.toNat * i), number i 0 below (.head _), Nat.add_zero,
      number i 8 below (.tail _ (.head _))]
  simp only [HashTable.ofMemory] at items ⊢
  simp only [items]

section Load

variable {σ : Type} {file : JournalFile} {alloc : UInt64 → Bool} {host : Endian}
  {offset size : UInt64} (room : alloc size = true) (cells : σ) (store : HashTable → σ)
include room

/-- `journal_get_hash_table` is the read of the table, and what comes of its bytes. -/
theorem journalGetHashTable_eq : journalGetHashTable alloc host offset size cells store =
    .read (offset, size) cells fun table =>
      match gotHashtable host size table with
      | .error fault => .abort fault
      | .ok table => .dispatch (store (.ofMemory host size table)) :=
  if_pos room

/-- A table that can be read is loaded as it is on the disk. -/
theorem exec_journalGetHashTable (positive : 0 < size.toNat) (readable : Readable file offset size) :
    exec (fileReader file) () (journalGetHashTable alloc host offset size cells store) =
      .ok ((), .dispatched (store (file.hashTable offset size))) := by
  obtain ⟨mem, converted⟩ := gotHashtable_ok host
    (show size.toNat ≤ (file.slice offset.toNat size.toNat).length by simp [JournalFile.slice])
  rw [journalGetHashTable_eq room]
  simp only [exec, fileReader_inside positive readable, converted, gotHashtable_values converted,
    JournalFile.hashTable]

end Load

/-- Whatever a table is, whatever the host and whatever is cached, a table is loaded as it is on
the disk, or not at all: where there is no memory for it, where it is empty, and where it does not
lie in the file or is too long to be counted. -/
theorem hash_table_is_loaded {σ : Type} {file : JournalFile} {kernel : Kernel}
    (serves : kernel.ServesFile file) (reliable : kernel.Reliable) (alloc : UInt64 → Bool)
    (host : Endian) (offset size : UInt64) (cells : σ) (store : HashTable → σ)
    {cache : Cache} (invariant : CacheInvariant file cache.journal) :
    let ended := exec (cachedReader kernel) cache
      (journalGetHashTable alloc host offset size cells store)
    (alloc size = false → ended = .ok (cache, .failed (-ENOMEM) cells)) ∧
    (alloc size = true → size = 0 → ended = .error .assertion) ∧
    (alloc size = true → size ≠ 0 → Readable file offset size → ∃ cache',
      ended = .ok (cache', .dispatched (store (file.hashTable offset size))) ∧
      CacheInvariant file cache'.journal) ∧
    (alloc size = true → size ≠ 0 → ¬Readable file offset size →
      (LeavesBuffer cache.journal offset size → ended = .error .outOfBounds) ∧
      (¬LeavesBuffer cache.journal offset size → ∃ cache' code,
        ended = .ok (cache', .failed code cells) ∧ CacheInvariant file cache'.journal ∧
        (code = -EINVAL ∨ 2 ^ 31 ≤ size.toNat))) := by
  have positive (some : size ≠ 0) : 0 < size.toNat :=
    Nat.pos_of_ne_zero fun none => some (UInt64.toNat_inj.mp none)
  refine ⟨fun none => ?_, fun room empty => ?_, fun room some readable => ?_,
    fun room some unreadable => ?_⟩
  · rw [journalGetHashTable, none]
    rfl
  · subst empty
    rw [journalGetHashTable_eq room]
    rfl
  · exact exec_refines (cachedReader_refines serves reliable) invariant
      (exec_journalGetHashTable room cells store (positive some) readable)
  · obtain ⟨leaves, refused⟩ :=
      cachedReader_refuses serves reliable invariant (positive some) unreadable
    rw [journalGetHashTable_eq room]
    constructor
    · intro left
      rw [exec, leaves left]
    · intro stays
      obtain ⟨cache', code, ran, kept, codes⟩ := refused stays
      exact ⟨cache', code, by rw [exec, ran], kept, codes⟩

/-! ## The tables of a journal -/

/-- The two hash tables of a journal. -/
inductive Table where
  | data
  | field

/-- What is chained into it. -/
def Table.objectType : Table → ObjectType
  | .data => .data
  | .field => .field

/-- The fixed part of what is chained into it. -/
def Table.sizeofObject : Table → UInt64
  | .data => sizeofDataObject
  | .field => sizeofFieldObject

/-- Where the header says its buckets are, and how many bytes they have. -/
def Table.range (header : Header) : Table → UInt64 × UInt64
  | .data => (header.dataHashTableOffset, header.dataHashTableSize)
  | .field => (header.fieldHashTableOffset, header.fieldHashTableSize)

/-- The buckets in the object that holds it. -/
def Table.items : Table → Object → Option (List HashItem)
  | .data, .dataHashTable object => some object.items
  | .field, .fieldHashTable object => some object.items
  | _, _ => none

/-- The journal has all its objects of the type in the chains of this table. -/
structure Chained (image : JournalImage) (table : Table)
    (chains : List (List (UInt64 × StoredObject))) : Prop where
  held : ∃ placed ∈ image.placed, ∃ items, table.items placed.2.object = some items ∧
    table.range image.header = (placed.1 + hashTableItemsOffset,
      placed.2.object.header.size - hashTableItemsOffset) ∧
    items ≠ [] ∧ List.Forall₂ ChainOf items chains
  complete : chains.flatten.Perm
    (image.placed.filter fun placed => placed.2.object.type = table.objectType)

theorem HashItem.render_length (host : Endian) (item : HashItem) :
    (render host item.parts).length = 16 := by
  rw [ByteOrder.render_length]
  simp [parts, Part.width, u64]

/-- The buckets are what was laid out. -/
theorem items_ofMemory (host : Endian) (items : List HashItem) :
    ((List.range items.length).map fun i =>
      ({ headHashOffset := readU64 host (render host (items.map HashItem.parts).flatten) (16 * i)
         tailHashOffset :=
           readU64 host (render host (items.map HashItem.parts).flatten) (16 * i + 8) } : HashItem)) =
      items := by
  induction items with
  | nil => rfl
  | cons item items ih =>
    have first (off : Nat) (value : UInt64) (listed : (8, off, value.toNat) ∈ numbersOf 0 item.parts) :
        readU64 host (render host ((item :: items).map HashItem.parts).flatten) off = value := by
      rw [List.map_cons, List.flatten_cons, render_append]
      exact readU64_render host (by simp [HashItem.parts, u64_fits]) listed _
    have rest (off : Nat) :
        readU64 host (render host ((item :: items).map HashItem.parts).flatten) (16 + off) =
          readU64 host (render host (items.map HashItem.parts).flatten) off := by
      rw [List.map_cons, List.flatten_cons, render_append, readU64, readU64, ← List.drop_drop,
        List.drop_left' (item.render_length host)]
    have shift (i : Nat) : 16 * (i + 1) = 16 + 16 * i := by omega
    rw [List.length_cons, List.range_succ_eq_map, List.map_cons, List.map_map]
    congr 1
    · rw [Nat.mul_zero, Nat.zero_add, first 0 item.headHashOffset (by simp [HashItem.parts, numbersOf, u64]),
        first 8 item.tailHashOffset (by simp [HashItem.parts, numbersOf, u64])]
    · refine Eq.trans (List.map_congr_left fun i _ => ?_) ih
      simp only [Function.comp_apply, Nat.succ_eq_add_one, shift, Nat.add_assoc, rest]

theorem BackToBack.nodup {file : JournalFile} {off : Nat} {objects : List (UInt64 × ObjectHeader)}
    (consecutive : BackToBack file off objects) : (objects.map Prod.fst).Nodup := by
  induction objects generalizing off with
  | nil => exact .nil
  | cons object objects ih =>
    obtain ⟨here, -, large, -, rest⟩ := consecutive
    refine List.nodup_cons.mpr ⟨fun again => ?_, ih rest⟩
    obtain ⟨other, member, same⟩ := List.mem_map.mp again
    have later := rest.le member
    have grown := le_roundUp8 object.2.size.toNat
    rw [same] at later
    omega

/-- The fixed part of an object is on the disk. -/
theorem Table.sizeofObject_le {table : Table} {stored : StoredObject}
    (type : stored.object.type = table.objectType) :
    table.sizeofObject.toNat ≤ (stored.object.layout .little).length := by
  obtain ⟨object, typed, sized⟩ := stored
  have fixed : sizeofDataObject.toNat = 64 ∧ sizeofFieldObject.toNat = 40 := by decide
  dsimp only at type ⊢
  rw [Object.layout, ByteOrder.render_length]
  cases table with
  | data =>
    cases object with
    | data object =>
      simp [sizeofObject, fixed, Object.parts, Object.fields, HashedObjectHeader.fields,
        DataObject.fields, Part.width, u64]
      omega
    | _ => cases type
  | field =>
    cases object with
    | field object =>
      simp [sizeofObject, fixed, Object.parts, Object.fields, HashedObjectHeader.fields,
        FieldObject.fields, Part.width, u64]
      omega
    | _ => cases type

theorem Table.loads {table : Table} {stored : StoredObject}
    (type : stored.object.type = table.objectType) {iterObjectSize : UInt64}
    (size : iterObjectSize = sizeofHashedObjectHeader ∨ iterObjectSize = table.sizeofObject) :
    stored.object.Loads iterObjectSize := by
  obtain ⟨object, typed, sized⟩ := stored
  dsimp only at type ⊢
  cases table with
  | data =>
    cases object with
    | data object => exact size.imp_right fun same => (UInt64.le_of_eq same.symm)
    | _ => cases type
  | field =>
    cases object with
    | field object => exact size.imp_right fun same => (UInt64.le_of_eq same.symm)
    | _ => cases type

section Chains

variable {image : JournalImage} {table : Table} {chains : List (List (UInt64 × StoredObject))}

/-- The object that holds a table has its buckets and nothing else. -/
theorem Table.layout {object : Object} {items : List HashItem}
    (holds : table.items object = some items) :
    object.layout .little = render .little object.header.parts ++
      render .little (items.map HashItem.parts).flatten := by
  cases table with
  | data =>
    cases object with
    | dataHashTable object =>
      obtain rfl := Option.some.inj holds
      rw [Object.layout_eq]
      rfl
    | _ => cases holds
  | field =>
    cases object with
    | fieldHashTable object =>
      obtain rfl := Option.some.inj holds
      rw [Object.layout_eq]
      rfl
    | _ => cases holds

/-- The table in the file is the one in the object. -/
theorem hashTable_items {placed : UInt64 × StoredObject} {items : List HashItem}
    (member : placed ∈ image.placed) (holds : table.items placed.2.object = some items) :
    let offset := placed.1 + hashTableItemsOffset
    let size := placed.2.object.header.size - hashTableItemsOffset
    (image.file.hashTable offset size).items = items ∧ size.toNat = 16 * items.length ∧
      offset.toNat + size.toNat ≤ image.file.size := by
  intro offset size
  have lies := image.lie placed member
  have bytes := lies.bytes
  have inside := lies.inside
  have bound := image.file.size_lt
  have layout := Table.layout holds
  have head : (render .little placed.2.object.header.parts).length = 16 :=
    ObjectHeader.render_length ..
  have width : (render .little (items.map HashItem.parts).flatten).length = items.length * 16 := by
    rw [ByteOrder.render_length]
    exact items_width fun _ => rfl
  have length : (placed.2.object.layout .little).length = 16 + items.length * 16 := by
    rw [layout, List.length_append, head, width]
  have sized := placed.2.sized
  have fixed : hashTableItemsOffset.toNat = 16 := rfl
  have start : offset.toNat = placed.1.toNat + 16 := by
    rw [UInt64.toNat_add, fixed, Nat.mod_eq_of_lt (by omega)]
  have many : size.toNat = 16 * items.length := by
    rw [UInt64.toNat_sub_of_le _ _ (by rw [UInt64.le_iff_toNat_le, fixed]; omega), fixed]
    omega
  have slice : image.file.slice offset.toNat size.toNat =
      render .little (items.map HashItem.parts).flatten := by
    have part := bytesAt_sub image.file.byte placed.1.toNat (i := 16) (n := size.toNat)
      (show 16 + size.toNat ≤ (placed.2.object.layout .little).length by omega)
    rw [JournalFile.slice, start, ← part]
    rw [JournalFile.slice] at bytes
    rw [bytes, layout, List.drop_left' head, List.take_of_length_le (by omega)]
  refine ⟨?_, many, by omega⟩
  have buckets : (size / sizeofHashItem).toNat = items.length := by
    rw [UInt64.toNat_div, many, sizeofHashItem_toNat, Nat.mul_div_cancel_left _ (by decide)]
  rw [JournalFile.hashTable, HashTable.ofMemory, slice]
  simp only [buckets, sizeofHashItem_toNat]
  exact items_ofMemory .little items

/-- What is chained is a well-formed table. -/
theorem Chained.wellFormedTable (chained : Chained image table chains) {iterObjectSize : UInt64}
    (size : iterObjectSize = sizeofHashedObjectHeader ∨ iterObjectSize = table.sizeofObject) :
    WellFormedTable image.file
      (image.file.hashTable (table.range image.header).1 (table.range image.header).2)
      iterObjectSize chains := by
  obtain ⟨placed, member, items, holds, range, some, forall₂⟩ := chained.held
  obtain ⟨loaded, -⟩ := hashTable_items member holds
  rw [range]
  constructor
  · rw [loaded]
    exact List.length_pos_iff.mpr some
  · rwa [loaded]
  · have distinct := image.wellFormed.consecutive.nodup
    rw [List.map_map] at distinct
    refine (chained.complete.map Prod.fst).nodup_iff.mpr ?_
    exact distinct.sublist (List.filter_sublist.map Prod.fst)
  · intro object listed
    obtain ⟨inImage, typed⟩ := List.mem_filter.mp (chained.complete.mem_iff.mp listed)
    have type := of_decide_eq_true typed
    have lies := image.lie object inImage
    have first := image.wellFormed.consecutive.le (List.mem_map_of_mem (f := shown) inImage)
    have start := image.starts
    have inside := lies.inside
    have fixed := Table.sizeofObject_le type
    refine ⟨fun zero => ?_, lies.bytes, ?_, Table.loads type size⟩
    · rw [shown, zero] at first
      have none : (0 : UInt64).toNat = 0 := rfl
      omega
    · have small : sizeofHashedObjectHeader.toNat ≤ table.sizeofObject.toNat := by
        cases table <;> decide
      have few : table.sizeofObject.toNat < 2 ^ 31 := by cases table <;> decide
      unfold Readable
      rcases size with rfl | rfl <;> omega

end Chains

/-! ## A walk over a table and one over all objects -/

/-- The header of a journal and the table that was loaded. -/
structure TableFoo where
  header : Header
  hashTable : Option HashTable

/-- `journal_get_header`, and then `journal_get_hash_table` as the header says. -/
def loadTable (alloc : UInt64 → Bool) (host : Endian) (table : Table) (foo : TableFoo) :
    Reading TableFoo :=
  (journalGetHeader host foo fun header => { foo with header }).andThen fun foo =>
    journalGetHashTable alloc host (table.range foo.header).1 (table.range foo.header).2 foo
      fun hashTable => { foo with hashTable := some hashTable }

theorem exec_loadTable {image : JournalImage} {table : Table}
    {chains : List (List (UInt64 × StoredObject))} (chained : Chained image table chains)
    {alloc : UInt64 → Bool} (room : alloc (table.range image.header).2 = true)
    (short : (table.range image.header).2.toNat < 2 ^ 31) (host : Endian) (foo : TableFoo) :
    exec (fileReader image.file) () (loadTable alloc host table foo) = .ok ((), .dispatched
      { header := image.header
        hashTable := some (image.file.hashTable (table.range image.header).1
          (table.range image.header).2) }) := by
  obtain ⟨placed, member, items, holds, range, some, -⟩ := chained.held
  obtain ⟨-, many, inside⟩ := hashTable_items member holds
  have length := List.length_pos_iff.mpr some
  rw [loadTable, exec_andThen, exec_journalGetHeader image.large, image.header_eq]
  dsimp only
  rw [range] at room short ⊢
  exact exec_journalGetHashTable room _ _ (by dsimp only; omega) ⟨short, inside⟩

/-- Which objects an iteration shows with a type. -/
theorem shown_of_type (placed : List (UInt64 × StoredObject)) (type : ObjectType) :
    ((placed.map shown).filter fun object => object.2.type = type.toByte).map Prod.fst =
      (placed.filter fun placed => placed.2.object.type = type).map Prod.fst := by
  have same : ((fun object : UInt64 × ObjectHeader => decide (object.2.type = type.toByte)) ∘ shown) =
      fun placed => decide (placed.2.object.type = type) := by
    funext placed
    simp only [Function.comp_apply, shown, placed.2.typed, ObjectType.toByte_injective.eq_iff]
  rw [List.filter_map, List.map_map, same]
  rfl

/-- A walk over a table a journal names shows the objects a walk over all its objects
shows, of the type that is chained into the table; but for the first bucket. -/
theorem table_shows_the_objects {υ τ : Type} {image : JournalImage} {table : Table}
    {chains : List (List (UInt64 × StoredObject))} (chained : Chained image table chains)
    {iterObjectSize : UInt64}
    (size : iterObjectSize = sizeofHashedObjectHeader ∨ iterObjectSize = table.sizeofObject)
    {kernel : Kernel} (serves : kernel.ServesFile image.file) (reliable : kernel.Reliable)
    (alloc : UInt64 → Bool) (room : alloc (table.range image.header).2 = true)
    (short : (table.range image.header).2.toNat < 2 ^ 31) (host : Endian)
    {cache : Cache} (invariant : CacheInvariant image.file cache.journal) (foo : TableFoo)
    {closure : HashHandler υ} (accepts : ∀ cells, closure.Accepts cells)
    {scan : Handler τ} (scans : ∀ object, Accepts scan object) {fuel : Nat}
    (enough : image.objects.length < fuel) (bytes : List UInt8) (user : υ) (cells : Iteration τ) :
    ∃ cache' loaded, exec (cachedReader kernel) cache (loadTable alloc host table foo) =
        .ok (cache', .dispatched ⟨image.header, some loaded⟩) ∧
      ∃ walked trace, journalHashTableForEach (cachedReader kernel) host loaded iterObjectSize
          closure fuel cache' ⟨⟨0, 0, bytes⟩, user⟩ = .ok (walked, trace, .finished) ∧
        ∃ scanned objects, journalIterObjects (cachedReader kernel) host image.header scan fuel
            cache cells = .ok (scanned, objects, .finished) ∧
          ∃ first, chains.head? = some first ∧
            (first.map Prod.fst ++ trace.dropLast.map (fun hashed => hashed.cells.iterOffset)).Perm
              ((objects.dropLast.map Iteration.object).filter
                (fun object => object.2.type = table.objectType.toByte) |>.map Prod.fst) := by
  have refines := cachedReader_refines serves reliable
  have wellFormed := chained.wellFormedTable size
  obtain ⟨cache', loads, kept⟩ := exec_refines refines invariant
    (exec_loadTable chained room short host foo)
  refine ⟨cache', _, loads, ?_⟩
  have large : 32 ≤ iterObjectSize.toNat := by
    rcases size with rfl | rfl
    · decide
    · cases table <;> decide
  have length : chains.flatten.length ≤ image.objects.length := by
    rw [chained.complete.length_eq, ← placeFrom_length image.header.headerSize.toNat image.objects]
    exact List.length_filter_le ..
  have buckets := wellFormed.positive
  rw [wellFormed.chained.length_eq] at buckets
  obtain ⟨first, rest, rfl⟩ := List.exists_cons_of_length_pos buckets
  rw [List.flatten_cons, List.length_append] at length
  obtain ⟨walked, trace, ended, walk, -, dispatched⟩ := forEach_run serves reliable wellFormed large
    host cache' kept closure (fun cells _ => accepts cells) (fun cells _ => accepts cells)
    (show rest.flatten.length < fuel by omega) ⟨⟨0, 0, bytes⟩, user⟩ (by
      rw [UInt64.lt_iff_toNat_lt, ← HashTable.items_length]
      exact wellFormed.positive)
  refine ⟨walked, trace, walk, ?_⟩
  obtain ⟨last, -, iterates⟩ := image.iterates (υ := τ) serves reliable host invariant
  obtain ⟨scanned, objects, scan, shows, -⟩ := iterates scan cells fuel (fun object _ => scans object)
    enough
  refine ⟨scanned, objects, scan, first, rfl, ?_⟩
  have visited : trace.dropLast.map (fun hashed => hashed.cells.iterOffset) =
      rest.flatten.map Prod.fst := by
    have cells := congrArg List.dropLast dispatched
    rw [List.dropLast_concat, ← List.map_dropLast, List.tail_cons] at cells
    rw [← tableVisits_offsets host image.file iterObjectSize 1 rest, ← cells, List.map_map]
    rfl
  have listed : objects.dropLast.map Iteration.object = image.placed.map shown := by
    rw [List.map_dropLast, shows, List.dropLast_concat]
  rw [visited, listed, ← List.map_append, ← List.flatten_cons, shown_of_type]
  exact chained.complete.map Prod.fst

/-! ## A journal with a table of two buckets -/

/-- Each of two field objects in a bucket of its own. -/
def twoBuckets : StoredObject where
  object := .fieldHashTable {
    object := ⟨ObjectType.fieldHashTable.toByte, 0, .replicate 6 0, 48⟩
    items := [⟨304, 304⟩, ⟨352, 352⟩] }
  typed := rfl
  sized := by decide

/-- The table and the two field objects. -/
def twoChained : JournalImage where
  header := { (default : Header) with
    headerSize := 256
    fieldHashTableOffset := 272
    fieldHashTableSize := 32
    tailObjectOffset := 352 }
  gap := []
  objects := [twoBuckets, messageField, messageField]
  waste := []
  starts := rfl
  aligned := rfl
  last := by decide
  small := by
    simp only [List.length_append, Header.render_length, List.flatMap_cons, List.flatMap_nil,
      StoredObject.padded_length, List.length_nil]
    decide

theorem twoChained_chained :
    Chained twoChained .field [[(304, messageField)], [(352, messageField)]] where
  held := by
    have chainOf (offset : UInt64) : ChainOf ⟨offset, offset⟩ [(offset, messageField)] :=
      ⟨nofun, by simp, List.isChain_singleton _, by simp⟩
    exact ⟨(256, twoBuckets), .head _, _, rfl, rfl, by decide,
      .cons (chainOf 304) (.cons (chainOf 352) .nil)⟩
  complete := by
    have filtered : (twoChained.placed.filter fun placed =>
        placed.2.object.type = Table.field.objectType) =
          [(304, messageField), (352, messageField)] := rfl
    rw [filtered]
    exact .refl _

theorem hash_table_is_loaded_twoBuckets :
    ∃ journal, freshJournal "system.journal" 3 0 = .ok journal ∧
      (∃ cache', exec (cachedReader (fileKernel twoChained.file)) ⟨journal, 0⟩
          (journalGetHashTable (fun _ => true) .big 272 32 none some) =
        .ok (cache', .dispatched (some (twoChained.file.hashTable 272 32)))) ∧
      exec (cachedReader (fileKernel twoChained.file)) ⟨journal, 0⟩
          (journalGetHashTable (fun _ => true) .big 272 0 none some) = .error .assertion := by
  obtain ⟨journal, ready, -⟩ := freshJournal_spec "system.journal" 3 0
  have loads (size : UInt64) := hash_table_is_loaded (fileKernel_servesFile twoChained.file)
    (fileKernel_reliable _) (fun _ => true) .big 272 size none some
    (show CacheInvariant twoChained.file (Cache.mk journal 0).journal from .fresh ready)
  have inside : (272 : UInt64).toNat + (32 : UInt64).toNat ≤ twoChained.file.size :=
    le_trans (by decide) (twoChained.lie (256, twoBuckets) (.head _)).inside
  obtain ⟨cache', ran, -⟩ := (loads 32).2.2.1 rfl (by decide) ⟨by decide, inside⟩
  exact ⟨journal, ready, ⟨cache', ran⟩, (loads 0).2.1 rfl rfl⟩

theorem table_shows_the_objects_twoBuckets :
    ∃ journal, freshJournal "system.journal" 3 0 = .ok journal ∧
      ∃ cache' loaded, exec (cachedReader (fileKernel twoChained.file)) ⟨journal, 0⟩
          (loadTable (fun _ => true) .big .field ⟨default, none⟩) =
        .ok (cache', .dispatched ⟨twoChained.header, some loaded⟩) ∧
      ∃ walked trace, journalHashTableForEach (cachedReader (fileKernel twoChained.file)) .big loaded
          sizeofFieldObject (fun _ n => .ok (0, n + 1)) 4 cache' ⟨⟨0, 0, []⟩, 0⟩ =
            .ok (walked, trace, .finished) ∧
        ∃ scanned objects, journalIterObjects (cachedReader (fileKernel twoChained.file)) .big
            twoChained.header (fun _ _ n => .ok (0, n + 1)) 4 ⟨journal, 0⟩
            ⟨0, ⟨0, 0, .replicate 6 0, 0⟩, 0⟩ = .ok (scanned, objects, .finished) ∧
          (304 :: trace.dropLast.map fun hashed => hashed.cells.iterOffset).Perm
            ((objects.dropLast.map Iteration.object).filter
              (fun object => object.2.type = ObjectType.field.toByte) |>.map Prod.fst) := by
  obtain ⟨journal, ready, -⟩ := freshJournal_spec "system.journal" 3 0
  have counts : ∀ cells : HashCells, HashHandler.Accepts (fun _ n => .ok (0, n + 1)) cells :=
    fun _ n => ⟨0, n + 1, rfl, le_rfl⟩
  have scans : ∀ object, Accepts (fun _ _ n => .ok (0, n + 1)) object :=
    fun _ n => ⟨0, n + 1, rfl, le_rfl⟩
  obtain ⟨cache', loaded, ran, walked, trace, walk, scanned, objects, scan, first, head, same⟩ :=
    table_shows_the_objects twoChained_chained (.inr rfl) (fileKernel_servesFile _)
      (fileKernel_reliable _) (fun _ => true) rfl
      (show twoChained.header.fieldHashTableSize.toNat < 2 ^ 31 by decide) .big
      (show CacheInvariant twoChained.file (Cache.mk journal 0).journal from .fresh ready)
      ⟨default, none⟩ counts scans (show 3 < 4 by decide) [] 0 ⟨0, ⟨0, 0, .replicate 6 0, 0⟩, 0⟩
  obtain rfl : [(304, messageField)] = first := Option.some.inj head
  exact ⟨journal, ready, cache', loaded, ran, walked, trace, walk, scanned, objects, scan, same⟩

end Jio
