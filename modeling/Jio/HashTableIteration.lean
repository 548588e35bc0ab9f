import Jio.ObjectDecode
import Jio.ObjectIteration

/-! `journal_hash_table_iter_next_object` and `journal_hash_table_for_each`. The
walk goes through the buckets of a loaded table and along the chain of each,
and like the walk over all objects it is driven by the closure it dispatches. -/
namespace Jio
open ByteOrder ReadProgram

/-! ## The walk -/

/-- A hash table as `got_hashtable` leaves it: `size` bytes of buckets. -/
structure HashTable where
  size : UInt64
  items : List HashItem
  loaded : items.length = (size / sizeofHashItem).toNat

/-- `nbuckets`. -/
def HashTable.nbuckets (table : HashTable) : UInt64 := table.size / sizeofHashItem

/-- `*iter_bucket`, `*iter_offset` and the memory of `*iter_object_header`. -/
structure HashCells where
  iterBucket : UInt64
  iterOffset : UInt64
  iterObjectHeader : List UInt8

/-- The cells, and what the closure keeps. -/
structure HashIteration (υ : Type) where
  cells : HashCells
  user : υ

variable {υ : Type}

/-- The `do` loop: on to the next bucket that has a head, where there is one. The
list ends where `*iter_bucket` reaches `nbuckets`. -/
def nextHead : List HashItem → UInt64 → Option (UInt64 × UInt64)
  | [], _ => none
  | item :: items, bucket =>
    if item.headHashOffset ≠ 0 then some (bucket, item.headHashOffset)
    else nextHead items (bucket + 1)

/-- Which bucket and which offset come after the object in the cells. -/
def HashCells.advance (host : Endian) (table : HashTable) (cells : HashCells) :
    Option (UInt64 × UInt64) :=
  -- restart iterating when entered with (*iter_offset == 0)
  let iterBucket := if cells.iterOffset = 0 then 0 else cells.iterBucket
  if cells.iterOffset ≠ 0 ∧ (table.items[iterBucket.toNat]?.map HashItem.tailHashOffset) ≠
      some cells.iterOffset then
    some (iterBucket, readU64 host cells.iterObjectHeader 24)
  else nextHead (table.items.drop (iterBucket.toNat + 1)) (iterBucket + 1)

/-- `journal_hash_table_iter_next_object`. -/
def journalHashTableIterNextObject (host : Endian) (table : HashTable) (iterObjectSize : UInt64)
    (iteration : HashIteration υ) : Reading (HashIteration υ) :=
  if ¬table.size ≥ sizeofHashItem then .abort .assertion
  else if ¬iterObjectSize ≥ sizeofHashedObjectHeader then .abort .assertion
  else if ¬iteration.cells.iterBucket < table.nbuckets then .abort .assertion
  else
    match iteration.cells.advance host table with
    | none => .dispatch { iteration with
        cells.iterBucket := table.nbuckets
        cells.iterOffset := 0 }
    | some (iterBucket, iterOffset) =>
      let iteration := { iteration with
        cells.iterBucket := iterBucket
        cells.iterOffset := iterOffset }
      .read (iterOffset, iterObjectSize) iteration fun mem =>
        match gotHashTableIterObjectHeader host table.size iterBucket iterObjectSize mem with
        | .error fault => .abort fault
        | .ok iterObjectHeader =>
          .dispatch { iteration with cells.iterObjectHeader := iterObjectHeader }

/-- A closure given to `journal_hash_table_for_each`. -/
abbrev HashHandler (υ : Type) := HashCells → υ → Except Fault (Int × υ)

/-- `journal_hash_table_for_each_dispatch`, up to where it goes on. -/
def journalHashTableForEachDispatch (closure : HashHandler υ) (iteration : HashIteration υ) :
    Reading (HashIteration υ) :=
  match closure iteration.cells iteration.user with
  | .error fault => .abort fault
  | .ok (r, user) =>
    if r < 0 then .fail r { iteration with user } else .dispatch { iteration with user }

/-- `if (!*iter_offset)`. -/
def HashIteration.ended (iteration : HashIteration υ) : Bool := iteration.cells.iterOffset = 0

/-- `journal_hash_table_for_each`, for at most `fuel` dispatches. -/
def journalHashTableForEach {ρ : Type} (reader : Reader (UInt64 × UInt64) (List UInt8) Int Fault ρ)
    (host : Endian) (table : HashTable) (iterObjectSize : UInt64) (closure : HashHandler υ)
    (fuel : Nat) (r : ρ) (iteration : HashIteration υ) :
    Except Fault (ρ × List (HashIteration υ) × LoopEnd Int) :=
  loop reader
    (fun iteration => (journalHashTableIterNextObject host table iterObjectSize iteration).andThen
      (journalHashTableForEachDispatch closure))
    HashIteration.ended fuel r { iteration with cells.iterOffset := 0 }

/-! ## Well-formed tables -/

/-- `next_hash_offset`, of the objects that have one. -/
def Object.nextHashOffset : Object → UInt64
  | .data object => object.hashed.nextHashOffset
  | .field object => object.hashed.nextHashOffset
  | _ => 0

/-- The file holds this object at this offset, as many bytes of it as an
iteration loads can be read, and the iteration loads such objects. -/
structure StoredAt (file : JournalFile) (iterObjectSize : UInt64) (offset : UInt64)
    (stored : StoredObject) : Prop where
  nonzero : offset ≠ 0
  bytes : file.slice offset.toNat (stored.object.layout .little).length =
    stored.object.layout .little
  readable : Readable file offset iterObjectSize
  loads : stored.object.Loads iterObjectSize

/-- The chain of a bucket: from its head, along the objects, to its tail. -/
structure ChainOf (item : HashItem) (chain : List (UInt64 × StoredObject)) : Prop where
  empty : chain = [] → item.headHashOffset = 0 ∧ item.tailHashOffset = 0
  head : ∀ first ∈ chain.head?, item.headHashOffset = first.1
  linked : List.IsChain (fun a b => a.2.object.nextHashOffset = b.1) chain
  tail : ∀ last ∈ chain.getLast?, item.tailHashOffset = last.1

/-- The buckets of the table have these chains, and no object is in two places. -/
structure WellFormedTable (file : JournalFile) (table : HashTable) (iterObjectSize : UInt64)
    (chains : List (List (UInt64 × StoredObject))) : Prop where
  positive : 0 < table.items.length
  chained : List.Forall₂ ChainOf table.items chains
  distinct : (chains.flatten.map Prod.fst).Nodup
  stored : ∀ object ∈ chains.flatten, StoredAt file iterObjectSize object.1 object.2

/-- What an iteration leaves at `*iter_object_header`: the object as the host
reads it, as far as it is loaded, and beyond the object what follows it. -/
def decodedPrefix (host : Endian) (file : JournalFile) (iterObjectSize : UInt64)
    (object : UInt64 × StoredObject) : List UInt8 :=
  let length := (object.2.object.layout .little).length
  (object.2.object.layout host ++
    file.slice (object.1.toNat + length) iterObjectSize.toNat).take iterObjectSize.toNat

/-! ## One step -/

theorem Object.Loads.large {object : Object} {iterObjectSize : UInt64}
    (loads : object.Loads iterObjectSize) : 32 ≤ iterObjectSize.toNat := by
  have fixed : sizeofHashedObjectHeader.toNat = 32 ∧ sizeofDataObject.toNat = 64 ∧
    sizeofFieldObject.toNat = 40 := by decide
  cases object with
  | data object | field object =>
    simp only [Object.Loads, UInt64.le_iff_toNat_le, ← UInt64.toNat_inj] at loads
    omega
  | entry object | dataHashTable object | fieldHashTable object | entryArray object
  | tag object => exact loads.elim

/-- The loaded part of an object ends in the link of its chain. -/
theorem decodedPrefix_next (host : Endian) (file : JournalFile) {iterObjectSize : UInt64}
    {object : UInt64 × StoredObject} (loads : object.2.object.Loads iterObjectSize) :
    readU64 host (decodedPrefix host file iterObjectSize object) 24 =
      object.2.object.nextHashOffset := by
  obtain ⟨offset, ⟨object, typed, sized⟩⟩ := object
  obtain ⟨rest, loaded⟩ := Object.take_layout loads
    (file.slice (offset.toNat + (object.layout .little).length) iterObjectSize.toNat)
  dsimp only at loads loaded ⊢
  rw [decodedPrefix, loaded, Object.prefixParts]
  cases object with
  | data object | field object =>
    split
    · simp only [Object.header, Object.fields]
      rw [HashedObjectHeader.render_behind, object.hashed.next_inMemory]
      rfl
    · exact object.hashed.next_inMemory host rest
  | entry object | dataHashTable object | fieldHashTable object | entryArray object
  | tag object => exact loads.elim

section Steps

variable {file : JournalFile} {table : HashTable} {iterObjectSize : UInt64} {host : Endian}

/-- What the file holds where an object is stored is converted to its prefix. -/
theorem StoredAt.decoded {offset : UInt64} {stored : StoredObject}
    (at_ : StoredAt file iterObjectSize offset stored) {iterBucket : UInt64}
    (inTable : iterBucket < table.size) :
    gotHashTableIterObjectHeader host table.size iterBucket iterObjectSize
        (file.slice offset.toNat iterObjectSize.toNat) =
      .ok (decodedPrefix host file iterObjectSize (offset, stored)) := by
  have loaded : file.slice offset.toNat iterObjectSize.toNat =
      (stored.object.layout .little ++ file.slice
        (offset.toNat + (stored.object.layout .little).length) iterObjectSize.toNat).take
          iterObjectSize.toNat := by
    have bytes := at_.bytes
    generalize (stored.object.layout .little).length = length at bytes ⊢
    have whole := bytesAt_append file.byte offset.toNat length iterObjectSize.toNat
    have start := bytesAt_sub file.byte offset.toNat (i := 0)
      (show 0 + iterObjectSize.toNat ≤ length + iterObjectSize.toNat by omega)
    rw [← bytes, JournalFile.slice, JournalFile.slice, JournalFile.slice, whole]
    exact start.symm
  rw [loaded]
  exact gotHashTableIterObjectHeader_layout host stored inTable at_.loads _

theorem HashTable.items_length (table : HashTable) :
    table.items.length = table.nbuckets.toNat := table.loaded

theorem HashTable.nbuckets_toNat (table : HashTable) :
    table.nbuckets.toNat = table.size.toNat / 16 := UInt64.toNat_div ..

/-- One call of `journal_hash_table_iter_next_object` takes the cells from `a` to `b`. -/
def TableLeads (file : JournalFile) (table : HashTable) (iterObjectSize : UInt64) (host : Endian)
    (a b : HashCells) : Prop :=
  ∀ (υ : Type) (user : υ), Dispatches (fileReader file)
    (journalHashTableIterNextObject host table iterObjectSize)
    ((), ⟨a, user⟩) ((), ⟨b, user⟩)

theorem TableLeads.steps (a b : HashCells) (user : υ)
    (leads : TableLeads file table iterObjectSize host a b) :
    Dispatches (fileReader file) (journalHashTableIterNextObject host table iterObjectSize)
      ((), HashIteration.mk a user) ((), HashIteration.mk b user) :=
  leads υ user

/-- The cells an object of a bucket is dispatched with. -/
def objectCells (host : Endian) (file : JournalFile) (iterObjectSize iterBucket : UInt64)
    (object : UInt64 × StoredObject) : HashCells :=
  ⟨iterBucket, object.1, decodedPrefix host file iterObjectSize object⟩

/-- Cells in a bucket of the table pass the assertions on the table. -/
theorem asserted {iterBucket : UInt64} (large : 32 ≤ iterObjectSize.toNat)
    (entered : iterBucket < table.nbuckets) :
    table.size ≥ sizeofHashItem ∧ iterObjectSize ≥ sizeofHashedObjectHeader := by
  have sizes : sizeofHashItem.toNat = 16 ∧ sizeofHashedObjectHeader.toNat = 32 := by decide
  have buckets := table.nbuckets_toNat
  rw [UInt64.lt_iff_toNat_lt] at entered
  rw [ge_iff_le, ge_iff_le, UInt64.le_iff_toNat_le, UInt64.le_iff_toNat_le]
  omega

/-- The object that comes next is read and dispatched. -/
theorem tableLeads_object {a : HashCells} {iterBucket : UInt64} {object : UInt64 × StoredObject}
    (entered : a.iterBucket < table.nbuckets) (inTable : iterBucket < table.nbuckets)
    (next : a.advance host table = some (iterBucket, object.1))
    (stored : StoredAt file iterObjectSize object.1 object.2) :
    TableLeads file table iterObjectSize host a
      (objectCells host file iterObjectSize iterBucket object) := by
  intro υ user
  have large := stored.loads.large
  have buckets := table.nbuckets_toNat
  obtain ⟨sized, roomy⟩ := asserted large entered
  rw [UInt64.lt_iff_toNat_lt] at inTable
  have known : iterBucket < table.size := by rw [UInt64.lt_iff_toNat_lt]; omega
  have read : fileReader file () (object.1, iterObjectSize) =
      .ok ((), .ok (file.slice object.1.toNat iterObjectSize.toNat)) :=
    fileReader_inside (by omega) stored.readable
  rw [Dispatches, journalHashTableIterNextObject, if_neg (not_not.mpr sized),
    if_neg (not_not.mpr roomy), if_neg (not_not.mpr entered), next]
  simp only [exec, read, stored.decoded known]
  rfl

/-- Where no object comes next, the end is dispatched. -/
theorem tableLeads_end {a : HashCells} (large : 32 ≤ iterObjectSize.toNat)
    (entered : a.iterBucket < table.nbuckets) (next : a.advance host table = none) :
    TableLeads file table iterObjectSize host a ⟨table.nbuckets, 0, a.iterObjectHeader⟩ := by
  intro υ user
  obtain ⟨sized, roomy⟩ := asserted large entered
  rw [Dispatches, journalHashTableIterNextObject, if_neg (not_not.mpr sized),
    if_neg (not_not.mpr roomy), if_neg (not_not.mpr entered), next]
  rfl

end Steps

/-! ## Whole tables -/

/-- The objects of the chains, from a bucket on, as iteration should dispatch them. -/
def tableVisits (host : Endian) (file : JournalFile) (iterObjectSize : UInt64) :
    UInt64 → List (List (UInt64 × StoredObject)) → List HashCells
  | _, [] => []
  | iterBucket, chain :: chains =>
    chain.map (objectCells host file iterObjectSize iterBucket) ++
      tableVisits host file iterObjectSize (iterBucket + 1) chains

theorem tableVisits_offsets (host : Endian) (file : JournalFile)
    (iterObjectSize iterBucket : UInt64) (chains : List (List (UInt64 × StoredObject))) :
    (tableVisits host file iterObjectSize iterBucket chains).map HashCells.iterOffset =
      chains.flatten.map Prod.fst := by
  induction chains generalizing iterBucket with
  | nil => rfl
  | cons chain chains ih =>
    rw [tableVisits, List.map_append, List.map_map, ih, List.flatten_cons, List.map_append]
    rfl

section Walk

variable {file : JournalFile} {table : HashTable} {iterObjectSize : UInt64} {host : Endian}

/-- At the tail of its chain, the walk goes on to the next bucket with a head. -/
theorem advance_tail {a : HashCells} {item : HashItem}
    (here : table.items[a.iterBucket.toNat]? = some item) (nonzero : a.iterOffset ≠ 0)
    (tail : item.tailHashOffset = a.iterOffset) :
    a.advance host table =
      nextHead (table.items.drop (a.iterBucket.toNat + 1)) (a.iterBucket + 1) := by
  simp only [HashCells.advance, if_neg nonzero, here, Option.map_some, tail, ne_eq,
    not_true_eq_false, and_false, ↓reduceIte]

/-- Before the tail of its chain, the walk follows the link of the object. -/
theorem advance_chain {a : HashCells} {item : HashItem}
    (here : table.items[a.iterBucket.toNat]? = some item) (nonzero : a.iterOffset ≠ 0)
    (before : item.tailHashOffset ≠ a.iterOffset) :
    a.advance host table = some (a.iterBucket, readU64 host a.iterObjectHeader 24) := by
  simp only [HashCells.advance, if_neg nonzero, here, Option.map_some]
  rw [if_pos ⟨nonzero, fun same => before (Option.some.inj same)⟩]

variable (host) in
theorem advance_start {a : HashCells} (restarts : a.iterOffset = 0) :
    a.advance host table = nextHead (table.items.drop 1) 1 := by
  simp only [HashCells.advance, restarts, ne_eq, not_true_eq_false, false_and, ↓reduceIte]
  rfl

/-- The objects of one chain are dispatched one after the other, up to its tail. -/
private theorem chain_walk {item : HashItem} {bucket : UInt64}
    (here : table.items[bucket.toNat]? = some item) {object last : UInt64 × StoredObject}
    {rest : List (UInt64 × StoredObject)} {more : List HashCells}
    (linked : List.IsChain (fun a b => a.2.object.nextHashOffset = b.1) (object :: rest))
    (final : (object :: rest).getLast? = some last) (tail : item.tailHashOffset = last.1)
    (distinct : ((object :: rest).map Prod.fst).Nodup)
    (stored : ∀ object' ∈ object :: rest, StoredAt file iterObjectSize object'.1 object'.2)
    (after : List.IsChain (TableLeads file table iterObjectSize host)
      (objectCells host file iterObjectSize bucket last :: more)) :
    List.IsChain (TableLeads file table iterObjectSize host)
      (objectCells host file iterObjectSize bucket object ::
        (rest.map (objectCells host file iterObjectSize bucket) ++ more)) := by
  induction rest generalizing object with
  | nil =>
    obtain rfl : object = last := by simpa using final
    exact after
  | cons next rest ih =>
    obtain ⟨link, linked⟩ := List.isChain_cons_cons.mp linked
    have inTable : bucket < table.nbuckets := by
      rw [UInt64.lt_iff_toNat_lt, ← table.items_length]
      exact (List.getElem?_eq_some_iff.mp here).1
    have final' : (next :: rest).getLast? = some last := by
      simpa [List.getLast?_cons_cons] using final
    have before : item.tailHashOffset ≠ object.1 := by
      rw [tail]
      intro same
      refine (List.nodup_cons.mp distinct).1 (List.mem_map.mpr ⟨last, ?_, same⟩)
      exact List.mem_of_getLast? final'
    have nonzero := (stored object (by simp)).nonzero
    have follows : (objectCells host file iterObjectSize bucket object).advance host table =
        some (bucket, next.1) := by
      rw [advance_chain here nonzero before, ← link]
      exact congrArg (fun next => some (bucket, next))
        (decodedPrefix_next host file (stored object (by simp)).loads)
    exact List.isChain_cons_cons.mpr
      ⟨tableLeads_object inTable inTable follows (stored next (by simp)),
        ih linked final' (List.nodup_cons.mp distinct).2
          fun other member => stored other (by simp [member])⟩

/-- From where only the buckets from `bucket` on are left, their objects are
dispatched, and then the end. -/
private theorem table_walk (large : 32 ≤ iterObjectSize.toNat) {items : List HashItem}
    {chains : List (List (UInt64 × StoredObject))} (chained : List.Forall₂ ChainOf items chains)
    (distinct : ∀ chain ∈ chains, (chain.map Prod.fst).Nodup)
    (stored : ∀ chain ∈ chains, ∀ object ∈ chain,
      StoredAt file iterObjectSize object.1 object.2)
    {a : HashCells} {bucket : UInt64} (entered : a.iterBucket < table.nbuckets)
    (left : table.items.drop bucket.toNat = items) (next : a.advance host table = nextHead items bucket) :
    ∃ held, List.IsChain (TableLeads file table iterObjectSize host)
      (a :: (tableVisits host file iterObjectSize bucket chains ++ [⟨table.nbuckets, 0, held⟩])) := by
  induction chained generalizing a bucket with
  | nil => exact ⟨a.iterObjectHeader, List.isChain_pair.mpr (tableLeads_end large entered next)⟩
  | @cons item chain items chains holds chained ih =>
    have here : table.items[bucket.toNat]? = some item := by
      rw [← List.head?_drop, left, List.head?_cons]
    have inside := (List.getElem?_eq_some_iff.mp here).1
    have inTable : bucket < table.nbuckets := by
      rwa [UInt64.lt_iff_toNat_lt, ← table.items_length]
    have buckets := table.nbuckets_toNat
    have bound := table.size.toNat_lt
    have succ : (bucket + 1).toNat = bucket.toNat + 1 := by
      rw [table.items_length] at inside
      rw [UInt64.toNat_add, UInt64.toNat_one, Nat.mod_eq_of_lt (by omega)]
    have left' : table.items.drop (bucket + 1).toNat = items := by
      rw [succ, ← List.tail_drop, left, List.tail_cons]
    have distinct' := fun chain (member : chain ∈ chains) => distinct chain (by simp [member])
    have stored' := fun chain (member : chain ∈ chains) => stored chain (by simp [member])
    cases chain with
    | nil =>
      rw [nextHead, if_neg (not_not.mpr (holds.empty rfl).1)] at next
      exact ih distinct' stored' entered left' next
    | cons object rest =>
      have head : item.headHashOffset = object.1 := holds.head object rfl
      have objects := stored (object :: rest) (by simp)
      rw [nextHead, head, if_pos (objects object (by simp)).nonzero] at next
      obtain ⟨last, final⟩ : ∃ last, (object :: rest).getLast? = some last := by
        simp [List.getLast?_cons]
      have tail := holds.tail last final
      have advance : (objectCells host file iterObjectSize bucket last).advance host table =
          nextHead items (bucket + 1) := by
        rw [← left', succ]
        exact advance_tail here (objects last (List.mem_of_getLast? final)).nonzero tail
      obtain ⟨held, chain⟩ := ih distinct' stored' inTable left' advance
      have walked := chain_walk here holds.linked final tail (distinct _ (by simp)) objects chain
      refine ⟨held, ?_⟩
      rw [tableVisits, List.map_cons, List.cons_append, List.cons_append, List.append_assoc]
      exact List.isChain_cons_cons.mpr
        ⟨tableLeads_object entered inTable next (objects object (by simp)), walked⟩

/-- From the start, everything but the first bucket is dispatched. -/
theorem WellFormedTable.walk {chains : List (List (UInt64 × StoredObject))}
    (wellFormed : WellFormedTable file table iterObjectSize chains)
    (large : 32 ≤ iterObjectSize.toNat) (host : Endian) {a : HashCells}
    (entered : a.iterBucket < table.nbuckets) (restarts : a.iterOffset = 0) :
    ∃ held, List.IsChain (TableLeads file table iterObjectSize host)
      (a :: (tableVisits host file iterObjectSize 1 chains.tail ++
        [⟨table.nbuckets, 0, held⟩])) := by
  have distinct := wellFormed.distinct
  rw [List.map_flatten, List.nodup_flatten] at distinct
  have chained := List.forall₂_drop 1 wellFormed.chained
  rw [List.drop_one (l := chains)] at chained
  refine table_walk large chained ?_ ?_ entered rfl (advance_start _ restarts)
  · intro chain member
    exact distinct.1 _ (List.mem_map_of_mem (List.mem_of_mem_tail member))
  · intro chain member object inChain
    exact wellFormed.stored object
      (List.mem_flatten.mpr ⟨chain, List.mem_of_mem_tail member, inChain⟩)

end Walk

/-! ## `journal_hash_table_for_each` -/

/-- The closure has no negative result and no fault for these cells. -/
def HashHandler.Accepts (closure : HashHandler υ) (cells : HashCells) : Prop :=
  ∀ user, ∃ r user', closure cells user = .ok (r, user') ∧ 0 ≤ r

/-- What the closure makes of what it keeps. -/
def HashHandler.after (closure : HashHandler υ) (cells : HashCells) (user : υ) : υ :=
  match closure cells user with
  | .ok (_, user) => user
  | .error _ => user

theorem HashHandler.Accepts.dispatch {closure : HashHandler υ} {cells : HashCells}
    (accepts : closure.Accepts cells) (user : υ) :
    journalHashTableForEachDispatch closure ⟨cells, user⟩ =
      .dispatch ⟨cells, closure.after cells user⟩ := by
  obtain ⟨r, user', ran, accepted⟩ := accepts user
  simp only [journalHashTableForEachDispatch, HashHandler.after, ran, if_neg (not_lt.mpr accepted)]

theorem tableVisits_length (host : Endian) (file : JournalFile) (iterObjectSize iterBucket : UInt64)
    (chains : List (List (UInt64 × StoredObject))) :
    (tableVisits host file iterObjectSize iterBucket chains).length = chains.flatten.length := by
  induction chains generalizing iterBucket with
  | nil => rfl
  | cons chain chains ih =>
    rw [tableVisits, List.length_append, List.length_map, ih, List.flatten_cons, List.length_append]

theorem tableVisits_nonzero {host : Endian} {file : JournalFile}
    {iterObjectSize iterBucket : UInt64} {chains : List (List (UInt64 × StoredObject))}
    (nonzero : ∀ object ∈ chains.flatten, object.1 ≠ 0) {cells : HashCells}
    (member : cells ∈ tableVisits host file iterObjectSize iterBucket chains) :
    cells.iterOffset ≠ 0 := by
  induction chains generalizing iterBucket with
  | nil => simp [tableVisits] at member
  | cons chain chains ih =>
    rw [tableVisits, List.mem_append] at member
    rcases member with member | member
    · obtain ⟨object, listed, rfl⟩ := List.mem_map.mp member
      exact nonzero object (by simp [listed])
    · exact ih (fun object listed => nonzero object (by
        rw [List.flatten_cons, List.mem_append]; exact .inr listed)) member

section ForEach

variable {file : JournalFile} {table : HashTable} {iterObjectSize : UInt64}
  {chains : List (List (UInt64 × StoredObject))} {closure : HashHandler υ}

/-- The closure was dispatched for every object of every bucket, in the order of
the buckets and of their chains, and once more at the end. -/
def CoversTable (host : Endian) (file : JournalFile) (iterObjectSize : UInt64)
    (chains : List (List (UInt64 × StoredObject))) (trace : List (HashIteration υ)) : Prop :=
  ∃ ended : HashCells, ended.iterOffset = 0 ∧
    trace.map HashIteration.cells = tableVisits host file iterObjectSize 0 chains ++ [ended]

/-- What `journal_hash_table_for_each` dispatches, whatever is cached. -/
theorem forEach_run {kernel : Kernel} (serves : kernel.ServesFile file)
    (reliable : kernel.Reliable) (wellFormed : WellFormedTable file table iterObjectSize chains)
    (large : 32 ≤ iterObjectSize.toNat) (host : Endian) (cache : Cache)
    (invariant : CacheInvariant file cache.journal) (closure : HashHandler υ)
    (objects : ∀ cells ∈ tableVisits host file iterObjectSize 1 chains.tail, closure.Accepts cells)
    (ends : ∀ cells : HashCells, cells.iterOffset = 0 → closure.Accepts cells) {fuel : Nat}
    (enough : chains.tail.flatten.length < fuel) (iteration : HashIteration υ)
    (entered : iteration.cells.iterBucket < table.nbuckets) :
    ∃ cache' trace ended, journalHashTableForEach (cachedReader kernel) host table iterObjectSize
        closure fuel cache iteration = .ok (cache', trace, .finished) ∧
      ended.iterOffset = 0 ∧ trace.map HashIteration.cells =
        tableVisits host file iterObjectSize 1 chains.tail ++ [ended] := by
  obtain ⟨held, chain⟩ := wellFormed.walk large host
    (show { iteration.cells with iterOffset := 0 }.iterBucket < table.nbuckets from entered) rfl
  have nonzero : ∀ cells ∈ tableVisits host file iterObjectSize 1 chains.tail, ∀ user : υ,
      HashIteration.ended ⟨cells, user⟩ = false := by
    intro cells member user
    rw [HashIteration.ended, decide_eq_false_iff_not]
    refine tableVisits_nonzero (fun object listed => ?_) member
    obtain ⟨chain, inTail, inChain⟩ := List.mem_flatten.mp listed
    exact (wellFormed.stored object
      (List.mem_flatten.mpr ⟨chain, List.mem_of_mem_tail inTail, inChain⟩)).nonzero
  have accepts : ∀ cells ∈ tableVisits host file iterObjectSize 1 chains.tail ++
      [⟨table.nbuckets, 0, held⟩], closure.Accepts cells := by
    intro cells member
    rcases List.mem_append.mp member with member | member
    · exact objects cells member
    · exact ends cells (List.mem_singleton.mp member ▸ rfl)
  have ran := loop_visits TableLeads.steps (fun cells member => (accepts cells member).dispatch)
    chain nonzero (fun _ => rfl) (by rw [tableVisits_length]; exact enough) iteration.user
  obtain ⟨cache', ran', -⟩ := loop_refines (cachedReader_refines serves reliable) invariant ran
  refine ⟨cache', _, ⟨table.nbuckets, 0, held⟩, ran', rfl, ?_⟩
  rw [List.map_map]
  exact visitAll_cells ..

/-- The whole table is covered exactly when its first bucket is empty. -/
theorem table_covered_iff {kernel : Kernel} (serves : kernel.ServesFile file)
    (reliable : kernel.Reliable) (wellFormed : WellFormedTable file table iterObjectSize chains)
    (large : sizeofHashedObjectHeader ≤ iterObjectSize) (host : Endian) {cache : Cache}
    (invariant : CacheInvariant file cache.journal)
    (objects : ∀ cells ∈ tableVisits host file iterObjectSize 0 chains, closure.Accepts cells)
    (ends : ∀ cells : HashCells, cells.iterOffset = 0 → closure.Accepts cells) {fuel : Nat}
    (enough : chains.flatten.length < fuel) {iteration : HashIteration υ}
    (entered : iteration.cells.iterBucket < table.nbuckets) :
    (∃ cache' trace, journalHashTableForEach (cachedReader kernel) host table iterObjectSize
        closure fuel cache iteration = .ok (cache', trace, .finished) ∧
      CoversTable host file iterObjectSize chains trace) ↔
    ∀ bucket ∈ table.items.head?, bucket.headHashOffset = 0 := by
  obtain ⟨item, items, shape⟩ := List.exists_cons_of_length_pos wellFormed.positive
  have chained := wellFormed.chained
  rw [shape] at chained ⊢
  obtain ⟨chain, rest, holds, -, rfl⟩ := List.forall₂_cons_left_iff.mp chained
  rw [tableVisits] at objects
  obtain ⟨cache', trace, ended, ran, zero, dispatched⟩ := forEach_run serves reliable wellFormed
    (UInt64.le_iff_toNat_le.mp large) host cache invariant closure
    (fun cells member => objects cells (List.mem_append_right _ member)) ends
    (lt_of_le_of_lt (by simp) enough) iteration entered
  rw [List.tail_cons] at dispatched
  constructor
  · rintro ⟨cache'', trace', ran', ended', zero', covered⟩ bucket first
    obtain rfl : item = bucket := Option.some.inj first
    obtain ⟨-, rfl⟩ : cache' = cache'' ∧ trace = trace' := by
      simpa using Except.ok.inj (ran.symm.trans ran')
    have lengths := congrArg List.length (dispatched.symm.trans covered)
    rw [List.length_append, List.length_append, tableVisits, List.length_append, List.length_map,
      tableVisits_length, tableVisits_length] at lengths
    have none : chain.length = 0 := by
      simp only [List.length_singleton] at lengths
      omega
    exact (holds.empty (List.length_eq_zero_iff.mp none)).1
  · intro empty
    have none : chain = [] := by
      cases chain with
      | nil => rfl
      | cons object chain =>
        have head := holds.head object rfl
        have nonzero := (wellFormed.stored object (by simp)).nonzero
        exact absurd (head.symm.trans (empty item rfl)) nonzero
    subst none
    exact ⟨cache', trace, ran, ended, zero, dispatched⟩

end ForEach

/-- A file that has a field object at 256. -/
def messageFieldFile : JournalFile where
  size := 303
  byte := fun i => if i < 256 then 0 else (messageField.object.layout .little).getD (i - 256) 0
  size_lt := by decide

theorem messageField_storedAt :
    StoredAt messageFieldFile sizeofFieldObject 256 messageField where
  nonzero := by decide
  bytes := by decide
  readable := by decide
  loads := .inr (by decide)

private theorem messageField_chainOf : ChainOf ⟨256, 256⟩ [(256, messageField)] where
  empty := nofun
  head := fun first listed => by rw [← Option.some.inj listed]
  linked := List.isChain_singleton _
  tail := fun last listed => by
    obtain rfl : (256, messageField) = last := by simpa using listed
    rfl

private theorem empty_chainOf : ChainOf ⟨0, 0⟩ [] where
  empty := fun _ => ⟨rfl, rfl⟩
  head := nofun
  linked := List.isChain_nil
  tail := nofun

/-- The object is the only one of the second of two buckets. -/
theorem messageField_wellFormedTable : WellFormedTable messageFieldFile
    ⟨32, [⟨0, 0⟩, ⟨256, 256⟩], rfl⟩ sizeofFieldObject [[], [(256, messageField)]] where
  positive := by decide
  chained := .cons empty_chainOf (.cons messageField_chainOf .nil)
  distinct := by decide
  stored := by
    intro object listed
    obtain rfl := List.mem_singleton.mp listed
    exact messageField_storedAt

theorem table_covered_iff_secondBucket :
    let table : HashTable := ⟨32, [⟨0, 0⟩, ⟨256, 256⟩], rfl⟩
    let chains := [[], [((256 : UInt64), messageField)]]
    ∃ journal, freshJournal "system.journal" 3 0 = .ok journal ∧
      ((∃ cache' trace, journalHashTableForEach (cachedReader (fileKernel messageFieldFile)) .big
          table sizeofFieldObject (fun _ n => .ok (0, n + 1)) 2 ⟨journal, 0⟩ ⟨⟨0, 0, []⟩, 0⟩ =
          .ok (cache', trace, .finished) ∧
        CoversTable .big messageFieldFile sizeofFieldObject chains trace) ↔
      ∀ bucket ∈ table.items.head?, bucket.headHashOffset = 0) := by
  intro table chains
  obtain ⟨journal, ready, -⟩ := freshJournal_spec "system.journal" 3 0
  exact ⟨journal, ready, table_covered_iff (fileKernel_servesFile _) (fileKernel_reliable _)
    messageField_wellFormedTable (by decide) .big (.fresh ready) (fun _ _ n => ⟨0, n + 1, rfl, le_rfl⟩)
    (fun _ _ n => ⟨0, n + 1, rfl, le_rfl⟩) (by decide) (by decide)⟩

/-- The only object of a table of one bucket is never dispatched. -/
theorem first_bucket_is_skipped :
    let table : HashTable := ⟨16, [⟨256, 256⟩], rfl⟩
    let chains := [[((256 : UInt64), messageField)]]
    WellFormedTable messageFieldFile table sizeofFieldObject chains ∧
    ∃ journal, freshJournal "system.journal" 3 0 = .ok journal ∧
      ¬∃ cache' trace, journalHashTableForEach (cachedReader (fileKernel messageFieldFile)) .little
          table sizeofFieldObject (fun _ n => .ok (0, n + 1)) 2 ⟨journal, 0⟩ ⟨⟨0, 0, []⟩, 0⟩ =
          .ok (cache', trace, .finished) ∧
        CoversTable .little messageFieldFile sizeofFieldObject chains trace := by
  intro table chains
  obtain ⟨journal, ready, -⟩ := freshJournal_spec "system.journal" 3 0
  have wellFormed : WellFormedTable messageFieldFile table sizeofFieldObject chains := {
    positive := by decide
    chained := .cons messageField_chainOf .nil
    distinct := by decide
    stored := by
      intro object listed
      obtain rfl := List.mem_singleton.mp listed
      exact messageField_storedAt }
  refine ⟨wellFormed, journal, ready, ?_⟩
  rintro ⟨cache', trace, ran, ended, -, covered⟩
  obtain ⟨cache'', trace', ended', ran', -, dispatched⟩ := forEach_run (fileKernel_servesFile _)
    (fileKernel_reliable _) wellFormed (by decide) .little ⟨journal, 0⟩ (.fresh ready)
    (fun _ n => .ok (0, n + 1)) (fun _ _ n => ⟨0, n + 1, rfl, le_rfl⟩)
    (fun _ _ n => ⟨0, n + 1, rfl, le_rfl⟩) (show 0 < 2 by decide) ⟨⟨0, 0, []⟩, 0⟩ (by decide)
  obtain ⟨-, rfl⟩ : cache' = cache'' ∧ trace = trace' := by
    simpa using Except.ok.inj (ran.symm.trans ran')
  have lengths := congrArg List.length (covered.symm.trans dispatched)
  simp [tableVisits_length, chains] at lengths

end Jio
