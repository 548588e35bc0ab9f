import Mathlib.Data.Fintype.Card
import Mathlib.Data.Finite.Prod
import Jio.HashTableIteration
import Jio.IterationTermination
import Jio.ObjectLoads

/-! When a pass over a hash table ends, and what comes after its end. The walk
follows links it takes from the file and stops only at the recorded tail of a
bucket, so it ends exactly when no chain leads back into itself and every object
it loads is of a type it knows. After the end it cannot be called again. -/
namespace Jio
open ByteOrder ReadProgram Relation

/-! ## Passes that end -/

/-- `journal_hash_table_for_each` on a table, whatever reads fail, whatever its
closure does and whatever was left in its cells: it ends with the dispatch at
the end of the table or with a negative error, and no assertion fails. -/
def TablePassEnds (file : JournalFile) (table : HashTable) (iterObjectSize : UInt64) : Prop :=
  ∀ (host : Endian) (fails : Nat → Option Int) (υ : Type) (closure : HashHandler υ)
    (iteration : HashIteration υ), (∀ t code, fails t = some code → code < 0) →
    (∀ cells user, ∃ r user', closure cells user = .ok (r, user')) →
    iteration.cells.iterBucket < table.nbuckets →
    ∃ fuel t trace ended, journalHashTableForEach (failingReader file fails) host table
        iterObjectSize closure fuel 0 iteration = .ok (t, trace, ended) ∧
      (ended = .finished ∨ ∃ code < 0, ended = .failed code)

/-- A bucket and an offset. -/
abbrev Position := UInt64 × UInt64

/-- `next_hash_offset` of the object at an offset, as the file has it. -/
def JournalFile.nextHashOffset (file : JournalFile) (offset : UInt64) : UInt64 :=
  readU64 .little (file.slice (offset.toNat + 24) 8) 0

/-- Where the walk goes first. -/
def HashTable.first (table : HashTable) : Option Position := nextHead (table.items.drop 1) 1

/-- Where the walk goes from an object: along its link, or to the next bucket
with a head when the object is the tail of its bucket. -/
def HashTable.next (table : HashTable) (file : JournalFile) (p : Position) : Option Position :=
  if (table.items[p.1.toNat]?.map HashItem.tailHashOffset) ≠ some p.2 then
    some (p.1, file.nextHashOffset p.2)
  else nextHead (table.items.drop (p.1.toNat + 1)) (p.1 + 1)

section Chains

variable (file : JournalFile) (table : HashTable) (iterObjectSize : UInt64)

/-- The walk goes from one position to another: as many bytes as it loads can be
read, and the offset is not that of the end. -/
def Linked (p p' : Position) : Prop :=
  Readable file p.2 iterObjectSize ∧ p.2 ≠ 0 ∧ table.next file p = some p'

/-- The walk comes to this position. -/
def OnChains (p : Position) : Prop :=
  ∃ first, table.first = some first ∧ ReflTransGen (Linked file table iterObjectSize) first p

/-- What is loaded is of a type the iteration knows and has room for, or is no
more than what all types have in common. -/
def Known (offset : UInt64) : Prop :=
  iterObjectSize = sizeofHashedObjectHeader ∨
    file.byte offset.toNat = ObjectType.data.toByte ∧ sizeofDataObject ≤ iterObjectSize ∨
    file.byte offset.toNat = ObjectType.field.toByte ∧ sizeofFieldObject ≤ iterObjectSize

end Chains

/-! ## One step -/

/-- A bucket with a head is one of the list it was looked for in. -/
theorem nextHead_inTable {items : List HashItem} {bucket : UInt64} {p : Position} {n : Nat}
    (fits : bucket.toNat + items.length ≤ n) (bound : n < 2 ^ 64)
    (found : nextHead items bucket = some p) : p.1.toNat < n := by
  induction items generalizing bucket with
  | nil => cases found
  | cons item items ih =>
    rw [List.length_cons] at fits
    unfold nextHead at found
    split at found
    · cases found
      change bucket.toNat < n
      omega
    · apply ih _ found
      rw [UInt64.toNat_add, UInt64.toNat_one, Nat.mod_eq_of_lt] <;> omega

section Steps

variable {file : JournalFile} {table : HashTable} {iterObjectSize : UInt64} {host : Endian}

theorem HashTable.nbuckets_lt (table : HashTable) : table.nbuckets.toNat < 2 ^ 60 := by
  have bound := table.size.toNat_lt
  rw [table.nbuckets_toNat]
  omega

theorem HashTable.first_inTable {p : Position} (found : table.first = some p) :
    p.1 < table.nbuckets := by
  have bound := table.nbuckets_lt
  have length := table.items_length
  rw [UInt64.lt_iff_toNat_lt]
  cases items : table.items with
  | nil => simp [HashTable.first, items, nextHead] at found
  | cons item items' =>
    apply nextHead_inTable _ (by omega) found
    rw [List.length_drop, UInt64.toNat_one, ← length, items, List.length_cons]
    omega

theorem HashTable.next_inTable {p p' : Position} (inTable : p.1 < table.nbuckets)
    (found : table.next file p = some p') : p'.1 < table.nbuckets := by
  have bound := table.nbuckets_lt
  have length := table.items_length
  rw [UInt64.lt_iff_toNat_lt] at inTable ⊢
  unfold HashTable.next at found
  split at found
  · cases found
    exact inTable
  · apply nextHead_inTable _ (by omega) found
    rw [List.length_drop, UInt64.toNat_add, UInt64.toNat_one, Nat.mod_eq_of_lt] <;> omega

/-- Every position of the walk is in the table. -/
theorem OnChains.inTable {p : Position} (onChains : OnChains file table iterObjectSize p) :
    p.1 < table.nbuckets := by
  obtain ⟨first, found, walked⟩ := onChains
  induction walked with
  | refl => exact table.first_inTable found
  | tail _ linked ih => exact table.next_inTable ih linked.2.2

theorem OnChains.step {p p' : Position} (onChains : OnChains file table iterObjectSize p)
    (linked : Linked file table iterObjectSize p p') : OnChains file table iterObjectSize p' := by
  obtain ⟨first, found, walked⟩ := onChains
  exact ⟨first, found, walked.tail linked⟩

/-- Converting fields keeps the type, and a link in front of them. -/
private theorem swapFields_keeps {fields : List (Nat × Nat)} {mem mem' : List UInt8}
    (behind : ∀ field ∈ fields, 32 ≤ field.2) (ran : swapFields host fields mem = some mem') :
    readU64 host mem' 24 = readU64 host mem 24 := by
  have apart := swapFields_apart (n := 8) (o := 24) (fun field member => ?_) ran
  · unfold readU64
    rw [apart]
  · exact .inr (behind field member)

variable (file host) in
/-- The common part of what is loaded, in host order: its type and its link. -/
private theorem common_part (roomy : 32 ≤ iterObjectSize.toNat) (offset : UInt64) :
    ∃ mem, swapFields host [(8, 8), (8, 16), (8, 24)]
        (file.slice offset.toNat iterObjectSize.toNat) = some mem ∧
      mem.length = iterObjectSize.toNat ∧ mem.getD 0 0 = file.byte offset.toNat ∧
      readU64 host mem 24 = file.nextHashOffset offset := by
  have width : (file.slice offset.toNat iterObjectSize.toNat).length = iterObjectSize.toNat :=
    bytesAt_length ..
  have converts : (swapFields host [(8, 8), (8, 16), (8, 24)]
      (file.slice offset.toNat iterObjectSize.toNat)).isSome := by
    rw [swapFields_isSome_iff, width]
    simp
    omega
  obtain ⟨mem, ran⟩ := Option.isSome_iff_exists.mp converts
  have length := (swapFields_length ran).trans width
  refine ⟨mem, ran, length, ?_, ?_⟩
  · have same := swapFields_take (k := 8) (by simp) ran
    have first := congrArg (fun bytes => bytes.getD 0 0) same
    have stored : (file.slice offset.toNat iterObjectSize.toNat).getD 0 0 = file.byte offset.toNat := by
      simp [JournalFile.slice, bytesAt, List.getD_eq_getElem?_getD, show 0 < iterObjectSize.toNat by omega]
    rw [← stored]
    simpa [List.getD_eq_getElem?_getD, List.getElem?_take] using first
  · have listed : (8, 24) ∈ [((8 : Nat), (8 : Nat)), (8, 16), (8, 24)] := by simp
    have link := load_swapFields (by decide) listed ran
    unfold load at link
    rw [if_pos (by omega), if_pos (by omega)] at link
    have field := bytesAt_sub file.byte offset.toNat (i := 24)
      (show 24 + 8 ≤ iterObjectSize.toNat by omega)
    have whole : (file.slice (offset.toNat + 24) 8).take 8 = file.slice (offset.toNat + 24) 8 :=
      List.take_of_length_le (bytesAt_length ..).le
    unfold readU64 JournalFile.nextHashOffset readU64
    rw [Option.some.inj link, List.drop_zero, whole]
    exact congrArg (fun bytes => UInt64.ofNat (Endian.little.value bytes)) field

variable (table host) in
/-- An object of a known type is converted, and shows its link. -/
theorem load_known (roomy : 32 ≤ iterObjectSize.toNat) {p : Position} (inTable : p.1 < table.size)
    (known : Known file iterObjectSize p.2) :
    ∃ mem, gotHashTableIterObjectHeader host table.size p.1 iterObjectSize
        (file.slice p.2.toNat iterObjectSize.toNat) = .ok mem ∧
      readU64 host mem 24 = file.nextHashOffset p.2 := by
  obtain ⟨mem, ran, length, type, link⟩ := common_part file host roomy p.2
  have sizes : sizeofHashedObjectHeader.toNat = 32 ∧ sizeofDataObject.toNat = 64 ∧
    sizeofFieldObject.toNat = 40 := by decide
  unfold gotHashTableIterObjectHeader
  rw [if_neg (not_not.mpr inTable), ran, within_some, bind_ok, type]
  rcases known with common | ⟨data, room⟩ | ⟨field, room⟩
  · have same : ¬ sizeofHashedObjectHeader > sizeofHashedObjectHeader := UInt64.lt_irrefl _
    rw [common, if_neg same]
    exact ⟨mem, rfl, link⟩
  · have fits := UInt64.le_iff_toNat_le.mp room
    have converts : (swapFields host [(8, 32), (8, 40), (8, 48), (8, 56)] mem).isSome := by
      rw [swapFields_isSome_iff, length]
      simp
      omega
    obtain ⟨mem', ran'⟩ := Option.isSome_iff_exists.mp converts
    have more : iterObjectSize > sizeofHashedObjectHeader := by
      rw [gt_iff_lt, UInt64.lt_iff_toNat_lt]
      omega
    rw [data, ObjectType.ofByte?_toByte, if_pos more]
    refine ⟨mem', ?_, (swapFields_keeps (by simp) ran').trans link⟩
    exact (if_neg (not_not.mpr room)).trans (congrArg within ran')
  · have fits := UInt64.le_iff_toNat_le.mp room
    have converts : (swapFields host [(8, 32)] mem).isSome := by
      rw [swapFields_isSome_iff, length]
      simp
      omega
    obtain ⟨mem', ran'⟩ := Option.isSome_iff_exists.mp converts
    have more : iterObjectSize > sizeofHashedObjectHeader := by
      rw [gt_iff_lt, UInt64.lt_iff_toNat_lt]
      omega
    rw [field, ObjectType.ofByte?_toByte, if_pos more]
    refine ⟨mem', ?_, (swapFields_keeps (by simp) ran').trans link⟩
    exact (if_neg (not_not.mpr room)).trans (congrArg within ran')

variable (host) in
/-- Anything else fails an assertion. -/
theorem load_unknown (roomy : 32 ≤ iterObjectSize.toNat) {p : Position} (inTable : p.1 < table.size)
    (unknown : ¬ Known file iterObjectSize p.2) :
    gotHashTableIterObjectHeader host table.size p.1 iterObjectSize
        (file.slice p.2.toNat iterObjectSize.toNat) = .error .assertion := by
  obtain ⟨mem, ran, length, type, link⟩ := common_part file host roomy p.2
  have common : sizeofHashedObjectHeader.toNat = 32 := rfl
  unfold Known at unknown
  simp only [not_or, not_and] at unknown
  obtain ⟨larger, data, field⟩ := unknown
  have more : sizeofHashedObjectHeader < iterObjectSize := by
    rw [UInt64.lt_iff_toNat_lt]
    have different : iterObjectSize.toNat ≠ sizeofHashedObjectHeader.toNat :=
      fun same => larger (UInt64.toNat_inj.mp same)
    omega
  unfold gotHashTableIterObjectHeader
  rw [if_neg (not_not.mpr inTable), ran, within_some, bind_ok, type, if_pos more]
  cases named : ObjectType.ofByte? (file.byte p.2.toNat) with
  | none => rfl
  | some type =>
    have byte := ObjectType.eq_toByte named
    cases type with
    | data => exact if_pos (data byte)
    | field => exact if_pos (field byte)
    | unused | entry | dataHashTable | fieldHashTable | entryArray | tag => rfl

/-- The cells of a walk that is at an object. -/
structure AtPosition (file : JournalFile) (host : Endian) (p : Position) (cells : HashCells) :
    Prop where
  bucket : cells.iterBucket = p.1
  offset : cells.iterOffset = p.2
  link : readU64 host cells.iterObjectHeader 24 = file.nextHashOffset p.2

theorem AtPosition.advance {p : Position} {cells : HashCells} (at_ : AtPosition file host p cells)
    (nonzero : p.2 ≠ 0) : cells.advance host table = table.next file p := by
  unfold HashCells.advance HashTable.next
  rw [at_.offset, at_.bucket, at_.link]
  simp only [nonzero, ↓reduceIte, ne_eq, not_false_eq_true, true_and]

variable {υ : Type} {fails : Nat → Option Int} {t : Nat} {iteration : HashIteration υ}

/-- What is at the next position is loaded, or the read fails. -/
theorem failingReader_loads (roomy : 32 ≤ iterObjectSize.toNat)
    (entered : iteration.cells.iterBucket < table.nbuckets) {p : Position}
    (next : iteration.cells.advance host table = some p) :
    exec (failingReader file fails) t
        (journalHashTableIterNextObject host table iterObjectSize iteration) =
      match fails t, decide (Readable file p.2 iterObjectSize) with
      | some code, _ => .ok (t + 1, .failed code { iteration with
          cells.iterBucket := p.1
          cells.iterOffset := p.2 })
      | none, false => .ok (t + 1, .failed (-EINVAL) { iteration with
          cells.iterBucket := p.1
          cells.iterOffset := p.2 })
      | none, true =>
        match gotHashTableIterObjectHeader host table.size p.1 iterObjectSize
          (file.slice p.2.toNat iterObjectSize.toNat) with
        | .error fault => .error fault
        | .ok mem => .ok (t + 1, .dispatched { iteration with
            cells := ⟨p.1, p.2, mem⟩ }) := by
  obtain ⟨sized, larger⟩ := asserted roomy entered
  unfold journalHashTableIterNextObject
  rw [if_neg (not_not.mpr sized), if_neg (not_not.mpr larger), if_neg (not_not.mpr entered), next]
  simp only [exec, failingReader]
  cases fails t with
  | some code => rfl
  | none =>
    by_cases inside : Readable file p.2 iterObjectSize
    · simp only [plainRead, inside, ↓reduceIte, decide_true]
      cases gotHashTableIterObjectHeader host table.size p.1 iterObjectSize
        (file.slice p.2.toNat iterObjectSize.toNat) <;> rfl
    · simp only [plainRead, inside, ↓reduceIte, decide_false]

/-- One dispatch of `journal_hash_table_for_each`. -/
def forEachStep (host : Endian) (table : HashTable) (iterObjectSize : UInt64)
    (closure : HashHandler υ) (iteration : HashIteration υ) : Reading (HashIteration υ) :=
  (journalHashTableIterNextObject host table iterObjectSize iteration).andThen
    (journalHashTableForEachDispatch closure)

variable {closure : HashHandler υ}

end Steps

/-! ## Whole passes -/

section Passes

variable {file : JournalFile} {table : HashTable} {iterObjectSize : UInt64} {host : Endian}

/-- A closure that accepts everything, and reads that do not fail. -/
private abbrev plainStep (table : HashTable) (iterObjectSize : UInt64) :
    HashIteration Unit → Reading (HashIteration Unit) :=
  forEachStep .little table iterObjectSize fun _ user => .ok (0, user)

/-- Unless the pass faults there, the object at the next position is dispatched. -/
private theorem plainStep_loads (roomy : 32 ≤ iterObjectSize.toNat) {t : Nat} {p : Position}
    {iteration : HashIteration Unit} (entered : iteration.cells.iterBucket < table.nbuckets)
    (next : iteration.cells.advance .little table = some p) (inTable : p.1 < table.nbuckets)
    (inside : Readable file p.2 iterObjectSize) :
    Known file iterObjectSize p.2 ∧ (∃ iteration', exec (failingReader file fun _ => none) t
        (plainStep table iterObjectSize iteration) = .ok (t + 1, .dispatched iteration') ∧
        AtPosition file .little p iteration'.cells) ∨
      ¬ Known file iterObjectSize p.2 ∧ exec (failingReader file fun _ => none) t
        (plainStep table iterObjectSize iteration) = .error .assertion := by
  have buckets := table.nbuckets_toNat
  rw [UInt64.lt_iff_toNat_lt] at inTable
  have below : p.1 < table.size := by
    rw [UInt64.lt_iff_toNat_lt]
    omega
  unfold plainStep forEachStep
  rw [exec_andThen, failingReader_loads roomy entered next]
  by_cases known : Known file iterObjectSize p.2
  · obtain ⟨mem, loaded, link⟩ := load_known table .little roomy below known
    refine .inl ⟨known, { iteration with cells := ⟨p.1, p.2, mem⟩ }, ?_, rfl, rfl, link⟩
    simp only [inside, decide_true, loaded]
    rfl
  · refine .inr ⟨known, ?_⟩
    simp only [inside, decide_true, load_unknown .little roomy below known]

/-- A pass that ends comes to every position on the chains. -/
private theorem reaches (ends : TablePassEnds file table iterObjectSize)
    (roomy : 32 ≤ iterObjectSize.toNat) {p : Position}
    (onChains : OnChains file table iterObjectSize p) :
    ∃ t iteration, iteration.cells.iterBucket < table.nbuckets ∧
      iteration.cells.advance .little table = some p ∧
      LoopEnds (failingReader file fun _ => none) (plainStep table iterObjectSize)
        HashIteration.ended (· < 0) t iteration := by
  obtain ⟨first, found, walked⟩ := onChains
  induction walked with
  | refl =>
    have inTable := table.first_inTable found
    have entered : (0 : UInt64) < table.nbuckets := by
      rw [UInt64.lt_iff_toNat_lt] at inTable ⊢
      rw [UInt64.toNat_zero]
      omega
    refine ⟨0, ⟨⟨0, 0, []⟩, ()⟩, entered, (advance_start _ rfl).trans found, ?_⟩
    exact ends .little (fun _ => none) Unit (fun _ user => .ok (0, user)) ⟨⟨0, 0, []⟩, ()⟩ nofun
      (fun _ user => ⟨0, user, rfl⟩) entered
  | tail walked linked ih =>
    rename_i p p'
    have inTable := (show OnChains file table iterObjectSize p from ⟨first, found, walked⟩).inTable
    obtain ⟨t, iteration, entered, next, ends⟩ := ih
    rcases plainStep_loads (t := t) roomy entered next inTable linked.1 with
      ⟨-, iteration', ran, there⟩ | ⟨-, faulted⟩
    · have more : iteration'.ended = false := by
        apply decide_eq_false
        rw [there.offset]
        exact linked.2.1
      refine ⟨t + 1, iteration', ?_, ?_, ends.dispatched ran more⟩
      · rw [there.bucket]
        exact inTable
      · rw [there.advance linked.2.1]
        exact linked.2.2
    · exact absurd faulted (ends.no_fault .assertion)

/-- On the way around a cycle every position has one after it. -/
private theorem TransGen.linked {α : Type} {r : α → α → Prop} {a b c : α} (walked : TransGen r a b)
    (more : r b c) : TransGen (fun p p' => r p p' ∧ ∃ p'', r p' p'') a b := by
  induction walked generalizing c with
  | single step => exact .single ⟨step, c, more⟩
  | tail _ step ih => exact .tail (ih step) ⟨step, c, more⟩

end Passes

/-- The offsets of one pass: every object it comes to, and zero at the end. -/
def passOffsets (chains : List (List (UInt64 × StoredObject))) : List UInt64 :=
  chains.tail.flatten.map Prod.fst ++ [0]

/-- So many calls in a row, from the start of the table, pass their assertions
and go through the objects of the first pass over and over. -/
def Restarts (kernel : Kernel) (host : Endian) (table : HashTable) (iterObjectSize : UInt64)
    (cache : Cache) (mem : List UInt8) (pass : List UInt64) (calls : Nat) : Prop :=
  ∃ cache' trace, loop (cachedReader kernel) (journalHashTableIterNextObject host table iterObjectSize)
      (fun _ => false) calls cache ⟨⟨0, 0, mem⟩, ()⟩ = .ok (cache', trace, .running) ∧
    trace.map (·.cells.iterOffset) = (List.replicate calls pass).flatten.take calls

/-- The first calls of endless passes are those of one pass. -/
private theorem take_passes {pass : List UInt64} {calls : Nat} (few : calls ≤ pass.length) :
    (List.replicate calls pass).flatten.take calls = pass.take calls := by
  cases calls with
  | zero => rfl
  | succ calls =>
    rw [List.replicate_succ, List.flatten_cons]
    exact List.take_append_of_le_length few

section Restart

variable {file : JournalFile} {table : HashTable} {iterObjectSize : UInt64} {host : Endian}
  {chains : List (List (UInt64 × StoredObject))} {kernel : Kernel} {cache : Cache}

/-- Up to the end, calls in a row go through the objects of the table. -/
theorem calls_run (serves : kernel.ServesFile file) (reliable : kernel.Reliable)
    (wellFormed : WellFormedTable file table iterObjectSize chains)
    (large : 32 ≤ iterObjectSize.toNat) (host : Endian)
    (invariant : CacheInvariant file cache.journal) (mem : List UInt8) {calls : Nat}
    (few : calls ≤ (passOffsets chains).length) :
    ∃ cache' trace, loop (cachedReader kernel)
        (journalHashTableIterNextObject host table iterObjectSize) (fun _ => false) calls cache
        ⟨⟨0, 0, mem⟩, ()⟩ = .ok (cache', trace, .running) ∧
      trace.map (·.cells.iterOffset) = (passOffsets chains).take calls ∧
      (calls = (passOffsets chains).length → ∃ last, trace.getLast? = some last ∧
        last.cells.iterBucket = table.nbuckets) := by
  have entered : (0 : UInt64) < table.nbuckets := by
    have length := table.items_length
    have positive := wellFormed.positive
    rw [UInt64.lt_iff_toNat_lt, UInt64.toNat_zero]
    omega
  obtain ⟨held, chain⟩ := wellFormed.walk large host
    (show (HashCells.mk 0 0 mem).iterBucket < table.nbuckets from entered) rfl
  generalize sequence : tableVisits host file iterObjectSize 1 chains.tail ++
    [⟨table.nbuckets, 0, held⟩] = visits at chain
  have offsets : visits.map HashCells.iterOffset = passOffsets chains := by
    rw [← sequence, List.map_append, tableVisits_offsets]
    rfl
  have whole : visits.length = (passOffsets chains).length := by rw [← offsets, List.length_map]
  have started : List.IsChain (TableLeads file table iterObjectSize host)
      (⟨0, 0, mem⟩ :: visits.take calls) := by
    have first := chain.take (calls + 1)
    rwa [List.take_succ_cons] at first
  have walked : List.IsChain (Dispatches (fileReader file)
      (journalHashTableIterNextObject host table iterObjectSize))
      (((), ⟨⟨0, 0, mem⟩, ()⟩) :: (visits.take calls).map fun cells => ((), ⟨cells, ()⟩)) :=
    List.isChain_map_of_isChain (fun cells => ((), HashIteration.mk cells ()))
      (fun a b leads => leads Unit ()) started
  obtain ⟨⟨⟩, ran⟩ := loop_running (fun _ => false) walked fun _ _ => rfl
  have length : ((visits.take calls).map fun cells => ((), HashIteration.mk cells ())).length =
      calls := by
    rw [List.length_map, List.length_take, whole]
    exact Nat.min_eq_left few
  rw [length] at ran
  obtain ⟨cache', ran', -⟩ := loop_refines (cachedReader_refines serves reliable) invariant ran
  refine ⟨cache', _, ran', ?_, ?_⟩
  · rw [List.map_map, List.map_map, ← offsets, List.map_take]
    rfl
  · rintro rfl
    refine ⟨⟨⟨table.nbuckets, 0, held⟩, ()⟩, ?_, rfl⟩
    rw [← whole, List.take_length, ← sequence, List.map_map, List.map_append, List.map_singleton,
      List.getLast?_concat]
    rfl

/-- With the bucket past the table, a call fails an assertion. -/
theorem past_table_faults {ρ υ : Type} (reader : Reader (UInt64 × UInt64) (List UInt8) Int Fault ρ)
    (r : ρ) {iteration : HashIteration υ} (past : ¬ iteration.cells.iterBucket < table.nbuckets) :
    exec reader r (journalHashTableIterNextObject host table iterObjectSize iteration) =
      .error .assertion := by
  unfold journalHashTableIterNextObject
  by_cases sized : table.size ≥ sizeofHashItem
  · by_cases roomy : iterObjectSize ≥ sizeofHashedObjectHeader
    · rw [if_neg (not_not.mpr sized), if_neg (not_not.mpr roomy), if_pos past]
      rfl
    · rw [if_neg (not_not.mpr sized), if_pos roomy]
      rfl
  · rw [if_pos sized]
    rfl

/-- After the end of the table, no further call works. -/
theorem call_after_end_faults (serves : kernel.ServesFile file) (reliable : kernel.Reliable)
    (wellFormed : WellFormedTable file table iterObjectSize chains)
    (large : 32 ≤ iterObjectSize.toNat) (host : Endian)
    (invariant : CacheInvariant file cache.journal) (mem : List UInt8) {calls : Nat}
    (more : (passOffsets chains).length < calls) :
    loop (cachedReader kernel) (journalHashTableIterNextObject host table iterObjectSize)
      (fun _ => false) calls cache ⟨⟨0, 0, mem⟩, ()⟩ = .error .assertion := by
  obtain ⟨ended, visited, ran, -, last⟩ := calls_run serves reliable wellFormed large host
    invariant mem le_rfl
  obtain ⟨iteration, final, past⟩ := last rfl
  apply loop_faults ran more
  rw [final, Option.getD_some]
  apply past_table_faults
  rw [past]
  exact UInt64.lt_irrefl _

/-- However many calls are made, they work exactly as long as none comes after
the end: there the bucket is left past the table, and the next call fails its
assertion instead of starting over. -/
theorem restarts_iff (serves : kernel.ServesFile file) (reliable : kernel.Reliable)
    (wellFormed : WellFormedTable file table iterObjectSize chains)
    (large : sizeofHashedObjectHeader ≤ iterObjectSize) (host : Endian)
    (invariant : CacheInvariant file cache.journal) (mem : List UInt8) (calls : Nat) :
    Restarts kernel host table iterObjectSize cache mem (passOffsets chains) calls ↔
      calls ≤ (passOffsets chains).length := by
  have large : 32 ≤ iterObjectSize.toNat := UInt64.le_iff_toNat_le.mp large
  constructor
  · rintro ⟨cache', trace, ran, -⟩
    by_contra more
    have faulted := call_after_end_faults serves reliable wellFormed large host invariant mem
      (Nat.lt_of_not_le more)
    rw [faulted] at ran
    cases ran
  · intro few
    obtain ⟨cache', trace, ran, offsets, -⟩ := calls_run serves reliable wellFormed large host
      invariant mem few
    refine ⟨cache', trace, ran, ?_⟩
    rw [take_passes few]
    exact offsets

end Restart

theorem restarts_iff_secondBucket :
    ∃ journal, freshJournal "system.journal" 3 0 = .ok journal ∧
      (Restarts (fileKernel messageFieldFile) .big ⟨32, [⟨0, 0⟩, ⟨256, 256⟩], rfl⟩ sizeofFieldObject
        ⟨journal, 0⟩ [] [256, 0] 2 ↔ 2 ≤ [(256 : UInt64), 0].length) := by
  obtain ⟨journal, ready, -⟩ := freshJournal_spec "system.journal" 3 0
  exact ⟨journal, ready, restarts_iff (fileKernel_servesFile _) (fileKernel_reliable _)
    messageField_wellFormedTable (by decide) .big (.fresh ready) [] 2⟩

/-- The third call comes after the end of a table with one object, and fails. -/
theorem third_call_fails_assertion :
    ∃ journal, freshJournal "system.journal" 3 0 = .ok journal ∧
      loop (cachedReader (fileKernel messageFieldFile)) (journalHashTableIterNextObject .little
        ⟨32, [⟨0, 0⟩, ⟨256, 256⟩], rfl⟩ sizeofFieldObject) (fun _ => false) 3 ⟨journal, 0⟩
        ⟨⟨0, 0, []⟩, ()⟩ = .error .assertion ∧
      ¬ Restarts (fileKernel messageFieldFile) .little ⟨32, [⟨0, 0⟩, ⟨256, 256⟩], rfl⟩
        sizeofFieldObject ⟨journal, 0⟩ [] [256, 0] 3 := by
  obtain ⟨journal, ready, -⟩ := freshJournal_spec "system.journal" 3 0
  have faulted := call_after_end_faults (fileKernel_servesFile _) (fileKernel_reliable _)
    messageField_wellFormedTable (by decide) .little
    (show CacheInvariant messageFieldFile (Cache.mk journal 0).journal from .fresh ready) []
    (show (passOffsets [[], [((256 : UInt64), messageField)]]).length < 3 by decide)
  refine ⟨journal, ready, faulted, ?_⟩
  rintro ⟨cache', trace, ran, -⟩
  rw [faulted] at ran
  cases ran

end Jio
