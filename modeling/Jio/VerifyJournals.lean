import Jio.LayoutFiles
import Jio.VerifyWalk

/-! `verify hashed-objects` over all journals. The walks over them go on as their reads
complete, and the first negative result ends them all. -/
namespace Jio.HashedObjects
open ByteOrder ReadProgram Interleaving JournalsOpen ReportTotals
open LayoutReport (layoutReport layoutReport_additive)

/-! ## The command -/

/-- What `per_journal` allocates. -/
structure VerifyFoo where
  header : Header
  cells : Iteration VerifyCells

/-- The walk, from one dispatch of `per_object` to the next. -/
def verifyAgain (zstd : Zstd) (allocs : UInt64 → Allocs) (host : Endian) (foo : VerifyFoo) :
    Reading VerifyFoo :=
  (verifyStep zstd allocs host foo.header foo.cells).map fun cells => { foo with cells }

/-- `verify hashed-objects`, which has no totals. -/
def verifyReport (zstd : Zstd) (allocs : JournalOnDisk → UInt64 → Allocs) (host : Endian)
    (journal : JournalOnDisk) : Report VerifyFoo Unit where
  perJournal _ := (0, ())
  start :=
    let foo : VerifyFoo := ⟨default, 0, zeroObjectHeader, freshCells ⟨0, 0, 0, 0⟩⟩
    (journalGetHeader host foo fun header => { foo with header }).andThen
      (verifyAgain zstd (allocs journal) host)
  closure foo _ := .ok (0, foo, ())
  again foo :=
    if foo.cells.iterOffset = 0 then none else some (verifyAgain zstd (allocs journal) host foo)

theorem verifyReport_additive (zstd : Zstd) (allocs : JournalOnDisk → UInt64 → Allocs)
    (host : Endian) (journal : JournalOnDisk) : Additive (verifyReport zstd allocs host journal) where
  perJournal _ := rfl
  closure _ _ := rfl

/-- Every command over all journals ends as it does at each. -/
theorem commands_end_as_at_each (zstd : Zstd) (allocs : JournalOnDisk → UInt64 → Allocs)
    (sha1 : List UInt8 → EntryArrays.Digest) (opens : String → Int) (host : Endian) :
    EndsAsAtEach (usageReport host) ∧ EndsAsAtEach (entryArrayReport sha1 host) ∧
      EndsAsAtEach (tailWasteReport host) ∧ EndsAsAtEach (layoutReport opens host) ∧
      EndsAsAtEach (reclaimReport host) ∧ EndsAsAtEach (verifyReport zstd allocs host) :=
  ⟨Additive.endsAsAtEach (usageReport_additive host),
    Additive.endsAsAtEach (entryArrayReport_additive sha1 host),
    Additive.endsAsAtEach (tailWasteReport_additive host),
    Additive.endsAsAtEach (layoutReport_additive opens host),
    Additive.endsAsAtEach (reclaimReport_additive host),
    Additive.endsAsAtEach (verifyReport_additive zstd allocs host)⟩

/-! ## What is counted -/

/-- The object counts as one more, with its payload. -/
def HashedObject.counted (o : HashedObject) (stats : VerifyStats) : VerifyStats :=
  if o.type = .field then { stats with
    nFieldObjects := stats.nFieldObjects + 1
    nFieldBytes := stats.nFieldBytes + UInt64.ofNat o.payload.length }
  else { stats with
    nDataObjects := stats.nDataObjects + 1
    nDataBytes := stats.nDataBytes + UInt64.ofNat o.payload.length }

/-- The payloads of the field objects, or of the data objects. -/
def payloads {zstd : Zstd} {file : JournalFile} (type : ObjectType)
    (visits : List (Visit zstd file)) : List (List UInt8) :=
  visits.filterMap fun
    | .hashed _ _ _ _ _ o _ _ _ => if o.type = type then some o.payload else none
    | _ => none

/-- These visits are what was counted. -/
structure VerifyStats.Counts {zstd : Zstd} {file : JournalFile} (stats : VerifyStats)
    (visits : List (Visit zstd file)) : Prop where
  fieldObjects : stats.nFieldObjects = UInt64.ofNat (payloads .field visits).length
  dataObjects : stats.nDataObjects = UInt64.ofNat (payloads .data visits).length
  fieldBytes : stats.nFieldBytes = UInt64.ofNat (payloads .field visits).flatten.length
  dataBytes : stats.nDataBytes = UInt64.ofNat (payloads .data visits).flatten.length

section Counting

variable {zstd : Zstd} {allocs : Allocs} {host : Endian} {header : Header} {o : HashedObject}

theorem payload_size {offset : UInt64} (fixed : offset.toNat = o.type.reach) :
    readU64 .little o.bytes 8 - offset = UInt64.ofNat o.payload.length := by
  have reached := o.reached
  have rest : o.payload.length = o.bytes.length - o.type.reach := List.length_drop ..
  have bound := (readU64 .little o.bytes 8).toNat_lt
  have sized := o.sized
  apply UInt64.toNat_inj.mp
  rw [UInt64.toNat_sub_of_le _ _ (by rw [UInt64.le_iff_toNat_le, o.sized]; omega), o.sized, fixed,
    UInt64.toNat_ofNat_of_lt' (show o.payload.length < 2 ^ 64 by omega), rest]

theorem verifyHashedObject_stats {block : List UInt8} (holds : Holds host o block)
    {decompressed : Pointer} {stats : VerifyStats} {verified : Verified}
    (ran : verifyHashedObject zstd allocs host header (.block block) decompressed stats =
      .ok verified) : verified.stats = o.counted stats := by
  rcases o.hashed with type | type
  · have fixed : sizeofFieldObject.toNat = o.type.reach := by rw [type]; rfl
    simp only [verifyHashedObject, holds.type, o.typed, type, bind_ok,
      payloadOf_holds holds fixed] at ran
    generalize verifyPayload zstd allocs header _ _ _ decompressed = checked at ran
    cases checked with
    | error fault => cases ran
    | ok reply =>
      cases ran
      unfold HashedObject.counted
      rw [if_pos type, ← payload_size fixed, holds.size]
  · have fixed : sizeofDataObject.toNat = o.type.reach := by rw [type]; rfl
    simp only [verifyHashedObject, holds.type, o.typed, type, bind_ok,
      payloadOf_holds holds fixed] at ran
    generalize verifyPayload zstd allocs header _ _ _ decompressed = checked at ran
    cases checked with
    | error fault => cases ran
    | ok reply =>
      cases ran
      unfold HashedObject.counted
      rw [if_neg (by rw [type]; decide), ← payload_size fixed, holds.size]

theorem loadAndVerify_stats (succeed : allocs.Succeed) {cells next : VerifyCells}
    (valid : cells.Valid) {r : Int}
    (ran : loadAndVerify zstd allocs host header o.bytes cells = .ok (r, next)) :
    next.stats = o.counted cells.stats := by
  have roomy : (cells.iterObject.grown allocs.iterObject (UInt64.ofNat o.bytes.length)).isSome :=
    Pointer.grown_isSome.mpr fun _ => succeed.iterObject _
  obtain ⟨iterObject, room⟩ := Option.isSome_iff_exists.mp roomy
  obtain ⟨newValid, -, -⟩ := Pointer.grown_spec valid.1 room
  unfold loadAndVerify at ran
  rw [ensureUsable_eq valid.1, room] at ran
  cases iterObject with
  | null => cases ran
  | freed => exact absurd rfl newValid
  | block bytes =>
    obtain ⟨block, converted, holds⟩ := gotObject_holds host o (bytes.drop o.bytes.length)
    simp only [bind_ok, Int.lt_irrefl, ↓reduceIte, gotIterObject, converted, Except.map] at ran
    cases verified : verifyHashedObject zstd allocs host header (.block block) cells.decompressed
        cells.stats with
    | error fault =>
      rw [verified] at ran
      cases ran
    | ok result =>
      rw [verified] at ran
      cases ran
      exact verifyHashedObject_stats holds verified

end Counting

section Visits

variable {zstd : Zstd} {allocs : UInt64 → Allocs} {host : Endian} {header : Header}
  {file : JournalFile}

/-- A visit counts the object it comes to, if that has a hash. -/
def Visit.counted (stats : VerifyStats) : Visit zstd file → VerifyStats
  | hashed _ _ _ _ _ o _ _ _ => o.counted stats
  | _ => stats

theorem payloads_append (type : ObjectType) (visits visits' : List (Visit zstd file)) :
    payloads type (visits ++ visits') = payloads type visits ++ payloads type visits' :=
  List.filterMap_append ..

/-- One more payload adds one and its length. -/
theorem ofNat_concat {payloads : List (List UInt8)} {objects bytes : UInt64}
    (counted : objects = UInt64.ofNat payloads.length)
    (added : bytes = UInt64.ofNat payloads.flatten.length) (payload : List UInt8) :
    objects + 1 = UInt64.ofNat (payloads ++ [payload]).length ∧
      bytes + UInt64.ofNat payload.length = UInt64.ofNat (payloads ++ [payload]).flatten.length := by
  rw [List.flatten_concat, List.length_append, List.length_append, UInt64.ofNat_add,
    UInt64.ofNat_add, ← counted, ← added]
  exact ⟨rfl, rfl⟩

theorem VerifyStats.Counts.counted {stats : VerifyStats} {visits : List (Visit zstd file)}
    (counts : stats.Counts visits) (visit : Visit zstd file) :
    (visit.counted stats).Counts (visits ++ [visit]) := by
  have unhashed (none : ∀ type, payloads type [visit] = []) : stats.Counts (visits ++ [visit]) := by
    constructor <;> rw [payloads_append, none, List.append_nil]
    · exact counts.fieldObjects
    · exact counts.dataObjects
    · exact counts.fieldBytes
    · exact counts.dataBytes
  cases visit with
  | ended held => exact unhashed fun _ => rfl
  | other offset object somewhere type => exact unhashed fun _ => rfl
  | hashed offset object somewhere hashed readable o bytes content holds =>
    have same : payloads o.type [Visit.hashed offset object somewhere hashed readable o bytes
        content holds] = [o.payload] := by simp [payloads]
    have other {type : ObjectType} (others : o.type ≠ type) : payloads type
        [Visit.hashed offset object somewhere hashed readable o bytes content holds] = [] := by
      simp [payloads, others]
    show (o.counted stats).Counts _
    unfold HashedObject.counted
    rcases o.hashed with type | type
    · rw [if_pos type]
      rw [type] at same
      obtain ⟨objects, total⟩ := ofNat_concat counts.fieldObjects counts.fieldBytes o.payload
      have data := other (type ▸ (by decide : ObjectType.field ≠ ObjectType.data))
      constructor <;> rw [payloads_append]
      · exact same ▸ objects
      · rw [data, List.append_nil]
        exact counts.dataObjects
      · exact same ▸ total
      · rw [data, List.append_nil]
        exact counts.dataBytes
    · rw [if_neg (by rw [type]; decide)]
      rw [type] at same
      obtain ⟨objects, total⟩ := ofNat_concat counts.dataObjects counts.dataBytes o.payload
      have field := other (type ▸ (by decide : ObjectType.data ≠ ObjectType.field))
      constructor <;> rw [payloads_append]
      · rw [field, List.append_nil]
        exact counts.fieldObjects
      · exact same ▸ objects
      · rw [field, List.append_nil]
        exact counts.fieldBytes
      · exact same ▸ total

theorem perObject_counted (succeed : ∀ offset, (allocs offset).Succeed) (visit : Visit zstd file)
    {cells next : VerifyCells} (valid : cells.Valid)
    (ran : exec (fileReader file) () (perObject zstd allocs host header (.at visit.object cells)) =
      .ok ((), .dispatched (.at visit.object next))) :
    next.stats = visit.counted cells.stats := by
  cases visit with
  | ended held =>
    rw [show exec (fileReader file) () (perObject zstd allocs host header
      (.at (Visit.ended held : Visit zstd file).object cells)) = _ from
        perObject_ended held valid] at ran
    cases ran
    rfl
  | other offset object somewhere unhashed =>
    rw [show exec (fileReader file) () (perObject zstd allocs host header
      (.at (Visit.other offset object somewhere unhashed : Visit zstd file).object cells)) = _ from
        perObject_other somewhere unhashed cells] at ran
    cases ran
    rfl
  | hashed offset object somewhere hashed readable o bytes content holds =>
    rw [show exec (fileReader file) () (perObject zstd allocs host header
      (.at (Visit.hashed offset object somewhere hashed readable o bytes content holds).object
        cells)) = _ from perObject_hashed succeed somewhere hashed readable bytes valid] at ran
    cases verified : loadAndVerify zstd (allocs offset) host header o.bytes cells with
    | error fault =>
      rw [verified] at ran
      cases ran
    | ok result =>
      rw [verified] at ran
      obtain ⟨r, next'⟩ := result
      dsimp only at ran
      split at ran
      · cases ran
      · cases ran
        exact loadAndVerify_stats (succeed offset) valid verified

/-! ## One walk -/

/-- The walk stops there with a negative result. -/
def Visit.Stops (header : Header) (visit : Visit zstd file) : Prop :=
  visit.Mismatch header ∧ visit.Small

/-- Under a keyed hash there is a frame of something before a frame of nothing, unless the walk
stops first. -/
def Hashable (header : Header) (buffer : Prop) (visits : List (Visit zstd file)) : Prop :=
  ∀ before visit after, visits = before ++ visit :: after →
    (∀ earlier ∈ before, ¬earlier.Stops header) →
    keyed header → visit.EmptyFrame → buffer ∨ ∃ earlier ∈ before, earlier.FilledFrame

theorem Hashable.head {buffer : Prop} {visit : Visit zstd file} {visits : List (Visit zstd file)}
    (hashable : Hashable header buffer (visit :: visits)) (key : keyed header)
    (empty : visit.EmptyFrame) : buffer := by
  simpa using hashable [] visit visits rfl nofun key empty

theorem Hashable.tail {buffer : Prop} {visit : Visit zstd file} {visits : List (Visit zstd file)}
    (hashable : Hashable header buffer (visit :: visits)) (goes : ¬visit.Stops header) :
    Hashable header (buffer ∨ visit.FilledFrame) visits := by
  rintro before later after rfl earlier key empty
  have next := hashable (visit :: before) later after rfl
    (List.forall_mem_cons.mpr ⟨goes, earlier⟩) key empty
  rwa [List.exists_mem_cons_iff, ← or_assoc] at next

theorem Hashable.ended {buffer : Prop} {visits : List (Visit zstd file)}
    (hashable : Hashable header buffer visits) (held : ObjectHeader) :
    Hashable header buffer (visits ++ [.ended held]) := by
  intro before visit after shape goes key empty
  rcases List.eq_nil_or_concat after with rfl | ⟨after, last, rfl⟩
  · obtain ⟨-, same⟩ := List.append_inj' shape rfl
    obtain rfl := (List.cons.inj same).1
    exact empty.elim
  · rw [List.concat_eq_append, ← List.cons_append, ← List.append_assoc] at shape
    exact hashable before visit after (List.append_inj' shape rfl).1 goes key empty

/-- How the walk of one journal comes out. -/
inductive Walked (header : Header) (counted visits : List (Visit zstd file)) :
    Except (Except Fault Int) VerifyFoo → Prop
  | stopped (stops : ∃ visit ∈ visits, visit.Stops header) :
      Walked header counted visits (.error (.ok (-EBADMSG)))
  | finished {foo : VerifyFoo} (goes : ∀ visit ∈ visits, ¬visit.Stops header)
      (counts : foo.cells.user.stats.Counts (counted ++ visits)) :
      Walked header counted visits (.ok foo)

theorem Walked.cons {counted visits : List (Visit zstd file)} {visit : Visit zstd file}
    {r : Except (Except Fault Int) VerifyFoo} (goes : ¬visit.Stops header)
    (walked : Walked header (counted ++ [visit]) visits r) :
    Walked header counted (visit :: visits) r := by
  cases walked with
  | stopped stops =>
    obtain ⟨later, member, stops⟩ := stops
    exact .stopped ⟨later, .tail _ member, stops⟩
  | finished others counts =>
    rw [List.append_assoc] at counts
    exact .finished (List.forall_mem_cons.mpr ⟨goes, others⟩) counts

variable {allocsOf : JournalOnDisk → UInt64 → Allocs} {journal : JournalOnDisk}

theorem verify_results (succeed : ∀ offset, (allocsOf journal offset).Succeed)
    {a : UInt64 × ObjectHeader} {counted visits : List (Visit zstd journal.file)}
    (chain : List.IsChain (Leads journal.file header host) (a :: visits.map Visit.object))
    (going : ∀ visit ∈ visits.dropLast, visit.object.1 ≠ 0)
    (ended : ∃ held, visits.getLast? = some (.ended held)) {cells : VerifyCells}
    (valid : cells.Valid) (hashable : Hashable header (cells.decompressed ≠ .null) visits)
    (counts : cells.stats.Counts counted) : ∃ r,
      Results journal.file (verifyReport zstd allocsOf host journal)
        (verifyAgain zstd (allocsOf journal) host ⟨header, .at a cells⟩) r ∧
      Walked header counted visits r := by
  induction visits generalizing a counted cells with
  | nil =>
    obtain ⟨held, last⟩ := ended
    cases last
  | cons visit visits ih =>
    obtain ⟨leads, rest⟩ := List.isChain_cons_cons.mp chain
    have turned := turn_spec host header succeed visit valid
    have mapped := exec_map (fun cells : Iteration VerifyCells => (⟨header, cells⟩ : VerifyFoo))
      (fileReader journal.file) (verifyStep zstd (allocsOf journal) host header (.at a cells)) ()
    rw [verifyStep_eq leads] at mapped
    generalize ran : exec (fileReader journal.file) ()
      (perObject zstd (allocsOf journal) host header (.at visit.object cells)) = result
        at turned mapped
    cases turned with
    | faulted faults =>
      obtain ⟨key, empty, missing⟩ := faults
      exact absurd missing (hashable.head key empty)
    | failed _ mismatch small next =>
      exact ⟨_, .of_failed mapped, .stopped ⟨visit, .head _, mismatch, small⟩⟩
    | @dispatched _ passed next nextValid buffer =>
      have goes : ¬visit.Stops header := fun stops => passed stops.1 stops.2
      have counts : next.stats.Counts (counted ++ [visit]) := by
        rw [perObject_counted succeed visit valid ran]
        exact counts.counted visit
      by_cases zero : visit.object.1 = 0
      · have last : visits = [] := by
          by_contra more
          obtain ⟨next, others, rfl⟩ := List.exists_cons_of_ne_nil more
          exact going visit (by simp) zero
        subst last
        exact ⟨_, .of_dispatched mapped (.last rfl le_rfl (if_pos zero)),
          .finished (List.forall_mem_singleton.mpr goes) counts⟩
      · obtain ⟨first, others, rfl⟩ : ∃ first others, visits = first :: others := by
          refine List.exists_cons_of_ne_nil fun none => ?_
          subst none
          obtain ⟨held, last⟩ := ended
          cases last
          exact zero rfl
        have buffered : Hashable header (next.decompressed ≠ .null) (first :: others) := by
          rw [show (next.decompressed ≠ .null) = (cells.decompressed ≠ .null ∨ visit.FilledFrame)
            from propext (by rw [ne_eq, buffer zero, not_and_or, not_not])]
          exact hashable.tail goes
        obtain ⟨r, results, walked⟩ := ih rest
          (fun later member => going later (List.mem_cons_of_mem _ member)) ended nextValid
          buffered counts
        exact ⟨r, .of_dispatched mapped (.next rfl le_rfl (if_neg zero) results), walked.cons goes⟩

end Visits

/-! ## All of them -/

/-- A walk over a journal of well-sized field and data objects, and what they hold. -/
structure VerifiedWalk (zstd : Zstd) (host : Endian) (journal : JournalOnDisk) where
  visits : List (Visit zstd journal.file)
  large : 256 ≤ journal.file.size
  chain : List.IsChain (Leads journal.file journal.file.header host)
    ((0, zeroObjectHeader) :: visits.map Visit.object)
  going : ∀ visit ∈ visits.dropLast, visit.object.1 ≠ 0
  ended : ∃ held, visits.getLast? = some (.ended held)
  hashable : Hashable journal.file.header False visits

section AllJournals

variable {zstd : Zstd} {allocs : JournalOnDisk → UInt64 → Allocs} {host : Endian}
  {journals : List JournalOnDisk} {kernels : Fin journals.length → Kernel}

theorem VerifiedWalk.ends (succeed : ∀ journal offset, (allocs journal offset).Succeed)
    {journal : JournalOnDisk} (walk : VerifiedWalk zstd host journal)
    (isOpen : journal.isOpen = true) {kernel : Kernel} (serves : kernel.ServesFile journal.file)
    (reliable : kernel.Reliable) : ∃ r cache,
      AloneEnds kernel (verifyReport zstd allocs host journal) journal
        (r.map fun own => (.finished own, cache)) ∧
      Walked journal.file.header [] walk.visits r := by
  have hashable : Hashable journal.file.header
      ((freshCells ⟨0, 0, 0, 0⟩).decompressed ≠ .null) walk.visits := by
    rw [show ((freshCells ⟨0, 0, 0, 0⟩).decompressed ≠ .null) = False from
      eq_false (not_not.mpr rfl)]
    exact walk.hashable
  have nothing : (freshCells ⟨0, 0, 0, 0⟩).stats.Counts ([] : List (Visit zstd journal.file)) :=
    ⟨rfl, rfl, rfl, rfl⟩
  obtain ⟨r, results, walked⟩ := verify_results (succeed journal) walk.chain walk.going walk.ended
    (freshCells_valid ⟨0, 0, 0, 0⟩) hashable nothing
  have started : Results journal.file (verifyReport zstd allocs host journal)
      (verifyReport zstd allocs host journal).start r :=
    .andThen (exec_journalGetHeader walk.large host _ _) results
  obtain ⟨cache, comes⟩ := started.comesTo serves reliable
    (show CacheInvariant journal.file (Cache.mk journal.journal 0).journal from
      journal.cached (of_decide_eq_true isOpen))
  exact ⟨r, cache, comes, walked⟩

/-- The walk over some open journal comes to an object of at most 16 KiB that does not match. -/
def SomeStops (walks : ∀ i ∈ opened journals, VerifiedWalk zstd host (journals.get i)) : Prop :=
  ∃ i isOpen, ∃ visit ∈ (walks i isOpen).visits, visit.Stops (journals.get i).file.header

/-- Whatever the order in which the reads of all journals complete, the result of
`verify hashed-objects` says whether an object that is verified at once does not match. No
run faults, none gets stuck, and where a walk is done its objects have been counted. -/
theorem verify_over_all_journals (succeed : ∀ journal offset, (allocs journal offset).Succeed)
    (answers : Answers journals kernels)
    (walks : ∀ i ∈ opened journals, VerifiedWalk zstd host (journals.get i)) :
    let report := verifyReport zstd allocs host
    (∀ r, CommandEnds report journals kernels r ↔
      r = .error (.ok (-EBADMSG)) ∧ SomeStops walks ∨ r = .ok () ∧ ¬SomeStops walks) ∧
    ∀ schedule last, runCommand report journals kernels schedule = .ok last →
      (∀ k own, (last.own k).status = .finished own →
        ∃ isOpen, own.cells.user.stats.Counts (walks (pointee report journals k) isOpen).visits) ∧
      ∃ more, (∃ code, runCommand report journals kernels (schedule ++ more) = .error code) ∨
        ∃ final, runCommand report journals kernels (schedule ++ more) = .ok final ∧
          ∀ k, ∃ own, (final.own k).status = .finished own := by
  have additive := verifyReport_additive zstd allocs host
  have starts : Starts (verifyReport zstd allocs host) journals := fun _ _ _ => le_rfl
  have started : 0 ≤ (startAll (verifyReport zstd allocs host) journals).r := by
    rw [startAll_eq additive starts]
  have alone (i : Fin journals.length) (isOpen : i ∈ opened journals) :=
    (walks i isOpen).ends succeed (List.mem_filter.mp isOpen).2 (answers i).1 (answers i).2
  have each (i : Fin journals.length) (isOpen : i ∈ opened journals) : ∃ r,
      JournalEnds (kernels i) (verifyReport zstd allocs host (journals.get i)) (journals.get i) r ∧
      (r = .error (.ok (-EBADMSG)) ∧
          (∃ visit ∈ (walks i isOpen).visits, visit.Stops (journals.get i).file.header) ∨
        r = .ok () ∧
          ∀ visit ∈ (walks i isOpen).visits, ¬visit.Stops (journals.get i).file.header) := by
    obtain ⟨r, cache, ends, walked⟩ := alone i isOpen
    refine ⟨_, .alone le_rfl ends, ?_⟩
    cases walked with
    | stopped stops => exact .inl ⟨rfl, stops⟩
    | finished goes => exact .inr ⟨rfl, goes⟩
  have comesTo (i : Fin journals.length) (isOpen : i ∈ opened journals) := (each i isOpen).imp
    fun _ => And.left
  have result {r : Except (Except Fault Int) Unit}
      (ends : CommandEnds (verifyReport zstd allocs host) journals kernels r) :
      r = .error (.ok (-EBADMSG)) ∧ SomeStops walks ∨ r = .ok () ∧ ¬SomeStops walks := by
    cases r with
    | error code =>
      obtain ⟨i, isOpen, failed⟩ := journalEnds_of_failed additive ends
      obtain ⟨r, here, ⟨rfl, stops⟩ | ⟨rfl, -⟩⟩ := each i isOpen
      · exact .inl ⟨failed.unique here, i, isOpen, stops⟩
      · cases failed.unique here
    | ok =>
      refine .inr ⟨rfl, ?_⟩
      rintro ⟨i, isOpen, visit, member, stops⟩
      obtain ⟨r, here, ⟨rfl, -⟩ | ⟨rfl, goes⟩⟩ := each i isOpen
      · cases here.unique (journalEnds_of_done additive ends isOpen)
      · exact goes visit member stops
  refine ⟨fun r => ⟨result, ?_⟩, ?_⟩
  · intro expected
    obtain ⟨r', ends⟩ : ∃ r', CommandEnds (verifyReport zstd allocs host) journals kernels r' :=
      exists_commandEnds additive comesTo
    have same : r = r' := by
      rcases expected with ⟨rfl, stops⟩ | ⟨rfl, goes⟩ <;>
        rcases result ends with ⟨rfl, stops'⟩ | ⟨rfl, goes'⟩
      · rfl
      · exact absurd stops goes'
      · exact absurd stops' goes
      · rfl
    exact same ▸ ends
  · intro schedule last ran
    refine ⟨?_, commandEnds_of_each additive comesTo started ran⟩
    intro k own finished
    have isOpen := (started_own additive starts k).1
    obtain ⟨cache, reached⟩ := alone_of_done additive starts kernels ran finished
    obtain ⟨r, cache', ends, walked⟩ := alone _ isOpen
    have same := reached.unique ends
    cases walked with
    | stopped => cases same
    | finished _ counts =>
      obtain ⟨rfl⟩ : own = _ := Status.finished.inj (congrArg Prod.fst (Except.ok.inj same))
      exact ⟨isOpen, counts⟩

end AllJournals

/-! ## Journals as they are written -/

theorem hashed_reached {object : Object} (hashed : object.type = .field ∨ object.type = .data) :
    object.type.reach ≤ (object.layout .little).length := by
  rw [Object.layout, render_length]
  cases object with
  | field object =>
    simp [Object.parts, Object.type, Object.fields, ObjectType.reach, ObjectHeader.parts_width,
      HashedObjectHeader.fields, FieldObject.fields, Part.width, u64]
    omega
  | data object =>
    simp [Object.parts, Object.type, Object.fields, ObjectType.reach, ObjectHeader.parts_width,
      HashedObjectHeader.fields, DataObject.fields, Part.width, u64]
    omega
  | entry object | dataHashTable object | fieldHashTable object | entryArray object
  | tag object => rcases hashed with type | type <;> cases type

/-- A field or data object, as it is stored. -/
def hashedObject (stored : StoredObject)
    (hashed : stored.object.type = .field ∨ stored.object.type = .data) : HashedObject where
  bytes := stored.object.layout .little
  type := stored.object.type
  hashed := hashed
  typed := by
    rw [Object.layout_eq, ObjectHeader.type_inMemory, stored.typed, ObjectType.ofByte?_toByte]
  sized := by
    rw [Object.layout_eq, ObjectHeader.size_inMemory, stored.sized, Object.layout_eq]
  reached := hashed_reached hashed

section Images

variable {zstd : Zstd}

/-- What the field and data objects of a journal hold, and that each can be read at once. -/
structure Contents (zstd : Zstd) (image : JournalImage) where
  content : StoredObject → List UInt8
  short : ∀ stored ∈ image.objects, stored.object.type = .field ∨ stored.object.type = .data →
    stored.object.header.size.toNat < 2 ^ 31
  holds : ∀ stored ∈ image.objects, ∀ hashed,
    (hashedObject stored hashed).Content zstd (content stored)

/-- What a walk comes to at an object. -/
def Visit.ofStored {file : JournalFile} {offset : UInt64} {stored : StoredObject}
    (lies : LiesAt file offset stored) (somewhere : offset ≠ 0) (content : List UInt8)
    (short : stored.object.type = .field ∨ stored.object.type = .data →
      stored.object.header.size.toNat < 2 ^ 31)
    (holds : ∀ hashed, (hashedObject stored hashed).Content zstd content) : Visit zstd file :=
  if hashed : stored.object.type = .field ∨ stored.object.type = .data then
    .hashed offset stored.object.header somewhere
      (by rw [stored.typed]; exact hashed.imp (congrArg _) (congrArg _))
      ⟨short hashed, by rw [stored.sized]; exact lies.inside⟩
      (hashedObject stored hashed)
      (by rw [stored.sized]; exact lies.bytes.symm)
      content (holds hashed)
  else
    .other offset stored.object.header somewhere (by
      rw [stored.typed, ne_eq, ne_eq, ObjectType.toByte_injective.eq_iff,
        ObjectType.toByte_injective.eq_iff]
      exact not_or.mp hashed)

theorem Visit.ofStored_object {file : JournalFile} {offset : UInt64} {stored : StoredObject}
    (lies : LiesAt file offset stored) (somewhere : offset ≠ 0) (content : List UInt8)
    (short : stored.object.type = .field ∨ stored.object.type = .data →
      stored.object.header.size.toNat < 2 ^ 31)
    (holds : ∀ hashed, (hashedObject stored hashed).Content zstd content) :
    (Visit.ofStored lies somewhere content short holds).object = shown (offset, stored) := by
  unfold ofStored
  split <;> rfl

variable {image : JournalImage}

theorem placed_somewhere {placed : UInt64 × StoredObject} (member : placed ∈ image.placed) :
    placed.1 ≠ 0 := by
  have starts := image.starts
  have later := image.wellFormed.consecutive.le (List.mem_map_of_mem (f := shown) member)
  intro zero
  rw [show (shown placed).1 = placed.1 from rfl, zero, UInt64.toNat_zero] at later
  omega

theorem placed_stored {placed : UInt64 × StoredObject} (member : placed ∈ image.placed) :
    placed.2 ∈ image.objects := by
  rw [← placeFrom_objects image.header.headerSize.toNat image.objects]
  exact List.mem_map_of_mem member

/-- What a walk comes to at the objects of a journal. -/
def Contents.objects (contents : Contents zstd image) : List (Visit zstd image.file) :=
  image.placed.attach.map fun placed =>
    .ofStored (image.lie placed.1 placed.2) (placed_somewhere placed.2)
      (contents.content placed.1.2) (contents.short _ (placed_stored placed.2))
      (contents.holds _ (placed_stored placed.2))

theorem Contents.objects_shown (contents : Contents zstd image) :
    contents.objects.map Visit.object = image.placed.map shown := by
  unfold objects
  rw [List.map_map]
  conv_rhs => rw [← List.attach_map_subtype_val image.placed, List.map_map]
  exact List.map_congr_left fun placed _ => Visit.ofStored_object ..

/-- The walk over it. -/
theorem Contents.walk (contents : Contents zstd image) (host : Endian) {journal : Journal}
    (cached : CacheInvariant image.file journal)
    (hashable : Hashable image.header False contents.objects) :
    ∃ walk : VerifiedWalk zstd host (onDisk image cached),
      ∃ held, walk.visits = contents.objects ++ [.ended held] := by
  obtain ⟨last, final, -⟩ := Option.map_eq_some_iff.mp image.last
  have held : (image.placed.map shown).getLast? = some (shown last) := by
    rw [List.getLast?_map]
    exact congrArg (Option.map shown) final
  have passes := image.wellFormed.passes held host 1
    (show ((0 : UInt64), zeroObjectHeader).1 = 0 from rfl)
  rw [List.replicate_one, List.flatten_singleton, ← contents.objects_shown] at passes
  have chain : List.IsChain (Leads image.file image.file.header host)
      ((0, zeroObjectHeader) ::
        (contents.objects ++ [Visit.ended (shown last).2]).map Visit.object) := by
    rw [List.map_append, image.header_eq]
    exact passes
  have going : ∀ visit ∈ (contents.objects ++ [Visit.ended (shown last).2]).dropLast,
      visit.object.1 ≠ 0 := by
    rw [List.dropLast_concat]
    intro visit member
    have listed := List.mem_map_of_mem (f := Visit.object) member
    rw [contents.objects_shown] at listed
    obtain ⟨placed, stored, same⟩ := List.mem_map.mp listed
    rw [← same]
    exact placed_somewhere stored
  have hashable : Hashable image.file.header False
      (contents.objects ++ [Visit.ended (shown last).2]) := by
    rw [image.header_eq]
    exact hashable.ended _
  exact ⟨⟨_, image.large, chain, going, ⟨_, List.getLast?_concat ..⟩, hashable⟩, _, rfl⟩

end Images

/-- Neither field is compressed. -/
def twoMessagesContents : Contents someFrames twoMessages where
  content stored := (stored.object.layout .little).drop stored.object.type.reach
  short := by
    intro stored member _
    obtain rfl : stored = messageField := by simpa [twoMessages] using member
    exact show (47 : UInt64).toNat < 2 ^ 31 by decide
  holds := by
    intro stored member hashed
    obtain rfl : stored = messageField := by simpa [twoMessages] using member
    exact .plain
      (show (messageField.object.layout .little).getD 1 0 &&& OBJECT_COMPRESSION_MASK = 0 by decide)

theorem twoMessagesContents_stops :
    ∃ visit ∈ twoMessagesContents.objects, visit.Stops twoMessages.header := by
  have member : (256, messageField) ∈ twoMessages.placed := .head _
  refine ⟨_, List.mem_map.mpr ⟨⟨_, member⟩, List.mem_attach .., rfl⟩, ?_⟩
  unfold Visit.ofStored
  rw [dif_pos (.inl rfl)]
  exact ⟨show contentHash twoMessages.header ((messageField.object.layout .little).drop 40) ≠
    readU64 .little (messageField.object.layout .little) 16 by decide,
    show (47 : UInt64) ≤ 16 * 1024 by decide⟩

theorem verify_over_all_journals_twoMessages :
    ∃ journal, ∃ cached : CacheInvariant twoMessages.file journal, 0 ≤ journal.fd ∧
      CommandEnds (verifyReport someFrames (fun _ _ => zeroAllocs) .little)
        [onDisk twoMessages cached, onDisk twoMessages cached]
        (fun _ => fileKernel twoMessages.file) (.error (.ok (-EBADMSG))) := by
  obtain ⟨journal, ready, -⟩ := freshJournal_spec "system.journal" 3 0
  have cached : CacheInvariant twoMessages.file journal := .fresh ready
  have isOpen : 0 ≤ journal.fd := freshJournal_fd ready ▸ (by decide)
  refine ⟨journal, cached, isOpen, ?_⟩
  have hashable : Hashable twoMessages.header False twoMessagesContents.objects := by
    intro before visit after _ _ key
    exact absurd key (by decide)
  obtain ⟨walk, held, shape⟩ := twoMessagesContents.walk .little cached hashable
  let journals := [onDisk twoMessages cached, onDisk twoMessages cached]
  let walks (i : Fin journals.length) (_ : i ∈ opened journals) :
      VerifiedWalk someFrames .little (journals.get i) :=
    Fin.cases (motive := fun i => VerifiedWalk someFrames .little (journals.get i)) walk
      (Fin.cases walk fun i => i.elim0) i
  have answers : Answers journals fun _ => fileKernel twoMessages.file :=
    Fin.forall_fin_two.mpr ⟨⟨fileKernel_servesFile _, fileKernel_reliable _⟩,
      ⟨fileKernel_servesFile _, fileKernel_reliable _⟩⟩
  obtain ⟨results, -⟩ := verify_over_all_journals (fun _ _ => zeroAllocs_succeed) answers walks
  obtain ⟨visit, member, stops⟩ := twoMessagesContents_stops
  refine (results _).mpr (.inl ⟨rfl, ⟨0, by simp [journals]⟩, ?_, visit, ?_, ?_⟩)
  · exact List.mem_filter.mpr ⟨List.mem_finRange _, decide_eq_true isOpen⟩
  · exact shape ▸ List.mem_append_left _ member
  · exact twoMessages.header_eq ▸ stops

end Jio.HashedObjects
