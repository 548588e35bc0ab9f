import Jio.ReusedBuffers

/-! `verify hashed-objects` over a whole journal. Objects of at most 16 KiB are
verified before the walk goes on; larger ones are handed to `iou_async`, which has
no use for what comes of them. -/
namespace Jio.HashedObjects
open ByteOrder ReadProgram

/-! ## The walk -/

/-- `per_hashed_object`, up to where `closure` goes on. `iou_async` runs its first
callback before it dispatches its second, and hands nothing from one to the other. -/
def perHashedObject (zstd : Zstd) (allocs : Allocs) (host : Endian) (header : Header)
    (cells : Iteration VerifyCells) : Reading (Iteration VerifyCells) :=
  match cells.user.iterObject with
  | .null => .abort .assertion
  | .freed => .abort .outOfBounds
  | .block o =>
    match verifyHashedObject zstd allocs host header (.block o) cells.user.decompressed
        cells.user.stats with
    | .error fault => .abort fault
    | .ok ⟨r, decompressed, stats⟩ =>
      let cells := { cells with user := ⟨.block o, decompressed, stats⟩ }
      -- smallish objects verify synchronously here
      if readU64 host o 8 ≤ 16 * 1024 then if r < 0 then .fail r cells else .dispatch cells
      else .dispatch cells

/-- `per_object`, up to where `self` is dispatched again. `allocs` is what the
allocators answer at each offset. -/
def perObject (zstd : Zstd) (allocs : UInt64 → Allocs) (host : Endian) (header : Header)
    (cells : Iteration VerifyCells) : Reading (Iteration VerifyCells) :=
  if cells.iterOffset = 0 then
    match cells.user.iterObject.free, cells.user.decompressed.free with
    | .ok _, .ok _ => .dispatch { cells with user := ⟨.null, .null, cells.user.stats⟩ }
    | .error fault, _ | .ok _, .error fault => .abort fault
  -- skip non-hashed objects
  else if cells.iterObjectHeader.type ≠ ObjectType.field.toByte ∧
      cells.iterObjectHeader.type ≠ ObjectType.data.toByte then .dispatch cells
  else
    match ensureUsable (allocs cells.iterOffset).iterObject cells.iterObjectHeader.size
        cells.user.iterObject with
    | .error fault => .abort fault
    | .ok (r, iterObject) =>
      let cells := { cells with user := { cells.user with iterObject } }
      if r < 0 then .fail r cells
      else if iterObject = .null then .abort .assertion
      else .read (cells.iterOffset, cells.iterObjectHeader.size) cells fun mem =>
        match gotIterObject host iterObject mem with
        | .error fault => .abort fault
        | .ok iterObject => perHashedObject zstd (allocs cells.iterOffset) host header
            { cells with user := { cells.user with iterObject } }

/-- One turn of the walk. -/
def verifyStep (zstd : Zstd) (allocs : UInt64 → Allocs) (host : Endian) (header : Header)
    (cells : Iteration VerifyCells) : Reading (Iteration VerifyCells) :=
  (journalIterNextObject host header cells).andThen (perObject zstd allocs host header)

/-- `verify hashed-objects` on a journal whose header is loaded, for at most `fuel`
dispatches of `per_object`. -/
def verifyHashedObjects (zstd : Zstd) (allocs : UInt64 → Allocs) (host : Endian)
    (header : Header) (file : JournalFile) (fuel : Nat) (cells : Iteration VerifyCells) :
    Except Fault (Unit × List (Iteration VerifyCells) × LoopEnd Int) :=
  loop (fileReader file) (verifyStep zstd allocs host header) Iteration.ended fuel () cells

/-! ## Up to the payload -/

section Loads

variable {zstd : Zstd} {allocs : UInt64 → Allocs} {host : Endian} {header : Header}

/-- What `verify_hashed_object` hashes is as long as it takes it for once it is loaded. -/
theorem verifyHashedObject_hashes {cells loaded : Load}
    (ran : Jio.verifyHashedObject host cells = .dispatch loaded) (large : 16 ≤ cells.object.length)
    (behind : List UInt8) (allocs : Allocs) (decompressed : Pointer) (stats : VerifyStats) :
    ∃ type counted, (type = .field ∨ type = .data) ∧
      verifyHashedObject zstd allocs host header (.block (cells.object ++ behind)) decompressed
          stats = do
        let block := cells.object ++ behind
        let payload ← payloadOf block (UInt64.ofNat (ObjectType.reach type)) loaded.payloadSize
        let (r, decompressed) ← verifyPayload zstd allocs header
          (block.getD 1 0 &&& OBJECT_COMPRESSION_MASK) payload (readU64 host block 16) decompressed
        return { r, decompressed, stats := counted } := by
  have typed : (cells.object ++ behind).getD 0 0 = cells.object.getD 0 0 := by
    rw [List.getD_eq_getElem?_getD, List.getElem?_append_left (by omega),
      List.getD_eq_getElem?_getD]
  have sized := readU64_more host large behind
  unfold Jio.verifyHashedObject at ran
  unfold verifyHashedObject
  dsimp only
  rw [typed, sized]
  cases named : ObjectType.ofByte? (cells.object.getD 0 0) with
  | none =>
    rw [named] at ran
    cases ran
  | some type =>
    rw [named] at ran
    cases type with
    | field =>
      cases ran
      exact ⟨.field, { stats with
        nFieldObjects := stats.nFieldObjects + 1
        nFieldBytes := stats.nFieldBytes + (readU64 host cells.object 8 - sizeofFieldObject) },
        .inl rfl, rfl⟩
    | data =>
      cases ran
      exact ⟨.data, { stats with
        nDataObjects := stats.nDataObjects + 1
        nDataBytes := stats.nDataBytes + (readU64 host cells.object 8 - sizeofDataObject) },
        .inr rfl, rfl⟩
    | _ => cases ran

theorem verifyHashedObject_ends (host : Endian) (cells : Load) :
    (∃ loaded, Jio.verifyHashedObject host cells = .dispatch loaded) ∨
      Jio.verifyHashedObject host cells = .abort .assertion := by
  unfold Jio.verifyHashedObject
  split
  · exact .inl ⟨_, rfl⟩
  · exact .inl ⟨_, rfl⟩
  · exact .inr rfl

/-- `per_object` goes on from its part up to the payload: it fails where that fails, and hashes the
payload that was found. Nothing follows from a fault, as `*iter_object` may have more room. -/
inductive GoesOn (verifies : Except Fault (Cache × Ended Int (Iteration VerifyCells)))
    (hashes : Cache → Load → Prop) : Except Fault (Cache × Ended Int Load) → Prop
  | faulted {fault : Fault} : GoesOn verifies hashes (.error fault)
  | failed {cache : Cache} {code : Int} {left : Load} {cells : Iteration VerifyCells}
      (fails : verifies = .ok (cache, .failed code cells)) :
      GoesOn verifies hashes (.ok (cache, .failed code left))
  | dispatched {cache : Cache} {loaded : Load} (loads : hashes cache loaded) :
      GoesOn verifies hashes (.ok (cache, .dispatched loaded))

/-- What `per_object` does of a field or data object up to `verify_hashed_object`. -/
theorem perObject_loads {kernel : Kernel} {cache : Cache} {offset : UInt64} (somewhere : offset ≠ 0)
    {object : ObjectHeader}
    (hashed : object.type = ObjectType.field.toByte ∨ object.type = ObjectType.data.toByte)
    {cells : VerifyCells} (valid : cells.iterObject.Valid) {usable : UInt64}
    (room : usable.toNat = cells.iterObject.usable) {load : Load}
    (held : load.objectHeader = object) :
    let verifies := exec (cachedReader kernel) cache
      (perObject zstd allocs host header ⟨offset, object, cells⟩)
    GoesOn verifies
      (fun cache' loaded => ∃ read behind, Jio.verifyHashedObject host read = .dispatch loaded ∧
        verifies = exec (cachedReader kernel) cache' (perHashedObject zstd (allocs offset) host
          header ⟨offset, object, { cells with iterObject := .block (read.object ++ behind) }⟩))
      (exec (cachedReader kernel) cache (verifyPerObject
        (fun size => ((allocs offset).iterObject size).isSome) usable host offset load)) := by
  subst held
  have typed : ¬(load.objectHeader.type ≠ ObjectType.field.toByte ∧
      load.objectHeader.type ≠ ObjectType.data.toByte) := by
    rcases hashed with field | data
    · exact fun others => others.1 field
    · exact fun others => others.2 data
  unfold verifyPerObject perObject
  rw [if_neg typed, if_neg somewhere, if_neg typed, ensureUsable_eq valid]
  have short : (usable < load.objectHeader.size ∧
      ((allocs offset).iterObject load.objectHeader.size).isSome = false) ↔
        cells.iterObject.grown (allocs offset).iterObject load.objectHeader.size = none := by
    rw [UInt64.lt_iff_toNat_lt, room, ← Option.not_isSome_iff_eq_none, Pointer.grown_isSome]
    simp
  cases grown : cells.iterObject.grown (allocs offset).iterObject load.objectHeader.size with
  | none =>
    rw [if_pos (short.mpr grown)]
    exact .failed rfl
  | some iterObject =>
    rw [if_neg (mt short.mp (by simp [grown]))]
    obtain ⟨newValid, fits, -⟩ := Pointer.grown_spec valid grown
    dsimp only
    rw [if_neg (Int.lt_irrefl 0)]
    unfold journalGetObject Program.andThen exec
    cases answered : cachedReader kernel cache (offset, load.objectHeader.size) with
    | error fault => exact .faulted
    | ok reply =>
      have something : load.objectHeader.size ≠ 0 := by
        intro nothing
        simp [nothing, cachedReader, journalRead] at answered
      cases iterObject with
      | null => exact absurd (UInt64.toNat_inj.mp (Nat.le_zero.mp fits)) something
      | freed => exact absurd rfl newValid
      | block block =>
        rw [if_neg (show Pointer.block block ≠ .null by simp)]
        simp only [answered]
        obtain ⟨next, code | mem⟩ := reply
        · exact .failed rfl
        dsimp only
        cases converted : gotObject host mem with
        | error fault => exact .faulted
        | ok objectInMem =>
          have whole : gotIterObject host (.block block) mem =
              .ok (.block (objectInMem ++ block.drop mem.length)) := by
            rw [gotIterObject, gotObject_more converted]
            rfl
          rw [whole]
          let read : Load := { load with object := objectInMem }
          dsimp only [Program.andThen]
          rcases verifyHashedObject_ends host read with ⟨loaded, verified⟩ | verified
          · rw [show Jio.verifyHashedObject host _ = _ from verified]
            exact .dispatched ⟨read, block.drop mem.length, verified, exec.eq_def ..⟩
          · rw [show Jio.verifyHashedObject host _ = _ from verified]
            exact .faulted

end Loads

/-! ## What it comes to -/

/-- What a walk comes to: its end, an object without a hash, or a field or data object that
is well sized and can be read, with what it holds. -/
inductive Visit (zstd : Zstd) (file : JournalFile) where
  | ended (held : ObjectHeader)
  | other (offset : UInt64) (header : ObjectHeader) (somewhere : offset ≠ 0)
      (unhashed : header.type ≠ ObjectType.field.toByte ∧ header.type ≠ ObjectType.data.toByte)
  | hashed (offset : UInt64) (header : ObjectHeader) (somewhere : offset ≠ 0)
      (hashed : header.type = ObjectType.field.toByte ∨ header.type = ObjectType.data.toByte)
      (readable : Readable file offset header.size)
      (o : HashedObject) (bytes : o.bytes = file.slice offset.toNat header.size.toNat)
      (content : List UInt8) (holds : o.Content zstd content)

namespace Visit

variable {zstd : Zstd} {file : JournalFile}

/-- `*iter_offset` and `*iter_object_header` there. -/
def object : Visit zstd file → UInt64 × ObjectHeader
  | ended held => (0, held)
  | other offset header _ _ => (offset, header)
  | hashed offset header _ _ _ _ _ _ _ => (offset, header)

/-- It has another hash than the one it is stored with. -/
def Mismatch (header : Header) : Visit zstd file → Prop
  | hashed _ _ _ _ _ o _ content _ => contentHash header content ≠ o.stored
  | _ => False

/-- It is a frame of nothing. -/
def EmptyFrame : Visit zstd file → Prop
  | hashed _ _ _ _ _ o _ content _ => o.compression ≠ 0 ∧ content = []
  | _ => False

/-- It is a frame of something. -/
def FilledFrame : Visit zstd file → Prop
  | hashed _ _ _ _ _ o _ content _ => o.compression ≠ 0 ∧ content ≠ []
  | _ => False

end Visit

section Steps

variable {zstd : Zstd} {allocs : UInt64 → Allocs} {host : Endian} {header : Header}
  {file : JournalFile}

/-- A field or data object is loaded and verified; a bad one of more than 16 KiB is passed
over. -/
theorem perObject_hashed (succeed : ∀ offset, (allocs offset).Succeed) {offset : UInt64}
    {object : ObjectHeader} (somewhere : offset ≠ 0)
    (hashed : object.type = ObjectType.field.toByte ∨ object.type = ObjectType.data.toByte)
    (readable : Readable file offset object.size) {o : HashedObject}
    (bytes : o.bytes = file.slice offset.toNat object.size.toNat) {cells : VerifyCells}
    (valid : cells.Valid) :
    exec (fileReader file) () (perObject zstd allocs host header ⟨offset, object, cells⟩) =
      match loadAndVerify zstd (allocs offset) host header o.bytes cells with
      | .error fault => .error fault
      | .ok (r, next) =>
        if object.size ≤ 16 * 1024 ∧ r < 0 then .ok ((), .failed r ⟨offset, object, next⟩)
        else .ok ((), .dispatched ⟨offset, object, next⟩) := by
  have large := o.large
  have bound := file.size_lt
  have length : o.bytes.length = object.size.toNat := by
    rw [bytes]
    exact bytesAt_length ..
  have size : UInt64.ofNat o.bytes.length = object.size := by rw [length, UInt64.ofNat_toNat]
  have roomy : (cells.iterObject.grown (allocs offset).iterObject object.size).isSome :=
    Pointer.grown_isSome.mpr fun _ => (succeed offset).iterObject _
  obtain ⟨iterObject, room⟩ := Option.isSome_iff_exists.mp roomy
  obtain ⟨newValid, fits, -⟩ := Pointer.grown_spec valid.1 room
  have typed : ¬(object.type ≠ ObjectType.field.toByte ∧ object.type ≠ ObjectType.data.toByte) := by
    rcases hashed with field | data
    · exact fun others => others.1 field
    · exact fun others => others.2 data
  have answer : fileReader file () (offset, object.size) = .ok ((), .ok o.bytes) := by
    rw [fileReader_inside (by omega) readable, bytes]
  cases iterObject with
  | null =>
    have nothing : Pointer.null.usable = 0 := rfl
    omega
  | freed => exact absurd rfl newValid
  | block buffer =>
    obtain ⟨block, converted, holds⟩ := gotObject_holds host o (buffer.drop o.bytes.length)
    have sized : readU64 host block 8 = object.size := by
      rw [holds.size, ← UInt64.toNat_inj, o.sized, length]
    unfold perObject loadAndVerify
    rw [if_neg somewhere, if_neg typed, size, ensureUsable_eq valid.1, room]
    simp only [Int.lt_irrefl, ↓reduceIte, reduceCtorEq, bind_ok, exec, answer, gotIterObject,
      converted, Except.map, perHashedObject]
    cases verifyHashedObject zstd (allocs offset) host header (.block block) cells.decompressed
      cells.stats with
    | error fault => rfl
    | ok verified =>
      simp only [sized, bind_ok, pure, Except.pure]
      by_cases small : object.size ≤ 16 * 1024
      · by_cases bad : verified.r < 0
        · simp only [small, bad, and_self, ↓reduceIte, exec]
        · simp only [small, bad, and_false, ↓reduceIte, exec]
      · simp only [small, false_and, ↓reduceIte, exec]

/-- The end of the walk frees what is left. -/
theorem perObject_ended (held : ObjectHeader) {cells : VerifyCells} (valid : cells.Valid) :
    exec (fileReader file) () (perObject zstd allocs host header ⟨0, held, cells⟩) =
      .ok ((), .dispatched ⟨0, held, .null, .null, cells.stats⟩) := by
  obtain ⟨_, released, -⟩ := free_valid valid.1
  obtain ⟨_, released', -⟩ := free_valid valid.2
  simp only [perObject, ↓reduceIte, released, released', exec]

theorem perObject_other {offset : UInt64} {object : ObjectHeader} (somewhere : offset ≠ 0)
    (unhashed : object.type ≠ ObjectType.field.toByte ∧ object.type ≠ ObjectType.data.toByte)
    (cells : VerifyCells) :
    exec (fileReader file) () (perObject zstd allocs host header ⟨offset, object, cells⟩) =
      .ok ((), .dispatched ⟨offset, object, cells⟩) := by
  simp only [perObject, if_neg somewhere, if_pos unhashed, exec]

/-- A visit fails, without a buffer to decompress nothing to. -/
def Visit.Faults (header : Header) (visit : Visit zstd file) (cells : VerifyCells) : Prop :=
  keyed header ∧ visit.EmptyFrame ∧ cells.decompressed = .null

/-- The object is verified before the walk goes on. -/
def Visit.Small (visit : Visit zstd file) : Prop := visit.object.2.size ≤ 16 * 1024

/-- One turn of the walk: it faults at an empty frame, it stops at a mismatch that is small
enough to be noticed, or it goes on with a buffer if there was one or now is. -/
inductive Turn (zstd : Zstd) (header : Header) (visit : Visit zstd file) (cells : VerifyCells) :
    Except Fault (Unit × Ended Int (Iteration VerifyCells)) → Prop
  | faulted (faults : visit.Faults header cells) : Turn zstd header visit cells (.error .assertion)
  | failed (hashable : ¬visit.Faults header cells) (mismatch : visit.Mismatch header)
      (small : visit.Small) (next : Iteration VerifyCells) :
      Turn zstd header visit cells (.ok ((), .failed (-EBADMSG) next))
  | dispatched (hashable : ¬visit.Faults header cells)
      (passed : visit.Mismatch header → ¬visit.Small) {next : VerifyCells} (valid : next.Valid)
      (buffer : visit.object.1 ≠ 0 →
        (next.decompressed = .null ↔ cells.decompressed = .null ∧ ¬visit.FilledFrame)) :
      Turn zstd header visit cells (.ok ((), .dispatched (.at visit.object next)))

variable (host header) in
theorem turn_spec (succeed : ∀ offset, (allocs offset).Succeed) (visit : Visit zstd file)
    {cells : VerifyCells} (valid : cells.Valid) :
    Turn zstd header visit cells
      (exec (fileReader file) () (perObject zstd allocs host header (.at visit.object cells))) := by
  cases visit with
  | ended held =>
    rw [show Iteration.at (Visit.ended held : Visit zstd file).object cells =
      ⟨0, held, cells⟩ from rfl, perObject_ended held valid]
    apply Turn.dispatched
    · exact fun faults => faults.2.1
    · exact False.elim
    · exact freshCells_valid cells.stats
    · exact fun somewhere => absurd rfl somewhere
  | other offset object somewhere unhashed =>
    rw [show Iteration.at (Visit.other offset object somewhere unhashed : Visit zstd file).object
      cells = ⟨offset, object, cells⟩ from rfl, perObject_other somewhere unhashed]
    apply Turn.dispatched
    · exact fun faults => faults.2.1
    · exact False.elim
    · exact valid
    · exact fun _ => (and_iff_left not_false).symm
  | hashed offset object somewhere hashed readable o bytes content holds =>
    rw [show Iteration.at (Visit.hashed offset object somewhere hashed readable o bytes content
      holds : Visit zstd file).object cells = ⟨offset, object, cells⟩ from rfl,
      perObject_hashed succeed somewhere hashed readable bytes valid]
    obtain ⟨faults, verifies⟩ := loadAndVerify_content host header holds
      (succeed offset) valid
    by_cases unhashable : Unhashable header o content cells.decompressed
    · rw [faults unhashable]
      exact .faulted ⟨unhashable.1, ⟨unhashable.2.1, unhashable.2.2.1⟩, unhashable.2.2.2⟩
    · obtain ⟨next, ran, nextValid, null⟩ := verifies unhashable
      have hashable : ¬Visit.Faults header (Visit.hashed offset object somewhere hashed readable o
          bytes content holds) cells :=
        fun ⟨key, ⟨compressed, empty⟩, missing⟩ => unhashable ⟨key, compressed, empty, missing⟩
      have buffer : next.decompressed = .null ↔ cells.decompressed = .null ∧
          ¬(o.compression ≠ 0 ∧ content ≠ []) := by
        rw [null, not_and_or, not_not, not_not]
      rw [ran]
      by_cases small : object.size ≤ 16 * 1024
      · by_cases same : contentHash header content = o.stored
        · have verdict : o.verdict header content = 0 := if_neg (not_not.mpr same)
          simp only [verdict, Int.lt_irrefl, and_false, ↓reduceIte]
          exact .dispatched hashable (fun mismatch => absurd same mismatch) nextValid fun _ => buffer
        · have verdict : o.verdict header content = -EBADMSG := if_pos same
          have negative : -EBADMSG < 0 := by decide
          simp only [verdict, small, negative, and_self, ↓reduceIte]
          exact .failed hashable same small _
      · simp only [small, false_and, ↓reduceIte]
        exact .dispatched hashable (fun _ => small) nextValid fun _ => buffer

end Steps

/-! ## Verdicts -/

section Verdicts

variable {zstd : Zstd} {allocs : UInt64 → Allocs} {host : Endian} {header : Header}
  {file : JournalFile}

/-- What came of a walk. -/
abbrev WalkResult := Except Fault (Unit × List (Iteration VerifyCells) × LoopEnd Int)

/-- The walk goes on over what matches, and has no negative result then; and at the first
object that does not match it ends with one, nothing behind it being visited. -/
def RightVerdict (header : Header) (visits : List (Visit zstd file)) (ran : WalkResult) : Prop :=
  ∃ trace ended, ran = .ok ((), trace, ended) ∧
    ((∀ visit ∈ visits, ¬visit.Mismatch header) ∧
        trace.map Iteration.object = visits.map Visit.object ∧ (∀ code, ended ≠ .failed code) ∨
      ∃ before visit after code, visits = before ++ visit :: after ∧
        (∀ earlier ∈ before, ¬earlier.Mismatch header) ∧ visit.Mismatch header ∧
        trace.map Iteration.object = before.map Visit.object ∧ ended = .failed code ∧ code < 0)

/-- If an object does not match, the first that does not is at most 16 KiB large; and under
a keyed hash there is a frame of something before a frame of nothing, unless an object
that does not match comes first. -/
def Noticed (header : Header) (visits : List (Visit zstd file)) : Prop :=
  ∀ before visit after, visits = before ++ visit :: after →
    (∀ earlier ∈ before, ¬earlier.Mismatch header) →
    (visit.Mismatch header → visit.Small) ∧
      (keyed header → visit.EmptyFrame → ∃ earlier ∈ before, earlier.FilledFrame)

/-- The same of a walk that goes on, perhaps with a buffer. -/
def NoticedFrom (header : Header) (buffer : Prop) (visits : List (Visit zstd file)) : Prop :=
  ∀ before visit after, visits = before ++ visit :: after →
    (∀ earlier ∈ before, ¬earlier.Mismatch header) →
    (visit.Mismatch header → visit.Small) ∧
      (keyed header → visit.EmptyFrame → buffer ∨ ∃ earlier ∈ before, earlier.FilledFrame)

theorem noticedFrom_cons {buffer : Prop} {visit : Visit zstd file}
    {visits : List (Visit zstd file)} : NoticedFrom header buffer (visit :: visits) ↔
      ((visit.Mismatch header → visit.Small) ∧ (keyed header → visit.EmptyFrame → buffer)) ∧
        (¬visit.Mismatch header → NoticedFrom header (buffer ∨ visit.FilledFrame) visits) := by
  constructor
  · intro noticed
    have first := noticed [] visit visits rfl nofun
    refine ⟨⟨first.1, fun key empty => ?_⟩, ?_⟩
    · simpa using first.2 key empty
    · rintro matching before later after rfl earlier
      have next := noticed (visit :: before) later after rfl
        (List.forall_mem_cons.mpr ⟨matching, earlier⟩)
      refine ⟨next.1, fun key empty => ?_⟩
      rw [or_assoc, ← List.exists_mem_cons_iff]
      exact next.2 key empty
  · rintro ⟨⟨small, hashable⟩, rest⟩ before later after shape earlier
    cases before with
    | nil =>
      obtain ⟨rfl, -⟩ := List.cons.inj shape
      exact ⟨small, fun key empty => .inl (hashable key empty)⟩
    | cons first before =>
      obtain ⟨rfl, rfl⟩ := List.cons.inj shape
      obtain ⟨matching, others⟩ := List.forall_mem_cons.mp earlier
      have next := rest matching before later after rfl others
      refine ⟨next.1, fun key empty => ?_⟩
      rw [List.exists_mem_cons_iff, ← or_assoc]
      exact next.2 key empty

theorem noticedFrom_congr {buffer buffer' : Prop} (same : buffer ↔ buffer')
    (visits : List (Visit zstd file)) :
    NoticedFrom header buffer visits ↔ NoticedFrom header buffer' visits := by
  unfold NoticedFrom
  rw [same]

/-- A walk that went past its first object was right to if that matches. -/
theorem rightVerdict_cons {visit : Visit zstd file} {visits : List (Visit zstd file)}
    (matching : ¬visit.Mismatch header) {next : VerifyCells} {trace : List (Iteration VerifyCells)}
    {ended : LoopEnd Int} :
    RightVerdict header (visit :: visits) (.ok ((), .at visit.object next :: trace, ended)) ↔
      RightVerdict header visits (.ok ((), trace, ended)) := by
  have here : (Iteration.at visit.object next).object = visit.object := rfl
  constructor
  · rintro ⟨_, _, same, right⟩
    cases same
    refine ⟨trace, ended, rfl, ?_⟩
    rcases right with ⟨all, visited, unfailed⟩ | ⟨before, other, after, code, shape, earlier,
      mismatch, visited, failed⟩
    · exact .inl ⟨fun later member => all later (.tail _ member), (List.cons.inj visited).2, unfailed⟩
    · cases before with
      | nil =>
        obtain ⟨rfl, -⟩ := List.cons.inj shape
        exact absurd mismatch matching
      | cons first before =>
        obtain ⟨rfl, rfl⟩ := List.cons.inj shape
        exact .inr ⟨before, other, after, code, rfl, fun past member => earlier past (.tail _ member),
          mismatch, (List.cons.inj visited).2, failed⟩
  · rintro ⟨_, _, same, right⟩
    cases same
    refine ⟨_, ended, rfl, ?_⟩
    rcases right with ⟨all, visited, unfailed⟩ | ⟨before, other, after, code, rfl, earlier,
      mismatch, visited, failed⟩
    · refine .inl ⟨List.forall_mem_cons.mpr ⟨matching, all⟩, ?_, unfailed⟩
      rw [List.map_cons, List.map_cons, here, visited]
    · refine .inr ⟨visit :: before, other, after, code, rfl,
        List.forall_mem_cons.mpr ⟨matching, earlier⟩, mismatch, ?_, failed⟩
      rw [List.map_cons, List.map_cons, here, visited]

/-- A walk that starts with a mismatch is right to end there. -/
theorem rightVerdict_mismatch {visit : Visit zstd file} {visits : List (Visit zstd file)}
    (mismatch : visit.Mismatch header) {ran : WalkResult} :
    RightVerdict header (visit :: visits) ran ↔ ∃ code < 0, ran = .ok ((), [], .failed code) := by
  constructor
  · rintro ⟨trace, ended, rfl, ⟨all, -⟩ | ⟨before, other, after, code, shape, earlier, -, visited,
      rfl, negative⟩⟩
    · exact absurd mismatch (all visit (by simp))
    · cases before with
      | nil =>
        obtain rfl := List.map_eq_nil_iff.mp visited
        exact ⟨code, negative, rfl⟩
      | cons first before =>
        obtain ⟨rfl, -⟩ := List.cons.inj shape
        exact absurd mismatch (earlier visit (by simp))
  · rintro ⟨code, negative, rfl⟩
    exact ⟨[], _, rfl, .inr ⟨[], visit, visits, code, rfl, nofun, mismatch, rfl, rfl, negative⟩⟩

/-- Where the walk leads from an object to a visit, its turn is that of `per_object`. -/
theorem verifyStep_eq {a : UInt64 × ObjectHeader} {visit : Visit zstd file}
    (leads : Leads file header host a visit.object) (cells : VerifyCells) :
    exec (fileReader file) () (verifyStep zstd allocs host header (.at a cells)) =
      exec (fileReader file) () (perObject zstd allocs host header (.at visit.object cells)) := by
  have ran := leads VerifyCells cells
  unfold Dispatches at ran
  unfold verifyStep
  rw [exec_andThen, show exec (fileReader file) ()
    (journalIterNextObject host header (.at a cells)) = _ from ran]
  rfl

theorem Visit.ended_of_zero {visit : Visit zstd file} (zero : visit.object.1 = 0) :
    ∃ held, visit = .ended held := by
  cases visit with
  | ended held => exact ⟨held, rfl⟩
  | other offset object somewhere => exact absurd zero somewhere
  | hashed offset object somewhere => exact absurd zero somewhere

/-- From any state of the buffers, the verdict on what the walk comes to is right exactly
when what is wrong is noticed. -/
theorem walk_verdict_iff (succeed : ∀ offset, (allocs offset).Succeed)
    {a : UInt64 × ObjectHeader} {visits : List (Visit zstd file)}
    (chain : List.IsChain (Leads file header host) (a :: visits.map Visit.object))
    (going : ∀ visit ∈ visits.dropLast, visit.object.1 ≠ 0) {cells : VerifyCells}
    (valid : cells.Valid) :
    RightVerdict header visits
        (verifyHashedObjects zstd allocs host header file visits.length (.at a cells)) ↔
      NoticedFrom header (cells.decompressed ≠ .null) visits := by
  induction visits generalizing a cells with
  | nil =>
    refine iff_of_true ⟨[], .running, rfl, .inl ⟨by simp, rfl, by simp⟩⟩ ?_
    intro before visit after shape
    simp at shape
  | cons visit visits ih =>
    obtain ⟨leads, rest⟩ := List.isChain_cons_cons.mp chain
    have turned := turn_spec host header succeed visit valid
    rw [← verifyStep_eq leads] at turned
    unfold verifyHashedObjects
    rw [List.length_cons, loop]
    generalize exec (fileReader file) () (verifyStep zstd allocs host header (.at a cells)) = ran
      at turned
    rw [noticedFrom_cons]
    cases turned with
    | faulted faults =>
      obtain ⟨key, empty, missing⟩ := faults
      refine iff_of_false ?_ fun noticed => noticed.1.2 key empty missing
      rintro ⟨_, _, same, -⟩
      cases same
    | failed hashable mismatch small next =>
      refine iff_of_true ((rightVerdict_mismatch mismatch).mpr ⟨-EBADMSG, by decide, rfl⟩) ?_
      exact ⟨⟨fun _ => small, fun key empty missing => hashable ⟨key, empty, missing⟩⟩,
        fun matching => absurd mismatch matching⟩
    | @dispatched hashable passed next nextValid buffer =>
      have hashes : keyed header → visit.EmptyFrame → cells.decompressed ≠ .null :=
        fun key empty missing => hashable ⟨key, empty, missing⟩
      by_cases zero : visit.object.1 = 0
      · have last : visits = [] := by
          by_contra more
          obtain ⟨next, others, rfl⟩ := List.exists_cons_of_ne_nil more
          exact going visit (by simp) zero
        obtain ⟨held, rfl⟩ := Visit.ended_of_zero zero
        subst last
        refine iff_of_true ((rightVerdict_cons id).mpr ⟨[], .finished, rfl, .inl ?_⟩) ?_
        · exact ⟨by simp [Visit.Mismatch], rfl, by simp⟩
        · refine ⟨⟨False.elim, hashes⟩, fun _ before later after shape => ?_⟩
          simp at shape
      have more : Iteration.ended (.at visit.object next) = false :=
        decide_eq_false_iff_not.mpr zero
      have later := ih rest (fun later member => going later (by
        cases visits with
        | nil => simp at member
        | cons first others => exact List.mem_cons_of_mem _ member)) nextValid
      unfold verifyHashedObjects at later
      simp only [more, Bool.false_eq_true, ↓reduceIte]
      by_cases mismatch : visit.Mismatch header
      · -- it is too large to be noticed, and the walk is past it
        refine iff_of_false ?_ fun noticed => passed mismatch (noticed.1.1 mismatch)
        rw [rightVerdict_mismatch mismatch]
        rintro ⟨code, -, same⟩
        generalize loop (fileReader file) (verifyStep zstd allocs host header) Iteration.ended
          visits.length () (.at visit.object next) = result at same
        cases result with
        | error fault => cases same
        | ok reply => cases same
      · rw [and_iff_right ⟨fun mismatched => absurd mismatched mismatch, hashes⟩,
          imp_iff_right mismatch, ← noticedFrom_congr (show next.decompressed ≠ .null ↔ _ by
            rw [ne_eq, buffer zero, not_and_or, not_not]), ← later]
        generalize loop (fileReader file) (verifyStep zstd allocs host header) Iteration.ended
          visits.length () (.at visit.object next) = result
        cases result with
        | error fault =>
          refine iff_of_false ?_ ?_ <;>
          · rintro ⟨_, _, same, -⟩
            cases same
        | ok reply => exact rightVerdict_cons mismatch

/-- There is no buffer at first. -/
theorem noticedFrom_fresh (stats : VerifyStats) {visits : List (Visit zstd file)} :
    NoticedFrom header ((freshCells stats).decompressed ≠ .null) visits ↔
      Noticed header visits := by
  unfold NoticedFrom Noticed
  simp only [freshCells, ne_eq, not_true_eq_false, false_or]

/-- Whatever a walk visits, `verify hashed-objects` gives the right verdict exactly when the
first object that does not match, if any, is verified before the walk goes on, and no frame
of nothing is hashed with a key before there is a buffer. -/
theorem verdict_is_right_iff (succeed : ∀ offset, (allocs offset).Succeed) (host : Endian)
    (header : Header) {held : ObjectHeader} {visits : List (Visit zstd file)}
    (chain : List.IsChain (Leads file header host) ((0, held) :: visits.map Visit.object))
    (going : ∀ visit ∈ visits.dropLast, visit.object.1 ≠ 0) (stats : VerifyStats) :
    RightVerdict header visits (verifyHashedObjects zstd allocs host header file visits.length
        ⟨0, held, freshCells stats⟩) ↔ Noticed header visits := by
  rw [← noticedFrom_fresh stats]
  exact walk_verdict_iff succeed chain going (freshCells_valid stats)

end Verdicts

/-! ## A journal of one object -/

/-- A file with one object behind a header of 256 bytes. -/
def fileOf (o : HashedObject) (small : o.bytes.length < 2 ^ 31) : JournalFile where
  size := 256 + o.bytes.length
  byte i := if i < 256 then 0 else o.bytes.getD (i - 256) 0
  size_lt := by omega

/-- The header it has. -/
def headerOf : Header := { (default : Header) with headerSize := 256, tailObjectOffset := 256 }

section OneObject

variable {o : HashedObject} {small : o.bytes.length < 2 ^ 31}

theorem fileOf_slice : (fileOf o small).slice 256 o.bytes.length = o.bytes := by
  apply List.ext_getElem (bytesAt_length ..)
  intro i _ inside
  simp [bytesAt, fileOf, inside]

theorem fileOf_object : ((fileOf o small).objectHeader 256).size.toNat = o.bytes.length ∧
    ObjectType.ofByte? ((fileOf o small).objectHeader 256).type = some o.type := by
  have large := o.large
  have size := (fileOf o small).slice_size 256 (show 16 ≤ o.bytes.length by omega)
  have type := (fileOf o small).slice_type 256 (show 0 < o.bytes.length by omega)
  rw [fileOf_slice] at size type
  rw [← size, ← type]
  exact ⟨o.sized, o.typed⟩

/-- What a walk over it comes to. -/
def visitOf (zstd : Zstd) (o : HashedObject) (small : o.bytes.length < 2 ^ 31)
    (content : List UInt8) (holds : o.Content zstd content) : List (Visit zstd (fileOf o small)) :=
  [.hashed 256 ((fileOf o small).objectHeader 256) (by decide)
    (by
      rcases o.hashed with type | type
      · exact .inl (ObjectType.eq_toByte (type ▸ fileOf_object.2))
      · exact .inr (ObjectType.eq_toByte (type ▸ fileOf_object.2)))
    ⟨by rw [fileOf_object.1]; exact small, by rw [fileOf_object.1]; exact le_rfl⟩ o
    (by rw [fileOf_object.1]; exact fileOf_slice.symm) content holds,
  .ended ((fileOf o small).objectHeader 256)]

theorem visitOf_chain (host : Endian) (zstd : Zstd) {content : List UInt8}
    (holds : o.Content zstd content) (held : ObjectHeader) :
    List.IsChain (Leads (fileOf o small) headerOf host)
      ((0, held) :: (visitOf zstd o small content holds).map Visit.object) := by
  have large := o.large
  have start : nextOffset headerOf (0, held) = 256 := rfl
  have first : Leads (fileOf o small) headerOf host (0, held) (nextOffset headerOf (0, held), _) :=
    leads_object host (by rw [start]; decide)
      (by rw [start]; exact Nat.add_le_add_left (by omega) 256)
  rw [start] at first
  have past : headerOf.tailObjectOffset <
      nextOffset headerOf (256, (fileOf o small).objectHeader 256) := by
    have size : ((fileOf o small).objectHeader 256).size.toNat = o.bytes.length := fileOf_object.1
    have rounded := roundUp8_lt ((fileOf o small).objectHeader 256).size.toNat
    have atLeast := le_roundUp8 ((fileOf o small).objectHeader 256).size.toNat
    have sized : ((fileOf o small).objectHeader 256).size ≠ 0 := by
      intro zero
      rw [zero] at size
      exact absurd size (by simp; omega)
    have here : (256 : UInt64).toNat = 256 := rfl
    rw [nextOffset, Iteration.advance, if_neg (show ¬(256 : UInt64) = 0 by decide), if_pos sized,
      UInt64.lt_iff_toNat_lt, add_align64_toNat, show headerOf.tailObjectOffset = 256 from rfl, here,
      Nat.mod_eq_of_lt (by dsimp only; omega)]
    dsimp only
    omega
  exact List.isChain_cons_cons.mpr ⟨first, List.isChain_pair.mpr (leads_end host past)⟩

end OneObject

/-- A field with a hash that is not its own. -/
def badField (payload : List UInt8) (small : 40 + payload.length < 2 ^ 31) : HashedObject :=
  fieldObject 0 (contentHash headerOf payload + 1) payload (by omega)

section BadField

variable {payload : List UInt8} (small : 40 + payload.length < 2 ^ 31)

theorem badField_length : (badField payload small).bytes.length = 40 + payload.length :=
  fieldParts_length ..

theorem badField_small : (badField payload small).bytes.length < 2 ^ 31 := by
  rw [badField_length]
  exact small

theorem badField_content (zstd : Zstd) : (badField payload small).Content zstd payload := by
  have plain : (badField payload small).compression = 0 := by
    rw [badField, fieldObject_compression]
    rfl
  have holds : (badField payload small).Content zstd (badField payload small).payload :=
    .plain plain
  rwa [badField, fieldObject_payload] at holds

theorem badField_mismatch : contentHash headerOf payload ≠ (badField payload small).stored := by
  rw [badField, fieldObject_stored]
  intro same
  have shifted := congrArg (· - contentHash headerOf payload) same
  simp [UInt64.add_comm] at shifted

/-- What a walk over a file with this field comes to. -/
def badVisits (zstd : Zstd) (payload : List UInt8) (small : 40 + payload.length < 2 ^ 31) :
    List (Visit zstd (fileOf (badField payload small) (badField_small small))) :=
  visitOf zstd (badField payload small) (badField_small small) payload (badField_content small zstd)

theorem badVisits_going (zstd : Zstd) :
    ∀ visit ∈ (badVisits zstd payload small).dropLast, visit.object.1 ≠ 0 := by
  intro visit member
  obtain rfl := List.mem_singleton.mp member
  exact show (256 : UInt64) ≠ 0 by decide

/-- If it is too large, it is not noticed. -/
theorem badVisits_unnoticed (zstd : Zstd) (large : 16 * 1024 < 40 + payload.length) :
    ¬Noticed headerOf (badVisits zstd payload small) := by
  intro noticed
  have first := (noticed [] _ _ rfl nofun).1 (badField_mismatch small)
  have size : ((fileOf (badField payload small) (badField_small small)).objectHeader 256).size.toNat =
      (badField payload small).bytes.length := fileOf_object.1
  rw [badField_length] at size
  have below := UInt64.le_iff_toNat_le.mp (show ((fileOf (badField payload small)
    (badField_small small)).objectHeader 256).size ≤ 16 * 1024 from first)
  rw [size, show ((16 * 1024 : UInt64)).toNat = 16 * 1024 from rfl] at below
  omega

end BadField

/-- More than 16 KiB of zeros. -/
def zeros : List UInt8 := .replicate 16385 0

theorem zeros_length : 40 + zeros.length = 16425 := by
  unfold zeros
  rw [List.length_replicate]

theorem verdict_is_right_iff_zeros :
    let small := show 40 + zeros.length < 2 ^ 31 by rw [zeros_length]; decide
    RightVerdict headerOf (badVisits someFrames zeros small)
      (verifyHashedObjects someFrames (fun _ => zeroAllocs) .little headerOf
        (fileOf (badField zeros small) (badField_small small)) 2
        ⟨0, ⟨0, 0, .replicate 6 0, 0⟩, freshCells ⟨0, 0, 0, 0⟩⟩) ↔
      Noticed headerOf (badVisits someFrames zeros small) :=
  verdict_is_right_iff (fun _ => zeroAllocs_succeed) .little headerOf
    (visitOf_chain .little someFrames _ _) (badVisits_going _ someFrames) _

/-- The walk over a journal whose only object is larger than 16 KiB and does not match does not
end with a negative result. -/
theorem large_mismatch_is_not_noticed :
    let small := show 40 + zeros.length < 2 ^ 31 by rw [zeros_length]; decide
    (∃ visit ∈ badVisits someFrames zeros small, visit.Mismatch headerOf) ∧
      ¬RightVerdict headerOf (badVisits someFrames zeros small)
        (verifyHashedObjects someFrames (fun _ => zeroAllocs) .little headerOf
          (fileOf (badField zeros small) (badField_small small)) 2
          ⟨0, ⟨0, 0, .replicate 6 0, 0⟩, freshCells ⟨0, 0, 0, 0⟩⟩) := by
  intro small
  refine ⟨⟨_, .head _, badField_mismatch small⟩, ?_⟩
  intro right
  apply badVisits_unnoticed small someFrames (by rw [zeros_length]; decide)
  apply (noticedFrom_fresh ⟨0, 0, 0, 0⟩).mp
  exact (walk_verdict_iff (fun _ => zeroAllocs_succeed)
    (visitOf_chain .little someFrames (badField_content small _) _)
    (badVisits_going small someFrames) (freshCells_valid ⟨0, 0, 0, 0⟩)).mp right

end Jio.HashedObjects
