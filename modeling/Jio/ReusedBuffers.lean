import Jio.HashedObjects

/-! What an object is verified as after others have been. `*iter_object` is always
written before it is read; `*decompressed` may be missing until the first frame
that has anything in it, and that is all an object can tell of those before it. -/
namespace Jio.HashedObjects
open ByteOrder

/-! ## Contents -/

/-- The library decompresses a frame in one call to what the frame declares. -/
structure Zstd.ValidFrame (zstd : Zstd) (src content : List UInt8) : Prop where
  nonempty : src ≠ []
  declares : zstd.Declares src
  size : (zstd.getFrameContentSize src).toNat = content.length
  streams : zstd.decompressStream src (zstd.getFrameContentSize src) = ⟨content, none⟩

/-- What an object holds, as it is or in a valid frame. -/
inductive HashedObject.Content (zstd : Zstd) (o : HashedObject) : List UInt8 → Prop
  | plain (plain : o.compression = 0) : Content zstd o o.payload
  | frame {content : List UInt8} (known : o.compression &&& OBJECT_COMPRESSED_ZSTD ≠ 0)
      (valid : zstd.ValidFrame o.payload content) : Content zstd o content

/-- The verdict on an object that holds this. -/
def HashedObject.verdict (header : Header) (o : HashedObject) (content : List UInt8) : Int :=
  if contentHash header content ≠ o.stored then -EBADMSG else 0

/-- The object is a frame of nothing, under a keyed hash, and there is no buffer. -/
def Unhashable (header : Header) (o : HashedObject) (content : List UInt8)
    (decompressed : Pointer) : Prop :=
  keyed header ∧ o.compression ≠ 0 ∧ content = [] ∧ decompressed = .null

section Objects

variable {zstd : Zstd} {host : Endian} {header : Header} {allocs : Allocs} {o : HashedObject}
  {content : List UInt8}

variable (header) in
/-- An object is verified by what it holds; what is left is whether there is a buffer. -/
theorem verifyPayload_content (holds : o.Content zstd content) (succeed : allocs.Succeed)
    {decompressed : Pointer} (valid : decompressed.Valid) :
    (Unhashable header o content decompressed →
      verifyPayload zstd allocs header o.compression o.payload o.stored decompressed =
        .error .assertion) ∧
    (¬Unhashable header o content decompressed → ∃ dest,
      verifyPayload zstd allocs header o.compression o.payload o.stored decompressed =
        .ok (o.verdict header content, dest) ∧ dest.Valid ∧
      (dest = .null ↔ decompressed = .null ∧ (o.compression = 0 ∨ content = []))) := by
  cases holds with
  | plain plain =>
    constructor
    · rintro ⟨-, compressed, -⟩
      exact absurd plain compressed
    · intro
      rw [plain, verifyPayload_plain]
      exact ⟨decompressed, rfl, valid, by simp⟩
  | frame known frame =>
    have compressed := compressed_of_zstd known
    have roomy : (decompressed.grown allocs.decompressed
        (zstd.getFrameContentSize o.payload)).isSome :=
      Pointer.grown_isSome.mpr fun _ => succeed.decompressed _
    obtain ⟨dest, room⟩ := Option.isSome_iff_exists.mp roomy
    obtain ⟨destValid, -, null⟩ := Pointer.grown_spec valid room
    have size : zstd.getFrameContentSize o.payload = 0 ↔ content = [] := by
      rw [← List.length_eq_zero_iff, ← frame.size, ← UInt64.toNat_inj]
      rfl
    rw [size] at null
    rw [verifyPayload_streamed zstd allocs header o.stored valid frame.nonempty known
      frame.declares room succeed.createDCtx frame.streams frame.size.le]
    unfold Unhashable
    constructor
    · rintro ⟨key, -, empty, missing⟩
      exact if_pos ⟨key, null.mpr ⟨missing, empty⟩⟩
    · intro hashable
      rw [if_neg fun ⟨key, nowhere⟩ => hashable ⟨key, compressed, (null.mp nowhere).2,
        (null.mp nowhere).1⟩]
      refine ⟨_, rfl, Pointer.write_valid destValid content, ?_⟩
      rw [Pointer.write_null, null, or_iff_right compressed]

/-- What is verified of an object that is loaded into whatever `*iter_object` has
been given. -/
theorem loadAndVerify_eq (zstd : Zstd) (allocs : Allocs) (host : Endian) (header : Header)
    (o : HashedObject) {cells : VerifyCells} (valid : cells.iterObject.Valid)
    {iterObject : Pointer} (room : cells.iterObject.grown allocs.iterObject
      (UInt64.ofNat o.bytes.length) = some iterObject) : ∃ block stats,
      loadAndVerify zstd allocs host header o.bytes cells =
        (verifyPayload zstd allocs header o.compression o.payload o.stored
          cells.decompressed).map fun (r, decompressed) => (r, ⟨.block block, decompressed, stats⟩) := by
  obtain ⟨newValid, fits, -⟩ := Pointer.grown_spec valid room
  have size : (UInt64.ofNat o.bytes.length).toNat = o.bytes.length := by
    rw [← o.sized, UInt64.ofNat_toNat]
  have large := o.large
  rw [size] at fits
  cases iterObject with
  | null =>
    have nothing : Pointer.null.usable = 0 := rfl
    omega
  | freed => exact absurd rfl newValid
  | block bytes =>
    obtain ⟨block, converted, holds⟩ := gotObject_holds host o (bytes.drop o.bytes.length)
    obtain ⟨stats, ran⟩ := verifyHashedObject_eq zstd allocs header holds cells.decompressed
      cells.stats
    refine ⟨block, stats, ?_⟩
    unfold loadAndVerify
    rw [ensureUsable_eq valid, room]
    simp only [bind_ok, Int.lt_irrefl, ↓reduceIte, gotIterObject, converted, Except.map, ran]
    cases verifyPayload zstd allocs header o.compression o.payload o.stored
      cells.decompressed <;> rfl

/-- Objects that were verified leave pointers behind that can be freed. -/
def VerifyCells.Valid (cells : VerifyCells) : Prop :=
  cells.iterObject.Valid ∧ cells.decompressed.Valid

variable (host header) in
/-- An object is loaded and verified by what it holds. -/
theorem loadAndVerify_content (holds : o.Content zstd content) (succeed : allocs.Succeed)
    {cells : VerifyCells} (valid : cells.Valid) :
    (Unhashable header o content cells.decompressed →
      loadAndVerify zstd allocs host header o.bytes cells = .error .assertion) ∧
    (¬Unhashable header o content cells.decompressed → ∃ next,
      loadAndVerify zstd allocs host header o.bytes cells = .ok (o.verdict header content, next) ∧
      next.Valid ∧ (next.decompressed = .null ↔
        cells.decompressed = .null ∧ (o.compression = 0 ∨ content = []))) := by
  have roomy : (cells.iterObject.grown allocs.iterObject (UInt64.ofNat o.bytes.length)).isSome :=
    Pointer.grown_isSome.mpr fun _ => succeed.iterObject _
  obtain ⟨iterObject, room⟩ := Option.isSome_iff_exists.mp roomy
  obtain ⟨block, stats, ran⟩ := loadAndVerify_eq zstd allocs host header o valid.1 room
  obtain ⟨faults, verifies⟩ := verifyPayload_content header holds succeed valid.2
  constructor
  · intro unhashable
    rw [ran, faults unhashable]
    rfl
  · intro hashable
    obtain ⟨dest, verified, destValid, null⟩ := verifies hashable
    rw [ran, verified]
    exact ⟨_, rfl, ⟨nofun, destValid⟩, null⟩

/-- How `decompress` may end: where it succeeds, it has left a buffer if there was one, or
if there was anything to write. -/
inductive Unpacked (zstd : Zstd) (src : List UInt8) (dest : Pointer) :
    Except Fault (Except Int UInt64 × Pointer) → Prop
  | fault (fault : Fault) : Unpacked zstd src dest (.error fault)
  | failed {r : Int} (errno : IsErrno r) (dest' : Pointer) :
      Unpacked zstd src dest (.ok (.error r, dest'))
  | done {dest' : Pointer} (valid : dest'.Valid)
      (null : dest' = .null ↔ dest = .null ∧ zstd.getFrameContentSize src = 0) :
      Unpacked zstd src dest (.ok (.ok (zstd.getFrameContentSize src), dest'))

theorem decompress_unpacked (zstd : Zstd) (allocs : Allocs) (compression : UInt8)
    (src : List UInt8) {dest : Pointer} (valid : dest.Valid) :
    Unpacked zstd src dest (decompress zstd allocs compression src dest) := by
  by_cases asserted : ¬(compression &&& OBJECT_COMPRESSED_ZSTD ≠ 0 ∧ src ≠ [])
  · rw [decompress_asserts zstd allocs dest asserted]
    exact .fault _
  obtain ⟨known, nonempty⟩ := not_not.mp asserted
  by_cases undeclared : ¬zstd.Declares src
  · rw [decompress_undeclared zstd allocs dest nonempty known undeclared]
    exact .failed (.inl rfl) _
  rw [decompress_eq zstd allocs valid nonempty known (not_not.mp undeclared)]
  cases room : dest.grown allocs.decompressed (zstd.getFrameContentSize src) with
  | none => exact .failed (.inr (.inr (.inl rfl))) _
  | some dest' =>
    obtain ⟨destValid, -, null⟩ := Pointer.grown_spec valid room
    obtain ⟨lost, released, -⟩ := free_valid destValid
    cases allocs.createDCtx with
    | false =>
      simp only [↓reduceIte, released, Except.map]
      exact .failed (.inr (.inr (.inl rfl))) _
    | true =>
      simp only [Bool.true_eq_false, ↓reduceIte]
      cases (zstd.decompressStream src (zstd.getFrameContentSize src)).error with
      | some code => exact .failed (zstdRetToErrno_isErrno code) _
      | none =>
        simp only
        split
        · exact .fault _
        · exact .done (Pointer.write_valid destValid _) (Pointer.write_null.trans null)

theorem IsErrno.ne_zero {r : Int} (errno : IsErrno r) : r ≠ 0 := by
  rcases errno with rfl | rfl | rfl | rfl <;> decide

/-- An object that was verified successfully has left a buffer if there was one, or if it
is a frame with anything in it. -/
theorem verifyPayload_succeeded {decompressed dest : Pointer} (valid : decompressed.Valid)
    (ran : verifyPayload zstd allocs header o.compression o.payload o.stored decompressed =
      .ok (0, dest)) :
    dest.Valid ∧ (dest = .null ↔ decompressed = .null ∧
      (o.compression = 0 ∨ zstd.getFrameContentSize o.payload = 0)) := by
  by_cases compressed : o.compression = 0
  · rw [compressed, verifyPayload_plain] at ran
    obtain ⟨-, rfl⟩ := Prod.mk.inj (Except.ok.inj ran)
    exact ⟨valid, by simp [compressed]⟩
  rw [or_iff_right compressed]
  have unpacked := decompress_unpacked zstd allocs o.compression o.payload valid
  generalize came : decompress zstd allocs o.compression o.payload decompressed = result at unpacked
  cases unpacked with
  | fault fault =>
    rw [verifyPayload_of_fault header o.stored compressed came] at ran
    cases ran
  | failed errno dest' =>
    rw [verifyPayload_of_error header o.stored compressed came] at ran
    cases ran
    exact absurd rfl errno.ne_zero
  | @done dest' destValid null =>
    unfold verifyPayload at ran
    rw [if_pos compressed, came, bind_ok] at ran
    obtain ⟨content, -, ran⟩ := bind_eq_ok.mp ran
    obtain ⟨h, -, ran⟩ := bind_eq_ok.mp ran
    obtain ⟨-, rfl⟩ := Prod.mk.inj (Except.ok.inj ran)
    exact ⟨destValid, null⟩

end Objects

/-! ## Histories -/

/-- Objects that were verified one after the other, each of them successfully, take the
cells from the first to the last. -/
inductive Succeeds (zstd : Zstd) (host : Endian) (header : Header) :
    VerifyCells → List (HashedObject × Allocs) → VerifyCells → Prop
  | nil (cells : VerifyCells) : Succeeds zstd host header cells [] cells
  | cons {cells next last : VerifyCells} {o : HashedObject} {allocs : Allocs}
      {history : List (HashedObject × Allocs)}
      (ran : loadAndVerify zstd allocs host header o.bytes cells = .ok (0, next))
      (rest : Succeeds zstd host header next history last) :
      Succeeds zstd host header cells ((o, allocs) :: history) last

/-- The cells before the first object. -/
def freshCells (stats : VerifyStats) : VerifyCells := ⟨.null, .null, stats⟩

/-- There was a frame with anything in it. -/
def HasFrame (zstd : Zstd) (history : List (HashedObject × Allocs)) : Prop :=
  ∃ visit ∈ history, visit.1.compression ≠ 0 ∧ zstd.getFrameContentSize visit.1.payload ≠ 0

/-- The result of verifying an object. -/
def outcome (zstd : Zstd) (allocs : Allocs) (host : Endian) (header : Header) (o : HashedObject)
    (cells : VerifyCells) : Except Fault Int :=
  (loadAndVerify zstd allocs host header o.bytes cells).map Prod.fst

section Histories

variable {zstd : Zstd} {host : Endian} {header : Header}

/-- One more object that is verified successfully. -/
theorem loadAndVerify_succeeded {allocs : Allocs} {o : HashedObject} {cells next : VerifyCells}
    (valid : cells.Valid)
    (ran : loadAndVerify zstd allocs host header o.bytes cells = .ok (0, next)) :
    next.Valid ∧ (next.decompressed = .null ↔ cells.decompressed = .null ∧
      (o.compression = 0 ∨ zstd.getFrameContentSize o.payload = 0)) := by
  cases room : cells.iterObject.grown allocs.iterObject (UInt64.ofNat o.bytes.length) with
  | none =>
    unfold loadAndVerify at ran
    rw [ensureUsable_eq valid.1, room] at ran
    cases ran
  | some iterObject =>
    obtain ⟨block, stats, same⟩ := loadAndVerify_eq zstd allocs host header o valid.1 room
    rw [same] at ran
    cases verified : verifyPayload zstd allocs header o.compression o.payload o.stored
        cells.decompressed with
    | error fault =>
      rw [verified] at ran
      cases ran
    | ok reply =>
      rw [verified] at ran
      obtain ⟨r, dest⟩ := reply
      cases ran
      obtain ⟨destValid, null⟩ := verifyPayload_succeeded valid.2 verified
      exact ⟨⟨nofun, destValid⟩, null⟩

/-- All a history leaves is a buffer, if it had a frame to put into it. -/
theorem Succeeds.buffer {cells last : VerifyCells} {history : List (HashedObject × Allocs)}
    (before : Succeeds zstd host header cells history last) (valid : cells.Valid) :
    last.Valid ∧ (last.decompressed = .null ↔
      cells.decompressed = .null ∧ ¬HasFrame zstd history) := by
  induction before with
  | nil cells => exact ⟨valid, by simp [HasFrame]⟩
  | @cons cells next last o allocs history ran rest ih =>
    obtain ⟨nextValid, first⟩ := loadAndVerify_succeeded valid ran
    obtain ⟨lastValid, others⟩ := ih nextValid
    refine ⟨lastValid, ?_⟩
    rw [others, first, and_assoc]
    apply and_congr_right
    intro
    unfold HasFrame
    simp only [List.exists_mem_cons_iff, not_or, not_and, not_not]
    exact and_congr_left fun _ => or_iff_not_imp_left

theorem freshCells_valid (stats : VerifyStats) : (freshCells stats).Valid :=
  ⟨show Pointer.null ≠ .freed by decide, show Pointer.null ≠ .freed by decide⟩

variable (host header) in
/-- What comes of an object that holds this. -/
theorem outcome_eq {allocs : Allocs} (succeed : allocs.Succeed) {o : HashedObject}
    {content : List UInt8} (holds : o.Content zstd content) {cells : VerifyCells}
    (valid : cells.Valid) :
    (Unhashable header o content cells.decompressed →
      outcome zstd allocs host header o cells = .error .assertion) ∧
    (¬Unhashable header o content cells.decompressed →
      outcome zstd allocs host header o cells = .ok (o.verdict header content)) := by
  obtain ⟨faults, verifies⟩ := loadAndVerify_content host header holds
    succeed valid
  unfold outcome
  constructor
  · intro unhashable
    rw [faults unhashable]
    rfl
  · intro hashable
    obtain ⟨next, ran, -⟩ := verifies hashable
    rw [ran]
    rfl

/-- An object is verified the same after any two histories exactly when it is not an empty
frame under a keyed hash, or both or neither of the histories had a frame that was
not empty. -/
theorem outcomes_agree_iff {history history' : List (HashedObject × Allocs)}
    {stats stats' : VerifyStats} {cells cells' : VerifyCells}
    (before : Succeeds zstd host header (freshCells stats) history cells)
    (before' : Succeeds zstd host header (freshCells stats') history' cells')
    {o : HashedObject} {content : List UInt8} (holds : o.Content zstd content)
    {allocs allocs' : Allocs} (succeed : allocs.Succeed) (succeed' : allocs'.Succeed) :
    outcome zstd allocs host header o cells = outcome zstd allocs' host header o cells' ↔
      keyed header = false ∨ o.compression = 0 ∨ content ≠ [] ∨
        (HasFrame zstd history ↔ HasFrame zstd history') := by
  obtain ⟨valid, null⟩ := before.buffer (freshCells_valid stats)
  obtain ⟨valid', null'⟩ := before'.buffer (freshCells_valid stats')
  rw [and_iff_right (show (freshCells _).decompressed = .null from rfl)] at null null'
  obtain ⟨faults, verifies⟩ := outcome_eq host header succeed holds valid
  obtain ⟨faults', verifies'⟩ := outcome_eq host header succeed' holds valid'
  unfold Unhashable at faults verifies faults' verifies'
  rw [null] at faults verifies
  rw [null'] at faults' verifies'
  by_cases emptyFrame : keyed header = true ∧ o.compression ≠ 0 ∧ content = []
  · obtain ⟨key, compressed, empty⟩ := emptyFrame
    simp only [key, compressed, empty, ne_eq, not_true_eq_false, not_false_eq_true, true_and,
      Bool.true_eq_false, false_or] at faults verifies faults' verifies' ⊢
    by_cases framed : HasFrame zstd history <;> by_cases framed' : HasFrame zstd history'
    · rw [verifies (not_not.mpr framed), verifies' (not_not.mpr framed')]
      exact iff_of_true rfl (iff_of_true framed framed')
    · rw [verifies (not_not.mpr framed), faults' framed']
      exact iff_of_false nofun fun same => framed' (same.mp framed)
    · rw [faults framed, verifies' (not_not.mpr framed')]
      exact iff_of_false nofun fun same => framed (same.mpr framed')
    · rw [faults framed, faults' framed']
      exact iff_of_true rfl (iff_of_false framed framed')
  · rw [verifies fun ⟨key, compressed, empty, _⟩ => emptyFrame ⟨key, compressed, empty⟩,
      verifies' fun ⟨key, compressed, empty, _⟩ => emptyFrame ⟨key, compressed, empty⟩]
    refine iff_of_true rfl ?_
    by_contra neither
    simp only [not_or, Bool.not_eq_false, not_not] at neither
    exact emptyFrame ⟨neither.1, neither.2.1, neither.2.2.1⟩

end Histories

def hello : List UInt8 := [0x68, 0x65, 0x6c, 0x6c, 0x6f]

/-- `hello` in a frame, with the right hash. -/
def helloObject : HashedObject :=
  fieldObject OBJECT_COMPRESSED_ZSTD (contentHash keyedHeader hello) helloFrame (by decide)

/-- A frame of nothing, with the right hash. -/
def emptyObject : HashedObject :=
  fieldObject OBJECT_COMPRESSED_ZSTD (contentHash keyedHeader []) emptyFrame (by decide)

theorem helloObject_content : helloObject.Content someFrames hello := by
  refine .frame (show OBJECT_COMPRESSED_ZSTD &&& OBJECT_COMPRESSION_MASK &&&
    OBJECT_COMPRESSED_ZSTD ≠ 0 by decide) ?_
  rw [helloObject, fieldObject_payload]
  exact ⟨by decide, ⟨by decide, by decide⟩, rfl, rfl⟩

theorem emptyObject_content : emptyObject.Content someFrames [] := by
  refine .frame (show OBJECT_COMPRESSED_ZSTD &&& OBJECT_COMPRESSION_MASK &&&
    OBJECT_COMPRESSED_ZSTD ≠ 0 by decide) ?_
  rw [emptyObject, fieldObject_payload]
  exact ⟨by decide, ⟨by decide, by decide⟩, rfl, rfl⟩

theorem zeroAllocs_succeed : zeroAllocs.Succeed := ⟨fun _ => rfl, fun _ => rfl, rfl⟩

/-- `hello` can be verified first. -/
theorem helloObject_succeeds (stats : VerifyStats) : ∃ cells,
    Succeeds someFrames .little keyedHeader (freshCells stats) [(helloObject, zeroAllocs)] cells ∧
      cells.Valid ∧ cells.decompressed ≠ .null := by
  have hashable : ¬Unhashable keyedHeader helloObject hello (freshCells stats).decompressed :=
    fun unhashable => absurd unhashable.2.2.1 (by decide)
  obtain ⟨next, ran, valid, null⟩ := (loadAndVerify_content .little _ helloObject_content
    zeroAllocs_succeed (freshCells_valid stats)).2 hashable
  have matching : helloObject.verdict keyedHeader hello = 0 := by
    unfold HashedObject.verdict helloObject
    rw [fieldObject_stored, if_neg (not_not.mpr rfl)]
  rw [matching] at ran
  refine ⟨next, .cons ran (.nil next), valid, ?_⟩
  rw [ne_eq, null]
  rintro ⟨-, plain | nothing⟩
  · exact absurd plain (by decide)
  · exact absurd nothing (by decide)

theorem outcomes_agree_iff_hello : ∃ cells,
    outcome someFrames zeroAllocs .little keyedHeader helloObject (freshCells ⟨0, 0, 0, 0⟩) =
        outcome someFrames zeroAllocs .little keyedHeader helloObject cells ↔
      keyed keyedHeader = false ∨ helloObject.compression = 0 ∨ hello ≠ [] ∨
        (HasFrame someFrames [] ↔ HasFrame someFrames [(helloObject, zeroAllocs)]) := by
  obtain ⟨cells, before, -⟩ := helloObject_succeeds ⟨0, 0, 0, 0⟩
  exact ⟨cells, outcomes_agree_iff (.nil _) before helloObject_content zeroAllocs_succeed
    zeroAllocs_succeed⟩

/-- An empty frame under a keyed hash fails an assertion if it comes first, and is
verified successfully after a frame that is not empty. -/
theorem empty_frame_depends_on_history : ∃ cells,
    Succeeds someFrames .little keyedHeader (freshCells ⟨0, 0, 0, 0⟩)
        [(helloObject, zeroAllocs)] cells ∧
      emptyObject.Content someFrames [] ∧ zeroAllocs.Succeed ∧
      outcome someFrames zeroAllocs .little keyedHeader emptyObject (freshCells ⟨0, 0, 0, 0⟩) =
        .error .assertion ∧
      outcome someFrames zeroAllocs .little keyedHeader emptyObject cells = .ok 0 := by
  obtain ⟨cells, before, valid, buffer⟩ := helloObject_succeeds ⟨0, 0, 0, 0⟩
  refine ⟨cells, before, emptyObject_content, zeroAllocs_succeed, ?_, ?_⟩
  · exact (outcome_eq _ _ zeroAllocs_succeed emptyObject_content (freshCells_valid _)).1
      ⟨by decide, by decide, rfl, rfl⟩
  · have matching : emptyObject.verdict keyedHeader [] = 0 := by
      unfold HashedObject.verdict emptyObject
      rw [fieldObject_stored, if_neg (not_not.mpr rfl)]
    rw [(outcome_eq _ _ zeroAllocs_succeed emptyObject_content valid).2
      fun unhashable => buffer unhashable.2.2.2, matching]

end Jio.HashedObjects
