import Jio.CachedReads

/-! `journal_iter_next_object` and `journal_iter_objects`. The walk keeps its
position in two cells of the caller and is driven by the closure it dispatches,
so it is a program that stops at each read: a hit goes on at once, a miss when
the kernel is done, and neither matters to where the walk goes. -/
namespace Jio
open ByteOrder ReadProgram

/-! ## Programs over a journal -/

/-- Code that reads a journal with `journal_read` and goes on in a closure. -/
abbrev Reading (σ : Type) := Program (UInt64 × UInt64) (List UInt8) Int Fault σ

/-- A reader without a cache. Requests that `journal_read` does not promise
anything about fault, those for more than an `int` can count among them. -/
def fileReader (file : JournalFile) (_ : Unit) (request : UInt64 × UInt64) :
    Except Fault (Unit × Except Int (List UInt8)) :=
  if 0 < request.2.toNat ∧ request.2.toNat < 2 ^ 31 ∧
      request.1.toNat + request.2.toNat < 2 ^ 64 then
    .ok ((), plainRead file request.1 request.2)
  else .error .outOfBounds

theorem fileReader_inside {file : JournalFile} {offset length : UInt64}
    (positive : 0 < length.toNat) (readable : Readable file offset length) :
    fileReader file () (offset, length) =
      .ok ((), .ok (file.slice offset.toNat length.toNat)) := by
  have bound := file.size_lt
  have inside := readable.2
  unfold fileReader
  rw [if_pos ⟨positive, readable.1, by dsimp only; omega⟩, plainRead, if_pos readable]

@[simp] theorem readable_header {file : JournalFile} {offset : UInt64} :
    Readable file offset sizeofObjectHeader ↔ offset.toNat + 16 ≤ file.size :=
  readable_iff_inside (by decide)

/-- What the kernel is asked for a request is no more than an `int` can count, if the request is
not. -/
theorem askedFor_lt {length : UInt64} (short : length.toNat < 2 ^ 31) :
    (askedFor length).toNat < 2 ^ 31 := by
  unfold askedFor
  split
  · decide
  · rw [UInt64.toNat_toUInt32]
    omega

/-- Where no read fails, the outcome is that of a plain read. -/
theorem ReadOutcome.plain {kernel : Kernel} {file : JournalFile} {cache : Cache}
    {offset length : UInt64} {outcome : Except Int (List UInt8)} (reliable : kernel.Reliable)
    (short : length.toNat < 2 ^ 31) (answered : ReadOutcome kernel file cache offset length outcome) :
    outcome = plainRead file offset length := by
  obtain ⟨some, answers⟩ := reliable cache.clock offset (askedFor length)
  rcases answered with plain | ⟨code, -, -, ⟨missing, -⟩ | ⟨negative, failed⟩⟩
  · exact plain
  · simp [missing] at some
  · have := answers (askedFor_lt short)
    omega

/-- The cached reader answers as the file does, as long as no read fails. -/
theorem cachedReader_refines {kernel : Kernel} {file : JournalFile}
    (serves : kernel.ServesFile file) (reliable : kernel.Reliable) :
    Refines (fun cache _ => CacheInvariant file cache.journal) (cachedReader kernel)
      (fileReader file) := by
  rintro cache _ ⟨offset, length⟩ _ answer invariant ran
  simp only [fileReader] at ran
  split at ran
  · rename_i asked
    obtain ⟨-, rfl⟩ := Prod.mk.inj (Except.ok.inj ran)
    obtain ⟨positive, short, straight⟩ := asked
    obtain ⟨journal, outcome, ok, kept, answered⟩ :=
      cachedReader_spec serves invariant positive straight
    exact ⟨⟨journal, cache.clock + 1⟩, by rw [ok, answered.plain reliable short], kept⟩
  · cases ran

/-- The file answers what the cached reader answered. -/
theorem cachedReader_answers {kernel : Kernel} {file : JournalFile} {cache cache' : Cache}
    {request : UInt64 × UInt64} {answer : List UInt8} (serves : kernel.ServesFile file)
    (invariant : CacheInvariant file cache.journal)
    (ran : cachedReader kernel cache request = .ok (cache', .ok answer)) :
    CacheInvariant file cache'.journal ∧ fileReader file () request = .ok ((), .ok answer) := by
  obtain ⟨offset, length⟩ := request
  have positive : 0 < length.toNat := by
    by_contra empty
    have zero : length = 0 := UInt64.toNat_inj.mp (by simpa using empty)
    simp [cachedReader, journalRead, zero] at ran
  obtain ⟨kept, plain | ⟨code, failed, -⟩⟩ := cachedReader_outcome serves invariant positive ran
  · have readable : Readable file offset length := by
      by_contra outside
      simp [plainRead, outside] at plain
    rw [plainRead, if_pos readable] at plain
    exact ⟨kept, plain ▸ fileReader_inside positive readable⟩
  · cases failed

/-- What comes of a range that cannot be read: the read leaves a buffer, or fails. -/
theorem cachedReader_refuses {kernel : Kernel} {file : JournalFile} {cache : Cache}
    {offset length : UInt64} (serves : kernel.ServesFile file) (reliable : kernel.Reliable)
    (invariant : CacheInvariant file cache.journal) (positive : 0 < length.toNat)
    (unreadable : ¬Readable file offset length) :
    (LeavesBuffer cache.journal offset length →
      cachedReader kernel cache (offset, length) = .error .outOfBounds) ∧
    (¬LeavesBuffer cache.journal offset length → ∃ cache' code,
      cachedReader kernel cache (offset, length) = .ok (cache', .error code) ∧
      CacheInvariant file cache'.journal ∧ (code = -EINVAL ∨ 2 ^ 31 ≤ length.toNat)) := by
  constructor
  · rintro ⟨small, wrapped⟩
    obtain ⟨wraps, reached⟩ := not_or.mp wrapped
    rw [← wrapped_lookup_iff invariant.coherent small (not_lt.mp wraps)] at reached
    obtain ⟨buf, found⟩ := Option.ne_none_iff_exists'.mp reached
    obtain ⟨order, listed⟩ := invariant.listed
    obtain ⟨used, -, -, read⟩ :=
      journalRead_hit (kernel.opNew cache.clock) listed positive small found
    have hit := lookup_some found
    have outside := (invariant.coherent buf (JournalBuf.valid_of_covers hit)).copyOut_wrapped hit
      (not_lt.mp wraps)
    simp [cachedReader, read, outside, Except.map]
  · intro stays
    by_cases short : length.toNat < 2 ^ 31
    · obtain ⟨journal, outcome, ok, kept, answered⟩ : ∃ journal outcome,
          cachedReader kernel cache (offset, length) = .ok (⟨journal, cache.clock + 1⟩, outcome) ∧
          CacheInvariant file journal ∧ ReadOutcome kernel file cache offset length outcome := by
        by_cases small : length.toNat ≤ JOURNAL_BUF_SIZE
        · have clear := not_not.mp fun wrapped => stays ⟨small, wrapped⟩
          by_cases straight : offset.toNat + length.toNat < 2 ^ 64
          · exact cachedReader_spec serves invariant positive straight
          · have missed := (wrapped_lookup_iff invariant.coherent small (not_lt.mp straight)).mpr
              (clear.resolve_left straight)
            exact cachedReader_miss serves invariant positive small missed
        · exact readOutcome_direct serves invariant small
      rw [answered.plain reliable short, plainRead, if_neg unreadable] at ok
      exact ⟨_, _, ok, kept, .inl rfl⟩
    · obtain ⟨code, ok⟩ := @cachedReader_long _ _ cache offset _ serves (not_lt.mp short)
      exact ⟨_, code, ok, invariant, .inr (not_lt.mp short)⟩

/-! ## The walk -/

/-- An `ObjectHeader` in memory, as the host reads it. -/
def ObjectHeader.ofMemory (host : Endian) (mem : List UInt8) : ObjectHeader where
  type := mem.getD 0 0
  flags := mem.getD 1 0
  reserved := .ofFn fun i => mem.getD (2 + i) 0
  size := readU64 host mem 8

/-- `*iter_offset` and `*iter_object_header`, and what the closure keeps. -/
structure Iteration (υ : Type) where
  iterOffset : UInt64
  iterObjectHeader : ObjectHeader
  user : υ

variable {υ : Type}

/-- `got_iter_object_header`. -/
def gotIterObjectHeader (host : Endian) (cells : Iteration υ) : Reading (Iteration υ) :=
  .dispatch { cells with
    iterObjectHeader.size := le64toh host cells.iterObjectHeader.size }

/-- Where `journal_iter_next_object` goes from the object in the cells. -/
def Iteration.advance (cells : Iteration υ) (header : Header) : UInt64 :=
  -- restart iterating when entered with (*iter_offset == 0)
  if cells.iterOffset = 0 then header.headerSize
  else if cells.iterObjectHeader.size ≠ 0 then
    cells.iterOffset + align64 cells.iterObjectHeader.size
  -- zero-sized object, the journal appears corrupt, ignore the remainder
  else header.tailObjectOffset + 1

/-- `journal_iter_next_object`. -/
def journalIterNextObject (host : Endian) (header : Header) (cells : Iteration υ) :
    Reading (Iteration υ) :=
  let iterOffset := cells.advance header
  -- final dispatch if past tail object
  if iterOffset > header.tailObjectOffset then .dispatch { cells with iterOffset := 0 }
  else .read (iterOffset, sizeofObjectHeader) { cells with iterOffset } fun mem =>
    gotIterObjectHeader host { cells with iterOffset, iterObjectHeader := .ofMemory host mem }

/-- The cells as a closure finds them. -/
def Iteration.object (cells : Iteration υ) : UInt64 × ObjectHeader :=
  (cells.iterOffset, cells.iterObjectHeader)

/-- A closure given to `journal_iter_objects`: its result and what it keeps. -/
abbrev Handler (υ : Type) := UInt64 → ObjectHeader → υ → Except Fault (Int × υ)

/-- `journal_iter_objects_dispatch`, up to where it goes on with the iteration. -/
def journalIterObjectsDispatch (closure : Handler υ) (cells : Iteration υ) :
    Reading (Iteration υ) :=
  match closure cells.iterOffset cells.iterObjectHeader cells.user with
  | .error fault => .abort fault
  | .ok (r, user) => if r < 0 then .fail r { cells with user } else .dispatch { cells with user }

/-- One turn of `journal_iter_objects`. -/
def journalIterObjectsStep (host : Endian) (header : Header) (closure : Handler υ)
    (cells : Iteration υ) : Reading (Iteration υ) :=
  (journalIterNextObject host header cells).andThen (journalIterObjectsDispatch closure)

/-- `if (!(*iter_offset))`. -/
def Iteration.ended (cells : Iteration υ) : Bool := cells.iterOffset = 0

/-- `journal_iter_objects`, for at most `fuel` dispatches. -/
def journalIterObjects {ρ : Type} (reader : Reader (UInt64 × UInt64) (List UInt8) Int Fault ρ)
    (host : Endian) (header : Header) (closure : Handler υ) (fuel : Nat) (r : ρ)
    (cells : Iteration υ) : Except Fault (ρ × List (Iteration υ) × LoopEnd Int) :=
  loop reader (journalIterObjectsStep host header closure) Iteration.ended fuel r
    { cells with iterOffset := 0 }

/-! ## Well-formed journals -/

/-- The header of the object at `off`, with its size in host order. -/
def JournalFile.objectHeader (file : JournalFile) (off : Nat) : ObjectHeader :=
  .ofMemory .little (file.slice off 16)

/-- Objects lie in the file back to back from `off` on. -/
def BackToBack (file : JournalFile) : Nat → List (UInt64 × ObjectHeader) → Prop
  | _, [] => True
  | off, (offset, object) :: objects => offset.toNat = off ∧ object = file.objectHeader off ∧
      16 ≤ object.size.toNat ∧ off + object.size.toNat ≤ file.size ∧
      BackToBack file (off + roundUp8 object.size.toNat) objects

/-- The objects of the journal are these, and its header says where they start
and which one is last. -/
structure WellFormed (file : JournalFile) (header : Header)
    (objects : List (UInt64 × ObjectHeader)) : Prop where
  positive : 0 < header.headerSize.toNat
  aligned : header.headerSize.toNat % 8 = 0
  consecutive : BackToBack file header.headerSize.toNat objects
  last : objects.getLast?.map Prod.fst = some header.tailObjectOffset

/-- Objects back to back, the tail object last, wherever the header ends. -/
structure Packed (file : JournalFile) (header : Header)
    (objects : List (UInt64 × ObjectHeader)) : Prop where
  positive : 0 < header.headerSize.toNat
  consecutive : BackToBack file header.headerSize.toNat objects
  last : ∀ object ∈ objects.getLast?, object.1 = header.tailObjectOffset
  none : objects = [] → header.tailObjectOffset < header.headerSize

theorem WellFormed.packed {file : JournalFile} {header : Header}
    {objects : List (UInt64 × ObjectHeader)} (wellFormed : WellFormed file header objects) :
    Packed file header objects := by
  obtain ⟨last, final, tail⟩ := Option.map_eq_some_iff.mp wellFormed.last
  refine ⟨wellFormed.positive, wellFormed.consecutive, ?_, ?_⟩
  · intro object chosen
    obtain rfl := Option.some.inj (final.symm.trans chosen)
    exact tail
  · rintro rfl
    simp at final

/-! ## One step -/

/-- The new position, in the arithmetic of the code. -/
theorem add_align64_toNat (p size : UInt64) :
    (p + align64 size).toNat = (p.toNat + roundUp8 size.toNat) % 2 ^ 64 := by
  have bound := size.toNat_lt
  rw [UInt64.toNat_add, align64_toNat]
  unfold roundUp8
  split <;> omega

/-- The walk leaves alone what the closure keeps. -/
theorem journalIterNextObject_user {ρ : Type}
    {reader : Reader (UInt64 × UInt64) (List UInt8) Int Fault ρ} {host : Endian} {header : Header}
    {cells next : Iteration υ} {r r' : ρ}
    (ran : exec reader r (journalIterNextObject host header cells) = .ok (r', .dispatched next)) :
    next.user = cells.user := by
  unfold journalIterNextObject at ran
  dsimp only at ran
  split at ran
  · cases ran
    rfl
  · unfold exec at ran
    split at ran
    · cases ran
    · cases ran
    · cases ran
      rfl

/-- Where the walk goes next does not depend on what the closure keeps. -/
def nextOffset (header : Header) (object : UInt64 × ObjectHeader) : UInt64 :=
  Iteration.advance (υ := Unit) ⟨object.1, object.2, ()⟩ header

/-- One call of `journal_iter_next_object` takes the cells from `a` to `b`. -/
def Leads (file : JournalFile) (header : Header) (host : Endian) (a b : UInt64 × ObjectHeader) :
    Prop :=
  ∀ (υ : Type) (user : υ), Dispatches (fileReader file) (journalIterNextObject host header)
    ((), ⟨a.1, a.2, user⟩) ((), ⟨b.1, b.2, user⟩)

/-- What the walk dispatches from an object on: the objects behind it, and then
the end with the last of them still in the cell. -/
def iterationFrom (held : ObjectHeader) :
    List (UInt64 × ObjectHeader) → List (UInt64 × ObjectHeader)
  | [] => [(0, held)]
  | object :: objects => object :: iterationFrom object.2 objects

section Steps

variable {file : JournalFile} {header : Header} {a : UInt64 × ObjectHeader}

/-- A position at or before the tail object is read and dispatched. -/
theorem leads_object (host : Endian) (low : nextOffset header a ≤ header.tailObjectOffset)
    (inside : (nextOffset header a).toNat + 16 ≤ file.size) :
    Leads file header host a
      (nextOffset header a, file.objectHeader (nextOffset header a).toNat) := by
  intro υ user
  have here : Iteration.advance ⟨a.1, a.2, user⟩ header = nextOffset header a := rfl
  generalize nextOffset header a = next at *
  have width : (file.slice next.toNat 16).length = 16 := bytesAt_length ..
  have read : fileReader file () (next, sizeofObjectHeader) =
      .ok ((), .ok (file.slice next.toNat 16)) :=
    fileReader_inside (by decide) (readable_header.mpr inside)
  rw [Dispatches]
  simp only [journalIterNextObject, here, gt_iff_lt, if_neg (UInt64.not_lt.mpr low), exec, read]
  simp only [gotIterObjectHeader, exec, ObjectHeader.ofMemory, JournalFile.objectHeader,
    le64toh_readU64 host (show 8 + 8 ≤ (file.slice next.toNat 16).length by omega)]

/-- A position past the tail object ends the walk. -/
theorem leads_end (host : Endian) (past : header.tailObjectOffset < nextOffset header a) :
    Leads file header host a (0, a.2) := by
  intro υ user
  have past' : header.tailObjectOffset < Iteration.advance ⟨a.1, a.2, user⟩ header := past
  rw [Dispatches]
  simp only [journalIterNextObject, gt_iff_lt, if_pos past', exec]

end Steps

/-! ## Whole passes -/

theorem BackToBack.le {file : JournalFile} {off : Nat} {objects : List (UInt64 × ObjectHeader)}
    (consecutive : BackToBack file off objects) {object : UInt64 × ObjectHeader}
    (member : object ∈ objects) : off ≤ object.1.toNat := by
  induction objects generalizing off with
  | nil => simp at member
  | cons first objects ih =>
    obtain ⟨here, -, -, -, rest⟩ := consecutive
    rcases List.mem_cons.mp member with rfl | member
    · exact here.ge
    · have := ih rest member
      omega

/-- From an object of a well-formed journal, the walk dispatches the rest of the
objects and the end, and goes on as it does from any end. -/
private theorem walk_chain {file : JournalFile} {header : Header} (host : Endian)
    {objects more : List (UInt64 × ObjectHeader)} {off : Nat} {a : UInt64 × ObjectHeader}
    (positive : 0 < off) (consecutive : BackToBack file off objects)
    (starts : ∀ object ∈ objects.head?, nextOffset header a = object.1)
    (past : objects = [] → header.tailObjectOffset < nextOffset header a)
    (last : ∀ object ∈ objects.getLast?, object.1 = header.tailObjectOffset)
    (again : ∀ b : UInt64 × ObjectHeader, b.1 = 0 →
      List.IsChain (Leads file header host) (b :: more)) :
    List.IsChain (Leads file header host) (a :: (iterationFrom a.2 objects ++ more)) := by
  induction objects generalizing off a with
  | nil => exact List.isChain_cons_cons.mpr ⟨leads_end host (past rfl), again _ rfl⟩
  | cons first objects ih =>
    obtain ⟨offset, object⟩ := first
    have bound := file.size_lt
    have ordered := fun object : UInt64 × ObjectHeader =>
      @BackToBack.le file off _ consecutive object
    obtain ⟨rfl, rfl, large, inside, rest⟩ := consecutive
    have here : nextOffset header a = offset := starts _ rfl
    have low : offset ≤ header.tailObjectOffset := by
      obtain ⟨final, chosen⟩ : ∃ final, ((offset, file.objectHeader offset.toNat) ::
          objects).getLast? = some final := by simp [List.getLast?_cons]
      rw [← last final chosen, UInt64.le_iff_toNat_le]
      exact ordered final (List.mem_of_getLast? chosen)
    have rounded := roundUp8_lt (file.objectHeader offset.toNat).size.toNat
    have atLeast := le_roundUp8 (file.objectHeader offset.toNat).size.toNat
    have advanced : (nextOffset header (offset, file.objectHeader offset.toNat)).toNat =
        offset.toNat + roundUp8 (file.objectHeader offset.toNat).size.toNat := by
      have nonzero : offset ≠ 0 := by rintro rfl; simp at positive
      have sized : (file.objectHeader offset.toNat).size ≠ 0 := by
        intro zero
        simp [zero] at large
      rw [nextOffset, Iteration.advance, if_neg nonzero, if_pos sized, add_align64_toNat,
        Nat.mod_eq_of_lt (by dsimp only; omega)]
    refine List.isChain_cons_cons.mpr ⟨?_, ih (by omega) rest ?_ ?_ ?_⟩
    · have next := leads_object host (by rw [here]; exact low)
        (show (nextOffset header a).toNat + 16 ≤ file.size by rw [here]; omega)
      rwa [here] at next
    · intro next chosen
      cases objects with
      | nil => simp at chosen
      | cons second objects =>
        obtain rfl : second = next := by simpa using chosen
        exact UInt64.toNat_inj.mp (advanced.trans rest.1.symm)
    · rintro rfl
      have tail : offset = header.tailObjectOffset := last _ rfl
      rw [← tail, UInt64.lt_iff_toNat_lt, advanced]
      omega
    · intro final chosen
      refine last final ?_
      cases objects with
      | nil => simp at chosen
      | cons second objects => simpa [List.getLast?_cons_cons] using chosen

/-- From the end, or from the start, the walk makes a pass and goes on. -/
theorem Packed.walk {file : JournalFile} {header : Header}
    {objects : List (UInt64 × ObjectHeader)} (packed : Packed file header objects)
    (host : Endian) {a : UInt64 × ObjectHeader} (restarts : a.1 = 0)
    (more : List (UInt64 × ObjectHeader))
    (again : ∀ b : UInt64 × ObjectHeader, b.1 = 0 →
      List.IsChain (Leads file header host) (b :: more)) :
    List.IsChain (Leads file header host) (a :: (iterationFrom a.2 objects ++ more)) := by
  have next : nextOffset header a = header.headerSize := if_pos restarts
  refine walk_chain host packed.positive packed.consecutive ?_ ?_ packed.last again
  · intro first chosen
    have consecutive := packed.consecutive
    cases objects with
    | nil => simp at chosen
    | cons object objects =>
      obtain rfl : object = first := by simpa using chosen
      rw [next]
      exact UInt64.toNat_inj.mp consecutive.1.symm
  · intro empty
    rw [next]
    exact packed.none empty

theorem iterationFrom_eq (held : ObjectHeader) (objects : List (UInt64 × ObjectHeader)) :
    iterationFrom held objects =
      objects ++ [(0, (objects.getLast?.map Prod.snd).getD held)] := by
  induction objects generalizing held with
  | nil => rfl
  | cons object objects ih =>
    rw [iterationFrom, ih]
    cases objects with
    | nil => rfl
    | cons second objects => simp [List.getLast?_cons]

theorem iterationFrom_of_last {objects : List (UInt64 × ObjectHeader)}
    {last : UInt64 × ObjectHeader} (final : objects.getLast? = some last) (held : ObjectHeader) :
    iterationFrom held objects = objects ++ [(0, last.2)] := by
  rw [iterationFrom_eq, final]
  rfl

/-- From the end, or from the start, the walk makes one pass after the other. -/
theorem WellFormed.passes {file : JournalFile} {header : Header}
    {objects : List (UInt64 × ObjectHeader)} {last : UInt64 × ObjectHeader}
    (wellFormed : WellFormed file header objects) (final : objects.getLast? = some last)
    (host : Endian) (k : Nat) {a : UInt64 × ObjectHeader} (restarts : a.1 = 0) :
    List.IsChain (Leads file header host)
      (a :: (List.replicate k (objects ++ [(0, last.2)])).flatten) := by
  induction k generalizing a with
  | zero => exact List.isChain_singleton _
  | succ k ih =>
    have chain := wellFormed.packed.walk host restarts _ fun b restarts => ih restarts
    rw [iterationFrom_of_last final] at chain
    rw [List.replicate_succ, List.flatten_cons]
    exact chain

/-! ## Closures -/

/-- The closure has no negative result and no fault for these cells. -/
def Accepts (closure : Handler υ) (object : UInt64 × ObjectHeader) : Prop :=
  ∀ user, ∃ r user', closure object.1 object.2 user = .ok (r, user') ∧ 0 ≤ r

/-- What the closure makes of what it keeps. -/
def Handler.after (closure : Handler υ) (object : UInt64 × ObjectHeader) (user : υ) : υ :=
  match closure object.1 object.2 user with
  | .ok (_, user) => user
  | .error _ => user

/-- The cells of a walk that is at an object. -/
def Iteration.at (object : UInt64 × ObjectHeader) (user : υ) : Iteration υ :=
  ⟨object.1, object.2, user⟩

/-- The states a closure leaves when it is dispatched with these cells in turn. -/
def visits (closure : Handler υ) (user : υ) (objects : List (UInt64 × ObjectHeader)) :
    List (Iteration υ) :=
  (visitAll closure.after user objects).map fun v => .at v.1 v.2

theorem visits_object (closure : Handler υ) (user : υ) (objects : List (UInt64 × ObjectHeader)) :
    (visits closure user objects).map Iteration.object = objects := by
  rw [visits, List.map_map]
  exact visitAll_cells closure.after user objects

theorem Accepts.dispatch {closure : Handler υ} {object : UInt64 × ObjectHeader}
    (accepts : Accepts closure object) (user : υ) :
    journalIterObjectsDispatch closure (.at object user) =
      .dispatch (.at object (closure.after object user)) := by
  obtain ⟨r, user', ran, accepted⟩ := accepts user
  simp only [journalIterObjectsDispatch, Iteration.at, Handler.after, ran,
    if_neg (not_lt.mpr accepted)]

theorem Leads.steps {file : JournalFile} {header : Header} {host : Endian}
    (a b : UInt64 × ObjectHeader) (user : υ) (leads : Leads file header host a b) :
    Dispatches (fileReader file) (journalIterNextObject host header) ((), Iteration.at a user)
      ((), Iteration.at b user) :=
  leads υ user

section Passes

variable {file : JournalFile} {header : Header} {objects : List (UInt64 × ObjectHeader)}
  {last : UInt64 × ObjectHeader}

private theorem passes_run (wellFormed : WellFormed file header objects)
    (final : objects.getLast? = some last) (host : Endian) (k : Nat) {cells : Iteration υ}
    (restarts : cells.iterOffset = 0) :
    ∃ trace, loop (fileReader file) (journalIterNextObject host header) (fun _ => false)
        ((objects.length + 1) * k) () cells = .ok ((), trace, .running) ∧
      trace.map Iteration.object = (List.replicate k (objects ++ [(0, last.2)])).flatten := by
  have chain := wellFormed.passes final host k (show cells.object.1 = 0 from restarts)
  generalize sequence : (List.replicate k (objects ++ [(0, last.2)])).flatten = visits at chain
  have walked : List.IsChain (Dispatches (fileReader file) (journalIterNextObject host header))
      (((), cells) :: visits.map fun object => ((), ⟨object.1, object.2, cells.user⟩)) := by
    refine List.isChain_map_of_isChain (fun object : UInt64 × ObjectHeader =>
      (((), ⟨object.1, object.2, cells.user⟩) : Unit × Iteration υ)) ?_ chain
    exact fun a b leads => leads υ cells.user
  obtain ⟨⟨⟩, ran⟩ := loop_running (fun _ => false) walked fun _ _ => rfl
  refine ⟨visits.map fun object => ⟨object.1, object.2, cells.user⟩, ?_, ?_⟩
  · have length : visits.length = (objects.length + 1) * k := by
      rw [← sequence]
      simp [Nat.mul_comm]
    rw [List.length_map, length, List.map_map] at ran
    exact ran
  · simp [Function.comp_def, Iteration.object]

/-- One pass of `journal_iter_objects`, from the file. -/
theorem Packed.pass (packed : Packed file header objects) (host : Endian) {closure : Handler υ}
    (cells : Iteration υ)
    (accepts : ∀ object ∈ iterationFrom cells.iterObjectHeader objects, Accepts closure object)
    {fuel : Nat} (enough : objects.length < fuel) :
    journalIterObjects (fileReader file) host header closure fuel () cells = .ok ((),
      visits closure cells.user (iterationFrom cells.iterObjectHeader objects), .finished) := by
  have walk := packed.walk host
    (show ((0 : UInt64), cells.iterObjectHeader).1 = 0 from rfl) []
    fun _ _ => List.isChain_singleton _
  rw [List.append_nil] at walk
  rw [iterationFrom_eq] at walk accepts ⊢
  have going : ∀ object ∈ objects, ∀ user : υ, Iteration.ended (.at object user) = false := by
    intro object member user
    have later := packed.consecutive.le member
    have positive := packed.positive
    rw [Iteration.ended, decide_eq_false_iff_not]
    intro zero
    have none : object.1.toNat = 0 := by rw [show object.1 = 0 from zero]; rfl
    omega
  exact loop_visits Leads.steps (fun object member => (accepts object member).dispatch) walk going
    (fun _ => rfl) enough cells.user

private theorem objects_run (wellFormed : WellFormed file header objects)
    (final : objects.getLast? = some last) (host : Endian) {closure : Handler υ}
    (accepts : ∀ object ∈ objects ++ [(0, last.2)], Accepts closure object) {fuel : Nat}
    (enough : objects.length < fuel) (cells : Iteration υ) :
    journalIterObjects (fileReader file) host header closure fuel () cells =
      .ok ((), visits closure cells.user (objects ++ [(0, last.2)]), .finished) := by
  rw [← iterationFrom_of_last final cells.iterObjectHeader] at accepts ⊢
  exact wellFormed.packed.pass host cells accepts enough

/-- On a well-formed journal, whatever is cached, iteration dispatches the
objects in file order and then the end, again and again; and
`journal_iter_objects` does so for one pass and stops. -/
theorem iteration_is_exact {kernel : Kernel} (serves : kernel.ServesFile file)
    (reliable : kernel.Reliable) (wellFormed : WellFormed file header objects)
    (final : objects.getLast? = some last) (host : Endian) {cache : Cache}
    (invariant : CacheInvariant file cache.journal) :
    (∀ (k : Nat) (cells : Iteration υ), cells.iterOffset = 0 →
      ∃ cache' trace, loop (cachedReader kernel) (journalIterNextObject host header)
          (fun _ => false) ((objects.length + 1) * k) cache cells =
          .ok (cache', trace, .running) ∧
        trace.map Iteration.object = (List.replicate k (objects ++ [(0, last.2)])).flatten) ∧
    ∀ (closure : Handler υ) (cells : Iteration υ) (fuel : Nat),
      (∀ object ∈ objects ++ [(0, last.2)], Accepts closure object) → objects.length < fuel →
      ∃ cache' trace, journalIterObjects (cachedReader kernel) host header closure fuel cache cells =
          .ok (cache', trace, .finished) ∧
        trace = visits closure cells.user (objects ++ [(0, last.2)]) ∧
        trace.map Iteration.object = objects ++ [(0, last.2)] := by
  have refines := cachedReader_refines serves reliable
  constructor
  · intro k cells restarts
    obtain ⟨trace, ran, shape⟩ := passes_run wellFormed final host k restarts
    obtain ⟨cache', ran', -⟩ := loop_refines refines invariant ran
    exact ⟨cache', trace, ran', shape⟩
  · intro closure cells fuel accepts enough
    obtain ⟨cache', ran, -⟩ := loop_refines refines invariant
      (objects_run wellFormed final host accepts enough cells)
    exact ⟨cache', _, ran, rfl, visits_object ..⟩

end Passes

/-- A data object of 73 bytes and an entry of 64 behind a header of 256. -/
def twoObjects : JournalFile where
  size := 400
  byte := fun i => match i with
    | 256 => ObjectType.data.toByte
    | 264 => 73
    | 336 => ObjectType.entry.toByte
    | 344 => 64
    | _ => 0
  size_lt := by decide

def twoObjectsHeader : Header :=
  { (default : Header) with headerSize := 256, tailObjectOffset := 336 }

theorem twoObjects_wellFormed : WellFormed twoObjects twoObjectsHeader
    [(256, twoObjects.objectHeader 256), (336, twoObjects.objectHeader 336)] where
  positive := by decide
  aligned := by decide
  consecutive := ⟨rfl, rfl, by decide, by decide, by decide, by decide, by decide, by decide, trivial⟩
  last := rfl

theorem iteration_is_exact_twoObjects :
    ∃ journal, freshJournal "system.journal" 3 0 = .ok journal ∧
      let objects := [(256, twoObjects.objectHeader 256), (336, twoObjects.objectHeader 336)]
      let ended := (0, twoObjects.objectHeader 336)
      (∀ (k : Nat) (cells : Iteration Nat), cells.iterOffset = 0 →
        ∃ cache' trace, loop (cachedReader (fileKernel twoObjects))
            (journalIterNextObject .big twoObjectsHeader) (fun _ => false)
            ((objects.length + 1) * k) ⟨journal, 0⟩ cells = .ok (cache', trace, .running) ∧
          trace.map Iteration.object = (List.replicate k (objects ++ [ended])).flatten) ∧
      ∀ (closure : Handler Nat) (cells : Iteration Nat) (fuel : Nat),
        (∀ object ∈ objects ++ [ended], Accepts closure object) → objects.length < fuel →
        ∃ cache' trace, journalIterObjects (cachedReader (fileKernel twoObjects)) .big
            twoObjectsHeader closure fuel ⟨journal, 0⟩ cells = .ok (cache', trace, .finished) ∧
          trace = visits closure cells.user (objects ++ [ended]) ∧
          trace.map Iteration.object = objects ++ [ended] := by
  obtain ⟨journal, ready, -⟩ := freshJournal_spec "system.journal" 3 0
  exact ⟨journal, ready, iteration_is_exact (fileKernel_servesFile twoObjects)
    (fileKernel_reliable twoObjects) twoObjects_wellFormed rfl .big (.fresh ready)⟩

end Jio
