import Jio.ObjectIteration

/-! What the cache saves. As long as requests go forward through a file, a request goes
to the kernel only where the block the last one has brought in ends, so that a pass over
the objects of a journal asks for each part of it about once. -/
namespace Jio
open ByteOrder ReadProgram

/-! ## What is submitted -/

/-- The operations a call of `journal_read` queues. -/
def submits (kernel : Kernel) (cache : Cache) (request : UInt64 × UInt64) : List ReadOp :=
  match journalRead cache.journal (kernel.opNew cache.clock) request.1 request.2 with
  | .error _ => []
  | .ok (_, .hit _) => []
  | .ok (_, .failed _) => []
  | .ok (_, .queued op) => [op]

/-- A cached reader that keeps what was submitted to the kernel. -/
def submittingReader (kernel : Kernel) :
    Reader (UInt64 × UInt64) (List UInt8) Int Fault (Cache × List ReadOp) :=
  fun state request =>
    match cachedReader kernel state.1 request with
    | .error fault => .error fault
    | .ok (cache, answer) => .ok ((cache, state.2 ++ submits kernel state.1 request), answer)

theorem submittingReader_refines (kernel : Kernel) :
    Refines (fun state cache => state.1 = cache) (submittingReader kernel) (cachedReader kernel) := by
  intro state cache request next answer same ran
  subst same
  exact ⟨_, by rw [submittingReader, ran], rfl⟩

/-- A buffer has what the file has from there on, as much of it as fits. -/
def HasBlock (file : JournalFile) (journal : Journal) (offset : UInt64) : Prop :=
  ∃ buf, (journal.bufs buf).valid = true ∧ (journal.bufs buf).offset = offset ∧
    (journal.bufs buf).length.toNat = min JOURNAL_BUF_SIZE (file.size - offset.toNat)

section Reads

variable {file : JournalFile} {kernel : Kernel} {cache cache' : Cache} {journal : Journal}
  {offset offset' length : UInt64}

/-- A request that starts in a block and does not reach behind it is found. -/
theorem HasBlock.lookup (block : HasBlock file journal offset) (coherent : Coherent file journal)
    (behind : offset ≤ offset') (inside : offset'.toNat + length.toNat ≤ file.size)
    (near : offset'.toNat + length.toNat ≤ offset.toNat + JOURNAL_BUF_SIZE) :
    journal.lookup offset' length ≠ none := by
  obtain ⟨buf, valid, rfl, many⟩ := block
  have bound := file.size_lt
  have starts := UInt64.le_iff_toNat_le.mp behind
  have hit : (journal.bufs buf).covers offset' length = true := by
    rw [(coherent buf valid).covers_iff]
    refine ⟨valid, starts, ?_⟩
    rw [Nat.mod_eq_of_lt (by omega)]
    omega
  exact Option.isSome_iff_ne_none.mp (lookup_isSome_iff.mpr ⟨buf, hit⟩)

/-- A hit submits nothing and keeps what is cached. -/
theorem hit_keeps (invariant : CacheInvariant file cache.journal) (positive : 0 < length.toNat)
    (small : length.toNat ≤ JOURNAL_BUF_SIZE) {buf : BufId} {answer : Except Int (List UInt8)}
    (found : cache.journal.lookup offset length = some buf)
    (ran : cachedReader kernel cache (offset, length) = .ok (cache', answer)) :
    submits kernel cache (offset, length) = [] ∧
      ∀ start, HasBlock file cache.journal start → HasBlock file cache'.journal start := by
  obtain ⟨order, listed⟩ := invariant.listed
  obtain ⟨used, -, same, read⟩ :=
    journalRead_hit (kernel.opNew cache.clock) listed positive small found
  cases copied : (cache.journal.bufs buf).copyOut (offset - (cache.journal.bufs buf).offset)
      length with
  | error fault => simp [cachedReader, read, copied, Except.map] at ran
  | ok dest =>
    simp only [cachedReader, read, copied, Except.map, Except.ok.injEq, Prod.mk.injEq] at ran
    obtain ⟨rfl, -⟩ := ran
    refine ⟨by simp only [submits, read, copied, Except.map], ?_⟩
    rintro start ⟨buf', valid, here, many⟩
    have block := same.bufs buf'
    simp only [JournalBuf.block, Block.mk.injEq] at block
    exact ⟨buf', by simp only [block, valid], by simp only [block, here], by simp only [block, many]⟩

/-- A miss submits one read, and its block is then cached. -/
theorem miss_fetches (serves : kernel.ServesFile file) (reliable : kernel.Reliable)
    (invariant : CacheInvariant file cache.journal) (positive : 0 < length.toNat)
    (small : length.toNat ≤ JOURNAL_BUF_SIZE) (inside : offset.toNat + length.toNat ≤ file.size)
    {answer : Except Int (List UInt8)} (missed : cache.journal.lookup offset length = none)
    (ran : cachedReader kernel cache (offset, length) = .ok (cache', answer)) :
    ∃ op, submits kernel cache (offset, length) = [op] ∧ op.offset = offset ∧
      op.nbytes.toNat = JOURNAL_BUF_SIZE ∧ HasBlock file cache'.journal offset := by
  obtain ⟨order, listed⟩ := invariant.listed
  obtain ⟨victim, least⟩ := listed.least
  obtain ⟨used, -, -, read⟩ :=
    journalRead_miss (kernel.opNew cache.clock) listed least positive small missed
  have asked : (UInt32.ofNat JOURNAL_BUF_SIZE).toNat = JOURNAL_BUF_SIZE := by decide
  obtain ⟨opNew, answers⟩ := reliable cache.clock offset (UInt32.ofNat JOURNAL_BUF_SIZE)
  rw [opNew] at read
  have succeeds := answers (by decide)
  obtain ⟨count, -⟩ := (serves cache.clock offset (UInt32.ofNat JOURNAL_BUF_SIZE)).resolve_left
    (not_lt.mpr succeeds)
  rw [asked] at count
  simp only [cachedReader, opNew, read, ↓reduceIte, Except.ok.injEq, Prod.mk.injEq] at ran
  refine ⟨_, by simp only [submits, opNew, read, ↓reduceIte]; rfl, rfl, asked, victim, ?_⟩
  obtain ⟨rfl, -⟩ := ran
  generalize kernel.answer cache.clock offset (UInt32.ofNat JOURNAL_BUF_SIZE) = answer
    at count succeeds ⊢
  have enough : ¬answer.result < length.toNat := by omega
  have fits : (UInt64.ofNat answer.result.toNat).toNat = answer.result.toNat := by
    apply UInt64.toNat_ofNat_of_lt'
    unfold JOURNAL_BUF_SIZE at count
    exact lt_of_le_of_lt (show answer.result.toNat ≤ 8192 by omega) (by decide)
  simp only [bufGotRead, if_neg (not_lt.mpr succeeds), if_neg enough, Journal.setBuf,
    Function.update_self, fits, true_and]
  omega

end Reads

/-! ## Going forward -/

/-- Requests of one length, inside the file, none before another. -/
structure Forward (file : JournalFile) (length : Nat) (asked : List (UInt64 × UInt64)) : Prop where
  sorted : (asked.map Prod.fst).Pairwise (· ≤ ·)
  sized : ∀ request ∈ asked, request.2.toNat = length ∧ request.1.toNat + length ≤ file.size

/-- What was submitted for these requests: each read starts behind where a request could
still be answered by the one before, and the last one is cached. -/
structure Frugal (file : JournalFile) (length : Nat) (asked : List (UInt64 × UInt64))
    (submitted : List ReadOp) (journal : Journal) : Prop where
  spaced : submitted.IsChain fun op op' =>
    op.offset.toNat + (JOURNAL_BUF_SIZE + 1 - length) ≤ op'.offset.toNat
  blocks : ∀ op ∈ submitted, op.nbytes.toNat = JOURNAL_BUF_SIZE ∧ op.offset ∈ asked.map Prod.fst
  cached : ∀ op ∈ submitted.getLast?, HasBlock file journal op.offset

section Runs

variable {file : JournalFile} {kernel : Kernel} {length : Nat}

theorem Frugal.read (serves : kernel.ServesFile file) (reliable : kernel.Reliable)
    {asked : List (UInt64 × UInt64)} {submitted : List ReadOp} {cache cache' : Cache}
    (frugal : Frugal file length asked submitted cache.journal)
    (invariant : CacheInvariant file cache.journal) (positive : 0 < length)
    (small : length ≤ JOURNAL_BUF_SIZE) {request : UInt64 × UInt64}
    (forward : Forward file length (asked ++ [request])) {answer : Except Int (List UInt8)}
    (ran : cachedReader kernel cache request = .ok (cache', answer)) :
    Frugal file length (asked ++ [request]) (submitted ++ submits kernel cache request)
      cache'.journal := by
  obtain ⟨offset, size⟩ := request
  obtain ⟨fixed, inside⟩ := forward.sized (offset, size) (by simp)
  dsimp only at fixed inside
  subst fixed
  have listed (op : ReadOp) (member : op ∈ submitted) :
      op.nbytes.toNat = JOURNAL_BUF_SIZE ∧ op.offset ∈ (asked ++ [(offset, size)]).map Prod.fst :=
    (frugal.blocks op member).imp_right fun known => by simp_all
  cases found : cache.journal.lookup offset size with
  | some buf =>
    obtain ⟨none, kept⟩ := hit_keeps invariant positive small found ran
    rw [none, List.append_nil]
    exact ⟨frugal.spaced, listed, fun op last => kept _ (frugal.cached op last)⟩
  | none =>
    obtain ⟨op, submits, rfl, asked_for, block⟩ :=
      miss_fetches serves reliable invariant positive small inside found ran
    rw [submits]
    refine ⟨?_, ?_, ?_⟩
    · refine List.isChain_append.mpr ⟨frugal.spaced, List.isChain_singleton _, ?_⟩
      rintro last final _ ⟨rfl⟩
      have ordered := forward.sorted
      rw [List.map_append, List.pairwise_append] at ordered
      have known := (frugal.blocks last (List.mem_of_getLast? final)).2
      have behind : last.offset ≤ op.offset := ordered.2.2 _ known _ (by simp)
      by_contra near
      refine (frugal.cached last final).lookup invariant.coherent behind inside ?_ found
      omega
    · intro op' member
      rcases List.mem_append.mp member with before | here
      · exact listed op' before
      · obtain rfl := List.mem_singleton.mp here
        exact ⟨asked_for, by simp⟩
    · intro op' last
      rw [List.getLast?_concat, Option.mem_some] at last
      exact last ▸ block

/-- Everything the cached reader submits for requests that go forward is frugal. -/
theorem submittingReader_frugal (serves : kernel.ServesFile file) (reliable : kernel.Reliable)
    (positive : 0 < length) (small : length ≤ JOURNAL_BUF_SIZE) :
    Refines (fun state asked => CacheInvariant file state.1.journal ∧
        (Forward file length asked.2 → Frugal file length asked.2 state.2 state.1.journal))
      (submittingReader kernel) (asking (fileReader file)) := by
  rintro ⟨cache, submitted⟩ ⟨⟨⟩, asked⟩ request next answer ⟨invariant, frugal⟩ ran
  unfold asking at ran
  cases read : fileReader file () request with
  | error fault => simp [read] at ran
  | ok reply =>
    obtain ⟨⟨⟩, plain⟩ := reply
    simp only [read, Except.ok.injEq, Prod.mk.injEq] at ran
    obtain ⟨rfl, rfl⟩ := ran
    obtain ⟨cache', same, kept⟩ := cachedReader_refines serves reliable cache () request () plain
      invariant read
    refine ⟨(cache', submitted ++ submits kernel cache request), by rw [submittingReader, same],
      kept, fun forward => ?_⟩
    have before : Forward file length asked := by
      refine ⟨?_, fun other member => forward.sized other (List.mem_append_left _ member)⟩
      have sorted := forward.sorted
      rw [List.map_append, List.pairwise_append] at sorted
      exact sorted.1
    exact (frugal before).read serves reliable invariant positive small forward same

/-- How many blocks cover a range. -/
theorem Frugal.length_le {asked : List (UInt64 × UInt64)} {submitted : List ReadOp}
    {journal : Journal} (frugal : Frugal file length asked submitted journal) {first last : Nat}
    (within : ∀ offset ∈ asked.map Prod.fst, first ≤ offset.toNat ∧ offset.toNat ≤ last) :
    (submitted.length - 1) * (JOURNAL_BUF_SIZE + 1 - length) ≤ last - first := by
  have spaced := frugal.spaced
  have blocks := fun op member => within op.offset (frugal.blocks op member).2
  cases submitted with
  | nil => simp
  | cons op submitted =>
    have reach : op.offset.toNat + submitted.length * (JOURNAL_BUF_SIZE + 1 - length) ≤ last := by
      clear frugal within
      induction submitted generalizing op with
      | nil => simpa using (blocks op (.head _)).2
      | cons next submitted ih =>
        obtain ⟨gap, rest⟩ := List.isChain_cons_cons.mp spaced
        have later := ih next rest fun op member => blocks op (.tail _ member)
        rw [List.length_cons, Nat.succ_mul]
        omega
    have start := (blocks op (.head _)).1
    rw [List.length_cons, Nat.add_sub_cancel]
    omega

end Runs

/-! ## A pass over the objects -/

/-- What `journal_iter_next_object` reads from an object on. -/
def headerRead (header : Header) (object : UInt64 × ObjectHeader) : List (UInt64 × UInt64) :=
  if nextOffset header object > header.tailObjectOffset then []
  else [(nextOffset header object, sizeofObjectHeader)]

section Pass

variable {υ : Type} {file : JournalFile} {header : Header} {objects : List (UInt64 × ObjectHeader)}

theorem step_asks {ρ : Type} {reader : Reader (UInt64 × UInt64) (List UInt8) Int Fault ρ}
    (host : Endian) (closure : Handler υ) (r : ρ × List (UInt64 × UInt64)) (cells : Iteration υ)
    (r' : ρ × List (UInt64 × UInt64)) (next : Iteration υ)
    (ran : exec (asking reader) r (journalIterObjectsStep host header closure cells) =
      .ok (r', .dispatched next)) : r'.2 = r.2 ++ headerRead header cells.object := by
  have here : nextOffset header cells.object = cells.advance header := rfl
  rw [journalIterObjectsStep, exec_andThen] at ran
  unfold headerRead
  rw [here]
  unfold journalIterNextObject at ran
  dsimp only at ran
  have dispatched {middle : ρ × List (UInt64 × UInt64)} {cells : Iteration υ}
      (ran : exec (asking reader) middle (journalIterObjectsDispatch closure cells) =
        .ok (r', .dispatched next)) : r' = middle := by
    unfold journalIterObjectsDispatch at ran
    split at ran
    · cases ran
    · split at ran <;> cases ran
      rfl
  by_cases past : cells.advance header > header.tailObjectOffset
  · rw [if_pos past] at ran ⊢
    rw [List.append_nil]
    exact congrArg Prod.snd (dispatched ran)
  · rw [if_neg past] at ran ⊢
    cases read : reader r.1 (cells.advance header, sizeofObjectHeader) with
    | error fault => simp [exec, asking, read] at ran
    | ok reply =>
      obtain ⟨middle, answer⟩ := reply
      cases answer with
      | error code => simp [exec, asking, read] at ran
      | ok mem =>
        simp only [exec, asking, read, gotIterObjectHeader] at ran
        exact congrArg Prod.snd (dispatched ran)

/-- The next position is behind the object and its padding. -/
theorem nextOffset_behind {object : UInt64 × ObjectHeader} (positive : 0 < object.1.toNat)
    (large : 16 ≤ object.2.size.toNat)
    (inside : object.1.toNat + object.2.size.toNat ≤ file.size) :
    (nextOffset header object).toNat = object.1.toNat + roundUp8 object.2.size.toNat := by
  have bound := file.size_lt
  have rounded := roundUp8_lt object.2.size.toNat
  have nonzero : object.1 ≠ 0 := by
    intro zero
    simp [zero] at positive
  have sized : object.2.size ≠ 0 := by
    intro zero
    simp [zero] at large
  rw [nextOffset, Iteration.advance, if_neg nonzero, if_pos sized, add_align64_toNat,
    Nat.mod_eq_of_lt (by dsimp only; omega)]

/-- From an object on, the headers of those behind it are read. -/
theorem headerReads {off : Nat} {a : UInt64 × ObjectHeader} (positive : 0 < off)
    (consecutive : BackToBack file off objects) (starts : (nextOffset header a).toNat = off)
    (past : objects = [] → header.tailObjectOffset < nextOffset header a)
    (last : ∀ object ∈ objects.getLast?, object.1 = header.tailObjectOffset) :
    (a :: objects).flatMap (headerRead header) =
      objects.map fun object => (object.1, sizeofObjectHeader) := by
  induction objects generalizing off a with
  | nil => simp [headerRead, past rfl]
  | cons first objects ih =>
    have ordered := fun object : UInt64 × ObjectHeader =>
      @BackToBack.le file off _ consecutive object
    obtain ⟨rfl, -, large, inside, rest⟩ := consecutive
    have here : nextOffset header a = first.1 := UInt64.toNat_inj.mp starts
    obtain ⟨final, chosen⟩ : ∃ final, (first :: objects).getLast? = some final := by
      simp [List.getLast?_cons]
    have low : ¬first.1 > header.tailObjectOffset := by
      rw [gt_iff_lt, UInt64.not_lt, ← last final chosen, UInt64.le_iff_toNat_le]
      exact ordered final (List.mem_of_getLast? chosen)
    have behind := @nextOffset_behind file header first positive large inside
    have others := ih (by omega) rest behind ?_ ?_
    · rw [List.flatMap_cons, others, headerRead, here, if_neg low]
      rfl
    · rintro rfl
      have atLeast := le_roundUp8 first.2.size.toNat
      rw [← last first rfl, UInt64.lt_iff_toNat_lt, behind]
      omega
    · intro object listed
      refine last object ?_
      cases objects with
      | nil => cases listed
      | cons second objects => rwa [List.getLast?_cons_cons]

/-- A pass asks for the header of each object, one after the other. -/
theorem pass_asks (wellFormed : WellFormed file header objects) (host : Endian)
    {closure : Handler υ} (cells : Iteration υ)
    (accepts : ∀ object ∈ iterationFrom cells.iterObjectHeader objects, Accepts closure object)
    {fuel : Nat} (enough : objects.length < fuel) :
    journalIterObjects (asking (fileReader file)) host header closure fuel ((), []) cells =
      .ok (((), objects.map fun object => (object.1, sizeofObjectHeader)),
        visits closure cells.user (iterationFrom cells.iterObjectHeader objects), .finished) := by
  have pass := wellFormed.packed.pass host cells accepts enough
  obtain ⟨⟨⟨⟩, asked⟩, ran, -⟩ := loop_refines (asking_refines (fileReader file))
    (r := ((), ([] : List (UInt64 × UInt64)))) rfl pass
  have asks := loop_asked (fun r s r' s' => step_asks host closure r s r' s') ran
  have packed := wellFormed.packed
  have seen : (visits closure cells.user (iterationFrom cells.iterObjectHeader objects)).dropLast.map
      Iteration.object = objects := by
    rw [List.map_dropLast, visits_object, iterationFrom_eq, List.dropLast_concat]
  have start : (nextOffset header (0, cells.iterObjectHeader)).toNat = header.headerSize.toNat := rfl
  have reads := headerReads packed.positive packed.consecutive start packed.none packed.last
  have flat (trace : List (Iteration υ)) (seen : trace.map Iteration.object = objects) :
      (Iteration.mk 0 cells.iterObjectHeader cells.user :: trace).flatMap
        (fun cells => headerRead header cells.object) =
      ((0, cells.iterObjectHeader) :: objects).flatMap (headerRead header) := by
    rw [← seen, List.flatMap_cons, List.flatMap_cons, List.flatMap_map]
    rfl
  have log : asked = objects.map fun object => (object.1, sizeofObjectHeader) := by
    rw [← reads, ← flat _ seen]
    exact asks
  exact log ▸ ran

theorem BackToBack.forward {off : Nat} (consecutive : BackToBack file off objects) :
    Forward file sizeofObjectHeader.toNat
      (objects.map fun object => (object.1, sizeofObjectHeader)) := by
  induction objects generalizing off with
  | nil => exact ⟨.nil, nofun⟩
  | cons first objects ih =>
    obtain ⟨here, -, large, inside, rest⟩ := consecutive
    obtain ⟨sorted, sized⟩ := ih rest
    have header : sizeofObjectHeader.toNat = 16 := rfl
    refine ⟨List.pairwise_cons.mpr ⟨fun offset later => ?_, sorted⟩,
      List.forall_mem_cons.mpr ⟨⟨rfl, ?_⟩, sized⟩⟩
    · obtain ⟨request, listed, rfl⟩ := List.mem_map.mp later
      obtain ⟨object, member, rfl⟩ := List.mem_map.mp listed
      have behind := rest.le member
      rw [UInt64.le_iff_toNat_le]
      dsimp only
      omega
    · dsimp only
      omega

/-- No object is behind the last. -/
theorem BackToBack.le_last {off : Nat} (consecutive : BackToBack file off objects)
    {object last : UInt64 × ObjectHeader} (member : object ∈ objects)
    (final : last ∈ objects.getLast?) : object.1.toNat ≤ last.1.toNat := by
  induction objects generalizing off with
  | nil => cases member
  | cons first objects ih =>
    have ordered := consecutive.le (List.mem_of_getLast? final)
    obtain ⟨here, -, -, -, rest⟩ := consecutive
    rcases List.mem_cons.mp member with rfl | member
    · omega
    · cases objects with
      | nil => cases member
      | cons second objects => exact ih rest member (by rwa [List.getLast?_cons_cons] at final)

/-- A pass over the objects of a journal submits reads of whole blocks only, each for the
header of an object that the block before does not hold, so that there are at most as many
as such blocks between the first object and the last, and one. -/
theorem pass_submits_each_block_once (wellFormed : WellFormed file header objects)
    {kernel : Kernel} (serves : kernel.ServesFile file) (reliable : kernel.Reliable)
    (host : Endian) {cache : Cache} (invariant : CacheInvariant file cache.journal)
    {closure : Handler υ} (cells : Iteration υ)
    (accepts : ∀ object ∈ iterationFrom cells.iterObjectHeader objects, Accepts closure object)
    {fuel : Nat} (enough : objects.length < fuel) :
    ∃ cache' trace submitted,
      journalIterObjects (cachedReader kernel) host header closure fuel cache cells =
        .ok (cache', trace, .finished) ∧
      journalIterObjects (submittingReader kernel) host header closure fuel (cache, []) cells =
        .ok ((cache', submitted), trace, .finished) ∧
      (∀ op ∈ submitted, op.nbytes.toNat = JOURNAL_BUF_SIZE ∧
        ∃ object ∈ objects, object.1 = op.offset) ∧
      (submitted.IsChain fun op op' =>
        op.offset.toNat + JOURNAL_BUF_SIZE < op'.offset.toNat + sizeofObjectHeader.toNat) ∧
      (submitted.length - 1) * (JOURNAL_BUF_SIZE + 1 - sizeofObjectHeader.toNat) ≤
        header.tailObjectOffset.toNat - header.headerSize.toNat := by
  have asks := pass_asks wellFormed host cells accepts enough
  have refines := submittingReader_frugal serves reliable
    (show 0 < sizeofObjectHeader.toNat by decide) (by decide)
  have start : Frugal file sizeofObjectHeader.toNat [] [] cache.journal :=
    ⟨List.isChain_nil, nofun, nofun⟩
  obtain ⟨⟨cache', submitted⟩, ran, -, kept⟩ :=
    loop_refines refines (r := (cache, [])) ⟨invariant, fun _ => start⟩ asks
  have frugal := kept wellFormed.consecutive.forward
  -- what is kept of the submissions changes nothing
  obtain ⟨cache'', plain, -⟩ := loop_refines (cachedReader_refines serves reliable) invariant
    (wellFormed.packed.pass host cells accepts enough)
  obtain ⟨state, again, rfl⟩ := loop_refines (submittingReader_refines kernel)
    (r := (cache, [])) rfl plain
  obtain ⟨rfl, -⟩ : state = (cache', submitted) ∧ True := by
    simpa using again.symm.trans ran
  refine ⟨cache', _, submitted, plain, ran, fun op member => ?_, frugal.spaced.imp ?_,
    frugal.length_le fun offset listed => ?_⟩
  · obtain ⟨whole, known⟩ := frugal.blocks op member
    rw [List.map_map] at known
    exact ⟨whole, List.mem_map.mp known⟩
  · intro op op' apart
    have fixed : JOURNAL_BUF_SIZE = 8192 ∧ sizeofObjectHeader.toNat = 16 := ⟨rfl, rfl⟩
    omega
  · rw [List.map_map] at listed
    obtain ⟨object, member, rfl⟩ := List.mem_map.mp listed
    obtain ⟨last, final, tail⟩ := Option.map_eq_some_iff.mp wellFormed.last
    exact ⟨wellFormed.consecutive.le member,
      tail ▸ wellFormed.consecutive.le_last member final⟩

/-- Both objects of a small journal are in one block. -/
theorem pass_submits_each_block_once_twoObjects :
    ∃ journal, freshJournal "system.journal" 3 0 = .ok journal ∧
      ∃ cache' trace submitted, journalIterObjects (submittingReader (fileKernel twoObjects)) .big
          twoObjectsHeader (fun _ _ n => .ok (0, n + 1)) 3 (⟨journal, 0⟩, [])
          ⟨0, twoObjects.objectHeader 256, 0⟩ = .ok ((cache', submitted), trace, .finished) ∧
        submitted.length ≤ 1 := by
  obtain ⟨journal, ready, -⟩ := freshJournal_spec "system.journal" 3 0
  have counts : ∀ object, Accepts (fun _ _ n => .ok (0, n + 1)) object :=
    fun _ n => ⟨0, n + 1, rfl, le_rfl⟩
  obtain ⟨cache', trace, submitted, -, ran, -, -, few⟩ :=
    pass_submits_each_block_once twoObjects_wellFormed (fileKernel_servesFile twoObjects)
      (fileKernel_reliable twoObjects) .big
      (show CacheInvariant twoObjects (Cache.mk journal 0).journal from .fresh ready)
      ⟨0, twoObjects.objectHeader 256, 0⟩ (fun object _ => counts object) (show 2 < 3 by decide)
  have span : twoObjectsHeader.tailObjectOffset.toNat - twoObjectsHeader.headerSize.toNat = 80 := rfl
  have block : JOURNAL_BUF_SIZE + 1 - sizeofObjectHeader.toNat = 8177 := rfl
  rw [span, block] at few
  exact ⟨journal, ready, cache', trace, submitted, ran, by omega⟩

end Pass

end Jio
