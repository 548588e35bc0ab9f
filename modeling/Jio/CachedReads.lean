import Jio.BufferCacheProofs

/-! Whole runs of reads against one journal, each issued after the previous one
finished, from the state `opened_journal` sets up. Whatever was read before, the
next read is answered as if there were no cache, as long as its end does not wrap
around; where it does, what matters is only whether the hit test is fooled. With or
without a cache, a length of `2^32` or more is cut short on its way to the kernel. -/
namespace Jio
open LinkedOrder ReadProgram

/-! ## The state `opened_journal` sets up -/

private theorem linkBuf_spec {journal : Journal} {order : List BufId} {buf : BufId}
    (threads : Threads journal.links order) (fresh : buf ∉ order)
    (single : (journal.bufs buf).lruNext = none) (nonempty : order ≠ []) :
    ∃ linked, linkBuf journal buf = .ok linked ∧ Threads linked.links (order ++ [buf]) ∧
      SameContents journal linked ∧
      ∀ other ∉ order, (linked.bufs other).lruNext = (journal.bufs other).lruNext := by
  obtain ⟨pushed, ran, threaded⟩ := threads.pushBack fresh single nonempty
  cases tail : journal.lruTail with
  | none => simp [Links.pushBack, Journal.links, tail] at ran
  | some last =>
    have member : last ∈ order := by
      have := threads.tail
      simp only [Journal.links, tail] at this
      exact List.mem_of_getLast? this.symm
    have unlast : buf ≠ last := by rintro rfl; exact fresh member
    rw [linkBuf, tail]
    refine ⟨_, rfl, ?_, ((SameContents.rfl.setNext ..).setPrev ..).setTail _, ?_⟩
    · rw [links_setTail, links_setPrev, links_setNext]
      simp only [Links.pushBack, Journal.links, tail, Option.map_some, Option.some.injEq] at ran
      subst ran
      exact threaded
    · intro other outside
      have apart : other ≠ last := fun same => outside (same ▸ member)
      by_cases here : other = buf <;>
        simp [Journal.setPrev, Journal.setNext, Journal.setBuf, here, apart, unlast]

private theorem linkBufs_spec (bufs : List BufId) {journal : Journal} {order : List BufId}
    (threads : Threads journal.links order) (nodup : (order ++ bufs).Nodup)
    (single : ∀ buf ∉ order, (journal.bufs buf).lruNext = none) (nonempty : order ≠ []) :
    ∃ linked, bufs.foldlM linkBuf journal = .ok linked ∧ Threads linked.links (order ++ bufs) ∧
      SameContents journal linked := by
  induction bufs generalizing journal order with
  | nil => exact ⟨journal, rfl, by simpa using threads, .rfl⟩
  | cons buf bufs ih =>
    have fresh : buf ∉ order := fun member =>
      (List.nodup_append.mp nodup).2.2 buf member buf (by simp) rfl
    obtain ⟨first, ok, threaded, same, others⟩ :=
      linkBuf_spec threads fresh (single buf fresh) nonempty
    obtain ⟨linked, rest, all, same'⟩ := ih threaded (by simpa using nodup)
      (fun other outside => by
        rw [List.mem_append, not_or] at outside
        rw [others other outside.1, single other outside.1])
      (by simp)
    refine ⟨linked, by rw [List.foldlM_cons, ok]; exact rest, by simpa using all, ?_⟩
    exact ⟨same'.name.trans same.name, same'.fd.trans same.fd, same'.idx.trans same.idx,
      fun other => (same'.bufs other).trans (same.bufs other)⟩

/-- A journal starts with all its buffers on the list, in order, and invalid. -/
theorem freshJournal_spec (name : String) (fd : Int) (i : Nat) :
    ∃ journal, freshJournal name fd i = .ok journal ∧
      LruOrder journal (List.finRange JOURNAL_BUF_CNT) ∧
      ∀ buf, (journal.bufs buf).valid = false := by
  have first : Threads { unopenedJournal name with
      lruHead := some (0 : BufId), lruTail := some 0 }.links [0] := by
    refine threads_of_splits (by simp) rfl rfl fun x member => ?_
    rw [List.mem_singleton] at member
    exact ⟨[], [], by simp [member], rfl, rfl⟩
  obtain ⟨linked, ok, threads, same⟩ := linkBufs_spec ((List.finRange JOURNAL_BUF_CNT).drop 1)
    first (by decide) (fun _ _ => rfl) (by simp)
  refine ⟨registeredJournal { linked with fd := fd } i, ?_, ⟨threads, List.mem_finRange⟩, ?_⟩
  · simp only [freshJournal, openedJournal, ok]
    rfl
  · intro buf
    have block := same.bufs buf
    simp only [JournalBuf.block, Block.mk.injEq] at block
    exact block.2.2.1

theorem CacheInvariant.fresh {file : JournalFile} {name : String} {fd : Int} {i : Nat}
    {journal : Journal} (ready : freshJournal name fd i = .ok journal) :
    CacheInvariant file journal := by
  obtain ⟨journal', ready', listed, invalid⟩ := freshJournal_spec name fd i
  obtain rfl : journal' = journal := Except.ok.inj (ready'.symm.trans ready)
  exact ⟨fun buf valid => by simp [invalid buf] at valid, _, listed⟩

theorem freshJournal_fd {name : String} {fd : Int} {i : Nat} {journal : Journal}
    (ready : freshJournal name fd i = .ok journal) : journal.fd = fd := by
  unfold freshJournal at ready
  cases opened : openedJournal (unopenedJournal name) fd with
  | error fault => simp [opened, bind, Except.bind] at ready
  | ok journal' =>
    rw [opened] at ready
    cases ready
    unfold openedJournal at opened
    simp only [bind, Except.bind] at opened
    split at opened
    · cases opened
    · cases opened
      rfl

/-! ## Runs of reads -/

/-- One call of `journal_read` after the other. -/
def readAll (kernel : Kernel) :
    Cache → List (UInt64 × UInt64) → Except Fault (Cache × List (Except Int (List UInt8)))
  | cache, [] => .ok (cache, [])
  | cache, read :: reads => do
    let (cache, outcome) ← cachedReader kernel cache read
    let (cache, outcomes) ← readAll kernel cache reads
    return (cache, outcome :: outcomes)

/-- The kernel that answers every read in full, if an `int` can count so much. -/
def fileKernel (file : JournalFile) : Kernel where
  opNew := fun _ => true
  answer := fun _ off n =>
    { result := if min n.toNat (file.size - off.toNat) < 2 ^ 31 then
        (min n.toNat (file.size - off.toNat) : Nat) else -EINVAL
      data := fun i => file.byte (off.toNat + i)
      result_int := by unfold IsInt EINVAL; split <;> omega }

theorem fileKernel_servesFile (file : JournalFile) : (fileKernel file).ServesFile file := by
  intro t off n
  by_cases counts : min n.toNat (file.size - off.toNat) < 2 ^ 31
  · exact .inr ⟨if_pos counts, fun _ _ => rfl⟩
  · exact .inl (lt_of_eq_of_lt (if_neg counts) (by decide))

theorem fileKernel_reliable (file : JournalFile) : (fileKernel file).Reliable := by
  refine fun t off n => ⟨rfl, fun short => ?_⟩
  have counts : min n.toNat (file.size - off.toNat) < 2 ^ 31 := by omega
  exact le_of_le_of_eq (Int.natCast_nonneg _) (if_pos counts).symm

/-- A file of `size` bytes that count up. -/
def countingFile (size : Nat) (size_lt : size < 2 ^ 63) : JournalFile where
  size := size
  byte := UInt8.ofNat
  size_lt := size_lt

private theorem readAll_straight {kernel : Kernel} {file : JournalFile}
    (serves : kernel.ServesFile file) {reads : List (UInt64 × UInt64)}
    (straight : ∀ read ∈ reads, 0 < read.2.toNat ∧ read.1.toNat + read.2.toNat < 2 ^ 64)
    (cache : Cache) (invariant : CacheInvariant file cache.journal) :
    ∃ cache' outcomes, readAll kernel cache reads = .ok (cache', outcomes) ∧
      CacheInvariant file cache'.journal := by
  induction reads generalizing cache with
  | nil => exact ⟨cache, [], rfl, invariant⟩
  | cons read reads ih =>
    obtain ⟨positive, straightHere⟩ := straight read (by simp)
    obtain ⟨journal, outcome, ok, invariant', -⟩ :=
      cachedReader_spec serves invariant positive straightHere
    obtain ⟨cache', outcomes, rest, final⟩ :=
      ih (fun other member => straight other (by simp [member]))
        ⟨journal, cache.clock + 1⟩ invariant'
    refine ⟨cache', outcome :: outcomes, ?_, final⟩
    simp only [readAll, ok, bind_ok, rest]
    rfl

/-! ## Reads of whole ranges -/

/-- What a read of a range is for: its bytes, if the file has all of them. -/
def wholeRead (file : JournalFile) (offset length : UInt64) : Except Int (List UInt8) :=
  if offset.toNat + length.toNat ≤ file.size then .ok (file.slice offset.toNat length.toNat)
  else .error (-EINVAL)

/-- A read has come to that, or reports why it could not be carried out. -/
def ReadsWhole (kernel : Kernel) (file : JournalFile) (cache : Cache) (offset length : UInt64)
    (outcome : Except Int (List UInt8)) : Prop :=
  outcome = wholeRead file offset length ∨
    ∃ code, outcome = .error code ∧ ReadFails kernel cache offset length code

/-- The kernel is asked for the whole length, or it makes no difference: the file does not have
the range, or the read cannot be carried out. -/
def AskedInFull (kernel : Kernel) (file : JournalFile) (cache : Cache) (offset length : UInt64) :
    Prop :=
  length.toNat < 2 ^ 32 ∨ file.size < offset.toNat + length.toNat ∨
    kernel.opNew cache.clock = false ∨
      (kernel.answer cache.clock offset length.toUInt32).result < 0

section Whole

variable {kernel : Kernel} {file : JournalFile} {cache : Cache} {offset length : UInt64}

theorem plainRead_eq_wholeRead (short : length.toNat < 2 ^ 31) :
    plainRead file offset length = wholeRead file offset length := by
  unfold plainRead wholeRead Readable
  simp only [short, true_and]

/-- Of a range the file has, an `int` can count what is transferred only if it can count the
length. -/
theorem answer_negative (serves : kernel.ServesFile file) (long : 2 ^ 31 ≤ length.toNat)
    (inside : offset.toNat + length.toNat ≤ file.size) (fits : length.toNat < 2 ^ 32) :
    (kernel.answer cache.clock offset length.toUInt32).result < 0 := by
  by_contra transferred
  obtain ⟨count, -⟩ := (serves cache.clock offset length.toUInt32).resolve_left transferred
  have bound := (kernel.answer cache.clock offset length.toUInt32).result_int
  rw [UInt64.toNat_toUInt32] at count
  unfold IsInt at bound
  omega

theorem readsWhole_of_readOutcome {outcome : Except Int (List UInt8)}
    (short : length.toNat < 2 ^ 31) (answered : ReadOutcome kernel file cache offset length outcome) :
    ReadsWhole kernel file cache offset length outcome := by
  rwa [ReadOutcome, plainRead_eq_wholeRead short] at answered

private theorem readsWhole_direct_iff (serves : kernel.ServesFile file)
    (long : 2 ^ 31 ≤ length.toNat) :
    ∃ outcome, cachedReader kernel cache (offset, length) =
        .ok (⟨cache.journal, cache.clock + 1⟩, outcome) ∧
      (ReadsWhole kernel file cache offset length outcome ↔
        AskedInFull kernel file cache offset length) := by
  have large : ¬length.toNat ≤ JOURNAL_BUF_SIZE := by
    unfold JOURNAL_BUF_SIZE
    omega
  have goes : GoesToKernel cache.journal offset length := .inl (not_le.mp large)
  refine ⟨_, cachedReader_direct serves large, ?_⟩
  by_cases missing : kernel.opNew cache.clock = false
  · rw [if_pos missing]
    exact iff_of_true (.inr ⟨_, rfl, goes, .inl ⟨missing, rfl⟩⟩) (.inr (.inr (.inl missing)))
  rw [if_neg missing]
  by_cases negative : (kernel.answer cache.clock offset length.toUInt32).result < 0
  · rw [if_pos negative]
    refine iff_of_true ?_ (.inr (.inr (.inr negative)))
    exact .inr ⟨_, rfl, goes, .inr ⟨negative, by rw [askedFor, if_neg large]⟩⟩
  rw [if_neg negative, plainRead, if_neg fun readable => absurd readable.1 (not_lt.mpr long)]
  by_cases inside : offset.toNat + length.toNat ≤ file.size
  · refine iff_of_false ?_ ?_
    · rintro (whole | ⟨code, failed, -, ⟨none, -⟩ | ⟨below, same⟩⟩)
      · rw [wholeRead, if_pos inside] at whole
        cases whole
      · exact missing none
      · rw [askedFor, if_neg large] at same
        exact negative (same ▸ below)
    · rintro (fits | outside | none | below)
      · exact negative (answer_negative serves long inside fits)
      · omega
      · exact missing none
      · exact negative below
  · refine iff_of_true (.inl ?_) (.inr (.inl (not_le.mp inside)))
    rw [wholeRead, if_neg inside]

/-- A read of more than an `int` can count fails. -/
theorem cachedReader_long (serves : kernel.ServesFile file) (long : 2 ^ 31 ≤ length.toNat) :
    ∃ code, cachedReader kernel cache (offset, length) =
      .ok (⟨cache.journal, cache.clock + 1⟩, .error code) := by
  have unreadable : ¬Readable file offset length := fun readable => not_lt.mpr long readable.1
  rw [cachedReader_direct serves (by unfold JOURNAL_BUF_SIZE; omega), plainRead, if_neg unreadable]
  split
  · exact ⟨_, rfl⟩
  · split <;> exact ⟨_, rfl⟩

/-- One read comes to what it is for exactly if the kernel is asked for all of it. -/
theorem cachedReader_whole_iff (serves : kernel.ServesFile file)
    (invariant : CacheInvariant file cache.journal) (positive : 0 < length.toNat)
    (straight : offset.toNat + length.toNat < 2 ^ 64) :
    ∃ cache' outcome, cachedReader kernel cache (offset, length) = .ok (cache', outcome) ∧
      Coherent file cache'.journal ∧ (ReadsWhole kernel file cache offset length outcome ↔
        AskedInFull kernel file cache offset length) := by
  by_cases short : length.toNat < 2 ^ 31
  · obtain ⟨journal, outcome, ok, kept, answered⟩ :=
      cachedReader_spec serves invariant positive straight
    exact ⟨_, outcome, ok, kept.coherent,
      iff_of_true (readsWhole_of_readOutcome short answered) (.inl (by omega))⟩
  · obtain ⟨outcome, ok, whole⟩ := readsWhole_direct_iff serves (not_lt.mp short)
    exact ⟨_, outcome, ok, invariant.coherent, whole⟩

end Whole

/-- After any reads, the cache is coherent, and the next read is never stuck. It has the outcome of
a read of the whole range, without a cache, exactly unless the kernel is asked for less. -/
theorem reads_refine_plain_reads_iff {kernel : Kernel} {file : JournalFile}
    (serves : kernel.ServesFile file) (name : String) (fd : Int) (i : Nat)
    (reads : List (UInt64 × UInt64))
    (straight : ∀ read ∈ reads, 1 ≤ read.2.toNat ∧ read.1.toNat + read.2.toNat < 2 ^ 64) :
    ∃ journal cache outcomes, freshJournal name fd i = .ok journal ∧
      readAll kernel ⟨journal, 0⟩ reads = .ok (cache, outcomes) ∧
      Coherent file cache.journal ∧
      ∀ offset length : UInt64, 1 ≤ length.toNat → offset.toNat + length.toNat < 2 ^ 64 →
        ∃ cache' outcome, cachedReader kernel cache (offset, length) = .ok (cache', outcome) ∧
          Coherent file cache'.journal ∧
          (ReadsWhole kernel file cache offset length outcome ↔
            AskedInFull kernel file cache offset length) := by
  obtain ⟨journal, ready, -, -⟩ := freshJournal_spec name fd i
  obtain ⟨cache, outcomes, ran, invariant⟩ :=
    readAll_straight serves straight ⟨journal, 0⟩ (.fresh ready)
  refine ⟨journal, cache, outcomes, ready, ran, invariant.coherent, ?_⟩
  intro offset length positive straightNext
  exact cachedReader_whole_iff serves invariant positive straightNext

/-- A block that ends with the file, and an overlapping read past the end. -/
theorem reads_refine_plain_reads_iff_at_end :
    let file := countingFile 9000 (by decide)
    ∃ journal cache outcomes, freshJournal "system.journal" 3 0 = .ok journal ∧
      readAll (fileKernel file) ⟨journal, 0⟩ [(8500, 16), (8990, 100)] = .ok (cache, outcomes) ∧
      Coherent file cache.journal ∧
      ∀ offset length : UInt64, 1 ≤ length.toNat → offset.toNat + length.toNat < 2 ^ 64 →
        ∃ cache' outcome,
          cachedReader (fileKernel file) cache (offset, length) = .ok (cache', outcome) ∧
          Coherent file cache'.journal ∧
          (ReadsWhole (fileKernel file) file cache offset length outcome ↔
            AskedInFull (fileKernel file) file cache offset length) :=
  reads_refine_plain_reads_iff (fileKernel_servesFile _) "system.journal" 3 0
    [(8500, 16), (8990, 100)] (by simp)

/-- The first 16 bytes are all the kernel is asked for. -/
theorem long_read_is_cut_short :
    let file := countingFile 0x100000010 (by decide)
    ∃ journal cache, freshJournal "system.journal" 3 0 = .ok journal ∧
      cachedReader (fileKernel file) ⟨journal, 0⟩ (0, 0x100000010) =
        .ok (cache, .error (-EINVAL)) ∧
      ¬ReadsWhole (fileKernel file) file ⟨journal, 0⟩ 0 0x100000010 (.error (-EINVAL)) := by
  intro file
  obtain ⟨journal, ready, -⟩ := freshJournal_spec "system.journal" 3 0
  have transferred : 0 ≤ ((fileKernel file).answer 0 0 (0x100000010 : UInt64).toUInt32).result := by
    decide
  refine ⟨journal, ⟨journal, 1⟩, ready, ?_, ?_⟩
  · rw [cachedReader_direct (fileKernel_servesFile file) (by decide), if_neg Bool.noConfusion,
      if_neg (not_lt.mpr transferred), plainRead, if_neg fun readable =>
        absurd readable.1 (by decide)]
  · rintro (whole | ⟨code, failed, -, ⟨none, -⟩ | ⟨below, same⟩⟩)
    · rw [wholeRead, if_pos (show (0 : UInt64).toNat + (0x100000010 : UInt64).toNat ≤ file.size by
        decide)] at whole
      cases whole
    · cases none
    · exact absurd (same ▸ below) (not_lt.mpr transferred)

/-! ## Ends that wrap around -/

/-- The read is answered from inside a buffer, or by the kernel. -/
def ReadContained (kernel : Kernel) (file : JournalFile) (cache : Cache)
    (offset length : UInt64) : Prop :=
  ∃ cache' outcome, cachedReader kernel cache (offset, length) = .ok (cache', outcome) ∧
    match cache.journal.lookup offset length with
    | some buf =>
      let block := cache.journal.bufs buf
      block.offset.toNat ≤ offset.toNat ∧
        offset.toNat - block.offset.toNat + length.toNat ≤ block.length.toNat
    | none => outcome = .ok (file.slice offset.toNat length.toNat) ∨ ∃ code, outcome = .error code

/-- The end of the range does not wrap around, or every valid block ends before
the address it wraps around to. -/
def WrapClear (journal : Journal) (offset length : UInt64) : Prop :=
  offset.toNat + length.toNat < 2 ^ 64 ∨
    ∀ buf, (journal.bufs buf).valid = true → (journal.bufs buf).offset.toNat +
      (journal.bufs buf).length.toNat < offset.toNat + length.toNat - 2 ^ 64

/-- The request is taken for one that a buffer has, because its end wraps around. -/
def LeavesBuffer (journal : Journal) (offset length : UInt64) : Prop :=
  length.toNat ≤ JOURNAL_BUF_SIZE ∧ ¬WrapClear journal offset length

private theorem readContained_of_miss {kernel : Kernel} {file : JournalFile} {cache : Cache}
    {offset length : UInt64} (serves : kernel.ServesFile file)
    (invariant : CacheInvariant file cache.journal) (positive : 0 < length.toNat)
    (small : length.toNat ≤ JOURNAL_BUF_SIZE)
    (missed : cache.journal.lookup offset length = none) :
    ReadContained kernel file cache offset length := by
  obtain ⟨journal, outcome, ok, -, answered⟩ :=
    cachedReader_miss serves invariant positive small missed
  refine ⟨_, outcome, ok, ?_⟩
  rw [missed]
  change outcome = .ok (file.slice offset.toNat length.toNat) ∨ ∃ code, outcome = .error code
  rcases answered with plain | ⟨code, failed, -⟩
  · rw [plain, plainRead]
    split
    · exact .inl rfl
    · exact .inr ⟨_, rfl⟩
  · exact .inr ⟨code, failed⟩

/-- A request whose end wraps around is found in a buffer only by mistake. -/
theorem wrapped_lookup_iff {file : JournalFile} {journal : Journal} {offset length : UInt64}
    (coherent : Coherent file journal) (small : length.toNat ≤ JOURNAL_BUF_SIZE)
    (wraps : 2 ^ 64 ≤ offset.toNat + length.toNat) :
    journal.lookup offset length = none ↔ ∀ buf, (journal.bufs buf).valid = true →
      (journal.bufs buf).offset.toNat + (journal.bufs buf).length.toNat <
        offset.toNat + length.toNat - 2 ^ 64 := by
  have bound := file.size_lt
  have low := offset.toNat_lt
  unfold JOURNAL_BUF_SIZE at small
  rw [← Option.isNone_iff_eq_none, ← Option.not_isSome, Bool.not_eq_true', ← Bool.not_eq_true,
    lookup_isSome_iff, not_exists]
  refine forall_congr' fun buf => ?_
  constructor
  · intro missed valid
    have inside := (coherent buf valid).inside
    rw [(coherent buf valid).covers_iff] at missed
    by_contra reaches
    exact missed ⟨valid, by omega, by omega⟩
  · intro clear hit
    have valid := JournalBuf.valid_of_covers hit
    have := ((coherent buf valid).covers_iff offset length).mp hit
    have := clear valid
    omega

private theorem readContained_iff_wrapClear {kernel : Kernel} {file : JournalFile} {cache : Cache}
    {offset length : UInt64} (serves : kernel.ServesFile file)
    (invariant : CacheInvariant file cache.journal) (positive : 0 < length.toNat)
    (small : length.toNat ≤ JOURNAL_BUF_SIZE) :
    ReadContained kernel file cache offset length ↔ WrapClear cache.journal offset length := by
  cases found : cache.journal.lookup offset length with
  | none =>
    refine iff_of_true (readContained_of_miss serves invariant positive small found) ?_
    by_cases straight : offset.toNat + length.toNat < 2 ^ 64
    · exact .inl straight
    · exact .inr ((wrapped_lookup_iff invariant.coherent small (by omega)).mp found)
  | some buf =>
    have hit := lookup_some found
    have valid := JournalBuf.valid_of_covers hit
    have holds := invariant.coherent buf valid
    have low := length.toNat_lt
    by_cases straight : offset.toNat + length.toNat < 2 ^ 64
    · refine iff_of_true ?_ (.inl straight)
      obtain ⟨journal', outcome, ok, -, -⟩ := cachedReader_spec serves invariant positive straight
      obtain ⟨-, starts, ends⟩ := (holds.covers_iff offset length).mp hit
      rw [Nat.mod_eq_of_lt straight] at ends
      refine ⟨_, outcome, ok, ?_⟩
      rw [found]
      exact ⟨starts, by omega⟩
    · refine iff_of_false ?_ ?_
      · rintro ⟨_, _, -, contained⟩
        rw [found] at contained
        have inside := holds.inside
        have bound := file.size_lt
        dsimp only at contained
        omega
      · rintro (clear | clear)
        · exact straight clear
        · rw [(wrapped_lookup_iff invariant.coherent small (by omega)).mpr clear] at found
          contradiction

/-- Reads that did not fault leave a cache that satisfies the invariant, whatever
their offsets. -/
theorem readAll_invariant {kernel : Kernel} {file : JournalFile} (serves : kernel.ServesFile file)
    {reads : List (UInt64 × UInt64)} (positive : ∀ read ∈ reads, 1 ≤ read.2.toNat)
    {cache cache' : Cache} {outcomes : List (Except Int (List UInt8))}
    (ran : readAll kernel cache reads = .ok (cache', outcomes))
    (invariant : CacheInvariant file cache.journal) : CacheInvariant file cache'.journal := by
  induction reads generalizing cache outcomes with
  | nil =>
    simp only [readAll, Except.ok.injEq, Prod.mk.injEq] at ran
    exact ran.1 ▸ invariant
  | cons read reads ih =>
    obtain ⟨⟨middle, outcome⟩, first, ran⟩ := bind_eq_ok.mp ran
    obtain ⟨⟨last, outcomes'⟩, rest, ran⟩ := bind_eq_ok.mp ran
    obtain ⟨rfl, -⟩ := Prod.mk.inj (Except.ok.inj ran)
    exact ih (fun other member => positive other (by simp [member])) rest
      (cachedReader_invariant serves invariant (positive read (by simp)) first)

/-- In every state that reads lead to, a request that fits a buffer is answered
from inside one or by the kernel, exactly unless its end wraps around to an
address that a valid block reaches. -/
theorem read_contained_iff {kernel : Kernel} {file : JournalFile} (serves : kernel.ServesFile file)
    {name : String} {fd : Int} {i : Nat} {journal : Journal}
    (ready : freshJournal name fd i = .ok journal) {reads : List (UInt64 × UInt64)}
    (positive : ∀ read ∈ reads, 1 ≤ read.2.toNat) {cache : Cache}
    {outcomes : List (Except Int (List UInt8))}
    (ran : readAll kernel ⟨journal, 0⟩ reads = .ok (cache, outcomes)) (offset length : UInt64)
    (nonempty : 1 ≤ length.toNat) (small : length.toNat ≤ JOURNAL_BUF_SIZE) :
    ReadContained kernel file cache offset length ↔ WrapClear cache.journal offset length :=
  readContained_iff_wrapClear serves (readAll_invariant serves positive ran (.fresh ready))
    nonempty small

/-- A header that would end with the address space, after a read of the header. -/
theorem read_contained_iff_after_header :
    let file := countingFile 9000 (by decide)
    ∃ journal cache outcomes, freshJournal "system.journal" 3 0 = .ok journal ∧
      readAll (fileKernel file) ⟨journal, 0⟩ [(0, 256)] = .ok (cache, outcomes) ∧
      (ReadContained (fileKernel file) file cache 0xfffffffffffffff0 16 ↔
        WrapClear cache.journal 0xfffffffffffffff0 16) := by
  intro file
  have header : ∀ read ∈ [((0 : UInt64), (256 : UInt64))],
      0 < read.2.toNat ∧ read.1.toNat + read.2.toNat < 2 ^ 64 := by simp
  obtain ⟨journal, ready, -⟩ := freshJournal_spec "system.journal" 3 0
  obtain ⟨cache, outcomes, ran, -⟩ :=
    readAll_straight (fileKernel_servesFile file) header ⟨journal, 0⟩ (.fresh ready)
  exact ⟨journal, cache, outcomes, ready, ran,
    read_contained_iff (fileKernel_servesFile file) ready (fun read member => (header read member).1)
      ran _ _ (by decide) (by decide)⟩

/-- With the header cached, a tail object's header at `2^64 - 8` is taken from in
front of the buffer. -/
theorem wrapped_read_leaves_buffer :
    let file := countingFile 9000 (by decide)
    ∃ journal cache outcomes, freshJournal "system.journal" 3 0 = .ok journal ∧
      readAll (fileKernel file) ⟨journal, 0⟩ [(0, 256)] = .ok (cache, outcomes) ∧
      cachedReader (fileKernel file) cache (0xfffffffffffffff8, 16) = .error .outOfBounds ∧
      ¬ ReadContained (fileKernel file) file cache 0xfffffffffffffff8 16 := by
  refine ⟨_, _, _, rfl, rfl, rfl, ?_⟩
  rintro ⟨_, _, ok, -⟩
  cases ok

end Jio
