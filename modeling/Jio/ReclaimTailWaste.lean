import Jio.ObjectLoads

/-! `reclaim tail-waste`: the one command that changes a journal. It cuts each
archived journal off behind its tail object, at an offset computed from two
values of the file, and sums up what it cut, left alone or could not cut. -/
namespace Jio
open ByteOrder ReadProgram

/-! ## The command -/

/-- `tail_waste_t`. -/
structure TailWaste where
  nJournals : UInt32
  nReclaimed : UInt32
  nIgnored : UInt32
  nErrored : UInt32
  nMules : UInt32
  reclaimedBytes : UInt64
  ignoredBytes : UInt64
  erroredBytes : UInt64
  deriving DecidableEq

/-- `tail_waste_t tail_waste = {}`. -/
def zeroTailWaste : TailWaste := ⟨0, 0, 0, 0, 0, 0, 0, 0⟩

/-- The system calls on one journal: the result of `fstat` and the `st_size` it
stores, and the result of `ftruncate` for each length. -/
structure Syscalls where
  fstat : Int
  stSize : UInt64
  ftruncate : UInt64 → Int

/-- What `reclaim_tail_waste` leaves behind: its result, the sums, and the length
it called `ftruncate` with, if it did. -/
structure Reclaimed where
  result : Int
  tailWaste : TailWaste
  truncated : Option UInt64
  deriving DecidableEq

/-- `reclaim_tail_waste`. -/
def reclaimTailWaste (sys : Syscalls) (journalHeader : Header) (tailObjectHeader : ObjectHeader)
    (tailWaste : TailWaste) : Reclaimed :=
  if sys.fstat < 0 then ⟨sys.fstat, tailWaste, none⟩
  else
    let tailWaste := { tailWaste with nJournals := tailWaste.nJournals + 1 }
    let sz := sys.stSize
    let tail := journalHeader.tailObjectOffset + align64 tailObjectHeader.size
    if sz = tail then ⟨0, { tailWaste with nMules := tailWaste.nMules + 1 }, none⟩
    else if journalHeader.state ≠ STATE_ARCHIVED then
      ⟨0, { tailWaste with
        nIgnored := tailWaste.nIgnored + 1
        ignoredBytes := tailWaste.ignoredBytes + (sz - tail) }, none⟩
    else if sys.ftruncate tail < 0 then
      ⟨0, { tailWaste with
        nErrored := tailWaste.nErrored + 1
        erroredBytes := tailWaste.erroredBytes + (sz - tail) }, some tail⟩
    else
      ⟨0, { tailWaste with
        nReclaimed := tailWaste.nReclaimed + 1
        reclaimedBytes := tailWaste.reclaimedBytes + (sz - tail) }, some tail⟩

/-- What `per_journal_tail_waste` allocates, the sums it is given, and the length
`ftruncate` was called with. -/
structure TailCells where
  header : Header
  tailObjectHeader : ObjectHeader
  tailWaste : TailWaste
  truncated : Option UInt64

/-- `reclaim_tail_waste`, as the closure it is. -/
def reclaimTailWasteClosure (sys : Syscalls) (cells : TailCells) : Reading TailCells :=
  let reclaimed := reclaimTailWaste sys cells.header cells.tailObjectHeader cells.tailWaste
  let cells := { cells with
    tailWaste := reclaimed.tailWaste
    truncated := reclaimed.truncated }
  if reclaimed.result < 0 then .fail reclaimed.result cells else .dispatch cells

/-- `per_journal_tail_waste`. -/
def perJournalTailWaste (sys : Syscalls) (host : Endian) (cells : TailCells) : Reading TailCells :=
  (journalGetHeader host cells fun header => { cells with header }).andThen fun cells =>
    (journalGetObjectHeader host cells.header.tailObjectOffset cells fun tailObjectHeader =>
      { cells with tailObjectHeader }).andThen (reclaimTailWasteClosure sys)

/-- The header of the file, in host order. -/
def JournalFile.header (file : JournalFile) : Header := .ofMemory .little (file.slice 0 256)

/-- `journal_get_header` has the closure dispatched with the header of the file. -/
theorem exec_journalGetHeader {σ : Type} {file : JournalFile} (large : 256 ≤ file.size)
    (host : Endian) (cells : σ) (store : Header → σ) :
    exec (fileReader file) () (journalGetHeader host cells store) =
      .ok ((), .dispatched (store file.header)) := by
  have readable : Readable file 0 sizeofHeader :=
    (readable_iff_inside (by decide)).mpr (show 0 + 256 ≤ file.size by omega)
  have read : fileReader file () (0, sizeofHeader) = .ok ((), .ok (file.slice 0 256)) :=
    fileReader_inside (by decide) readable
  have length : (file.slice 0 256).length = 256 := bytesAt_length ..
  have members : (swapFields host headerFields (file.slice 0 256)).isSome := by
    rw [swapFields_isSome_iff, length]
    decide
  obtain ⟨mem, swapped⟩ := Option.isSome_iff_exists.mp members
  have converted : gotHeader host (file.slice 0 256) = .ok mem := congrArg within swapped
  unfold journalGetHeader exec
  rw [read]
  simp only [converted, exec, gotHeader_values converted]
  rfl

/-- `journal_get_object_header` has the closure dispatched with the object header of the file. -/
theorem exec_journalGetObjectHeader {σ : Type} {file : JournalFile} {offset : UInt64}
    (inFile : offset.toNat + 16 ≤ file.size) (host : Endian) (cells : σ)
    (store : ObjectHeader → σ) :
    exec (fileReader file) () (journalGetObjectHeader host offset cells store) =
      .ok ((), .dispatched (store (file.objectHeader offset.toNat))) := by
  have read : fileReader file () (offset, sizeofObjectHeader) =
      .ok ((), .ok (file.slice offset.toNat 16)) :=
    fileReader_inside (by decide) (readable_header.mpr inFile)
  unfold journalGetObjectHeader exec
  rw [read]
  simp only [exec, gotObjectHeader_slice]

/-- Whatever is cached, where a journal has a tail object, `reclaim_tail_waste` is dispatched with the
headers the file holds. -/
theorem perJournalTailWaste_dispatches {kernel : Kernel} {file : JournalFile}
    (serves : kernel.ServesFile file) (reliable : kernel.Reliable) (large : 256 ≤ file.size)
    (inFile : file.header.tailObjectOffset.toNat + 16 ≤ file.size) (sys : Syscalls) (host : Endian)
    {cache : Cache} (invariant : CacheInvariant file cache.journal) (cells : TailCells) :
    ∃ cache', exec (cachedReader kernel) cache (perJournalTailWaste sys host cells) =
      exec (cachedReader kernel) cache' (reclaimTailWasteClosure sys { cells with
        header := file.header
        tailObjectHeader := file.objectHeader file.header.tailObjectOffset.toNat }) := by
  have refines := cachedReader_refines serves reliable
  obtain ⟨cache', ran, invariant'⟩ := exec_refines refines invariant
    (exec_journalGetHeader large host cells fun header => { cells with header })
  obtain ⟨cache'', ran', -⟩ := exec_refines refines invariant'
    (exec_journalGetObjectHeader inFile host { cells with header := file.header }
      fun tailObjectHeader => { cells with header := file.header, tailObjectHeader })
  refine ⟨cache'', ?_⟩
  unfold perJournalTailWaste
  rw [exec_andThen, ran]
  dsimp only
  rw [exec_andThen, ran']

/-! ## What it may do to a journal -/

/-- The journal is cut only if it is archived, is not extended, and loses nothing
of its tail object or what is before it; and no sum grows by more than its size. -/
structure Harmless (sz : UInt64) (journalHeader : Header) (tailObjectHeader : ObjectHeader)
    (tailWaste : TailWaste) (reclaimed : Reclaimed) : Prop where
  archived : ∀ tail ∈ reclaimed.truncated, journalHeader.state = STATE_ARCHIVED
  shrinks : ∀ tail ∈ reclaimed.truncated, tail ≤ sz
  keeps : ∀ tail ∈ reclaimed.truncated,
    journalHeader.tailObjectOffset.toNat + tailObjectHeader.size.toNat ≤ tail.toNat
  reclaimedBytes : reclaimed.tailWaste.reclaimedBytes - tailWaste.reclaimedBytes ≤ sz
  ignoredBytes : reclaimed.tailWaste.ignoredBytes - tailWaste.ignoredBytes ≤ sz
  erroredBytes : reclaimed.tailWaste.erroredBytes - tailWaste.erroredBytes ≤ sz

/-- Where the tail object ends, padding included, without wrap-around. -/
def tailEnd (journalHeader : Header) (tailObjectHeader : ObjectHeader) : Nat :=
  journalHeader.tailObjectOffset.toNat + roundUp8 tailObjectHeader.size.toNat

/-- A difference is no larger than the minuend unless it wraps around. -/
theorem sub_le_iff (a b : UInt64) : a - b ≤ a ↔ b ≤ a := by
  have bound := b.toNat_lt
  have bound' := a.toNat_lt
  rw [UInt64.le_iff_toNat_le, UInt64.le_iff_toNat_le, UInt64.toNat_sub]
  omega

/-- The computed tail is behind the tail object unless it wraps around. -/
theorem tail_keeps_iff (offset size : UInt64) :
    offset.toNat + size.toNat ≤ (offset + align64 size).toNat ↔
      offset.toNat + roundUp8 size.toNat < 2 ^ 64 := by
  have bound := offset.toNat_lt
  have bound' := size.toNat_lt
  rw [add_align64_toNat]
  unfold roundUp8
  omega

private theorem grown (sum sz tail : UInt64) :
    sum + (sz - tail) - sum ≤ sz ↔ tail ≤ sz := by
  rw [UInt64.add_comm, UInt64.add_sub_cancel, sub_le_iff]

private theorem unchanged (sum sz : UInt64) : sum - sum ≤ sz := by
  rw [UInt64.sub_self, UInt64.le_iff_toNat_le]
  exact Nat.zero_le _

/-- Reclaiming is harmless exactly when there is nothing to do, or the computed
tail is in the file and, where the file is cut, was computed without wrapping. -/
theorem reclaim_harmless_iff (sys : Syscalls) (journalHeader : Header)
    (tailObjectHeader : ObjectHeader) (tailWaste : TailWaste) :
    Harmless sys.stSize journalHeader tailObjectHeader tailWaste
        (reclaimTailWaste sys journalHeader tailObjectHeader tailWaste) ↔
      sys.fstat < 0 ∨
      tailEnd journalHeader tailObjectHeader % 2 ^ 64 = sys.stSize.toNat ∨
      tailEnd journalHeader tailObjectHeader % 2 ^ 64 < sys.stSize.toNat ∧
        (journalHeader.state = STATE_ARCHIVED →
          tailEnd journalHeader tailObjectHeader < 2 ^ 64) := by
  have computed := add_align64_toNat journalHeader.tailObjectOffset tailObjectHeader.size
  have keeps := tail_keeps_iff journalHeader.tailObjectOffset tailObjectHeader.size
  rw [← tailEnd] at computed keeps
  rw [← computed, ← keeps, UInt64.toNat_inj, ← UInt64.lt_iff_toNat_lt]
  unfold reclaimTailWaste
  generalize journalHeader.tailObjectOffset + align64 tailObjectHeader.size = tail
  by_cases failed : sys.fstat < 0
  · rw [if_pos failed]
    exact iff_of_true ⟨nofun, nofun, nofun, unchanged .., unchanged .., unchanged ..⟩ (.inl failed)
  rw [if_neg failed]
  dsimp only
  by_cases mule : sys.stSize = tail
  · rw [if_pos mule]
    exact iff_of_true ⟨nofun, nofun, nofun, unchanged .., unchanged .., unchanged ..⟩
      (.inr (.inl mule.symm))
  rw [if_neg mule]
  have below : tail ≤ sys.stSize ↔ tail < sys.stSize := by
    rw [UInt64.le_iff_toNat_le, UInt64.lt_iff_toNat_lt]
    have different : sys.stSize.toNat ≠ tail.toNat := fun same => mule (UInt64.toNat_inj.mp same)
    omega
  rw [or_iff_right failed, or_iff_right fun same => mule same.symm, ← below]
  by_cases archived : journalHeader.state = STATE_ARCHIVED
  · rw [if_neg (not_not.mpr archived)]
    split
    · refine ⟨fun harmless => ⟨harmless.shrinks tail rfl, fun _ => harmless.keeps tail rfl⟩, ?_⟩
      rintro ⟨shrinks, kept⟩
      exact ⟨fun _ _ => archived, fun _ cut => Option.some.inj cut ▸ shrinks,
        fun _ cut => Option.some.inj cut ▸ kept archived, unchanged .., unchanged ..,
        (grown ..).mpr shrinks⟩
    · refine ⟨fun harmless => ⟨harmless.shrinks tail rfl, fun _ => harmless.keeps tail rfl⟩, ?_⟩
      rintro ⟨shrinks, kept⟩
      exact ⟨fun _ _ => archived, fun _ cut => Option.some.inj cut ▸ shrinks,
        fun _ cut => Option.some.inj cut ▸ kept archived, (grown ..).mpr shrinks, unchanged ..,
        unchanged ..⟩
  · rw [if_pos archived]
    constructor
    · intro harmless
      exact ⟨(grown ..).mp harmless.ignoredBytes, fun is => absurd is archived⟩
    · rintro ⟨shrinks, -⟩
      exact ⟨nofun, nofun, nofun, unchanged .., (grown ..).mpr shrinks, unchanged ..⟩

/-- An archived journal of 512 bytes whose tail object claims 1000. -/
def overrunTail : JournalFile where
  size := 512
  byte := fun i => match i with
    | 16 => STATE_ARCHIVED
    | 137 => 1
    | 256 => ObjectType.data.toByte
    | 264 => 232
    | 265 => 3
    | _ => 0
  size_lt := by decide

/-- `ftruncate` is called with 1256, and the sum wraps around. -/
theorem overrun_tail_extends_the_file :
    ∃ journal, freshJournal "system.journal" 3 0 = .ok journal ∧
      (∃ cache', exec (cachedReader (fileKernel overrunTail)) ⟨journal, 0⟩
          (perJournalTailWaste ⟨0, 512, fun _ => 0⟩ .little
            ⟨default, overrunTail.objectHeader 0, zeroTailWaste, none⟩) =
        .ok (cache', .dispatched ⟨overrunTail.header, overrunTail.objectHeader 256,
          ⟨1, 1, 0, 0, 0, 512 - 1256, 0, 0⟩, some 1256⟩)) ∧
      ¬Harmless 512 overrunTail.header (overrunTail.objectHeader 256) zeroTailWaste
        ⟨0, ⟨1, 1, 0, 0, 0, 512 - 1256, 0, 0⟩, some 1256⟩ := by
  obtain ⟨journal, ready, -⟩ := freshJournal_spec "system.journal" 3 0
  have tail : overrunTail.header.tailObjectOffset.toNat = 256 := by decide
  have reclaimed : reclaimTailWaste ⟨0, 512, fun _ => 0⟩ overrunTail.header
      (overrunTail.objectHeader 256) zeroTailWaste =
      ⟨0, ⟨1, 1, 0, 0, 0, 512 - 1256, 0, 0⟩, some 1256⟩ := by decide
  obtain ⟨cache', ran⟩ := perJournalTailWaste_dispatches (fileKernel_servesFile overrunTail)
    (fileKernel_reliable overrunTail) (by decide) (by rw [tail]; decide) ⟨0, 512, fun _ => 0⟩
    .little (show CacheInvariant overrunTail (Cache.mk journal 0).journal from .fresh ready)
    ⟨default, overrunTail.objectHeader 0, zeroTailWaste, none⟩
  refine ⟨journal, ready, ⟨cache', ran.trans ?_⟩, fun harmless => ?_⟩
  · simp only [tail, reclaimTailWasteClosure, reclaimed]
    rfl
  · exact absurd (harmless.shrinks 1256 rfl) (by decide)

end Jio
