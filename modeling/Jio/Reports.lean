import Mathlib.Algebra.BigOperators.Group.List.Basic
import Jio.EntryArrays
import Jio.JournalsOpen
import Jio.ReportTailWaste
import Jio.UsageReport

/-! Reports over all journals at once. `journals_for_each` has each open journal started, one
after the other; from then on they go on in whatever order their reads complete, each
with what was allocated for it, and add to totals that they share. -/
namespace Jio.ReportTotals
open ByteOrder ReadProgram Interleaving JournalsOpen

/-! ## Reports -/

/-- The closures of a report, for one journal: `per_journal` up to `journal_get_header`; from
there to the first dispatch of the closure that has the totals; that closure; and from
what it leaves to its next dispatch, if there is one. -/
structure Report (Own Totals : Type) where
  perJournal : Totals → Int × Totals
  start : Reading Own
  closure : Own → Totals → Except Fault (Int × Own × Totals)
  again : Own → Option (Reading Own)

/-- A journal of the directory, and its surroundings. -/
structure JournalOnDisk where
  journal : Journal
  file : JournalFile
  sys : Syscalls
  allocs : EntryArrays.EntryArrayAllocs
  cached : 0 ≤ journal.fd → CacheInvariant file journal

/-- Its open succeeded. -/
def JournalOnDisk.isOpen (journal : JournalOnDisk) : Bool := 0 ≤ journal.journal.fd

/-! ## Turns -/

/-- Where the closures of a journal are: about to go on, waiting for a read, or done. -/
inductive Status (Own : Type) where
  | running (program : Reading Own)
  | waiting (op : ReadOp) (resume : List UInt8 → Reading Own)
  | finished (own : Own)

section Systems

variable {n : Nat} {Own Totals : Type}

/-- A turn of the closures of a journal: their next call of `journal_read`, the completion of
the read they wait for, or the dispatch of the closure that has the totals. What runs
between two completions is one turn or several. -/
def journalTurn (kernel : Kernel) (report : Report Own Totals) :
    Status Own → Cache → Totals → Option (Status Own × Cache × Totals)
  | .running (.read (offset, length) _ resume), cache, totals =>
    match journalRead cache.journal (kernel.opNew cache.clock) offset length with
    | .ok (journal, .hit dest) => some (.running (resume dest), ⟨journal, cache.clock + 1⟩, totals)
    | .ok (journal, .queued op) => some (.waiting op resume, ⟨journal, cache.clock⟩, totals)
    | .ok (_, .failed _) | .error _ => none
  | .waiting op resume, cache, totals =>
    let answer := kernel.answer cache.clock op.offset op.nbytes
    match bufGotRead (cache.journal.kernelWrites op answer.data) op answer.result answer.data with
    | (journal, .ok dest) => some (.running (resume dest), ⟨journal, cache.clock + 1⟩, totals)
    | (_, .error _) => none
  | .running (.dispatch own), cache, totals =>
    match report.closure own totals with
    | .ok (r, own, totals) =>
      if r < 0 then none
      else match report.again own with
        | some program => some (.running program, cache, totals)
        | none => some (.finished own, cache, totals)
    | .error _ => none
  | .running (.fail _ _), _, _ | .running (.abort _), _, _ | .finished _, _, _ => none

/-- What `per_journal` allocates. -/
@[ext] structure Foo (n : Nat) (Own : Type) where
  journal : Fin n
  status : Status Own

/-- What is shared: the journals, and the totals. -/
structure Heap (n : Nat) (Totals : Type) where
  caches : Fin n → Cache
  totals : Totals

/-- A turn of a `foo`, with the journal it points at. -/
def fooTurn (kernels : Fin n → Kernel) (reports : Fin n → Report Own Totals) (foo : Foo n Own)
    (heap : Heap n Totals) : Option (Foo n Own × Heap n Totals) :=
  (journalTurn (kernels foo.journal) (reports foo.journal) foo.status (heap.caches foo.journal)
    heap.totals).map fun (status, cache, totals) =>
      ({ foo with status }, ⟨Function.update heap.caches foo.journal cache, totals⟩)

/-- What the dispatches of `per_journal` leave behind. -/
structure Started (n : Nat) (Own Totals : Type) where
  foos : List (Foo n Own)
  totals : Totals

/-- `per_journal`. It takes what is in `*journal_iter`. -/
def perJournal (reports : Fin n → Report Own Totals) (journalIter : Fin n)
    (started : Started n Own Totals) : Int × Started n Own Totals :=
  let report := reports journalIter
  let (r, totals) := report.perJournal started.totals
  if r < 0 then (r, { started with totals })
  else (0, ⟨started.foos ++ [⟨journalIter, .running report.start⟩], totals⟩)

/-- The closure `journals_open` dispatches. -/
def startAll [Zero Totals] (report : JournalOnDisk → Report Own Totals)
    (journals : List JournalOnDisk) :
    ForEach journals.length (Started journals.length Own Totals) :=
  journalsForEach ⟨journals.length, fun i => (journals.get i).journal⟩
    (perJournal fun i => report (journals.get i)) ⟨[], 0⟩

/-- The `foo`s when `journals_for_each` is done. -/
def started [Zero Totals] (report : JournalOnDisk → Report Own Totals)
    (journals : List JournalOnDisk) :
    Processes (Fin (startAll report journals).user.foos.length) (Foo journals.length Own)
      (Heap journals.length Totals) where
  own k := (startAll report journals).user.foos[k]
  shared := ⟨fun i => ⟨(journals.get i).journal, 0⟩, (startAll report journals).user.totals⟩

/-- Kernels that answer every read from the files. -/
def Answers (journals : List JournalOnDisk) (kernels : Fin journals.length → Kernel) : Prop :=
  ∀ i, (kernels i).ServesFile (journals.get i).file ∧ (kernels i).Reliable

/-- A schedule of turns, each of which goes well. -/
def runReport [Zero Totals] (report : JournalOnDisk → Report Own Totals)
    (journals : List JournalOnDisk) (kernels : Fin journals.length → Kernel)
    (schedule : List (Fin (startAll report journals).user.foos.length)) :=
  run (fun _ => fooTurn kernels fun i => report (journals.get i)) (started report journals) schedule

/-- Under some schedule the report finishes with these `foo`s and these totals. -/
def Finishes [Zero Totals] (report : JournalOnDisk → Report Own Totals)
    (journals : List JournalOnDisk) (foos : List (Foo journals.length Own)) (totals : Totals) :
    Prop :=
  0 ≤ (startAll report journals).r ∧ ∃ kernels schedule last, Answers journals kernels ∧
    runReport report journals kernels schedule = some last ∧ List.ofFn last.own = foos ∧
      (∀ foo ∈ foos, ∃ own, foo.status = .finished own) ∧ last.shared.totals = totals

end Systems

/-! ## Totals -/

/-- `usage_t` of all journals, and `n_journals`. -/
@[ext] structure UsageTotals where
  usage : Usage
  fileSize : UInt64
  nJournals : UInt32

attribute [ext] Usage TailWasteReport

instance : Zero UsageTotals := ⟨zeroUsage, 0, 0⟩

instance : Zero EntryArrays.EntryArrayStats := ⟨EntryArrays.zeroStats⟩

instance : Zero TailWasteReport := ⟨zeroTailWasteReport⟩

instance : Add UsageTotals where
  add totals totals' :=
    { usage :=
        { countPerType := .zipWith (· + ·) totals.usage.countPerType totals'.usage.countPerType
          usePerType := .zipWith (· + ·) totals.usage.usePerType totals'.usage.usePerType
          useTotal := totals.usage.useTotal + totals'.usage.useTotal }
      fileSize := totals.fileSize + totals'.fileSize
      nJournals := totals.nJournals + totals'.nJournals }

instance : Add EntryArrays.EntryArrayStats := ⟨EntryArrays.addStats⟩

instance : Add TailWasteReport where
  add totals totals' :=
    { perStateCounts := .zipWith (· + ·) totals.perStateCounts totals'.perStateCounts
      perStateBytes := .zipWith (· + ·) totals.perStateBytes totals'.perStateBytes
      total := totals.total + totals'.total
      totalFileSize := totals.totalFileSize + totals'.totalFileSize
      nJournals := totals.nJournals + totals'.nJournals }

theorem UsageTotals.zero_def : (0 : UsageTotals) = ⟨zeroUsage, 0, 0⟩ := rfl

theorem UsageTotals.add_def (totals totals' : UsageTotals) : totals + totals' =
    { usage :=
        { countPerType := .zipWith (· + ·) totals.usage.countPerType totals'.usage.countPerType
          usePerType := .zipWith (· + ·) totals.usage.usePerType totals'.usage.usePerType
          useTotal := totals.usage.useTotal + totals'.usage.useTotal }
      fileSize := totals.fileSize + totals'.fileSize
      nJournals := totals.nJournals + totals'.nJournals } := rfl

instance : AddCommMonoid UsageTotals where
  add_assoc _ _ _ := by ext <;> simp [UsageTotals.add_def, UInt64.add_assoc, UInt32.add_assoc]
  zero_add _ := by ext <;> simp [UsageTotals.add_def, UsageTotals.zero_def, zeroUsage]
  add_zero _ := by ext <;> simp [UsageTotals.add_def, UsageTotals.zero_def, zeroUsage]
  add_comm _ _ := by ext <;> simp [UsageTotals.add_def, UInt64.add_comm, UInt32.add_comm]
  nsmul := nsmulRec

theorem stats_zero_def : (0 : EntryArrays.EntryArrayStats) = EntryArrays.zeroStats := rfl

theorem stats_add_def (stats stats' : EntryArrays.EntryArrayStats) :
    stats + stats' = EntryArrays.addStats stats stats' := rfl

instance : AddCommMonoid EntryArrays.EntryArrayStats where
  add_assoc _ _ _ := by
    ext <;> simp [stats_add_def, EntryArrays.addStats, EntryArrays.SizeClass.add, UInt64.add_assoc]
  zero_add _ := by
    ext <;> simp [stats_add_def, stats_zero_def, EntryArrays.addStats, EntryArrays.SizeClass.add,
      EntryArrays.zeroStats]
  add_zero _ := by
    ext <;> simp [stats_add_def, stats_zero_def, EntryArrays.addStats, EntryArrays.SizeClass.add,
      EntryArrays.zeroStats]
  add_comm _ _ := by
    ext <;> simp [stats_add_def, EntryArrays.addStats, EntryArrays.SizeClass.add, UInt64.add_comm]
  nsmul := nsmulRec

theorem tailWaste_zero_def : (0 : TailWasteReport) = zeroTailWasteReport := rfl

theorem tailWaste_add_def (totals totals' : TailWasteReport) : totals + totals' =
    { perStateCounts := .zipWith (· + ·) totals.perStateCounts totals'.perStateCounts
      perStateBytes := .zipWith (· + ·) totals.perStateBytes totals'.perStateBytes
      total := totals.total + totals'.total
      totalFileSize := totals.totalFileSize + totals'.totalFileSize
      nJournals := totals.nJournals + totals'.nJournals } := rfl

instance : AddCommMonoid TailWasteReport where
  add_assoc _ _ _ := by ext <;> simp [tailWaste_add_def, UInt64.add_assoc, UInt32.add_assoc]
  zero_add _ := by ext <;> simp [tailWaste_add_def, tailWaste_zero_def, zeroTailWasteReport]
  add_zero _ := by ext <;> simp [tailWaste_add_def, tailWaste_zero_def, zeroTailWasteReport]
  add_comm _ _ := by ext <;> simp [tailWaste_add_def, UInt64.add_comm, UInt32.add_comm]
  nsmul := nsmulRec

/-! ## The three reports -/

/-- A zeroed `ObjectHeader`. -/
def zeroObjectHeader : ObjectHeader := ⟨0, 0, .replicate _ 0, 0⟩

/-- What `report usage` allocates, besides the cells of the iteration. -/
structure UsageFoo where
  header : Header
  usage : Usage
  fileSize : UInt64

/-- `report usage`. -/
def usageReport (host : Endian) (journal : JournalOnDisk) :
    Report (Iteration UsageFoo) UsageTotals where
  perJournal totals :=
    if journal.sys.fstat < 0 then (journal.sys.fstat, totals)
    else (0, { totals with
      fileSize := totals.fileSize + journal.sys.stSize
      nJournals := totals.nJournals + 1 })
  start :=
    let foo : Iteration UsageFoo :=
      ⟨0, zeroObjectHeader, ⟨default, zeroUsage, journal.sys.stSize⟩⟩
    (journalGetHeader host foo fun header => { foo with user.header := header }).andThen fun foo =>
      journalIterNextObject host foo.user.header { foo with iterOffset := 0 }
  closure foo totals := do
    let (r, usage, total) ←
      perDataObject foo.iterOffset foo.iterObjectHeader (foo.user.usage, totals.usage)
    return (r, { foo with user.usage := usage }, { totals with usage := total })
  again foo :=
    if foo.iterOffset = 0 then none else some (journalIterNextObject host foo.user.header foo)

/-- `report entry-arrays`. -/
def entryArrayReport (sha1 : List UInt8 → EntryArrays.Digest) (host : Endian)
    (journal : JournalOnDisk) :
    Report (Iteration EntryArrays.ProfileCells) EntryArrays.EntryArrayStats where
  perJournal totals := (0, totals)
  start :=
    let foo : Iteration EntryArrays.ProfileCells :=
      ⟨0, zeroObjectHeader, ⟨default, EntryArrays.emptyProfile⟩⟩
    (journalGetHeader host foo fun header => { foo with user.header := header }).andThen
      (EntryArrays.perObjectStep sha1 journal.allocs host)
  closure foo totals :=
    if foo.iterOffset = 0 then do
      let (r, totals) ← EntryArrays.perObjectEnd foo.user.profile totals
      return (r, foo, totals)
    else .ok (0, foo, totals)
  again foo :=
    if foo.iterOffset = 0 then none
    else some (EntryArrays.perObjectStep sha1 journal.allocs host foo)

/-- What `report tail-waste` allocates. -/
structure TailWasteFoo where
  header : Header
  tailObjectHeader : ObjectHeader

/-- `report tail-waste`. -/
def tailWasteReport (host : Endian) (journal : JournalOnDisk) :
    Report TailWasteFoo TailWasteReport where
  perJournal totals := (0, totals)
  start :=
    let foo : TailWasteFoo := ⟨default, zeroObjectHeader⟩
    (journalGetHeader host foo fun header => { foo with header }).andThen fun foo =>
      journalGetObjectHeader host foo.header.tailObjectOffset foo fun tailObjectHeader =>
        { foo with tailObjectHeader }
  closure foo totals := do
    let (r, totals) ← printTailWaste journal.sys foo.header foo.tailObjectHeader totals
    return (r, foo, totals)
  again _ := none

/-- What a report adds to totals does not depend on them. -/
structure Additive {Own Totals : Type} [AddCommMonoid Totals] (report : Report Own Totals) :
    Prop where
  perJournal : ∀ totals,
    report.perJournal totals = ((report.perJournal 0).1, totals + (report.perJournal 0).2)
  closure : ∀ own totals, report.closure own totals =
    (report.closure own 0).map fun ran => (ran.1, ran.2.1, totals + ran.2.2)

/-- Adding to one entry is adding what is zero elsewhere. -/
theorem set_eq_zipWith {α : Type} [Add α] [Zero α] (add_zero : ∀ x : α, x + 0 = x)
    (zero_add : ∀ x : α, 0 + x = x) {n i : Nat} (entries : Vector α n) (inside : i < n) (d : α) :
    entries.set i (entries[i] + d) =
      .zipWith (· + ·) entries ((Vector.replicate n 0).set i ((Vector.replicate n 0)[i] + d)) := by
  ext j bound
  rw [Vector.getElem_zipWith]
  by_cases here : i = j
  · subst here
    simp [zero_add]
  · simp [here, add_zero]

theorem usageReport_additive (host : Endian) (journal : JournalOnDisk) :
    Additive (usageReport host journal) where
  perJournal totals := by
    unfold usageReport
    dsimp only
    split
    · simp
    · apply congrArg (Prod.mk _)
      ext <;> simp [UsageTotals.add_def, UsageTotals.zero_def, zeroUsage]
  closure foo totals := by
    unfold usageReport perDataObject
    dsimp only
    cases foo.user.usage.tally foo.iterObjectHeader with
    | error fault => rfl
    | ok usage =>
      unfold Usage.tally
      split
      · rename_i known
        refine congrArg Except.ok (Prod.ext rfl (Prod.ext rfl ?_))
        dsimp only
        rw [UsageTotals.add_def]
        apply UsageTotals.ext
        · apply Usage.ext
          · exact set_eq_zipWith (by simp) (by simp) totals.usage.countPerType known 1
          · exact set_eq_zipWith (by simp) (by simp) totals.usage.usePerType known _
          · simp [UsageTotals.zero_def, zeroUsage]
        · simp [UsageTotals.zero_def]
        · simp [UsageTotals.zero_def]
      · rfl

theorem entryArrayReport_additive (sha1 : List UInt8 → EntryArrays.Digest) (host : Endian)
    (journal : JournalOnDisk) : Additive (entryArrayReport sha1 host journal) where
  perJournal totals := by simp [entryArrayReport]
  closure foo totals := by
    unfold entryArrayReport EntryArrays.perObjectEnd
    dsimp only
    split
    · cases EntryArrays.profileStats foo.user.profile with
      | error fault => rfl
      | ok stats =>
        refine congrArg Except.ok (Prod.ext rfl (Prod.ext rfl ?_))
        dsimp only
        rw [← stats_add_def, ← stats_add_def, zero_add]
    · simp [Except.map]

theorem tailWasteReport_additive (host : Endian) (journal : JournalOnDisk) :
    Additive (tailWasteReport host journal) where
  perJournal totals := by simp [tailWasteReport]
  closure foo totals := by
    unfold tailWasteReport printTailWaste
    dsimp only
    split
    · simp [Except.map, pure, Except.pure, bind, Except.bind]
    · split
      · rename_i known
        refine congrArg Except.ok (Prod.ext rfl (Prod.ext rfl ?_))
        dsimp only
        rw [tailWaste_add_def]
        apply TailWasteReport.ext
        · exact set_eq_zipWith (by simp) (by simp) totals.perStateCounts known 1
        · exact set_eq_zipWith (by simp) (by simp) totals.perStateBytes known _
        · simp [tailWaste_zero_def, zeroTailWasteReport]
        · simp [tailWaste_zero_def, zeroTailWasteReport]
        · simp [tailWaste_zero_def, zeroTailWasteReport]
      · rfl

end Jio.ReportTotals
