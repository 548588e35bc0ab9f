import Jio.CommandResults
import Jio.JournalImage

/-! What `reclaim tail-waste` leaves of journals: the same header and the same objects in
the same places, without what was behind them. -/
namespace Jio
open ByteOrder ReadProgram Interleaving JournalsOpen ReportTotals

/-! ## Sums -/

attribute [ext] TailWaste

instance : Zero TailWaste := ⟨zeroTailWaste⟩

instance : Add TailWaste where
  add sums sums' :=
    { nJournals := sums.nJournals + sums'.nJournals
      nReclaimed := sums.nReclaimed + sums'.nReclaimed
      nIgnored := sums.nIgnored + sums'.nIgnored
      nErrored := sums.nErrored + sums'.nErrored
      nMules := sums.nMules + sums'.nMules
      reclaimedBytes := sums.reclaimedBytes + sums'.reclaimedBytes
      ignoredBytes := sums.ignoredBytes + sums'.ignoredBytes
      erroredBytes := sums.erroredBytes + sums'.erroredBytes }

theorem reclaimed_zero_def : (0 : TailWaste) = zeroTailWaste := rfl

theorem reclaimed_add_def (sums sums' : TailWaste) : sums + sums' =
    { nJournals := sums.nJournals + sums'.nJournals
      nReclaimed := sums.nReclaimed + sums'.nReclaimed
      nIgnored := sums.nIgnored + sums'.nIgnored
      nErrored := sums.nErrored + sums'.nErrored
      nMules := sums.nMules + sums'.nMules
      reclaimedBytes := sums.reclaimedBytes + sums'.reclaimedBytes
      ignoredBytes := sums.ignoredBytes + sums'.ignoredBytes
      erroredBytes := sums.erroredBytes + sums'.erroredBytes } := rfl

instance : AddCommMonoid TailWaste where
  add_assoc _ _ _ := by ext <;> simp [reclaimed_add_def, UInt64.add_assoc, UInt32.add_assoc]
  zero_add _ := by ext <;> simp [reclaimed_add_def, reclaimed_zero_def, zeroTailWaste]
  add_zero _ := by ext <;> simp [reclaimed_add_def, reclaimed_zero_def, zeroTailWaste]
  add_comm _ _ := by ext <;> simp [reclaimed_add_def, UInt64.add_comm, UInt32.add_comm]
  nsmul := nsmulRec

/-! ## The command -/

/-- What `per_journal_tail_waste` allocates, and the length `ftruncate` was called with. -/
structure ReclaimFoo where
  header : Header
  tailObjectHeader : ObjectHeader
  truncated : Option UInt64

/-- `reclaim tail-waste`. -/
def reclaimReport (host : Endian) (journal : JournalOnDisk) : Report ReclaimFoo TailWaste where
  perJournal totals := (0, totals)
  start :=
    let foo : ReclaimFoo := ⟨default, zeroObjectHeader, none⟩
    (journalGetHeader host foo fun header => { foo with header }).andThen fun foo =>
      journalGetObjectHeader host foo.header.tailObjectOffset foo fun tailObjectHeader =>
        { foo with tailObjectHeader }
  closure foo totals :=
    let reclaimed := reclaimTailWaste journal.sys foo.header foo.tailObjectHeader totals
    .ok (reclaimed.result, { foo with truncated := reclaimed.truncated }, reclaimed.tailWaste)
  again _ := none

/-- `reclaim_tail_waste` adds to the sums, whatever they are. -/
theorem reclaimTailWaste_adds (sys : Syscalls) (journalHeader : Header)
    (tailObjectHeader : ObjectHeader) (sums : TailWaste) :
    reclaimTailWaste sys journalHeader tailObjectHeader sums =
      { reclaimTailWaste sys journalHeader tailObjectHeader 0 with
        tailWaste := sums + (reclaimTailWaste sys journalHeader tailObjectHeader 0).tailWaste } := by
  unfold reclaimTailWaste
  dsimp only
  split
  · simp
  · split
    · simp [reclaimed_add_def, reclaimed_zero_def, zeroTailWaste]
    · split
      · simp [reclaimed_add_def, reclaimed_zero_def, zeroTailWaste]
      · split <;> simp [reclaimed_add_def, reclaimed_zero_def, zeroTailWaste]

theorem reclaimReport_additive (host : Endian) (journal : JournalOnDisk) :
    Additive (reclaimReport host journal) where
  perJournal totals := by simp [reclaimReport]
  closure foo totals := by
    unfold reclaimReport
    dsimp only
    rw [reclaimTailWaste_adds]
    rfl

/-! ## Files that are cut -/

/-- `ftruncate`, which fails where the length is not an `off_t`. -/
def JournalFile.truncate (file : JournalFile) (length : UInt64) : JournalFile :=
  if small : length.toNat < 2 ^ 63 then
    { size := length.toNat
      byte := fun i => if i < length.toNat ∧ i < file.size then file.byte i else 0
      size_lt := small }
  else file

/-- The file after `reclaim_tail_waste` called `ftruncate` with this length, if it did. -/
def JournalFile.afterwards (file : JournalFile) (sys : Syscalls) : Option UInt64 → JournalFile
  | none => file
  | some length => if sys.ftruncate length < 0 then file else file.truncate length

namespace JournalImage

variable (image : JournalImage)

/-- Where the waste starts. -/
def used : Nat := image.header.headerSize.toNat + (image.objects.flatMap StoredObject.padded).length

/-- The journal without its waste. -/
def trimmed : JournalImage :=
  { image with
    waste := []
    small := by
      have small := image.small
      simp only [List.length_append, List.length_nil] at small ⊢
      omega }

/-- What `reclaim tail-waste` makes of it. -/
def reclaimed (sys : Syscalls) : JournalImage :=
  if image.header.state = STATE_ARCHIVED ∧ 0 ≤ sys.ftruncate (UInt64.ofNat image.used) then
    image.trimmed
  else image

/-- What it adds to the sums. -/
def reclaimShare (sys : Syscalls) : TailWaste :=
  let wasted := UInt64.ofNat image.waste.length
  if image.waste = [] then { zeroTailWaste with nJournals := 1, nMules := 1 }
  else if image.header.state ≠ STATE_ARCHIVED then
    { zeroTailWaste with nJournals := 1, nIgnored := 1, ignoredBytes := wasted }
  else if sys.ftruncate (UInt64.ofNat image.used) < 0 then
    { zeroTailWaste with nJournals := 1, nErrored := 1, erroredBytes := wasted }
  else { zeroTailWaste with nJournals := 1, nReclaimed := 1, reclaimedBytes := wasted }

theorem size_eq : image.file.size = image.used + image.waste.length := by
  have start := image.start
  show List.length _ = _
  rw [image.shape, List.length_append, start, List.length_append, used, Nat.add_assoc]

theorem used_lt : image.used < 2 ^ 63 := by
  have bound := image.file.size_lt
  have size := image.size_eq
  omega

theorem used_toNat : (UInt64.ofNat image.used).toNat = image.used :=
  UInt64.toNat_ofNat_of_lt' (image.used_lt.trans (by decide))

end JournalImage

theorem JournalFile.truncate_ofBytes {front back : List UInt8}
    (small : (front ++ back).length < 2 ^ 63) :
    (ofBytes (front ++ back) small).truncate (UInt64.ofNat front.length) =
      ofBytes front (by rw [List.length_append] at small; omega) := by
  have bound : front.length < 2 ^ 63 := by
    rw [List.length_append] at small
    omega
  have here : (UInt64.ofNat front.length).toNat = front.length :=
    UInt64.toNat_ofNat_of_lt' (bound.trans (by decide))
  unfold truncate
  rw [dif_pos (here.symm ▸ bound)]
  simp only [ofBytes, here, JournalFile.mk.injEq, true_and]
  funext i
  by_cases inside : i < front.length
  · rw [if_pos ⟨inside, by rw [List.length_append]; omega⟩]
    simp [List.getD_eq_getElem?_getD, List.getElem?_append_left, inside]
  · rw [if_neg fun within => inside within.1]
    simp [List.getD_eq_getElem?_getD, inside]

theorem placeFrom_last {off : Nat} {objects : List StoredObject} {last : UInt64 × StoredObject}
    (final : (placeFrom off objects).getLast? = some last)
    (small : off + (objects.flatMap StoredObject.padded).length < 2 ^ 64) :
    last.1.toNat + last.2.padded.length =
      off + (objects.flatMap StoredObject.padded).length := by
  induction objects generalizing off with
  | nil => cases final
  | cons stored objects ih =>
    rw [List.flatMap_cons, List.length_append] at small ⊢
    cases objects with
    | nil =>
      obtain rfl : (UInt64.ofNat off, stored) = last := Option.some.inj final
      have here : (UInt64.ofNat off).toNat = off :=
        UInt64.toNat_ofNat_of_lt' (show off < 2 ^ 64 by omega)
      simp [here]
    | cons next objects =>
      have later := @ih (off + stored.padded.length) final (by omega)
      omega

namespace JournalImage

variable (image : JournalImage) {sys : Syscalls}

/-- The file ends its tail object where its waste starts. -/
theorem tail_eq : image.header.tailObjectOffset +
      align64 (image.file.objectHeader image.header.tailObjectOffset.toNat).size =
        UInt64.ofNat image.used ∧
    image.header.tailObjectOffset.toNat + 16 ≤ image.file.size := by
  obtain ⟨last, final, tail⟩ := Option.map_eq_some_iff.mp image.last
  have small := image.used_lt
  have ends := placeFrom_last final (show image.used < 2 ^ 64 by omega)
  have lies := image.lie last (List.mem_of_getLast? final)
  have header := lies.header
  have inside := lies.inside
  have large := last.2.large
  rw [last.2.padded_length] at ends
  rw [tail] at ends header inside
  refine ⟨UInt64.toNat_inj.mp ?_, by omega⟩
  rw [add_align64_toNat, image.used_toNat, header, ends]
  exact Nat.mod_eq_of_lt (show image.used < 2 ^ 64 by omega)

theorem truncate_used : image.file.truncate (UInt64.ofNat image.used) = image.trimmed.file := by
  let front := render .little image.header.parts ++
    (image.gap ++ image.objects.flatMap StoredObject.padded)
  have whole : image.file = .ofBytes (front ++ image.waste) (by
      simpa only [front, List.append_assoc] using image.small) := by
    simp only [JournalImage.file, front, List.append_assoc]
  have length : image.used = front.length := by
    have start := image.start
    simp only [List.length_append, front, used] at start ⊢
    omega
  rw [whole, length, JournalFile.truncate_ofBytes]
  simp only [JournalImage.file, trimmed, front, List.append_nil]

/-- The length `ftruncate` is called with, if it is. -/
def truncated : Option UInt64 :=
  if image.waste = [] ∨ image.header.state ≠ STATE_ARCHIVED then none
  else some (UInt64.ofNat image.used)

theorem trimmed_of_nil (clean : image.waste = []) : image.trimmed = image := by
  obtain ⟨⟩ := image
  subst clean
  rfl

theorem reclaimTailWaste_eq (found : 0 ≤ sys.fstat) (sized : sys.stSize.toNat = image.file.size) :
    reclaimTailWaste sys image.header
        (image.file.objectHeader image.header.tailObjectOffset.toNat) 0 =
      ⟨0, image.reclaimShare sys, image.truncated⟩ := by
  have size := image.size_eq
  have used := image.used_toNat
  have bound := sys.stSize.toNat_lt
  have wasted : sys.stSize - UInt64.ofNat image.used = UInt64.ofNat image.waste.length := by
    apply UInt64.toNat_inj.mp
    rw [UInt64.toNat_sub_of_le _ _ (by rw [UInt64.le_iff_toNat_le]; omega), used, sized, size,
      Nat.add_sub_cancel_left, UInt64.toNat_ofNat_of_lt' (show _ < 2 ^ 64 by omega)]
  have clean : sys.stSize = UInt64.ofNat image.used ↔ image.waste = [] := by
    rw [← UInt64.toNat_inj, used, sized, size, ← List.length_eq_zero_iff]
    omega
  unfold reclaimTailWaste reclaimShare truncated
  dsimp only
  rw [if_neg (not_lt.mpr found), image.tail_eq.1, wasted]
  simp only [clean]
  by_cases none : image.waste = []
  · rw [if_pos none, if_pos none, if_pos (.inl none)]
    rfl
  · rw [if_neg none, if_neg none]
    by_cases archived : image.header.state = STATE_ARCHIVED
    · rw [if_neg (not_not.mpr archived), if_neg (not_not.mpr archived),
        if_neg (not_or.mpr ⟨none, not_not.mpr archived⟩)]
      split
      · simp [reclaimed_zero_def, zeroTailWaste]
      · simp [reclaimed_zero_def, zeroTailWaste]
    · rw [if_pos archived, if_pos archived, if_pos (.inr archived)]
      simp [reclaimed_zero_def, zeroTailWaste]

/-- What becomes of the file. -/
theorem afterwards_eq : image.file.afterwards sys image.truncated = (image.reclaimed sys).file := by
  unfold truncated reclaimed
  by_cases clean : image.waste = []
  · rw [if_pos (.inl clean)]
    split
    · rw [image.trimmed_of_nil clean]
      rfl
    · rfl
  · by_cases archived : image.header.state = STATE_ARCHIVED
    · rw [if_neg (not_or.mpr ⟨clean, not_not.mpr archived⟩)]
      unfold JournalFile.afterwards
      dsimp only
      by_cases failed : sys.ftruncate (UInt64.ofNat image.used) < 0
      · rw [if_pos failed, if_neg fun cut => not_lt.mpr cut.2 failed]
      · rw [if_neg failed, if_pos ⟨archived, not_lt.mp failed⟩, image.truncate_used]
    · rw [if_pos (.inr archived), if_neg fun cut => archived cut.1]
      rfl

end JournalImage

/-! ## All journals -/

/-- The journal is this one, and `fstat` tells its size. -/
structure Written (image : JournalImage) (journal : JournalOnDisk) : Prop where
  file : journal.file = image.file
  found : 0 ≤ journal.sys.fstat
  sized : journal.sys.stSize.toNat = journal.file.size

theorem Written.contributes {image : JournalImage} {journal : JournalOnDisk}
    (written : Written image journal) (host : Endian) :
    Contributes (reclaimReport host) journal
      (⟨image.header, image.file.objectHeader image.header.tailObjectOffset.toNat,
        image.truncated⟩, image.reclaimShare journal.sys) := by
  have large : 256 ≤ journal.file.size := written.file ▸ image.large
  have header : journal.file.header = image.header := written.file ▸ image.header_eq
  let foo : ReclaimFoo := ⟨image.header,
    image.file.objectHeader image.header.tailObjectOffset.toNat, none⟩
  have dispatched : exec (fileReader journal.file) () (reclaimReport host journal).start =
      .ok ((), .dispatched foo) := by
    unfold reclaimReport
    dsimp only
    rw [exec_andThen, exec_journalGetHeader large, header]
    have inFile := image.tail_eq.2
    rw [← written.file] at inFile
    rw [show foo = ⟨image.header, journal.file.objectHeader _, none⟩ from by rw [written.file]]
    exact exec_journalGetObjectHeader inFile host _ _
  have ran : (reclaimReport host journal).closure foo 0 =
      .ok (0, { foo with truncated := image.truncated }, image.reclaimShare journal.sys) := by
    simp only [reclaimReport, foo]
    rw [image.reclaimTailWaste_eq written.found (by rw [written.sized, written.file])]
  exact ⟨le_rfl, _, .of_dispatched dispatched (.last ran le_rfl rfl), (zero_add _).symm⟩

/-- Whatever the order in which the reads complete, `reclaim tail-waste` succeeds and leaves every
journal with its header and its objects; only an archived one loses anything, and that is
its waste. The sums are those of what each journal wasted. -/
theorem reclaim_keeps_journals {journals : List JournalOnDisk}
    {kernels : Fin journals.length → Kernel} (answers : Answers journals kernels)
    {image : JournalOnDisk → JournalImage}
    (written : ∀ journal ∈ journals, journal.isOpen = true → Written (image journal) journal)
    (host : Endian) :
    let report := reclaimReport host
    (∀ r, CommandEnds report journals kernels r ↔ r = .ok ()) ∧
    ∀ schedule last, runCommand report journals kernels schedule = .ok last →
      (∀ k own, (last.own k).status = .finished own →
        let journal := journals.get (pointee report journals k)
        journal.file.afterwards journal.sys own.truncated =
          ((image journal).reclaimed journal.sys).file) ∧
      ((∀ k, ∃ own, (last.own k).status = .finished own) → last.shared.totals =
        ((opened journals).map fun i =>
          (image (journals.get i)).reclaimShare (journals.get i).sys).sum) ∧
      ∃ more final, runCommand report journals kernels (schedule ++ more) = .ok final ∧
        ∀ k, ∃ own, (final.own k).status = .finished own := by
  have additive := reclaimReport_additive host
  have contributes := fun journal member isOpen => (written journal member isOpen).contributes host
  obtain ⟨results, runs⟩ := command_succeeds additive contributes answers
  refine ⟨results, ?_⟩
  intro schedule last ran
  obtain ⟨owns, totals, goesOn⟩ := runs schedule last ran
  refine ⟨?_, totals, goesOn⟩
  intro k own finished
  have isOpen := (started_own additive (starts_of_contributes contributes) k).1
  rw [owns k own finished]
  dsimp only
  have here := written _ (List.getElem_mem (pointee (reclaimReport host) journals k).isLt)
    (List.mem_filter.mp isOpen).2
  exact (congrArg (fun file => JournalFile.afterwards file _ _) here.file).trans
    (image _).afterwards_eq

/-! ## A journal with waste -/

/-- The journal on the disk, opened. -/
def onDisk (image : JournalImage) {journal : Journal}
    (cached : CacheInvariant image.file journal) : JournalOnDisk where
  journal := journal
  file := image.file
  sys := ⟨0, UInt64.ofNat image.file.size, fun _ => 0⟩
  allocs := ⟨fun _ _ => true, fun _ => true⟩
  cached := fun _ => cached

theorem onDisk_written (image : JournalImage) {journal : Journal}
    (cached : CacheInvariant image.file journal) : Written image (onDisk image cached) where
  file := rfl
  found := le_rfl
  sized := UInt64.toNat_ofNat_of_lt' (image.file.size_lt.trans (by decide))

theorem onDisk_answers (image : JournalImage) {journal : Journal}
    (cached : CacheInvariant image.file journal) :
    Answers [onDisk image cached] fun _ => fileKernel image.file := by
  intro i
  obtain rfl : i = ⟨0, Nat.zero_lt_one⟩ := Fin.ext (Nat.lt_one_iff.mp i.isLt)
  exact ⟨fileKernel_servesFile _, fileKernel_reliable _⟩

theorem reclaim_keeps_journals_twoMessages :
    ∃ journal, ∃ cached : CacheInvariant twoMessages.file journal, 0 ≤ journal.fd ∧
      CommandEnds (reclaimReport .big) [onDisk twoMessages cached]
        (fun _ => fileKernel twoMessages.file) (.ok ()) := by
  obtain ⟨journal, ready, -⟩ := freshJournal_spec "system.journal" 3 0
  have cached : CacheInvariant twoMessages.file journal := .fresh ready
  have answers := onDisk_answers twoMessages cached
  have written (journal' : JournalOnDisk) (member : journal' ∈ [onDisk twoMessages cached])
      (_ : journal'.isOpen = true) : Written twoMessages journal' :=
    List.mem_singleton.mp member ▸ onDisk_written twoMessages cached
  obtain ⟨results, -⟩ := reclaim_keeps_journals answers written .big
  exact ⟨journal, cached, freshJournal_fd ready ▸ (by decide), (results _).mpr rfl⟩

end Jio
