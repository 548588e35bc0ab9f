import Mathlib.Algebra.Order.PUnit
import Jio.LayoutReport
import Jio.ReclaimedJournals

/-! `report layout` over all journals. The walks over them go on as their reads complete, each
writing a file of its own, and what is in the files does not show the order. -/
namespace Jio.LayoutReport
open ByteOrder ReadProgram Interleaving JournalsOpen ReportTotals ReadBack

/-! ## The command -/

/-- What `per_journal` allocates, besides the cells of the iteration. `fname` is what `out` was
opened as. -/
structure LayoutFoo where
  header : Header
  fname : String
  out : Out

/-- The name of the file a journal is reported in. -/
def layoutName (journal : JournalOnDisk) : String := journal.journal.name ++ ".layout"

/-- `report layout`, which has no totals. `opens` is what comes of making the name of a file
and opening it. -/
def layoutReport (opens : String → Int) (host : Endian) (journal : JournalOnDisk) :
    Report (Iteration LayoutFoo) Unit where
  perJournal _ := (opens (layoutName journal), ())
  start :=
    let foo : Iteration LayoutFoo :=
      ⟨0, zeroObjectHeader, ⟨default, layoutName journal, preamble journal.journal.name⟩⟩
    (journalGetHeader host foo fun header => { foo with user.header := header }).andThen fun foo =>
      journalIterNextObject host foo.user.header { foo with iterOffset := 0 }
  closure foo _ := do
    let (r, out) ← perDataObject foo.iterOffset foo.iterObjectHeader foo.user.out
    return (r, { foo with user.out := out }, ())
  again foo :=
    if foo.iterOffset = 0 then none else some (journalIterNextObject host foo.user.header foo)

theorem layoutReport_additive (opens : String → Int) (host : Endian)
    (journal : JournalOnDisk) : Additive (layoutReport opens host journal) where
  perJournal _ := rfl
  closure foo _ := by
    unfold layoutReport
    dsimp only
    cases perDataObject foo.iterOffset foo.iterObjectHeader foo.user.out <;> rfl

/-! ## One journal -/

/-- The journal is its objects, back to back. -/
structure Laid (journal : JournalOnDisk) (objects : List (UInt64 × ObjectHeader)) : Prop where
  large : 256 ≤ journal.file.size
  packed : Packed journal.file journal.file.header objects
  typed : ∀ object ∈ objects, object.2.type.toNat < OBJECT_TYPE_MAX

/-- A walk whose closure takes every object comes to its end with what the closure makes of them. -/
theorem layoutReport_comes (opens : String → Int) (host : Endian) {journal : JournalOnDisk}
    {header : Header} {a last : UInt64 × ObjectHeader} {visits : List (UInt64 × ObjectHeader)}
    (chain : List.IsChain (Leads journal.file header host) (a :: (visits ++ [last])))
    (going : ∀ visit ∈ visits, visit.1 ≠ 0) (ended : last.1 = 0)
    (accepts : ∀ visit ∈ visits ++ [last], Accepts perDataObject visit) (fname : String)
    (out : Out) :
    Comes journal.file (layoutReport opens host journal)
      (.at last ⟨header, fname,
        (visits ++ [last]).foldl (fun out visit => perDataObject.after visit out) out⟩)
      (journalIterNextObject host header (.at a ⟨header, fname, out⟩)) () := by
  have dispatched {visit : UInt64 × ObjectHeader} (member : visit ∈ visits ++ [last]) (out : Out) :
      ∃ r, 0 ≤ r ∧ (layoutReport opens host journal).closure (.at visit ⟨header, fname, out⟩) 0 =
        .ok (r, .at visit ⟨header, fname, perDataObject.after visit out⟩, ()) := by
    obtain ⟨r, out', ran, ok⟩ := accepts visit member out
    refine ⟨r, ok, ?_⟩
    simp only [layoutReport, Iteration.at, Handler.after, ran, bind_ok]
    rfl
  induction visits generalizing a out with
  | nil =>
    obtain ⟨r, ok, ran⟩ := dispatched (by simp : last ∈ [] ++ [last]) out
    have led := List.isChain_pair.mp chain LayoutFoo ⟨header, fname, out⟩
    exact .of_dispatched led (.last ran ok (if_pos ended))
  | cons visit visits ih =>
    obtain ⟨first, rest⟩ := List.isChain_cons_cons.mp chain
    obtain ⟨r, ok, ran⟩ := dispatched (by simp : visit ∈ visit :: visits ++ [last]) out
    have comes := ih rest (fun later member => going later (.tail _ member))
      (fun later member => accepts later (.tail _ member)) (perDataObject.after visit out)
      (fun member => dispatched (.tail _ member))
    have goes : (layoutReport opens host journal).again
        (.at visit ⟨header, fname, perDataObject.after visit out⟩) =
          some (journalIterNextObject host header
            (.at visit ⟨header, fname, perDataObject.after visit out⟩)) :=
      if_neg (going visit (by simp))
    exact .of_dispatched (first LayoutFoo ⟨header, fname, out⟩) (.next ran ok goes comes)

/-- What the walk over these objects ends with. -/
def reported (journal : JournalOnDisk) (objects : List (UInt64 × ObjectHeader)) :
    Iteration LayoutFoo :=
  .at (0, (objects.getLast?.map Prod.snd).getD zeroObjectHeader)
    ⟨journal.file.header, layoutName journal, (iterationFrom zeroObjectHeader objects).foldl
      (fun out visit => perDataObject.after visit out) (preamble journal.journal.name)⟩

/-- A file has its preamble and the line of these tokens, which cannot be read as others, and it is
closed. -/
structure Reports (journal : JournalOnDisk) (objects : List (UInt64 × ObjectHeader)) (out : Out)
    (tokens : List Token) : Prop where
  written : out = ⟨(preamble journal.journal.name).text ++ line tokens, true⟩
  describe : List.Forall₂ Describes objects tokens
  fit : ∀ token ∈ tokens, token.Fits
  scanned : scanAll scanToken '\n' (line tokens) = some tokens
  only : ∀ others, line others = line tokens → others = tokens
  located : offsets journal.file.header.headerSize.toNat tokens =
    objects.map fun object => object.1.toNat

section OneJournal

variable {journal : JournalOnDisk} {objects : List (UInt64 × ObjectHeader)}

theorem Laid.accepts (laid : Laid journal objects) :
    ∀ visit ∈ iterationFrom zeroObjectHeader objects, Accepts perDataObject visit := by
  obtain ⟨tokens, written, -⟩ :=
    backToBack_tokens laid.packed.positive laid.packed.consecutive laid.typed
  intro visit member
  rw [iterationFrom_eq, List.mem_append, List.mem_singleton] at member
  rcases member with member | rfl
  · exact written.accepts visit member
  · exact accepts_end _

theorem Laid.contributes (laid : Laid journal objects) {opens : String → Int}
    (created : 0 ≤ opens (layoutName journal)) (host : Endian) :
    Contributes (layoutReport opens host) journal (reported journal objects, ()) := by
  refine ⟨created, (), ?_, rfl⟩
  have chain := laid.packed.walk host
    (show ((0 : UInt64), zeroObjectHeader).1 = 0 from rfl) [] fun _ _ => List.isChain_singleton _
  have accepts := laid.accepts
  rw [List.append_nil] at chain
  rw [iterationFrom_eq] at chain accepts
  have going : ∀ object ∈ objects, object.1 ≠ 0 := by
    intro object member zero
    have later := laid.packed.consecutive.le member
    have positive := laid.packed.positive
    rw [zero, UInt64.toNat_zero] at later
    omega
  refine .andThen (exec_journalGetHeader laid.large host _ _) ?_
  have comes := layoutReport_comes opens host chain going rfl accepts (layoutName journal)
    (preamble journal.journal.name)
  rw [← iterationFrom_eq] at comes
  exact comes

theorem Laid.reports (laid : Laid journal objects) :
    ∃ tokens, Reports journal objects (reported journal objects).user.out tokens := by
  obtain ⟨tokens, written, located⟩ :=
    backToBack_tokens laid.packed.positive laid.packed.consecutive laid.typed
  refine ⟨tokens, ?_, written.describe, written.fit,
    scanAll_writeAll scanToken_undoes Token.text_starts tokens,
    fun others same => writeAll_injective scanToken_undoes Token.text_starts same, located⟩
  have ended (object : ObjectHeader) (out : Out) :
      perDataObject.after (0, object) out = ⟨out.text ++ ['\n'], true⟩ := rfl
  simp only [reported, Iteration.at, iterationFrom_eq, List.foldl_append, List.foldl_cons,
    List.foldl_nil, written.written, ended, List.append_assoc]
  rfl

end OneJournal

/-! ## All of them -/

/-- Whatever the order in which the reads complete, `report layout` succeeds. Each journal is then
reported in a file of its own name, which no other has, and the file shows each of its objects,
where it is and how it is padded. -/
theorem layouts_show_the_journals {journals : List JournalOnDisk}
    (distinct : ((opened journals).map fun i => (journals.get i).journal.name).Nodup)
    {kernels : Fin journals.length → Kernel} (answers : Answers journals kernels)
    {objects : JournalOnDisk → List (UInt64 × ObjectHeader)}
    (laid : ∀ journal ∈ journals, journal.isOpen = true → Laid journal (objects journal))
    {opens : String → Int}
    (created : ∀ journal ∈ journals, journal.isOpen = true → 0 ≤ opens (layoutName journal))
    (host : Endian) :
    let report := layoutReport opens host
    let journal k := journals.get (pointee report journals k)
    (∀ r, CommandEnds report journals kernels r ↔ r = .ok ()) ∧
    (∀ k k', layoutName (journal k) = layoutName (journal k') → k = k') ∧
    ∀ schedule last, runCommand report journals kernels schedule = .ok last →
      (∀ k own, (last.own k).status = .finished own → own.user.fname = layoutName (journal k) ∧
        ∃ tokens, Reports (journal k) (objects (journal k)) own.user.out tokens) ∧
      ∃ more final, runCommand report journals kernels (schedule ++ more) = .ok final ∧
        ∀ k, ∃ own, (final.own k).status = .finished own := by
  intro report journal
  have additive := layoutReport_additive opens host
  have contributes := fun journal member isOpen =>
    (laid journal member isOpen).contributes (created journal member isOpen) host
  have starts := starts_of_contributes contributes
  have isOpen (k) : pointee report journals k ∈ opened journals :=
    (started_own additive starts k).1
  obtain ⟨results, runs⟩ := command_succeeds additive contributes answers
  refine ⟨results, ?_, ?_⟩
  · intro k k' same
    have names : (journal k).journal.name = (journal k').journal.name :=
      (String.append_left_inj _).mp same
    exact pointee_injective additive starts
      (List.inj_on_of_nodup_map distinct (isOpen k) (isOpen k') names)
  · intro schedule last ran
    obtain ⟨owns, -, goesOn⟩ := runs schedule last ran
    refine ⟨?_, goesOn⟩
    intro k own finished
    rw [owns k own finished]
    exact ⟨rfl, (laid _ (List.getElem_mem (pointee report journals k).isLt)
      (List.mem_filter.mp (isOpen k)).2).reports⟩

/-! ## A journal of two fields -/

theorem Written.laid {image : JournalImage} {journal : JournalOnDisk}
    (written : Written image journal) : Laid journal (image.placed.map shown) where
  large := written.file ▸ image.large
  packed := by
    rw [written.file, image.header_eq]
    exact image.wellFormed.packed
  typed := by
    intro object member
    obtain ⟨placed, -, rfl⟩ := List.mem_map.mp member
    rw [shown, placed.2.typed]
    cases placed.2.object.type <;> decide

theorem layouts_show_the_journals_twoMessages :
    ∃ journal, ∃ cached : CacheInvariant twoMessages.file journal, 0 ≤ journal.fd ∧
      CommandEnds (layoutReport (fun _ => 0) .big) [onDisk twoMessages cached]
        (fun _ => fileKernel twoMessages.file) (.ok ()) := by
  obtain ⟨journal, ready, -⟩ := freshJournal_spec "system.journal" 3 0
  have cached : CacheInvariant twoMessages.file journal := .fresh ready
  have isOpen : (onDisk twoMessages cached).isOpen = true :=
    decide_eq_true (freshJournal_fd ready ▸ by decide)
  have distinct : ((opened [onDisk twoMessages cached]).map fun i =>
      ([onDisk twoMessages cached].get i).journal.name).Nodup := by
    rw [opened_singleton isOpen]
    exact List.nodup_singleton _
  have laid (journal' : JournalOnDisk) (member : journal' ∈ [onDisk twoMessages cached])
      (_ : journal'.isOpen = true) : Laid journal' (twoMessages.placed.map shown) :=
    Written.laid (List.mem_singleton.mp member ▸ onDisk_written twoMessages cached)
  have created (journal' : JournalOnDisk) (_ : journal' ∈ [onDisk twoMessages cached])
      (_ : journal'.isOpen = true) : (0 : Int) ≤ 0 := le_rfl
  obtain ⟨results, -⟩ := @layouts_show_the_journals _ distinct _
    (onDisk_answers twoMessages cached) _ laid (fun _ => 0) created .big
  exact ⟨journal, cached, of_decide_eq_true isOpen, (results _).mpr rfl⟩

end Jio.LayoutReport
