import Jio.Library.FaultingRuns
import Jio.ReclaimTailWaste

/-! `report tail-waste` next to `reclaim tail-waste`. Both compute the tail of a
journal with the same arithmetic, one classifies it by the state of the journal,
the other by what it did about it, and the two ledgers agree. -/
namespace Jio

/-! ## The report -/

/-- `tail_waste_t` of `report-tail-waste.c`. -/
structure TailWasteReport where
  perStateCounts : Vector UInt32 STATE_MAX
  perStateBytes : Vector UInt64 STATE_MAX
  total : UInt64
  totalFileSize : UInt64
  nJournals : UInt32
  deriving DecidableEq

/-- `tail_waste_t tail_waste = {}`. -/
def zeroTailWasteReport : TailWasteReport := ⟨.replicate _ 0, .replicate _ 0, 0, 0, 0⟩

/-- `print_tail_waste`: its result and the sums. The state is an index. -/
def printTailWaste (sys : Syscalls) (journalHeader : Header) (tailObjectHeader : ObjectHeader)
    (tailWaste : TailWasteReport) : Except Fault (Int × TailWasteReport) :=
  if sys.fstat < 0 then .ok (sys.fstat, tailWaste)
  else
    let sz := sys.stSize
    let tail := journalHeader.tailObjectOffset + align64 tailObjectHeader.size
    if state : journalHeader.state.toNat < STATE_MAX then
      .ok (0, {
        perStateBytes := tailWaste.perStateBytes.set journalHeader.state.toNat
          (tailWaste.perStateBytes[journalHeader.state.toNat] + (sz - tail))
        total := tailWaste.total + (sz - tail)
        totalFileSize := tailWaste.totalFileSize + sz
        perStateCounts := tailWaste.perStateCounts.set journalHeader.state.toNat
          (tailWaste.perStateCounts[journalHeader.state.toNat] + 1)
        nJournals := tailWaste.nJournals + 1 })
    else .error .outOfBounds

/-- What one dispatch that gets to the sums adds to them. -/
structure Adds (state : Nat) (waste size : UInt64) (before after : TailWasteReport) : Prop where
  bytes : ∀ s (below : s < STATE_MAX), after.perStateBytes[s] =
    before.perStateBytes[s] + if state = s then waste else 0
  total : after.total = before.total + waste
  totalFileSize : after.totalFileSize = before.totalFileSize + size
  counts : ∀ s (below : s < STATE_MAX), after.perStateCounts[s] =
    before.perStateCounts[s] + if state = s then 1 else 0
  nJournals : after.nJournals = before.nJournals + 1

theorem printTailWaste_adds {sys : Syscalls} {journalHeader : Header} (found : ¬sys.fstat < 0)
    (known : journalHeader.state.toNat < STATE_MAX) (tailObjectHeader : ObjectHeader)
    (tailWaste : TailWasteReport) : ∃ tailWaste',
      printTailWaste sys journalHeader tailObjectHeader tailWaste = .ok (0, tailWaste') ∧
      Adds journalHeader.state.toNat
        (sys.stSize - (journalHeader.tailObjectOffset + align64 tailObjectHeader.size))
        sys.stSize tailWaste tailWaste' := by
  unfold printTailWaste
  rw [if_neg found]
  dsimp only
  rw [dif_pos known]
  refine ⟨_, rfl, ?_, rfl, rfl, ?_, rfl⟩
  all_goals
    intro s below
    by_cases same : journalHeader.state.toNat = s
    · subst same
      simp
    · simp [same]

/-! ## Two ledgers over one list of journals -/

/-- A journal as both handlers are dispatched with it: the size `fstat` finds,
what `ftruncate` would answer, and the two headers. -/
structure TailJournal where
  stSize : UInt64
  ftruncate : UInt64 → Int
  header : Header
  tailObjectHeader : ObjectHeader
  state : header.state = STATE_OFFLINE ∨ header.state = STATE_ONLINE ∨
    header.state = STATE_ARCHIVED

/-- The system calls on the journal, where `fstat` succeeds. -/
def TailJournal.sys (journal : TailJournal) : Syscalls := ⟨0, journal.stSize, journal.ftruncate⟩

/-- Where both handlers find the tail. -/
def TailJournal.tail (journal : TailJournal) : UInt64 :=
  journal.header.tailObjectOffset + align64 journal.tailObjectHeader.size

/-- `print_tail_waste` on one journal. -/
def TailJournal.report (journal : TailJournal) (tailWaste : TailWasteReport) :
    Except Fault TailWasteReport :=
  (printTailWaste journal.sys journal.header journal.tailObjectHeader tailWaste).map Prod.snd

/-- `reclaim_tail_waste` on one journal. -/
def TailJournal.reclaim (journal : TailJournal) (tailWaste : TailWaste) : Reclaimed :=
  reclaimTailWaste journal.sys journal.header journal.tailObjectHeader tailWaste

/-- `print_tail_waste` on one journal after the other. -/
def reportAll (journals : List TailJournal) : Except Fault TailWasteReport :=
  journals.foldlM (fun tailWaste journal => journal.report tailWaste) zeroTailWasteReport

/-- `reclaim_tail_waste` on one journal after the other. -/
def reclaimAll (journals : List TailJournal) : TailWaste :=
  journals.foldl (fun tailWaste journal => (journal.reclaim tailWaste).tailWaste) zeroTailWaste

/-- The journal once `ftruncate` has cut it at its tail. -/
def TailJournal.truncated (journal : TailJournal) : TailJournal :=
  { journal with stSize := journal.tail }

/-- What the report calls waste is what was reclaimed, ignored or not reclaimed,
and every journal is in one of four classes. -/
structure Agree (report : TailWasteReport) (reclaim : TailWaste) : Prop where
  total : report.total = reclaim.reclaimedBytes + reclaim.ignoredBytes + reclaim.erroredBytes
  states : report.total =
    report.perStateBytes[0] + report.perStateBytes[1] + report.perStateBytes[2]
  ignored : report.perStateBytes[0] + report.perStateBytes[1] = reclaim.ignoredBytes
  archived : report.perStateBytes[2] = reclaim.reclaimedBytes + reclaim.erroredBytes
  journals : report.nJournals = reclaim.nJournals
  classes : reclaim.nJournals =
    reclaim.nMules + reclaim.nIgnored + reclaim.nErrored + reclaim.nReclaimed

theorem zero_agree : Agree zeroTailWasteReport zeroTailWaste where
  total := rfl
  states := rfl
  ignored := rfl
  archived := rfl
  journals := rfl
  classes := rfl

/-- A journal without waste is a mule. -/
theorem TailJournal.reclaim_mule {journal : TailJournal} (same : journal.stSize = journal.tail)
    (tailWaste : TailWaste) : journal.reclaim tailWaste = ⟨0, { tailWaste with
      nJournals := tailWaste.nJournals + 1
      nMules := tailWaste.nMules + 1 }, none⟩ := by
  unfold reclaim reclaimTailWaste
  simp only [sys, lt_irrefl, ↓reduceIte]
  apply if_pos same

/-- Waste of a journal in use is ignored. -/
theorem TailJournal.reclaim_ignored {journal : TailJournal}
    (waste : journal.stSize ≠ journal.tail) (inUse : journal.header.state ≠ STATE_ARCHIVED)
    (tailWaste : TailWaste) : journal.reclaim tailWaste = ⟨0, { tailWaste with
      nJournals := tailWaste.nJournals + 1
      nIgnored := tailWaste.nIgnored + 1
      ignoredBytes := tailWaste.ignoredBytes + (journal.stSize - journal.tail) }, none⟩ := by
  unfold tail at waste
  unfold reclaim reclaimTailWaste
  simp only [sys, lt_irrefl, ↓reduceIte, if_neg waste, if_pos inUse]
  rfl

/-- Waste of an archived journal is reclaimed, or stays where it cannot be. -/
theorem TailJournal.reclaim_archived {journal : TailJournal}
    (waste : journal.stSize ≠ journal.tail) (archived : journal.header.state = STATE_ARCHIVED)
    (tailWaste : TailWaste) : journal.reclaim tailWaste =
      if journal.ftruncate journal.tail < 0 then ⟨0, { tailWaste with
        nJournals := tailWaste.nJournals + 1
        nErrored := tailWaste.nErrored + 1
        erroredBytes := tailWaste.erroredBytes + (journal.stSize - journal.tail) },
        some journal.tail⟩
      else ⟨0, { tailWaste with
        nJournals := tailWaste.nJournals + 1
        nReclaimed := tailWaste.nReclaimed + 1
        reclaimedBytes := tailWaste.reclaimedBytes + (journal.stSize - journal.tail) },
        some journal.tail⟩ := by
  unfold tail at waste
  unfold reclaim reclaimTailWaste
  simp only [sys, lt_irrefl, ↓reduceIte, if_neg waste, if_neg (not_not.mpr archived)]
  rfl

theorem TailJournal.known (journal : TailJournal) : journal.header.state.toNat < STATE_MAX := by
  rcases journal.state with is | is | is <;> rw [is] <;> decide

/-- What the report adds, and to which state. -/
theorem TailJournal.report_adds (journal : TailJournal) (tailWaste : TailWasteReport) :
    ∃ tailWaste', journal.report tailWaste = .ok tailWaste' ∧
      Adds journal.header.state.toNat (journal.stSize - journal.tail) journal.stSize tailWaste
        tailWaste' := by
  obtain ⟨tailWaste', ran, adds⟩ := printTailWaste_adds
    (show ¬journal.sys.fstat < 0 from lt_irrefl 0) journal.known journal.tailObjectHeader tailWaste
  refine ⟨tailWaste', ?_, adds⟩
  unfold report
  rw [ran]
  rfl

/-- One more journal leaves the ledgers in agreement. -/
theorem Agree.step {report : TailWasteReport} {reclaim : TailWaste} (agree : Agree report reclaim)
    (journal : TailJournal) : ∃ report', journal.report report = .ok report' ∧
      Agree report' (journal.reclaim reclaim).tailWaste := by
  obtain ⟨report', ran, states, total, -, -, journals⟩ := journal.report_adds report
  refine ⟨report', ran, ?_⟩
  have offline := states 0 (by decide)
  have online := states 1 (by decide)
  have archived := states 2 (by decide)
  obtain ⟨totals, sums, inUse, cut, counted, classes⟩ := agree
  by_cases mule : journal.stSize = journal.tail
  · rw [journal.reclaim_mule mule]
    simp only [mule, UInt64.sub_self, ite_self, UInt64.add_zero] at total offline online archived
    constructor <;> grind
  rcases journal.state with is | is | is
  · rw [journal.reclaim_ignored mule (by simp [is, STATE_OFFLINE, STATE_ARCHIVED])]
    simp [is, STATE_OFFLINE] at offline online archived
    constructor <;> grind
  · rw [journal.reclaim_ignored mule (by simp [is, STATE_ONLINE, STATE_ARCHIVED])]
    simp [is, STATE_ONLINE] at offline online archived
    constructor <;> grind
  · rw [journal.reclaim_archived mule is]
    simp [is, STATE_ARCHIVED] at offline online archived
    split <;> constructor <;> grind

/-- From ledgers that agree, any list of journals leads to ledgers that agree. -/
theorem Agree.run {report : TailWasteReport} {reclaim : TailWaste} (agree : Agree report reclaim)
    (journals : List TailJournal) :
    ∃ report', journals.foldlM (fun tailWaste journal => journal.report tailWaste) report =
        .ok report' ∧
      Agree report' (journals.foldl (fun tailWaste journal =>
        (journal.reclaim tailWaste).tailWaste) reclaim) := by
  have ledgers := @FaultingRuns.run_exists _ _ _
    (fun tailWaste (journal : TailJournal) => journal.report tailWaste) (fun _ => True)
    (fun report done => Agree report
      (done.foldl (fun tailWaste journal => (journal.reclaim tailWaste).tailWaste) reclaim))
    report [] journals
  refine ledgers ?_ (fun _ _ => trivial) agree
  intro report done journal _ agree
  rw [List.foldl_concat]
  exact agree.step journal

/-! ## A journal that was reclaimed -/

/-- The handlers find nothing to do about a journal. -/
structure FreeOfWaste (journal : TailJournal) : Prop where
  report : ∀ tailWaste, ∃ tailWaste', journal.report tailWaste = .ok tailWaste' ∧
    tailWaste'.total = tailWaste.total ∧ tailWaste'.perStateBytes = tailWaste.perStateBytes
  reclaim : ∀ tailWaste, (journal.reclaim tailWaste).truncated = none ∧
    (journal.reclaim tailWaste).tailWaste.nMules = tailWaste.nMules + 1 ∧
    (journal.reclaim tailWaste).tailWaste.reclaimedBytes = tailWaste.reclaimedBytes ∧
    (journal.reclaim tailWaste).tailWaste.ignoredBytes = tailWaste.ignoredBytes ∧
    (journal.reclaim tailWaste).tailWaste.erroredBytes = tailWaste.erroredBytes

theorem TailJournal.truncated_freeOfWaste (journal : TailJournal) :
    FreeOfWaste journal.truncated := by
  have mule : journal.truncated.stSize = journal.truncated.tail := rfl
  constructor
  · intro tailWaste
    obtain ⟨tailWaste', ran, states, total, -⟩ := journal.truncated.report_adds tailWaste
    simp only [mule, UInt64.sub_self, ite_self, UInt64.add_zero] at total states
    refine ⟨tailWaste', ran, total, ?_⟩
    apply Vector.ext
    exact states
  · intro tailWaste
    rw [journal.truncated.reclaim_mule mule]
    exact ⟨rfl, rfl, rfl, rfl, rfl⟩

/-- The journal is cut off at its tail, and nowhere else. -/
theorem TailJournal.reclaim_truncates {journal : TailJournal} {tailWaste : TailWaste} {cut : UInt64}
    (reclaimed : (journal.reclaim tailWaste).truncated = some cut) : cut = journal.tail := by
  by_cases mule : journal.stSize = journal.tail
  · rw [journal.reclaim_mule mule] at reclaimed
    cases reclaimed
  by_cases archived : journal.header.state = STATE_ARCHIVED
  · rw [journal.reclaim_archived mule archived] at reclaimed
    split at reclaimed <;> cases reclaimed <;> rfl
  · rw [journal.reclaim_ignored mule archived] at reclaimed
    cases reclaimed

/-- Both handlers account for the same waste, whatever the journals claim and
whichever of them cannot be truncated; and once a journal has been truncated to
the length `ftruncate` was called with, neither finds any waste in it. -/
theorem report_agrees_with_reclaim (journals : List TailJournal) :
    (∃ report, reportAll journals = .ok report ∧ Agree report (reclaimAll journals)) ∧
      ∀ journal ∈ journals, ∀ tailWaste cut, (journal.reclaim tailWaste).truncated = some cut →
        0 ≤ journal.ftruncate cut → FreeOfWaste { journal with stSize := cut } := by
  refine ⟨zero_agree.run journals, ?_⟩
  intro journal _ tailWaste cut reclaimed _
  obtain rfl := journal.reclaim_truncates reclaimed
  exact journal.truncated_freeOfWaste

end Jio
