import Mathlib.Tactic.IntervalCases
import Mathlib.Algebra.Order.BigOperators.Group.List
import Jio.ReportTailWaste

/-! The percentages at the end of `report tail-waste`. They are quotients by a
hundredth of the whole, which is rounded down first, so a share is never less than
the true percentage and can be far more than it. What they are percentages of counts
the padding behind a tail object as well, which may lie behind the end of the file. -/
namespace Jio

/-! ## What is printed -/

/-- `journal_state_str`. -/
def journalStateStr (state : Nat) : String :=
  match state with
  | 0 => "Offline"
  | 1 => "Online"
  | 2 => "Archived"
  | _ => "UNKNOWN"

/-- A division, unless it is one by zero. -/
def quotient (a b : UInt64) : Option UInt64 := if b = 0 then none else some (a / b)

/-- The share of the part, as both `printf` calls compute it. -/
def shareOf (part whole : UInt64) : Option UInt64 :=
  if whole ≥ 100 then quotient part (whole / 100) else some 0

/-- What is printed for one state. -/
structure StateLine where
  state : String
  count : UInt32
  bytes : UInt64
  share : UInt64
  deriving DecidableEq

/-- What is printed for all journals. -/
structure AggregateLine where
  total : UInt64
  share : UInt64
  totalFileSize : UInt64
  nJournals : UInt32
  deriving DecidableEq

/-- The body of the loop over the states. -/
def stateLine (tailWaste : TailWasteReport) (i : Fin STATE_MAX) : Option StateLine := do
  let share ← shareOf tailWaste.perStateBytes[i] tailWaste.total
  return ⟨journalStateStr i, tailWaste.perStateCounts[i], tailWaste.perStateBytes[i], share⟩

/-- `jio_report_tail_waste`, once `iou_run` is done. -/
def printTotals (tailWaste : TailWasteReport) : Option (List StateLine × AggregateLine) := do
  let states ← (List.finRange STATE_MAX).mapM (stateLine tailWaste)
  let share ← shareOf tailWaste.total tailWaste.totalFileSize
  return (states, ⟨tailWaste.total, share, tailWaste.totalFileSize, tailWaste.nJournals⟩)

/-! ## Quotients by a rounded hundredth -/

section Quotients

variable {m part whole : Nat}

/-- Rounding the divisor down only makes the quotient larger. -/
theorem scaled_div_le (large : m ≤ whole) (positive : 0 < m) :
    m * part / whole ≤ part / (whole / m) := by
  have hundredth : 0 < whole / m := Nat.div_pos large positive
  rw [Nat.le_div_iff_mul_le hundredth]
  have exact : m * part / whole * whole ≤ m * part := Nat.div_mul_le_self ..
  have rounded : m * (whole / m) ≤ whole := Nat.mul_div_le ..
  have scaled : m * (m * part / whole * (whole / m)) ≤ m * part := by
    calc m * (m * part / whole * (whole / m)) = m * part / whole * (m * (whole / m)) := by ring
      _ ≤ m * part / whole * whole := Nat.mul_le_mul_left _ rounded
      _ ≤ m * part := exact
  exact Nat.le_of_mul_le_mul_left scaled positive

/-- The quotient is right exactly when the part is in none of the gaps between a
multiple of the rounded divisor and the same multiple of the exact one. -/
theorem div_rounded_iff (large : m ≤ whole) (positive : 0 < m) :
    part / (whole / m) = m * part / whole ↔
      ∀ k, k * (whole / m) ≤ part → k * whole ≤ m * part := by
  have hundredth : 0 < whole / m := Nat.div_pos large positive
  have some : 0 < whole := by omega
  constructor
  · intro same k fits
    rw [← Nat.le_div_iff_mul_le some, ← same]
    exact (Nat.le_div_iff_mul_le hundredth).mpr fits
  · intro gapless
    apply le_antisymm _ (scaled_div_le large positive)
    rw [Nat.le_div_iff_mul_le some]
    exact gapless _ (Nat.div_mul_le_self ..)

/-- The percentages of parts of a whole are no more than 100 together. -/
theorem sum_percentages_le {parts : List Nat} (within : parts.sum ≤ whole) :
    (parts.map fun part => 100 * part / whole).sum ≤ 100 := by
  have together : (parts.map fun part => 100 * part / whole).sum ≤ 100 * parts.sum / whole := by
    clear within
    induction parts with
    | nil => simp
    | cons part parts ih =>
      rw [List.map_cons, List.sum_cons, List.sum_cons, Nat.mul_add]
      exact (Nat.add_le_add_left ih _).trans Nat.div_add_div_le_add_div
  apply together.trans
  exact Nat.div_le_of_le_mul (by rw [Nat.mul_comm whole]; exact Nat.mul_le_mul_left _ within)

end Quotients

/-- The part of a whole is no smaller part of it when the hundredth is rounded down:
there is no `k` for which it reaches `k` rounded hundredths but not `k` hundredths. Of less
than 100 bytes, only nothing is. -/
def RoundsDown (part whole : Nat) : Prop :=
  if whole < 100 then part = 0 else ∀ k, k * (whole / 100) ≤ part → k * whole ≤ 100 * part

theorem shareOf_eq (part whole : UInt64) : ∃ share, shareOf part whole = some share ∧
    share.toNat = if whole.toNat < 100 then 0 else part.toNat / (whole.toNat / 100) := by
  unfold shareOf
  by_cases small : whole.toNat < 100
  · refine ⟨0, if_neg ?_, by rw [if_pos small]; rfl⟩
    rw [ge_iff_le, UInt64.le_iff_toNat_le]
    exact Nat.not_le.mpr small
  · have large : whole ≥ 100 := by
      rw [ge_iff_le, UInt64.le_iff_toNat_le]
      exact Nat.le_of_not_lt small
    have positive : whole / 100 ≠ 0 := by
      intro zero
      have quotient := congrArg UInt64.toNat zero
      rw [UInt64.toNat_div] at quotient
      change whole.toNat / 100 = 0 at quotient
      omega
    refine ⟨part / (whole / 100), ?_, ?_⟩
    · rw [if_pos large, quotient, if_neg positive]
    · rw [if_neg small, UInt64.toNat_div, UInt64.toNat_div]
      rfl

/-- The share that is printed of a part. -/
def printedShare (part whole : Nat) : Nat := if whole < 100 then 0 else part / (whole / 100)

/-- When a printed share is the percentage, and there is one. -/
theorem share_exact_iff {part whole : Nat} :
    printedShare part whole = 100 * part / whole ∧ (whole = 0 → part = 0) ↔
      RoundsDown part whole := by
  unfold printedShare RoundsDown
  split
  · rename_i small
    rw [eq_comm, Nat.div_eq_zero_iff]
    omega
  · rename_i large
    have some : whole = 0 → part = 0 := by omega
    rw [and_iff_left some]
    exact div_rounded_iff (Nat.le_of_not_lt large) (by decide)

/-! ## The waste of a list of journals -/

/-- The bytes behind the tail, as 64 bits count them. -/
def TailJournal.waste (journal : TailJournal) : UInt64 := journal.stSize - journal.tail

/-- Their number for these journals. -/
def wasteSum (journals : List TailJournal) : Nat :=
  (journals.map (·.waste.toNat)).sum

/-- The waste of the journals in one state, where a sum is one of 64 bits. -/
def wasteIn (state : Nat) (journals : List TailJournal) : Nat :=
  wasteSum (journals.filter (·.header.state.toNat = state)) % 2 ^ 64

/-- The waste of all journals. -/
def totalWaste (journals : List TailJournal) : Nat := wasteSum journals % 2 ^ 64

/-- The size of all journals. -/
def totalFileSize (journals : List TailJournal) : Nat :=
  (journals.map (·.stSize.toNat)).sum

/-- No journal ends before its tail object does. -/
def HoldTheirTails (journals : List TailJournal) : Prop :=
  ∀ journal ∈ journals, journal.header.tailObjectOffset.toNat +
    journal.tailObjectHeader.size.toNat ≤ journal.stSize.toNat

/-- No journal ends before the padding of its tail object does. -/
def HoldPaddedTails (journals : List TailJournal) : Prop :=
  ∀ journal ∈ journals, tailEnd journal.header journal.tailObjectHeader ≤ journal.stSize.toNat

/-- The waste of the states is that of all journals, which is less than 101% of their bytes. -/
structure WasteAddsUp (journals : List TailJournal) : Prop where
  states : wasteIn 0 journals + wasteIn 1 journals + wasteIn 2 journals = totalWaste journals
  whole : totalFileSize journals = 0 ∨ 100 * totalWaste journals < 101 * totalFileSize journals

section Sums

variable {journals : List TailJournal}

/-- Where the padding is in the file, the waste is what is behind it. -/
theorem TailJournal.waste_le {journal : TailJournal}
    (holds : tailEnd journal.header journal.tailObjectHeader ≤ journal.stSize.toNat) :
    journal.waste.toNat ≤ journal.stSize.toNat := by
  have bound : journal.stSize.toNat < 2 ^ 64 := journal.stSize.toNat_lt
  have tail : journal.tail.toNat = tailEnd journal.header journal.tailObjectHeader := by
    unfold TailJournal.tail tailEnd at *
    rw [add_align64_toNat]
    exact Nat.mod_eq_of_lt (by omega)
  unfold waste
  rw [UInt64.toNat_sub_of_le _ _ (UInt64.le_iff_toNat_le.mpr (by rw [tail]; exact holds))]
  exact Nat.sub_le ..

/-- The sums of the report, before 64 bits run out. -/
structure Sums (journals : List TailJournal) (before after : TailWasteReport) : Prop where
  bytes : ∀ s (below : s < STATE_MAX), after.perStateBytes[s] = before.perStateBytes[s] +
    UInt64.ofNat (wasteSum (journals.filter (·.header.state.toNat = s)))
  total : after.total = before.total + UInt64.ofNat (wasteSum journals)
  totalFileSize : after.totalFileSize =
    before.totalFileSize + UInt64.ofNat (totalFileSize journals)

theorem reportFrom_sums (journals : List TailJournal) (report : TailWasteReport) :
    ∃ report', journals.foldlM (fun tailWaste journal => journal.report tailWaste) report =
      .ok report' ∧ Sums journals report report' := by
  have none : Sums [] report report := by
    refine ⟨fun s below => ?_, ?_, ?_⟩
    · simp [wasteSum]
    · simp [wasteSum]
    · simp [Jio.totalFileSize]
  refine FaultingRuns.run_exists (fun _ => True) (fun report' done => Sums done report report') ?_
    (fun _ _ => trivial) none
  intro middle done journal _ sums
  obtain ⟨last, ran, adds⟩ := journal.report_adds middle
  rw [← TailJournal.waste] at adds
  refine ⟨last, ran, fun s below => ?_, ?_, ?_⟩
  · rw [adds.bytes s below, sums.bytes s below, UInt64.add_assoc]
    by_cases same : journal.header.state.toNat = s <;> simp [wasteSum, same, UInt64.ofNat_add]
  · rw [adds.total, sums.total, UInt64.add_assoc]
    simp [wasteSum, UInt64.ofNat_add]
  · rw [adds.totalFileSize, sums.totalFileSize, UInt64.add_assoc]
    simp [Jio.totalFileSize, UInt64.ofNat_add]

/-- The states partition the waste. -/
theorem wasteSum_states (journals : List TailJournal) :
    wasteSum (journals.filter (·.header.state.toNat = 0)) +
      wasteSum (journals.filter (·.header.state.toNat = 1)) +
      wasteSum (journals.filter (·.header.state.toNat = 2)) = wasteSum journals := by
  unfold wasteSum
  induction journals with
  | nil => rfl
  | cons journal journals ih =>
    simp only [List.map_cons, List.sum_cons, List.filter_cons, ← ih]
    rcases journal.state with is | is | is <;>
      simp [is, STATE_OFFLINE, STATE_ONLINE, STATE_ARCHIVED] <;> omega

theorem HoldPaddedTails.wasteSum_le (hold : HoldPaddedTails journals) :
    wasteSum journals ≤ totalFileSize journals := by
  unfold wasteSum totalFileSize
  apply List.sum_le_sum
  intro journal member
  exact TailJournal.waste_le (hold journal member)

/-- Where all padding is in the files, no sum runs out of bits. -/
theorem HoldPaddedTails.addsUp (hold : HoldPaddedTails journals)
    (fits : totalFileSize journals < 2 ^ 64) : WasteAddsUp journals := by
  have all := hold.wasteSum_le
  have states := wasteSum_states journals
  constructor
  · unfold wasteIn totalWaste
    omega
  · unfold totalWaste
    omega

end Sums

/-! ## Percentages -/

/-- Every printed share is the percentage rounded down, and one of nothing is of nothing. -/
structure Percentages (journals : List TailJournal) (states : List StateLine)
    (aggregate : AggregateLine) : Prop where
  shares : states.map (·.share.toNat) =
    (List.range STATE_MAX).map fun s => 100 * wasteIn s journals / totalWaste journals
  parts : totalWaste journals = 0 → ∀ s < STATE_MAX, wasteIn s journals = 0
  each : ∀ line ∈ states, line.share.toNat ≤ 100
  together : (states.map (·.share.toNat)).sum ≤ 100
  whole : aggregate.share.toNat = 100 * totalWaste journals / totalFileSize journals
  files : totalFileSize journals = 0 → totalWaste journals = 0
  small : aggregate.share.toNat ≤ 100

/-- The report on these journals divides by zero nowhere and prints percentages. -/
def PrintsPercentages (journals : List TailJournal) : Prop :=
  ∃ report states aggregate, reportAll journals = .ok report ∧
    printTotals report = some (states, aggregate) ∧ Percentages journals states aggregate

section Percentages

variable {journals : List TailJournal}

/-- What is printed, whatever the shares are. -/
theorem printed (fits : totalFileSize journals < 2 ^ 64) :
    ∃ report states aggregate, reportAll journals = .ok report ∧
      printTotals report = some (states, aggregate) ∧
      (states.map (·.share.toNat) = (List.range STATE_MAX).map fun s =>
        printedShare (wasteIn s journals) (totalWaste journals)) ∧
      aggregate.share.toNat = printedShare (totalWaste journals) (totalFileSize journals) := by
  obtain ⟨report, ran, bytes, total, size⟩ := reportFrom_sums journals zeroTailWasteReport
  have totalNat : report.total.toNat = totalWaste journals := by
    rw [total, show zeroTailWasteReport.total = 0 from rfl, UInt64.zero_add, UInt64.toNat_ofNat']
    rfl
  have sizeNat : report.totalFileSize.toNat = totalFileSize journals := by
    rw [size, show zeroTailWasteReport.totalFileSize = 0 from rfl, UInt64.zero_add,
      UInt64.toNat_ofNat_of_lt' fits]
  have bytesNat (i : Fin STATE_MAX) :
      report.perStateBytes[i].toNat = wasteIn i journals := by
    have sum := bytes i i.isLt
    rw [show zeroTailWasteReport.perStateBytes[(i : Nat)] = 0 by simp [zeroTailWasteReport],
      UInt64.zero_add] at sum
    rw [Fin.getElem_fin, sum, UInt64.toNat_ofNat']
    rfl
  choose share shared value using fun i : Fin STATE_MAX =>
    shareOf_eq report.perStateBytes[i] report.total
  obtain ⟨aggregate, aggregated, aggregateValue⟩ := shareOf_eq report.total report.totalFileSize
  have lines : (List.finRange STATE_MAX).mapM (stateLine report) = some ((List.finRange STATE_MAX).map
      fun i => ⟨journalStateStr i, report.perStateCounts[i], report.perStateBytes[i], share i⟩) := by
    have each : stateLine report = fun i => some
        ⟨journalStateStr i, report.perStateCounts[i], report.perStateBytes[i], share i⟩ := by
      funext i
      unfold stateLine
      rw [shared i]
      rfl
    rw [each]
    exact List.mapM_pure
  refine ⟨report, _, _, ran, by unfold printTotals; rw [lines, aggregated]; rfl, ?_, ?_⟩
  · rw [List.map_map, ← List.map_coe_finRange_eq_range, List.map_map]
    apply List.map_congr_left
    intro i _
    rw [Function.comp_apply, Function.comp_apply, value i, totalNat, bytesNat i]
    rfl
  · rw [aggregateValue, totalNat, sizeNat]
    rfl

/-- Percentages of no more than 100 together are those of parts that make up the whole, since
sums of 64 bits are wrong by a multiple of what 64 bits can count. -/
theorem wasteIn_sum (together : ((List.range STATE_MAX).map fun s =>
      100 * wasteIn s journals / totalWaste journals).sum ≤ 100)
    (parts : totalWaste journals = 0 → ∀ s < STATE_MAX, wasteIn s journals = 0) :
    wasteIn 0 journals + wasteIn 1 journals + wasteIn 2 journals = totalWaste journals := by
  have states := wasteSum_states journals
  have wrapped : (wasteIn 0 journals + wasteIn 1 journals + wasteIn 2 journals) % 2 ^ 64 =
      totalWaste journals := by
    unfold wasteIn totalWaste
    omega
  have bound : totalWaste journals < 2 ^ 64 := Nat.mod_lt _ (by decide)
  by_cases zero : totalWaste journals = 0
  · rw [parts zero 0 (by decide), parts zero 1 (by decide), parts zero 2 (by decide), zero]
  · have positive : 0 < totalWaste journals := Nat.pos_of_ne_zero zero
    have below (s : Nat) := Nat.lt_mul_div_succ (100 * wasteIn s journals) positive
    simp only [STATE_MAX, List.range_succ, List.range_zero, List.nil_append, List.cons_append,
      List.map_cons, List.map_nil, List.sum_cons, List.sum_nil] at together
    have scaled := Nat.mul_le_mul_left (totalWaste journals) together
    have offline := below 0
    have online := below 1
    have archived := below 2
    simp only [Nat.mul_add, Nat.mul_one, Nat.add_zero] at *
    omega

/-- The report prints percentages exactly when the waste adds up, as it does where all padding
is in the files, and rounding the hundredth down is harmless: for the waste of each state in
the whole waste, and for the whole waste in all bytes. -/
theorem prints_percentages_iff (fits : totalFileSize journals < 2 ^ 64) :
    PrintsPercentages journals ↔ (HoldPaddedTails journals ∨ WasteAddsUp journals) ∧
      (∀ s < STATE_MAX, RoundsDown (wasteIn s journals) (totalWaste journals)) ∧
        RoundsDown (totalWaste journals) (totalFileSize journals) := by
  obtain ⟨report, states, aggregate, ran, shown, shares, share⟩ := printed fits
  constructor
  · rintro ⟨report', states', aggregate', ran', shown', percentages⟩
    obtain rfl := Except.ok.inj (ran.symm.trans ran')
    obtain ⟨rfl, rfl⟩ := Prod.mk.inj (Option.some.inj (shown.symm.trans shown'))
    refine ⟨.inr ⟨?_, ?_⟩, fun s below => ?_, ?_⟩
    · exact wasteIn_sum (percentages.shares ▸ percentages.together) percentages.parts
    · have small := percentages.small
      rw [percentages.whole] at small
      rcases Nat.eq_zero_or_pos (totalFileSize journals) with none | some
      · exact .inl none
      · exact .inr ((Nat.div_lt_iff_lt_mul some).mp (Nat.lt_succ_of_le small))
    · have same := shares.symm.trans percentages.shares
      exact share_exact_iff.mp ⟨List.map_inj_left.mp same s (List.mem_range.mpr below),
        fun none => percentages.parts none s below⟩
    · exact share_exact_iff.mp ⟨share.symm.trans percentages.whole, percentages.files⟩
  · rintro ⟨sums, each, all⟩
    have sums : WasteAddsUp journals := sums.elim (·.addsUp fits) id
    have exact : states.map (·.share.toNat) =
        (List.range STATE_MAX).map fun s => 100 * wasteIn s journals / totalWaste journals := by
      rw [shares]
      apply List.map_congr_left
      intro s member
      exact (share_exact_iff.mpr (each s (List.mem_range.mp member))).1
    have aggregated := share.trans (share_exact_iff.mpr all).1
    have together : (states.map (·.share.toNat)).sum ≤ 100 := by
      have percentages := @sum_percentages_le (totalWaste journals)
        ((List.range STATE_MAX).map fun s => wasteIn s journals) (by
          rw [← sums.states]
          simp [STATE_MAX, List.range_succ, Nat.add_assoc])
      rw [List.map_map] at percentages
      rw [exact]
      exact percentages
    refine ⟨report, states, aggregate, ran, shown, exact, ?_, fun line member => ?_, together,
      aggregated, (share_exact_iff.mpr all).2, ?_⟩
    · exact fun none s below => (share_exact_iff.mpr (each s below)).2 none
    · exact (List.single_le_sum (fun _ _ => Nat.zero_le _) _ (List.mem_map_of_mem member)).trans
        together
    · rw [aggregated]
      rcases sums.whole with none | some
      · rw [none, Nat.div_zero]
        exact Nat.zero_le _
      · exact Nat.le_of_lt_succ (Nat.div_lt_of_lt_mul (by omega))

end Percentages

/-- An archived journal of 512 bytes, 192 of them behind its tail object. -/
def oddWaste : TailJournal where
  stSize := 512
  ftruncate := fun _ => 0
  header := { (default : Header) with state := STATE_ARCHIVED, tailObjectOffset := 256 }
  tailObjectHeader := ⟨1, 0, .replicate _ 0, 57⟩
  state := .inr (.inr rfl)

/-- One of 313 bytes, which ends with its tail object. -/
def bareTail : TailJournal := { oddWaste with stSize := 313 }

/-- All of the waste is behind an archived journal, and that is printed as 192%. Without the
padding of its tail object a journal has more waste than bytes. -/
theorem more_than_all_is_printed :
    (HoldTheirTails [oddWaste] ∧ totalFileSize [oddWaste] < 2 ^ 64 ∧
      ¬PrintsPercentages [oddWaste]) ∧
    HoldTheirTails [bareTail] ∧ totalFileSize [bareTail] < 2 ^ 64 ∧
      ¬PrintsPercentages [bareTail] := by
  have bounds (journal : TailJournal) (share : Nat) (large : 100 < share)
      (fits : totalFileSize [journal] < 2 ^ 64)
      (more : share ∈ (List.range STATE_MAX).map (fun s =>
          printedShare (wasteIn s [journal]) (totalWaste [journal])) ∨
        share = printedShare (totalWaste [journal]) (totalFileSize [journal])) :
      ¬PrintsPercentages [journal] := by
    rintro ⟨report, states, aggregate, ran, shown, percentages⟩
    obtain ⟨report', states', aggregate', ran', shown', shares, whole⟩ := printed fits
    obtain rfl := Except.ok.inj (ran.symm.trans ran')
    obtain ⟨rfl, rfl⟩ := Prod.mk.inj (Option.some.inj (shown.symm.trans shown'))
    rw [← shares, ← whole] at more
    rcases more with listed | rfl
    · obtain ⟨line, member, rfl⟩ := List.mem_map.mp listed
      exact absurd (percentages.each line member) (Nat.not_le.mpr large)
    · exact absurd percentages.small (Nat.not_le.mpr large)
  refine ⟨⟨by simp [HoldTheirTails]; decide, by decide, ?_⟩,
    by simp [HoldTheirTails]; decide, by decide, ?_⟩
  · exact bounds oddWaste 192 (by decide) (by decide) (.inl (by decide))
  · exact bounds bareTail 6148914691236517203 (by decide) (by decide) (.inr (by decide))

theorem prints_percentages_iff_oddWaste :
    let journals := [oddWaste, { oddWaste with stSize := 520 }]
    PrintsPercentages journals ↔ (HoldPaddedTails journals ∨ WasteAddsUp journals) ∧
      (∀ s < STATE_MAX, RoundsDown (wasteIn s journals) 392) ∧ RoundsDown 392 1032 :=
  @prints_percentages_iff [oddWaste, { oddWaste with stSize := 520 }] (by decide)

end Jio
