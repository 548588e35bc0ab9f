import Jio.Library.FaultingRuns
import Jio.UsageReport
import Jio.TailWasteShares
import Jio.LayoutReport

/-! Indexes that come from the disk. What is looked up to be printed is checked against the
length of its table; the tallies next to it and the characters of the layout are not. -/
namespace Jio
open FaultingRuns
open scoped UInt64.CommRing UInt32.CommRing

/-! ## Names -/

/-- `journal_object_type_str`. -/
def journalObjectTypeStr (type : Nat) : String :=
  match type with
  | 0 => "UNUSED"
  | 1 => "Data"
  | 2 => "Field"
  | 3 => "Entry"
  | 4 => "DataHashTable"
  | 5 => "FieldHashTable"
  | 6 => "EntryArray"
  | 7 => "Tag"
  | _ => "UNKNOWN"

theorem journalObjectTypeStr_unknown_iff (type : Nat) :
    journalObjectTypeStr type = "UNKNOWN" ↔ OBJECT_TYPE_MAX ≤ type := by
  unfold journalObjectTypeStr OBJECT_TYPE_MAX
  split <;> simp_all
  omega

theorem journalStateStr_unknown_iff (state : Nat) :
    journalStateStr state = "UNKNOWN" ↔ STATE_MAX ≤ state := by
  unfold journalStateStr STATE_MAX
  split <;> simp_all
  omega

/-! ## Dispatches -/

/-- A dispatch of `per_data_object`, and the journal it is for. -/
structure ObjectDispatch (κ : Type) where
  journal : κ
  offset : UInt64
  object : ObjectHeader

/-- A dispatch of `print_tail_waste`. -/
structure JournalDispatch where
  sys : Syscalls
  header : Header
  tailObjectHeader : ObjectHeader

variable {κ : Type} [DecidableEq κ]

/-- A journal's own usage, and that of all journals. -/
def dispatchUsage (usages : (κ → Usage) × Usage) (dispatch : ObjectDispatch κ) :
    Except Fault ((κ → Usage) × Usage) := do
  let (_, usage, total) ← perDataObject dispatch.offset dispatch.object
    (usages.1 dispatch.journal, usages.2)
  return (Function.update usages.1 dispatch.journal usage, total)

def dispatchTailWaste (tailWaste : TailWasteReport) (dispatch : JournalDispatch) :
    Except Fault TailWasteReport :=
  (printTailWaste dispatch.sys dispatch.header dispatch.tailObjectHeader tailWaste).map Prod.snd

def dispatchLayout (out : LayoutReport.Out) (object : UInt64 × ObjectHeader) :
    Except Fault LayoutReport.Out :=
  (LayoutReport.perDataObject object.1 object.2 out).map Prod.snd

/-! ## Sums -/

/-- The slots add up to the total, and to this many dispatches. -/
structure Usage.Balanced (usage : Usage) (n : Nat) : Prop where
  use : ∑ type : Fin OBJECT_TYPE_MAX, usage.usePerType.get type = usage.useTotal
  count : ∑ type : Fin OBJECT_TYPE_MAX, usage.countPerType.get type = UInt64.ofNat n

/-- So do those of every journal, and those of all journals. -/
structure UsagesBalanced (usages : (κ → Usage) × Usage) (done : List (ObjectDispatch κ)) :
    Prop where
  own : ∀ journal, (usages.1 journal).Balanced (done.countP (·.journal = journal))
  total : usages.2.Balanced done.length

structure TailWasteReport.Balanced (tailWaste : TailWasteReport) : Prop where
  bytes : ∑ state : Fin STATE_MAX, tailWaste.perStateBytes.get state = tailWaste.total
  counts : ∑ state : Fin STATE_MAX, tailWaste.perStateCounts.get state = tailWaste.nJournals

/-- After every dispatch, no index has been outside its table, and the sums are right. -/
structure TalliesApart (objects : List (ObjectDispatch κ)) (journals : List JournalDispatch)
    (out : LayoutReport.Out) (layout : List (UInt64 × ObjectHeader)) : Prop where
  usage : Throughout dispatchUsage UsagesBalanced (fun _ => zeroUsage, zeroUsage) objects
  tailWaste : Throughout dispatchTailWaste (fun tailWaste _ => tailWaste.Balanced)
    zeroTailWasteReport journals
  layout : Throughout dispatchLayout (fun _ _ => True) out layout

/-- What is added to one slot is added to the sum. -/
theorem sum_add_slot {M : Type} [AddCommMonoid M] {n slot : Nat} {v v' : Vector M n} {amount : M}
    (below : slot < n)
    (adds : ∀ i (below : i < n), v'[i] = v[i] + if slot = i then amount else 0) :
    ∑ i : Fin n, v'.get i = ∑ i : Fin n, v.get i + amount := by
  have one : ∑ i : Fin n, (if slot = i then amount else 0) = amount := by
    rw [Finset.sum_eq_single ⟨slot, below⟩]
    · exact if_pos rfl
    · exact fun i _ other => if_neg fun here => other (Fin.ext here.symm)
    · exact fun outside => absurd (Finset.mem_univ _) outside
  calc ∑ i : Fin n, v'.get i = ∑ i : Fin n, (v.get i + if slot = i then amount else 0) :=
        Finset.sum_congr rfl fun i _ => adds i i.isLt
    _ = ∑ i : Fin n, v.get i + amount := by rw [Finset.sum_add_distrib, one]

theorem sum_replicate_zero {M : Type} [AddCommMonoid M] (n : Nat) :
    ∑ i : Fin n, (Vector.replicate n (0 : M)).get i = 0 :=
  Finset.sum_eq_zero fun i _ => Vector.getElem_replicate i.isLt

theorem Usage.tally_ok_iff (usage : Usage) (object : ObjectHeader) :
    (∃ usage', usage.tally object = .ok usage') ↔ object.type.toNat < OBJECT_TYPE_MAX := by
  constructor
  · rintro ⟨usage', ran⟩
    by_contra unknown
    rw [tally, dif_neg unknown] at ran
    cases ran
  · exact usage.tally_known

theorem Usage.Balanced.tally {usage usage' : Usage} {object : ObjectHeader} {n : Nat}
    (balanced : usage.Balanced n) (ran : usage.tally object = .ok usage') :
    usage'.Balanced (n + 1) := by
  have known := (usage.tally_ok_iff object).mp ⟨usage', ran⟩
  obtain ⟨count, use, total⟩ := Usage.tally_adds ran
  refine ⟨?_, ?_⟩
  · rw [sum_add_slot known use, balanced.use, total]
  · rw [sum_add_slot known count, balanced.count, UInt64.ofNat_add]
    rfl

theorem zeroUsage_balanced : zeroUsage.Balanced 0 where
  use := sum_replicate_zero _
  count := sum_replicate_zero _

/-! ## Runs -/

theorem dispatchUsage_ok_iff (usages : (κ → Usage) × Usage) (dispatch : ObjectDispatch κ) :
    (∃ usages', dispatchUsage usages dispatch = .ok usages') ↔
      dispatch.object.type.toNat < OBJECT_TYPE_MAX := by
  constructor
  · rintro ⟨usages', ran⟩
    unfold dispatchUsage perDataObject at ran
    obtain ⟨_, ran, -⟩ := bind_eq_ok.mp ran
    obtain ⟨usage, ran, -⟩ := bind_eq_ok.mp ran
    exact (Usage.tally_ok_iff _ _).mp ⟨usage, ran⟩
  · intro known
    obtain ⟨usage, own⟩ := (usages.1 dispatch.journal).tally_known known
    obtain ⟨total, all⟩ := usages.2.tally_known known
    unfold dispatchUsage perDataObject
    simp only [own, all, bind_ok]
    exact ⟨_, rfl⟩

/-- A dispatch is counted in its journal and in the total, and nowhere else. -/
theorem UsagesBalanced.dispatch {usages usages' : (κ → Usage) × Usage}
    {done : List (ObjectDispatch κ)} {dispatch : ObjectDispatch κ}
    (ran : dispatchUsage usages dispatch = .ok usages') (balanced : UsagesBalanced usages done) :
    UsagesBalanced usages' (done ++ [dispatch]) := by
  unfold dispatchUsage perDataObject at ran
  obtain ⟨_, ran, stored⟩ := bind_eq_ok.mp ran
  obtain ⟨usage, own, ran⟩ := bind_eq_ok.mp ran
  obtain ⟨total, all, kept⟩ := bind_eq_ok.mp ran
  cases kept
  cases stored
  constructor
  · intro journal
    dsimp only
    rw [List.countP_append, List.countP_singleton]
    by_cases here : dispatch.journal = journal
    · subst here
      simpa using (balanced.own dispatch.journal).tally own
    · simpa [here, Ne.symm here] using balanced.own journal
  · rw [List.length_append]
    exact balanced.total.tally all

theorem dispatchTailWaste_cases (tailWaste : TailWasteReport) (dispatch : JournalDispatch) :
    (dispatch.sys.fstat < 0 ∧ dispatchTailWaste tailWaste dispatch = .ok tailWaste) ∨
    (0 ≤ dispatch.sys.fstat ∧ dispatch.header.state.toNat < STATE_MAX ∧ ∃ waste tailWaste',
      dispatchTailWaste tailWaste dispatch = .ok tailWaste' ∧
      Adds dispatch.header.state.toNat waste dispatch.sys.stSize tailWaste tailWaste') ∨
    (0 ≤ dispatch.sys.fstat ∧ ¬dispatch.header.state.toNat < STATE_MAX ∧
      dispatchTailWaste tailWaste dispatch = .error .outOfBounds) := by
  unfold dispatchTailWaste
  by_cases failed : dispatch.sys.fstat < 0
  · refine .inl ⟨failed, ?_⟩
    unfold printTailWaste
    rw [if_pos failed]
    rfl
  · have found : 0 ≤ dispatch.sys.fstat := not_lt.mp failed
    by_cases known : dispatch.header.state.toNat < STATE_MAX
    · obtain ⟨tailWaste', ran, adds⟩ :=
        printTailWaste_adds failed known dispatch.tailObjectHeader tailWaste
      refine .inr (.inl ⟨found, known, _, tailWaste', ?_, adds⟩)
      rw [ran]
      rfl
    · refine .inr (.inr ⟨found, known, ?_⟩)
      unfold printTailWaste
      dsimp only
      rw [if_neg failed, dif_neg known]
      rfl

theorem dispatchTailWaste_ok_iff (tailWaste : TailWasteReport) (dispatch : JournalDispatch) :
    (∃ tailWaste', dispatchTailWaste tailWaste dispatch = .ok tailWaste') ↔
      (0 ≤ dispatch.sys.fstat → dispatch.header.state.toNat < STATE_MAX) := by
  rcases dispatchTailWaste_cases tailWaste dispatch with
    ⟨failed, ran⟩ | ⟨-, known, _, tailWaste', ran, -⟩ | ⟨found, unknown, ran⟩
  · exact iff_of_true ⟨tailWaste, ran⟩ fun found => absurd failed (not_lt.mpr found)
  · exact iff_of_true ⟨tailWaste', ran⟩ fun _ => known
  · refine iff_of_false ?_ fun known => unknown (known found)
    rintro ⟨tailWaste', ok⟩
    cases ran.symm.trans ok

theorem TailWasteReport.Balanced.dispatch {tailWaste tailWaste' : TailWasteReport}
    {dispatch : JournalDispatch} (ran : dispatchTailWaste tailWaste dispatch = .ok tailWaste')
    (balanced : tailWaste.Balanced) : tailWaste'.Balanced := by
  rcases dispatchTailWaste_cases tailWaste dispatch with
    ⟨-, kept⟩ | ⟨-, known, _, _, added, adds⟩ | ⟨-, -, fault⟩
  · obtain rfl := Except.ok.inj (kept.symm.trans ran)
    exact balanced
  · obtain rfl := Except.ok.inj (added.symm.trans ran)
    constructor
    · rw [sum_add_slot known adds.bytes, balanced.bytes, adds.total]
    · rw [sum_add_slot known adds.counts, balanced.counts, adds.nJournals]
  · cases fault.symm.trans ran

theorem zeroTailWasteReport_balanced : zeroTailWasteReport.Balanced where
  bytes := sum_replicate_zero _
  counts := sum_replicate_zero _

theorem dispatchLayout_ok_iff (out : LayoutReport.Out) (object : UInt64 × ObjectHeader) :
    (∃ out', dispatchLayout out object = .ok out') ↔
      (object.1 ≠ 0 → object.2.type.toNat < OBJECT_TYPE_MAX) := by
  unfold dispatchLayout LayoutReport.perDataObject
  by_cases ended : object.1 = 0
  · rw [if_pos ended]
    exact iff_of_true ⟨_, rfl⟩ fun going => absurd ended going
  · rw [if_neg ended]
    by_cases known : object.2.type.toNat < OBJECT_TYPE_MAX
    · rw [dif_pos known]
      exact iff_of_true ⟨_, rfl⟩ fun _ => known
    · rw [dif_neg known]
      refine iff_of_false ?_ fun all => known (all ended)
      rintro ⟨out', ok⟩
      cases ok

/-- The tallies are right after every dispatch exactly if every type and every state that is
used as an index is one there is. -/
theorem tallies_are_apart_iff (objects : List (ObjectDispatch κ))
    (journals : List JournalDispatch) (out : LayoutReport.Out)
    (layout : List (UInt64 × ObjectHeader)) : TalliesApart objects journals out layout ↔
      (∀ dispatch ∈ objects, dispatch.object.type.toNat < OBJECT_TYPE_MAX) ∧
      (∀ dispatch ∈ journals, 0 ≤ dispatch.sys.fstat →
        dispatch.header.state.toNat < STATE_MAX) ∧
      ∀ object ∈ layout, object.1 ≠ 0 → object.2.type.toNat < OBJECT_TYPE_MAX := by
  have usage := @throughout_iff _ _ _ dispatchUsage _ UsagesBalanced (fun _ => zeroUsage, zeroUsage)
    objects dispatchUsage_ok_iff (fun _ _ _ _ ran balanced => balanced.dispatch ran)
    ⟨fun _ => zeroUsage_balanced, zeroUsage_balanced⟩
  have tailWaste := @throughout_iff _ _ _ dispatchTailWaste _
    (fun tailWaste _ => tailWaste.Balanced) zeroTailWasteReport journals dispatchTailWaste_ok_iff
    (fun _ _ _ _ ran balanced => balanced.dispatch ran) zeroTailWasteReport_balanced
  have typeMap := @throughout_iff _ _ _ dispatchLayout _ (fun _ _ => True) out layout
    dispatchLayout_ok_iff (fun _ _ _ _ _ _ => trivial) trivial
  rw [← usage, ← tailWaste, ← typeMap]
  exact ⟨fun apart => ⟨apart.usage, apart.tailWaste, apart.layout⟩,
    fun ⟨usage, tailWaste, layout⟩ => ⟨usage, tailWaste, layout⟩⟩

/-- An object of a type there is none of, and a journal in a state there is none of. -/
theorem unknown_type_is_an_index :
    let object : ObjectHeader := ⟨8, 0, .replicate _ 0, 64⟩
    let journal : JournalDispatch := ⟨⟨0, 4096, fun _ => 0⟩, { (default : Header) with state := 3 },
      object⟩
    ([(⟨(), 256, object⟩ : ObjectDispatch Unit)].foldlM dispatchUsage
        (fun _ => zeroUsage, zeroUsage) = .error .outOfBounds ∧
      [journal].foldlM dispatchTailWaste zeroTailWasteReport = .error .outOfBounds ∧
      [(256, object)].foldlM dispatchLayout ⟨[], false⟩ = .error .outOfBounds) ∧
      ¬TalliesApart [(⟨(), 256, object⟩ : ObjectDispatch Unit)] [journal] ⟨[], false⟩
        [(256, object)] := by
  intro object journal
  have fault : [(256, object)].foldlM dispatchLayout ⟨[], false⟩ = .error .outOfBounds := rfl
  refine ⟨⟨rfl, rfl, fault⟩, fun apart => ?_⟩
  obtain ⟨out, ok, -⟩ := apart.layout _ List.prefix_rfl
  cases fault.symm.trans ok

end Jio
