import Mathlib.Data.UInt
import Mathlib.Algebra.BigOperators.Fin
import Jio.Library.Interleaving
import Jio.ObjectIteration

/-! `report usage`: one iteration for each journal, all of them under way at the
same time, each tallying into a usage of its own and into the total. The handler
is also dispatched at the end of a journal, where it finds the last object still
in the cell. -/
namespace Jio
open ByteOrder ReadProgram Interleaving

/-! ## The report -/

/-- `usage_t`, without the sizes of the files themselves. -/
structure Usage where
  countPerType : Vector UInt64 OBJECT_TYPE_MAX
  usePerType : Vector UInt64 OBJECT_TYPE_MAX
  useTotal : UInt64

def zeroUsage : Usage := ⟨.replicate _ 0, .replicate _ 0, 0⟩

/-- What `per_data_object` does to one usage. The type is an index. -/
def Usage.tally (usage : Usage) (object : ObjectHeader) : Except Fault Usage :=
  if type : object.type.toNat < OBJECT_TYPE_MAX then
    .ok { countPerType := usage.countPerType.set object.type.toNat
            (usage.countPerType[object.type.toNat] + 1)
          usePerType := usage.usePerType.set object.type.toNat
            (usage.usePerType[object.type.toNat] + object.size)
          useTotal := usage.useTotal + object.size }
  else .error .outOfBounds

/-- `per_data_object` of `report-usage.c`. -/
def perDataObject : Handler (Usage × Usage) := fun _ object (usage, total) => do
  let usage ← usage.tally object
  let total ← total.tally object
  return (1, usage, total)

/-- A well-formed journal in a list of journals to report on, with reads that do
not fail and a cache that is coherent. -/
structure WellFormedJournal where
  kernel : Kernel
  file : JournalFile
  cache : Cache
  header : Header
  objects : List (UInt64 × ObjectHeader)
  serves : kernel.ServesFile file
  reliable : kernel.Reliable
  cached : CacheInvariant file cache.journal
  wellFormed : WellFormed file header objects
  typed : ∀ object ∈ objects, object.2.type.toNat < OBJECT_TYPE_MAX

/-- What `per_journal` allocates for a journal, and how far its iteration is. -/
structure JournalReport where
  cache : Cache
  cells : Iteration Usage
  finished : Bool

/-- One journal goes on to its next dispatch of `per_data_object`. -/
def reportTurn (journals : List WellFormedJournal) (host : Endian) (i : Fin journals.length)
    (own : JournalReport) (total : Usage) : Option (JournalReport × Usage) :=
  let cells : Iteration (Usage × Usage) := { own.cells with user := (own.cells.user, total) }
  if own.finished then none
  else match exec (cachedReader journals[i].kernel) own.cache
      (journalIterObjectsStep host journals[i].header perDataObject cells) with
    | .ok (cache, .dispatched cells) =>
      some (⟨cache, { cells with user := cells.user.1 }, cells.ended⟩, cells.user.2)
    | _ => none

/-- Every journal at its start, and all usages zero. -/
def reportStart (journals : List WellFormedJournal) :
    Processes (Fin journals.length) JournalReport Usage where
  own := fun i => ⟨journals[i].cache, ⟨0, ⟨0, 0, .replicate _ 0, 0⟩, zeroUsage⟩, false⟩
  shared := zeroUsage

/-! ## Tallies -/

def countOf (type : Nat) (objects : List ObjectHeader) : Nat :=
  objects.countP (·.type.toNat = type)

def sizeOfType (type : Nat) (objects : List ObjectHeader) : Nat :=
  ((objects.filter (·.type.toNat = type)).map (·.size.toNat)).sum

def sizeOfAll (objects : List ObjectHeader) : Nat := (objects.map (·.size.toNat)).sum

/-- The usage is that of these objects, each counted once. -/
structure Usage.Exact (usage : Usage) (objects : List ObjectHeader) : Prop where
  count : ∀ type (known : type < OBJECT_TYPE_MAX),
    usage.countPerType[type].toNat = countOf type objects
  use : ∀ type (known : type < OBJECT_TYPE_MAX),
    usage.usePerType[type].toNat = sizeOfType type objects
  total : usage.useTotal.toNat = sizeOfAll objects

/-- The usage is that of these objects, in 64-bit arithmetic. -/
structure Usage.Tallied (usage : Usage) (objects : List ObjectHeader) : Prop where
  count : ∀ type (known : type < OBJECT_TYPE_MAX),
    usage.countPerType[type] = UInt64.ofNat (countOf type objects)
  use : ∀ type (known : type < OBJECT_TYPE_MAX),
    usage.usePerType[type] = UInt64.ofNat (sizeOfType type objects)
  total : usage.useTotal = UInt64.ofNat (sizeOfAll objects)

theorem zeroUsage_tallied : zeroUsage.Tallied [] :=
  ⟨fun type known => by simp [zeroUsage, countOf], fun type known => by simp [zeroUsage, sizeOfType],
    rfl⟩

theorem Usage.tally_known (usage : Usage) {object : ObjectHeader}
    (known : object.type.toNat < OBJECT_TYPE_MAX) : ∃ usage', usage.tally object = .ok usage' :=
  ⟨_, dif_pos known⟩

/-- What a tally adds does not depend on what it adds it to. -/
theorem Usage.tally_adds {usage usage' : Usage} {object : ObjectHeader}
    (ran : usage.tally object = .ok usage') :
    (∀ type (below : type < OBJECT_TYPE_MAX), usage'.countPerType[type] =
        usage.countPerType[type] + if object.type.toNat = type then 1 else 0) ∧
      (∀ type (below : type < OBJECT_TYPE_MAX), usage'.usePerType[type] =
        usage.usePerType[type] + if object.type.toNat = type then object.size else 0) ∧
      usage'.useTotal = usage.useTotal + object.size := by
  rw [tally] at ran
  split at ran
  · obtain rfl := Except.ok.inj ran
    refine ⟨fun type below => ?_, fun type below => ?_, rfl⟩ <;>
      by_cases same : object.type.toNat = type
    · subst same
      simp
    · simp [same]
    · subst same
      simp
    · simp [same]
  · cases ran

theorem Usage.Tallied.tally {usage : Usage} {objects : List ObjectHeader}
    (tallied : usage.Tallied objects) {object : ObjectHeader}
    (known : object.type.toNat < OBJECT_TYPE_MAX) :
    ∃ usage', usage.tally object = .ok usage' ∧ usage'.Tallied (objects ++ [object]) := by
  obtain ⟨usage', ran⟩ := usage.tally_known known
  obtain ⟨count, use, total⟩ := Usage.tally_adds ran
  refine ⟨usage', ran, ⟨fun type below => ?_, fun type below => ?_, ?_⟩⟩
  · rw [count type below, tallied.count type below]
    by_cases same : object.type.toNat = type <;> simp [countOf, same, UInt64.ofNat_add]
  · rw [use type below, tallied.use type below]
    by_cases same : object.type.toNat = type <;> simp [sizeOfType, same, UInt64.ofNat_add]
  · rw [total, tallied.total]
    simp [sizeOfAll, UInt64.ofNat_add]

/-! ## One turn -/

/-- The cells `per_data_object` is dispatched with: every object, and the last
one again at the end. -/
def WellFormedJournal.dispatched (journal : WellFormedJournal) : List (UInt64 × ObjectHeader) :=
  journal.objects ++ (journal.objects.getLast?.map fun last => (0, last.2)).toList

theorem WellFormedJournal.dispatched_eq (journal : WellFormedJournal) :
    ∃ last ∈ journal.objects, journal.objects.getLast? = some last ∧
      journal.dispatched = journal.objects ++ [(0, last.2)] := by
  obtain ⟨last, final, -⟩ := Option.map_eq_some_iff.mp journal.wellFormed.last
  exact ⟨last, List.mem_of_getLast? final, final, by rw [dispatched, final]; rfl⟩

theorem WellFormedJournal.dispatched_typed (journal : WellFormedJournal)
    {object : UInt64 × ObjectHeader} (member : object ∈ journal.dispatched) :
    object.2.type.toNat < OBJECT_TYPE_MAX := by
  obtain ⟨last, held, -, shape⟩ := journal.dispatched_eq
  rw [shape, List.mem_append, List.mem_singleton] at member
  rcases member with member | rfl
  · exact journal.typed object member
  · exact journal.typed last held

/-- Only the last dispatch has offset zero. -/
theorem WellFormedJournal.dispatched_ends (journal : WellFormedJournal)
    {before after : List (UInt64 × ObjectHeader)} {object : UInt64 × ObjectHeader}
    (split : journal.dispatched = before ++ object :: after) : object.1 = 0 ↔ after = [] := by
  obtain ⟨last, -, -, shape⟩ := journal.dispatched_eq
  rw [shape] at split
  obtain rfl | ⟨middle, final, rfl⟩ := List.eq_nil_or_concat' after
  · obtain ⟨-, same⟩ := List.append_inj' split rfl
    exact iff_of_true (by rw [← List.head_eq_of_cons_eq same]) rfl
  · rw [← List.cons_append, ← List.append_assoc] at split
    obtain ⟨same, -⟩ := List.append_inj' split rfl
    have member : object ∈ journal.objects := by simp [same]
    have later := journal.wellFormed.consecutive.le member
    have positive := journal.wellFormed.positive
    refine iff_of_false (fun zero => ?_) (by simp)
    rw [zero, UInt64.toNat_zero] at later
    omega

/-- How far a report has come: what is not in `after` has been dispatched and
tallied, and the walk leads on through the rest. -/
structure Progress (journal : WellFormedJournal) (host : Endian) (own : JournalReport)
    (after : List (UInt64 × ObjectHeader)) : Prop where
  cached : CacheInvariant journal.file own.cache.journal
  chain : List.IsChain (Leads journal.file journal.header host) (own.cells.object :: after)
  tallied : ∃ before, journal.dispatched = before ++ after ∧
    own.cells.user.Tallied (before.map Prod.snd)
  finished : own.finished = true ↔ after = []

theorem perDataObject_accepts {object : UInt64 × ObjectHeader}
    (known : object.2.type.toNat < OBJECT_TYPE_MAX) : Accepts perDataObject object := by
  rintro ⟨usage, total⟩
  obtain ⟨usage', ran⟩ := usage.tally_known known
  obtain ⟨total', ran'⟩ := total.tally_known known
  refine ⟨1, (usage', total'), ?_, by decide⟩
  simp only [perDataObject, ran, ran', bind_ok]
  rfl

/-- A journal that is not finished can always go on, and its next dispatch is
tallied into its own usage and into the total. -/
theorem report_turn {journals : List WellFormedJournal} {host : Endian}
    {i : Fin journals.length} {own : JournalReport} {object : UInt64 × ObjectHeader}
    {after : List (UInt64 × ObjectHeader)}
    (progress : Progress journals[i] host own (object :: after)) (total : Usage) :
    ∃ own' total', reportTurn journals host i own total = some (own', total') ∧
      Progress journals[i] host own' after ∧ object.2.type.toNat < OBJECT_TYPE_MAX ∧
      own.cells.user.tally object.2 = .ok own'.cells.user ∧
      total.tally object.2 = .ok total' := by
  obtain ⟨before, split, tallied⟩ := progress.tallied
  have unfinished : own.finished = false := by
    rw [← Bool.not_eq_true, progress.finished]
    simp
  obtain ⟨leads, rest⟩ := List.isChain_cons_cons.mp progress.chain
  have member : object ∈ journals[i].dispatched := by
    rw [split]
    simp
  have known := journals[i].dispatched_typed member
  obtain ⟨usage, tally, tallied'⟩ := tallied.tally known
  obtain ⟨total', tally'⟩ := total.tally_known known
  have next := dispatches_visit Leads.steps
    (show Leads journals[i].file journals[i].header host own.cells.object object from leads)
    ((perDataObject_accepts known).dispatch (own.cells.user, total))
  have kept : Handler.after perDataObject object (own.cells.user, total) = (usage, total') := by
    simp only [Handler.after, perDataObject, tally, tally', bind_ok]
    rfl
  rw [kept] at next
  obtain ⟨cache, ran, cached⟩ := exec_refines
    (cachedReader_refines journals[i].serves journals[i].reliable) progress.cached next
  refine ⟨⟨cache, .at object usage, (Iteration.at object usage).ended⟩, total', ?_,
    ⟨cached, rest, ⟨before ++ [object], by rw [split, List.append_assoc]; rfl, ?_⟩, ?_⟩, known,
    tally, tally'⟩
  · have ran' : exec (cachedReader journals[i].kernel) own.cache
        (journalIterObjectsStep host journals[i].header perDataObject
          { own.cells with user := (own.cells.user, total) }) =
        .ok (cache, .dispatched (.at object (usage, total'))) := ran
    simp only [reportTurn, unfinished, Bool.false_eq_true, ↓reduceIte, ran']
    rfl
  · rw [List.map_append]
    exact tallied'
  · rw [Iteration.ended, decide_eq_true_iff]
    exact journals[i].dispatched_ends split

theorem reportStart_progress (journals : List WellFormedJournal) (host : Endian)
    (i : Fin journals.length) :
    Progress journals[i] host ((reportStart journals).own i) journals[i].dispatched := by
  obtain ⟨last, -, final, shape⟩ := journals[i].dispatched_eq
  have passes := journals[i].wellFormed.passes final host 1
    (show ((reportStart journals).own i).cells.object.1 = 0 from rfl)
  rw [List.replicate_one, List.flatten_singleton] at passes
  refine ⟨journals[i].cached, by rw [shape]; exact passes, ⟨[], rfl, zeroUsage_tallied⟩, ?_⟩
  rw [shape]
  simp [reportStart]

/-! ## Whole reports -/

section Reports

variable {journals : List WellFormedJournal} {host : Endian} {schedule : List (Fin journals.length)}
  {last : Processes (Fin journals.length) JournalReport Usage}

private theorem progress_kept (i : Fin journals.length) (own : JournalReport) (total : Usage)
    (own' : JournalReport) (total' : Usage) (progress : ∃ after, Progress journals[i] host own after)
    (took : reportTurn journals host i own total = some (own', total')) :
    (∃ after, Progress journals[i] host own' after) ∧ ∃ object : ObjectHeader,
      own.cells.user.tally object = .ok own'.cells.user ∧ total.tally object = .ok total' := by
  obtain ⟨after, progress⟩ := progress
  cases after with
  | nil => simp [reportTurn, progress.finished.mpr rfl] at took
  | cons object after =>
    obtain ⟨own'', total'', ran, progress', -, tallied⟩ := report_turn progress total
    obtain ⟨rfl, rfl⟩ := Prod.mk.inj (Option.some.inj (ran.symm.trans took))
    exact ⟨⟨after, progress'⟩, object.2, tallied⟩

theorem report_progress
    (ran : run (reportTurn journals host) (reportStart journals) schedule = some last)
    (i : Fin journals.length) : ∃ after, Progress journals[i] host (last.own i) after :=
  run_own (P := fun i own => ∃ after, Progress journals[i] host own after)
    (fun i own total own' total' progress took =>
      (progress_kept i own total own' total' progress took).1)
    ran (fun i => ⟨_, reportStart_progress journals host i⟩) i

/-- The usage of a journal whose iteration has finished has its last object
counted twice. -/
theorem finished_usage
    (ran : run (reportTurn journals host) (reportStart journals) schedule = some last)
    {i : Fin journals.length} (finished : (last.own i).finished = true) :
    (last.own i).cells.user.Tallied (journals[i].dispatched.map Prod.snd) := by
  obtain ⟨after, progress⟩ := report_progress ran i
  obtain ⟨before, split, tallied⟩ := progress.tallied
  rw [progress.finished.mp finished, List.append_nil] at split
  exact split ▸ tallied

open scoped UInt64.CommRing

/-- A number of a usage that starts at zero and grows with each tally by what the
object says. -/
structure Grows (f : Usage → UInt64) (amount : ObjectHeader → UInt64) : Prop where
  zero : f zeroUsage = 0
  tally : ∀ usage usage' object, usage.tally object = .ok usage' → f usage' = f usage + amount object

/-- At every moment, the total is the sum of the usages of the journals. -/
theorem report_sum {f : Usage → UInt64} {amount : ObjectHeader → UInt64} (grows : Grows f amount)
    (ran : run (reportTurn journals host) (reportStart journals) schedule = some last) :
    f last.shared = ∑ i, f (last.own i).cells.user := by
  refine run_sum (P := fun i own => ∃ after, Progress journals[i] host own after) f
    (fun own => f own.cells.user)
    (fun i own total own' total' progress took =>
      (progress_kept i own total own' total' progress took).1)
    (fun i own total own' total' progress took => ?_) ran
    (fun i => ⟨_, reportStart_progress journals host i⟩) ?_
  · obtain ⟨-, object, own, total⟩ := progress_kept i own total own' total' progress took
    exact ⟨amount object, grows.tally _ _ _ total, grows.tally _ _ _ own⟩
  · simp [reportStart, grows.zero]

theorem sum_ofNat (g : WellFormedJournal → Nat) (journals : List WellFormedJournal) :
    ∑ i : Fin journals.length, UInt64.ofNat (g journals[i]) =
      UInt64.ofNat (journals.map g).sum := by
  induction journals with
  | nil => rfl
  | cons journal journals ih =>
    rw [List.map_cons, List.sum_cons, UInt64.ofNat_add, ← ih]
    exact Fin.sum_univ_succ _

theorem tally_grows (type : Nat) (below : type < OBJECT_TYPE_MAX) :
    Grows (fun usage => usage.countPerType[type])
        (fun object => if object.type.toNat = type then 1 else 0) ∧
      Grows (fun usage => usage.usePerType[type])
        (fun object => if object.type.toNat = type then object.size else 0) ∧
      Grows Usage.useTotal ObjectHeader.size := by
  refine ⟨⟨by simp [zeroUsage], fun _ _ _ ran => ?_⟩, ⟨by simp [zeroUsage], fun _ _ _ ran => ?_⟩,
    ⟨rfl, fun _ _ _ ran => ?_⟩⟩
  · exact (Usage.tally_adds ran).1 type below
  · exact (Usage.tally_adds ran).2.1 type below
  · exact (Usage.tally_adds ran).2.2

theorem countOf_flatMap {α : Type} (type : Nat) (f : α → List ObjectHeader) (items : List α) :
    countOf type (items.flatMap f) = (items.map fun item => countOf type (f item)).sum := by
  rw [countOf, List.countP_flatMap]
  rfl

theorem sizeOfType_flatMap {α : Type} (type : Nat) (f : α → List ObjectHeader) (items : List α) :
    sizeOfType type (items.flatMap f) = (items.map fun item => sizeOfType type (f item)).sum := by
  induction items with
  | nil => rfl
  | cons item items ih =>
    rw [List.map_cons, List.sum_cons, ← ih]
    simp [sizeOfType]

theorem sizeOfAll_flatMap {α : Type} (f : α → List ObjectHeader) (items : List α) :
    sizeOfAll (items.flatMap f) = (items.map fun item => sizeOfAll (f item)).sum := by
  induction items with
  | nil => rfl
  | cons item items ih =>
    rw [List.map_cons, List.sum_cons, ← ih]
    simp [sizeOfAll]

/-- When every journal has finished, the total counts every object of every
journal, and the last one of each twice. -/
theorem finished_total
    (ran : run (reportTurn journals host) (reportStart journals) schedule = some last)
    (finished : ∀ i, (last.own i).finished = true) :
    last.shared.Tallied (journals.flatMap fun journal => journal.dispatched.map Prod.snd) := by
  have own := fun i => finished_usage ran (finished i)
  refine ⟨fun type below => ?_, fun type below => ?_, ?_⟩
  · rw [report_sum (tally_grows type below).1 ran, countOf_flatMap]
    simp only [(own _).count type below]
    exact sum_ofNat (fun journal => countOf type (journal.dispatched.map Prod.snd)) journals
  · rw [report_sum (tally_grows type below).2.1 ran, sizeOfType_flatMap]
    simp only [(own _).use type below]
    exact sum_ofNat (fun journal => sizeOfType type (journal.dispatched.map Prod.snd)) journals
  · rw [report_sum (tally_grows 0 (by decide)).2.2 ran, sizeOfAll_flatMap]
    simp only [(own _).total]
    exact sum_ofNat (fun journal => sizeOfAll (journal.dispatched.map Prod.snd)) journals

/-- The total and the usage of every journal count each object once. -/
def ReportExact (journals : List WellFormedJournal)
    (last : Processes (Fin journals.length) JournalReport Usage) : Prop :=
  last.shared.Exact (journals.flatMap fun journal => journal.objects.map Prod.snd) ∧
    ∀ i, (last.own i).cells.user.Exact (journals[i].objects.map Prod.snd)

/-- A usage that has the last object twice is not exact. -/
private theorem twice_not_exact {usage : Usage} {objects : List ObjectHeader}
    {object : ObjectHeader} (known : object.type.toNat < OBJECT_TYPE_MAX)
    (tallied : usage.Tallied (objects ++ [object])) : ¬ usage.Exact objects := by
  intro exact
  have counted := exact.count _ known
  have bound := (usage.countPerType[object.type.toNat]).toNat_lt
  have more : countOf object.type.toNat (objects ++ [object]) =
      countOf object.type.toNat objects + 1 := by simp [countOf]
  rw [tallied.count _ known, more, UInt64.toNat_ofNat'] at counted
  omega

/-- Under whatever schedule the journals finish, the report is exact only if
there are none: it counts the last object of each journal twice. -/
theorem report_exact_iff
    (ran : run (reportTurn journals host) (reportStart journals) schedule = some last)
    (finished : ∀ i, (last.own i).finished = true) :
    ReportExact journals last ↔ journals = [] := by
  constructor
  · rintro ⟨-, own⟩
    by_contra nonempty
    obtain ⟨i⟩ : Nonempty (Fin journals.length) :=
      ⟨⟨0, List.length_pos_iff.mpr nonempty⟩⟩
    obtain ⟨object, member, -, shape⟩ := journals[i].dispatched_eq
    have tallied := finished_usage ran (finished i)
    rw [shape, List.map_append, List.map_singleton] at tallied
    exact twice_not_exact (journals[i].typed object member) tallied (own i)
  · rintro rfl
    obtain ⟨count, use, total⟩ := finished_total ran finished
    refine ⟨⟨fun type known => ?_, fun type known => ?_, ?_⟩, fun i => i.elim0⟩
    · rw [count type known]
      rfl
    · rw [use type known]
      rfl
    · rw [total]
      rfl

/-! ## Reports finish -/

/-- From any state of a report, turns of one journal finish it. -/
private theorem finish_one (i : Fin journals.length) {after : List (UInt64 × ObjectHeader)}
    (state : Processes (Fin journals.length) JournalReport Usage)
    (progress : Progress journals[i] host (state.own i) after) :
    ∃ schedule next, run (reportTurn journals host) state schedule = some next ∧
      (next.own i).finished = true ∧ ∀ j ≠ i, next.own j = state.own j := by
  induction after generalizing state with
  | nil => exact ⟨[], state, rfl, progress.finished.mpr rfl, fun _ _ => rfl⟩
  | cons object after ih =>
    obtain ⟨own', total', took, progress', -⟩ := report_turn progress state.shared
    have first : turn (reportTurn journals host) state i =
        some ⟨Function.update state.own i own', total'⟩ := by rw [turn, took]; rfl
    obtain ⟨schedule, next, ran, finished, others⟩ :=
      ih ⟨Function.update state.own i own', total'⟩
        (show Progress journals[i] host (Function.update state.own i own' i) after by
          rw [Function.update_self]
          exact progress')
    refine ⟨i :: schedule, next, by rw [run, first]; exact ran, finished, fun j apart => ?_⟩
    exact (others j apart).trans (Function.update_of_ne apart ..)

/-- From any state a schedule leads to, some schedule leads on to the end of
every journal. -/
theorem report_finishes
    (ran : run (reportTurn journals host) (reportStart journals) schedule = some last) :
    ∃ more final, run (reportTurn journals host) (reportStart journals) (schedule ++ more) =
      some final ∧ ∀ i, (final.own i).finished = true := by
  suffices listed : ∀ indices : List (Fin journals.length), ∃ more final,
      run (reportTurn journals host) (reportStart journals) (schedule ++ more) = some final ∧
        ∀ i ∈ indices, (final.own i).finished = true by
    obtain ⟨more, final, ran, finished⟩ := listed (List.finRange journals.length)
    exact ⟨more, final, ran, fun i => finished i (List.mem_finRange i)⟩
  intro indices
  induction indices with
  | nil => exact ⟨[], last, by rw [List.append_nil]; exact ran, by simp⟩
  | cons i indices ih =>
    obtain ⟨more, middle, reached, finished⟩ := ih
    obtain ⟨after, progress⟩ := report_progress reached i
    obtain ⟨turns, final, ran, done, others⟩ := finish_one i middle progress
    refine ⟨more ++ turns, final, ?_, fun j member => ?_⟩
    · rw [← List.append_assoc, run_append, reached]
      exact ran
    · by_cases same : j = i
      · exact same ▸ done
      · rw [others j same]
        exact finished j ((List.mem_cons.mp member).resolve_left same)

end Reports

/-- The journal of two objects, with nothing cached. -/
def twoObjectsJournal {journal : Journal} (ready : freshJournal "system.journal" 3 0 = .ok journal) :
    WellFormedJournal where
  kernel := fileKernel twoObjects
  file := twoObjects
  cache := ⟨journal, 0⟩
  header := twoObjectsHeader
  objects := [(256, twoObjects.objectHeader 256), (336, twoObjects.objectHeader 336)]
  serves := fileKernel_servesFile twoObjects
  reliable := fileKernel_reliable twoObjects
  cached := .fresh ready
  wellFormed := twoObjects_wellFormed
  typed := by decide

private theorem twoObjects_reported {journal : Journal}
    (ready : freshJournal "system.journal" 3 0 = .ok journal) :
    ∃ schedule last, run (reportTurn [twoObjectsJournal ready] .big)
        (reportStart [twoObjectsJournal ready]) schedule = some last ∧
      ∀ i, (last.own i).finished = true := by
  have start : run (reportTurn [twoObjectsJournal ready] .big)
    (reportStart [twoObjectsJournal ready]) [] = some (reportStart _) := rfl
  obtain ⟨more, final, ran, finished⟩ := report_finishes start
  exact ⟨more, final, ran, finished⟩

theorem report_exact_iff_twoObjects :
    ∃ journal, ∃ ready : freshJournal "system.journal" 3 0 = .ok journal, ∃ schedule last,
      run (reportTurn [twoObjectsJournal ready] .big) (reportStart [twoObjectsJournal ready])
        schedule = some last ∧
      (ReportExact [twoObjectsJournal ready] last ↔ [twoObjectsJournal ready] = []) := by
  obtain ⟨journal, ready, -⟩ := freshJournal_spec "system.journal" 3 0
  obtain ⟨schedule, last, ran, finished⟩ := twoObjects_reported ready
  exact ⟨journal, ready, schedule, last, ran, report_exact_iff ran finished⟩

/-- The report finds two entries in a journal that has one. -/
theorem entry_is_counted_twice :
    ∃ journal, ∃ ready : freshJournal "system.journal" 3 0 = .ok journal, ∃ schedule last,
      run (reportTurn [twoObjectsJournal ready] .big) (reportStart [twoObjectsJournal ready])
        schedule = some last ∧ (∀ i, (last.own i).finished = true) ∧
      last.shared.countPerType[3] = 2 ∧ last.shared.useTotal = 201 ∧
      ¬ ReportExact [twoObjectsJournal ready] last := by
  obtain ⟨journal, ready, -⟩ := freshJournal_spec "system.journal" 3 0
  obtain ⟨schedule, last, ran, finished⟩ := twoObjects_reported ready
  obtain ⟨count, -, total⟩ := finished_total ran finished
  have entries : last.shared.countPerType[3] = 2 := (count 3 (by decide)).trans rfl
  refine ⟨journal, ready, schedule, last, ran, finished, entries, total.trans rfl, ?_⟩
  rintro ⟨exact, -⟩
  have one : last.shared.countPerType[3].toNat = 1 := exact.count 3 (by decide)
  rw [entries] at one
  exact absurd one (by decide)

end Jio
