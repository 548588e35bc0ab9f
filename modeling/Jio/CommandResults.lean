import Jio.Library.FirstFailure
import Jio.ReportTotals

/-! What a command over all journals returns. `iou_run` dispatches what completes, in
whatever order, until nothing is left or a closure returns a negative result, and that is
then the result of the command. -/
namespace Jio.ReportTotals
open ByteOrder ReadProgram Interleaving JournalsOpen

/-! ## Turns that fail -/

section Systems

variable {n : Nat} {Own Totals : Type}

/-- What a turn returns to `iou_run` where it does not go well, or the fault it runs into. -/
def journalFails (kernel : Kernel) (report : Report Own Totals) :
    Status Own → Cache → Totals → Option (Except Fault Int)
  | .running (.read (offset, length) _ _), cache, _ =>
    match journalRead cache.journal (kernel.opNew cache.clock) offset length with
    | .error fault => some (.error fault)
    | .ok (_, .failed code) => some (.ok code)
    | .ok (_, .hit _) | .ok (_, .queued _) => none
  | .waiting op _, cache, _ =>
    let answer := kernel.answer cache.clock op.offset op.nbytes
    match bufGotRead (cache.journal.kernelWrites op answer.data) op answer.result answer.data with
    | (_, .error code) => some (.ok code)
    | (_, .ok _) => none
  | .running (.dispatch own), _, totals =>
    match report.closure own totals with
    | .error fault => some (.error fault)
    | .ok (r, _, _) => if r < 0 then some (.ok r) else none
  | .running (.fail code _), _, _ => some (.ok code)
  | .running (.abort fault), _, _ => some (.error fault)
  | .finished _, _, _ => none

/-- A turn of a `foo`, or how it ends the run. -/
def fooStep (kernels : Fin n → Kernel) (reports : Fin n → Report Own Totals) (foo : Foo n Own)
    (heap : Heap n Totals) : Turned (Except Fault Int) (Foo n Own × Heap n Totals) :=
  match fooTurn kernels reports foo heap with
  | some next => .goesOn next
  | none =>
    match journalFails (kernels foo.journal) (reports foo.journal) foo.status
      (heap.caches foo.journal) heap.totals with
    | some code => .failed code
    | none => .rests

/-- `iou_run`, once `journals_for_each` is done. -/
def runCommand [Zero Totals] (report : JournalOnDisk → Report Own Totals)
    (journals : List JournalOnDisk) (kernels : Fin journals.length → Kernel)
    (schedule : List (Fin (startAll report journals).user.foos.length)) :=
  runUntil (fun _ => fooStep kernels fun i => report (journals.get i)) (started report journals)
    schedule

/-- How a command may end: with what `per_journal` returned, with what a closure returned
later, or with all of them done. -/
inductive CommandEnds [Zero Totals] (report : JournalOnDisk → Report Own Totals)
    (journals : List JournalOnDisk) (kernels : Fin journals.length → Kernel) :
    Except (Except Fault Int) Unit → Prop
  | refused (failed : (startAll report journals).r < 0) :
      CommandEnds report journals kernels (.error (.ok (startAll report journals).r))
  | failed {schedule} {code : Except Fault Int} (started : 0 ≤ (startAll report journals).r)
      (ran : runCommand report journals kernels schedule = .error code) :
      CommandEnds report journals kernels (.error code)
  | done {schedule last} (started : 0 ≤ (startAll report journals).r)
      (ran : runCommand report journals kernels schedule = .ok last)
      (ended : ∀ k, ∃ own, (last.own k).status = .finished own) :
      CommandEnds report journals kernels (.ok ())

end Systems

/-! ## One journal -/

section OneJournal

variable {Own Totals : Type} [AddCommMonoid Totals] {kernel : Kernel} {report : Report Own Totals}
  {cache : Cache} {own : Own}

/-- A turn of one journal's closures, or how it ends the run. -/
def ownStep (kernel : Kernel) (report : Report Own Totals) (own : Status Own × Cache) :
    Turned (Except Fault Int) (Status Own × Cache) :=
  match ownTurn kernel report own with
  | some (next, _) => .goesOn next
  | none =>
    match journalFails kernel report own.1 own.2 0 with
    | some code => .failed code
    | none => .rests

theorem journalFails_additive (additive : Additive report) (kernel : Kernel) (status : Status Own)
    (cache : Cache) (totals : Totals) :
    journalFails kernel report status cache totals = journalFails kernel report status cache 0 := by
  cases status with
  | finished own => rfl
  | waiting op resume => rfl
  | running program =>
    cases program with
    | fail code own => rfl
    | abort fault => rfl
    | read request own resume => rfl
    | dispatch own =>
      unfold journalFails
      dsimp only
      rw [additive.closure own totals]
      cases report.closure own 0 <;> rfl

/-- What cannot go on and does not fail is done. -/
theorem ownStep_rests {status : Status Own} (rests : ownStep kernel report (status, cache) = .rests) :
    ∃ own, status = .finished own := by
  unfold ownStep ownTurn at rests
  cases status with
  | finished own => exact ⟨own, rfl⟩
  | waiting op resume =>
    exfalso
    simp only [journalTurn, journalFails] at rests
    generalize bufGotRead _ op _ _ = completed at rests
    obtain ⟨journal, code | dest⟩ := completed <;> cases rests
  | running program =>
    exfalso
    cases program with
    | fail code own => cases rests
    | abort fault => cases rests
    | read request own resume =>
      simp only [journalTurn, journalFails] at rests
      generalize journalRead cache.journal _ _ _ = submitted at rests
      obtain fault | ⟨journal, dest | op | code⟩ := submitted <;> cases rests
    | dispatch own =>
      simp only [journalTurn, journalFails] at rests
      generalize report.closure own 0 = ran at rests
      obtain fault | ⟨r, own, totals⟩ := ran
      · cases rests
      · dsimp only at rests
        by_cases failed : r < 0
        · simp only [failed, ↓reduceIte, Option.map_none] at rests
          cases rests
        · simp only [failed, ↓reduceIte] at rests
          cases again : report.again own <;> rw [again] at rests <;> cases rests

theorem ownStep_finished : ownStep kernel report (.finished own, cache) = .rests := rfl

section Reads

variable {request : UInt64 × UInt64} {resume : List UInt8 → Reading Own} {cache' : Cache}
  {r : Except (Except Fault Int) (Status Own × Cache)}

/-- Where a read leads, whether the kernel is asked or not. -/
theorem comesTo_read {dest : List UInt8}
    (read : cachedReader kernel cache request = .ok (cache', .ok dest))
    (rest : ComesTo (ownStep kernel report) (.running (resume dest), cache') r) :
    ComesTo (ownStep kernel report) (.running (.read request own resume), cache) r := by
  obtain ⟨offset, length⟩ := request
  unfold cachedReader at read
  cases submitted : journalRead cache.journal (kernel.opNew cache.clock) offset length with
  | error fault => simp [submitted] at read
  | ok ran =>
    obtain ⟨journal, dest' | op | code⟩ := ran
    · simp only [submitted, Except.ok.injEq, Prod.mk.injEq] at read
      obtain ⟨rfl, rfl⟩ := read
      have hit : ownStep kernel report (.running (.read (offset, length) own resume), cache) =
          .goesOn (.running (resume dest'), ⟨journal, cache.clock + 1⟩) := by
        simp only [ownStep, ownTurn, journalTurn, submitted, Option.map_some]
      exact .goesOn hit rest
    · simp only [submitted, Except.ok.injEq, Prod.mk.injEq] at read
      obtain ⟨rfl, answered⟩ := read
      have queued : ownStep kernel report (.running (.read (offset, length) own resume), cache) =
          .goesOn (.waiting op resume, ⟨journal, cache.clock⟩) := by
        simp only [ownStep, ownTurn, journalTurn, submitted, Option.map_some]
      refine .goesOn queued (.goesOn ?_ rest)
      simp only [ownStep, ownTurn, journalTurn]
      generalize bufGotRead _ op _ _ = completed at answered ⊢
      obtain ⟨journal', outcome⟩ := completed
      obtain rfl : outcome = .ok dest := answered
      rfl
    · simp [submitted] at read

/-- A read that fails ends the run. -/
theorem comesTo_refused {code : Int}
    (read : cachedReader kernel cache request = .ok (cache', .error code)) :
    ComesTo (ownStep kernel report) (.running (.read request own resume), cache)
      (.error (.ok code)) := by
  obtain ⟨offset, length⟩ := request
  unfold cachedReader at read
  cases submitted : journalRead cache.journal (kernel.opNew cache.clock) offset length with
  | error fault => simp [submitted] at read
  | ok ran =>
    obtain ⟨journal, dest' | op | code'⟩ := ran
    · simp [submitted] at read
    · simp only [submitted, Except.ok.injEq, Prod.mk.injEq] at read
      obtain ⟨rfl, answered⟩ := read
      have queued : ownStep kernel report (.running (.read (offset, length) own resume), cache) =
          .goesOn (.waiting op resume, ⟨journal, cache.clock⟩) := by
        simp only [ownStep, ownTurn, journalTurn, submitted, Option.map_some]
      refine .goesOn queued (.failed ?_)
      simp only [ownStep, ownTurn, journalTurn, journalFails]
      generalize bufGotRead _ op _ _ = completed at answered ⊢
      obtain ⟨journal', outcome⟩ := completed
      obtain rfl : outcome = .error code := answered
      rfl
    · simp only [submitted, Except.ok.injEq, Prod.mk.injEq, Except.error.injEq] at read
      obtain ⟨-, rfl⟩ := read
      refine .failed ?_
      simp only [ownStep, ownTurn, journalTurn, journalFails, submitted, Option.map_none]

end Reads

/-- Against the file, this program comes to its end with `own`, or fails. -/
inductive Results (file : JournalFile) (report : Report Own Totals) :
    Reading Own → Except (Except Fault Int) Own → Prop
  | read {request : UInt64 × UInt64} {own : Own} {resume : List UInt8 → Reading Own}
      {answer : List UInt8} {r : Except (Except Fault Int) Own}
      (answered : fileReader file () request = .ok ((), .ok answer))
      (rest : Results file report (resume answer) r) :
      Results file report (.read request own resume) r
  | refused {request : UInt64 × UInt64} {own : Own} {resume : List UInt8 → Reading Own} {code : Int}
      (answered : fileReader file () request = .ok ((), .error code)) :
      Results file report (.read request own resume) (.error (.ok code))
  | failed {code : Int} {own : Own} : Results file report (.fail code own) (.error (.ok code))
  | last {own own' : Own} {r : Int} {d : Totals} (ran : report.closure own 0 = .ok (r, own', d))
      (ok : 0 ≤ r) (done : report.again own' = none) : Results file report (.dispatch own) (.ok own')
  | next {own own' : Own} {r : Int} {d : Totals} {program : Reading Own}
      {r' : Except (Except Fault Int) Own} (ran : report.closure own 0 = .ok (r, own', d))
      (ok : 0 ≤ r) (goes : report.again own' = some program)
      (rest : Results file report program r') : Results file report (.dispatch own) r'

section Results

variable {file : JournalFile} {program : Reading Own} {r : Except (Except Fault Int) Own}

/-- A program whose closure comes to something comes to it as well. -/
theorem Results.andThen {closure : Own → Reading Own} {own' : Own}
    (ran : exec (fileReader file) () program = .ok ((), .dispatched own'))
    (rest : Results file report (closure own') r) :
    Results file report (program.andThen closure) r := by
  induction program with
  | dispatch s =>
    cases ran
    exact rest
  | fail code s => cases ran
  | abort fault => cases ran
  | read request s resume ih =>
    unfold exec at ran
    split at ran
    · cases ran
    · cases ran
    · rename_i answered
      exact .read answered (ih _ ran)

theorem Results.of_dispatched {own' : Own}
    (ran : exec (fileReader file) () program = .ok ((), .dispatched own'))
    (rest : Results file report (.dispatch own') r) : Results file report program r := by
  rw [← program.andThen_dispatch]
  exact .andThen ran rest

theorem Results.of_failed {code : Int} {own' : Own}
    (ran : exec (fileReader file) () program = .ok ((), .failed code own')) :
    Results file report program (.error (.ok code)) := by
  induction program with
  | dispatch s => cases ran
  | fail code' s =>
    cases ran
    exact .failed
  | abort fault => cases ran
  | read request s resume ih =>
    unfold exec at ran
    split at ran
    · cases ran
    · rename_i answered
      cases ran
      exact .refused answered
    · rename_i answered
      exact .read answered (ih _ ran)

/-- So it does against a kernel that answers from the file, whatever is cached. -/
theorem Results.comesTo (results : Results file report program r) (serves : kernel.ServesFile file)
    (reliable : kernel.Reliable) (invariant : CacheInvariant file cache.journal) : ∃ cache',
      ComesTo (ownStep kernel report) (.running program, cache)
        (r.map fun own => (.finished own, cache')) := by
  have refines := cachedReader_refines serves reliable
  induction results generalizing cache with
  | @read request own resume answer r answered rest ih =>
    obtain ⟨next, ran, kept⟩ := refines cache () request () (.ok answer) invariant answered
    obtain ⟨cache', comes⟩ := ih kept
    exact ⟨cache', comesTo_read ran comes⟩
  | @refused request own resume code answered =>
    obtain ⟨next, ran, -⟩ := refines cache () request () (.error code) invariant answered
    exact ⟨next, comesTo_refused ran⟩
  | failed => exact ⟨cache, .failed rfl⟩
  | @last own own' r d ran ok done =>
    have turned : ownStep kernel report (.running (.dispatch own), cache) =
        .goesOn (.finished own', cache) := by
      simp only [ownStep, ownTurn, journalTurn, ran, not_lt.mpr ok, ↓reduceIte, done,
        Option.map_some]
    exact ⟨cache, .goesOn turned (.rests ownStep_finished)⟩
  | @next own own' r d program r' ran ok goes rest ih =>
    obtain ⟨cache', comes⟩ := ih invariant
    have turned : ownStep kernel report (.running (.dispatch own), cache) =
        .goesOn (.running program, cache) := by
      simp only [ownStep, ownTurn, journalTurn, ran, not_lt.mpr ok, ↓reduceIte, goes,
        Option.map_some]
    exact ⟨cache', .goesOn turned comes⟩

end Results

end OneJournal

/-! ## All of them -/

section Views

variable {n : Nat} {κ Own Totals : Type} {kernels : Fin n → Kernel}
  {reports : Fin n → Report Own Totals} {idx : κ → Fin n}
  {state next : Processes κ (Foo n Own) (Heap n Totals)}

/-- Each `foo` together with the cache of its journal, and nothing shared. -/
def aloneView (state : Processes κ (Foo n Own) (Heap n Totals)) :
    Processes κ (Status Own × Cache) Unit :=
  ⟨(ownView state).own, ()⟩

variable [DecidableEq κ]

theorem fooStep_goesOn {k : κ}
    (took : turned (fun _ => fooStep kernels reports) state k = .goesOn next) :
    turn (fun _ => fooTurn kernels reports) state k = some next := by
  unfold turned fooStep at took
  unfold turn
  cases stepped : fooTurn kernels reports (state.own k) state.shared with
  | some ran =>
    simp only [stepped, Turned.map, Turned.goesOn.injEq] at took
    exact (congrArg (Option.map _) stepped).trans (congrArg some took)
  | none =>
    simp only [stepped] at took
    split at took <;> cases took

theorem run_of_runUntil {last : Processes κ (Foo n Own) (Heap n Totals)} {schedule : List κ}
    (ran : runUntil (fun _ => fooStep kernels reports) state schedule = .ok last) :
    ∃ schedule', run (fun _ => fooTurn kernels reports) state schedule' = some last := by
  induction schedule generalizing state with
  | nil =>
    cases ran
    exact ⟨[], rfl⟩
  | cons k schedule ih =>
    rw [runUntil] at ran
    cases took : turned (fun _ => fooStep kernels reports) state k with
    | goesOn next =>
      obtain ⟨schedule', rest⟩ := ih (by simpa only [took] using ran)
      refine ⟨k :: schedule', ?_⟩
      rw [run, fooStep_goesOn took]
      exact rest
    | failed code => simp [took] at ran
    | rests => exact ih (by simpa only [took] using ran)

/-- A turn is one of the journal's own closures, and fails as they do. -/
theorem fooStep_view [AddCommMonoid Totals] (additive : ∀ i, Additive (reports i)) (distinct : Function.Injective idx)
    (points : PointsAt idx state) (k : κ) :
    (turned (fun _ => fooStep kernels reports) state k).map aloneView =
      turned (apart fun k => ownStep (kernels (idx k)) (reports (idx k))) (aloneView state) k := by
  have viewed : (turn (fun _ => fooTurn kernels reports) state k).map ownView = _ :=
    fooTurn_view additive distinct points k
  rw [turned_apart]
  unfold turned fooStep ownStep
  unfold turn adding at viewed
  dsimp only [aloneView, ownView] at viewed ⊢
  rw [journalFails_additive (additive _)]
  rw [points k] at viewed ⊢
  cases alone : ownTurn (kernels (idx k)) (reports (idx k))
      ((state.own k).status, state.shared.caches (idx k)) with
  | some ran =>
    rw [alone] at viewed
    obtain ⟨next, took, same⟩ := Option.map_eq_some_iff.mp viewed
    obtain ⟨ran', stepped, rfl⟩ := Option.map_eq_some_iff.mp took
    rw [stepped]
    exact congrArg (fun state => Turned.goesOn (⟨state.own, ()⟩ : Processes _ _ Unit)) same
  | none =>
    rw [alone] at viewed
    rw [Option.map_eq_none_iff.mp (Option.map_eq_none_iff.mp viewed)]
    cases journalFails (kernels (idx k)) (reports (idx k)) (state.own k).status
      (state.shared.caches (idx k)) 0 <;> rfl

end Views

section Commands

variable {Own Totals : Type} [AddCommMonoid Totals]
  {report : JournalOnDisk → Report Own Totals} {journals : List JournalOnDisk}

/-- The closures of one journal, from where `per_journal` leaves them, alone. -/
def AloneEnds (kernel : Kernel) (report : Report Own Totals) (journal : JournalOnDisk)
    (r : Except (Except Fault Int) (Status Own × Cache)) : Prop :=
  ComesTo (ownStep kernel report) (.running report.start, ⟨journal.journal, 0⟩) r

section Started

variable (additive : ∀ journal, Additive (report journal)) (starts : Starts report journals)
  (kernels : Fin journals.length → Kernel)
include additive starts

theorem runCommand_view (schedule : List (Fin (startAll report journals).user.foos.length)) :
    (runCommand report journals kernels schedule).map aloneView =
      runUntil (apart fun k => ownStep (kernels (pointee report journals k))
        (report (journals.get (pointee report journals k))))
          (aloneView (started report journals)) schedule :=
  runUntil_view (fun _ _ _ points took => fooTurn_points points (fooStep_goesOn took))
    (fun _ k points => fooStep_view (fun i => additive (journals.get i))
      (pointee_injective additive starts) points k) started_points schedule

/-- What a `foo` comes to is what its journal does alone. -/
theorem comesTo_started (k : Fin (startAll report journals).user.foos.length)
    (r : Except (Except Fault Int) (Status Own × Cache)) :
    let i := pointee report journals k
    ComesTo (ownStep (kernels i) (report (journals.get i)))
      ((aloneView (started report journals)).own k) r ↔
        AloneEnds (kernels i) (report (journals.get i)) (journals.get i) r := by
  intro i
  rw [show (aloneView (started report journals)).own k = _ from
    (started_own additive starts k).2]
  rfl

/-- There is a `foo` for each open journal. -/
theorem exists_pointee {i : Fin journals.length} (isOpen : i ∈ opened journals) :
    ∃ k, pointee report journals k = i := by
  have listed : i ∈ (startAll report journals).user.foos.map fun foo => foo.journal := by
    rw [map_foos additive starts fun i => i, List.map_id']
    exact isOpen
  obtain ⟨foo, member, rfl⟩ := List.mem_map.mp listed
  obtain ⟨k, bound, rfl⟩ := List.getElem_of_mem member
  exact ⟨⟨k, bound⟩, rfl⟩

theorem alone_of_failed {schedule : List (Fin (startAll report journals).user.foos.length)}
    {code : Except Fault Int} (ran : runCommand report journals kernels schedule = .error code) :
    ∃ i ∈ opened journals, AloneEnds (kernels i) (report (journals.get i)) (journals.get i)
      (.error code) := by
  have viewed := runCommand_view additive starts kernels schedule
  rw [ran] at viewed
  obtain ⟨k, comes⟩ := comesTo_of_failed viewed.symm
  exact ⟨_, (started_own additive starts k).1, (comesTo_started additive starts kernels k _).mp comes⟩

/-- When all are done, each has ended as it does alone. -/
theorem alone_of_done {schedule : List (Fin (startAll report journals).user.foos.length)}
    {last : Processes _ (Foo journals.length Own) (Heap journals.length Totals)}
    (ran : runCommand report journals kernels schedule = .ok last)
    {k : Fin (startAll report journals).user.foos.length} {own : Own}
    (ended : (last.own k).status = .finished own) :
    let i := pointee report journals k
    ∃ cache, AloneEnds (kernels i) (report (journals.get i)) (journals.get i)
      (.ok (.finished own, cache)) := by
  have viewed := runCommand_view additive starts kernels schedule
  rw [ran] at viewed
  have final : (aloneView last).own k = (.finished own, ((aloneView last).own k).2) :=
    Prod.ext ended rfl
  refine ⟨((aloneView last).own k).2, (comesTo_started additive starts kernels k _).mp ?_⟩
  rw [← comesTo_of_runUntil viewed.symm k, final]
  exact .rests ownStep_finished

/-- Where each journal comes to something alone, every run can be taken to an end. -/
theorem exists_end (comes : ∀ i ∈ opened journals, ∃ r,
      AloneEnds (kernels i) (report (journals.get i)) (journals.get i) r)
    {schedule : List (Fin (startAll report journals).user.foos.length)}
    {last : Processes _ (Foo journals.length Own) (Heap journals.length Totals)}
    (ran : runCommand report journals kernels schedule = .ok last) :
    ∃ more, (∃ code, runCommand report journals kernels (schedule ++ more) = .error code) ∨
      ∃ final, runCommand report journals kernels (schedule ++ more) = .ok final ∧
        ∀ k, ∃ own, (final.own k).status = .finished own := by
  have viewed := runCommand_view additive starts kernels
  have here := viewed schedule
  rw [ran] at here
  obtain ⟨more, ends⟩ := @exists_runUntil _ _ _ _ _ (aloneView last) _ fun k => by
    obtain ⟨r, alone⟩ := comes _ (started_own additive starts k).1
    exact ⟨r, (comesTo_of_runUntil here.symm k r).mpr
      ((comesTo_started additive starts kernels k r).mpr alone)⟩
  refine ⟨more, ?_⟩
  rw [← runUntil_append _ _ here.symm, ← viewed (schedule ++ more)] at ends
  cases whole : runCommand report journals kernels (schedule ++ more) with
  | error code => exact .inl ⟨code, rfl⟩
  | ok final =>
    rw [whole] at ends
    obtain ⟨code, failed⟩ | ⟨rested, same, rest⟩ := ends
    · cases failed
    · cases same
      exact .inr ⟨final, rfl, fun k => ownStep_rests (rest k)⟩

end Started

/-- A command that `journals_for_each` refuses is refused by the `per_journal` of some journal. -/
theorem forEachFrom_refused {n : Nat} {journals : Journals n} {reports : Fin n → Report Own Totals}
    (additive : ∀ i, Additive (reports i)) {slots : List (Fin n)} {started : Started n Own Totals}
    (failed : (forEachFrom journals (perJournal reports) slots started).r < 0) :
    ∃ i ∈ slots, 0 ≤ (journals.journals i).fd ∧
      (forEachFrom journals (perJournal reports) slots started).r = ((reports i).perJournal 0).1 := by
  induction slots generalizing started with
  | nil => simp [forEachFrom] at failed
  | cons i slots ih =>
    unfold forEachFrom at failed ⊢
    by_cases closed : (journals.journals i).fd < 0
    · rw [if_pos closed] at failed ⊢
      obtain ⟨j, member, rest⟩ := ih failed
      exact ⟨j, .tail _ member, rest⟩
    · rw [if_neg closed] at failed ⊢
      by_cases refused : ((reports i).perJournal 0).1 < 0
      · simp only [perJournal, (additive i).perJournal started.totals, refused, ↓reduceIte]
        exact ⟨i, .head _, not_lt.mp closed, rfl⟩
      · simp only [perJournal, (additive i).perJournal started.totals, refused, ↓reduceIte,
          lt_self_iff_false] at failed ⊢
        obtain ⟨j, member, rest⟩ := ih failed
        exact ⟨j, .tail _ member, rest⟩

theorem startAll_refused (additive : ∀ journal, Additive (report journal))
    (failed : (startAll report journals).r < 0) : ∃ i ∈ opened journals,
      (startAll report journals).r = ((report (journals.get i)).perJournal 0).1 := by
  obtain ⟨i, member, isOpen, same⟩ := forEachFrom_refused (fun i => additive (journals.get i)) failed
  exact ⟨i, List.mem_filter.mpr ⟨member, decide_eq_true isOpen⟩, same⟩

/-! ## Commands over many journals, and over each -/

/-- What the command returns, or runs into, at one journal. -/
inductive JournalEnds (kernel : Kernel) (report : Report Own Totals) (journal : JournalOnDisk) :
    Except (Except Fault Int) Unit → Prop
  | refused (failed : (report.perJournal 0).1 < 0) :
      JournalEnds kernel report journal (.error (.ok (report.perJournal 0).1))
  | alone {r : Except (Except Fault Int) (Status Own × Cache)}
      (started : 0 ≤ (report.perJournal 0).1) (ends : AloneEnds kernel report journal r) :
      JournalEnds kernel report journal (r.map fun _ => ())

theorem JournalEnds.unique {kernel : Kernel} {report : Report Own Totals} {journal : JournalOnDisk}
    {r r' : Except (Except Fault Int) Unit} (ends : JournalEnds kernel report journal r)
    (ends' : JournalEnds kernel report journal r') : r = r' := by
  cases ends with
  | refused failed =>
    cases ends' with
    | refused => rfl
    | alone started => omega
  | alone started ends =>
    cases ends' with
    | refused failed => omega
    | alone started' ends' => rw [ends.unique ends']

variable {kernels : Fin journals.length → Kernel}

/-- The command fails as it does at one of the journals. -/
theorem journalEnds_of_failed (additive : ∀ journal, Additive (report journal))
    {code : Except Fault Int} (ends : CommandEnds report journals kernels (.error code)) :
    ∃ i ∈ opened journals, JournalEnds (kernels i) (report (journals.get i)) (journals.get i)
      (.error code) := by
  cases ends with
  | refused failed =>
    obtain ⟨i, isOpen, same⟩ := startAll_refused additive failed
    rw [same] at failed ⊢
    exact ⟨i, isOpen, .refused failed⟩
  | failed started ran =>
    have starts := startAll_starts additive started
    obtain ⟨i, isOpen, alone⟩ := alone_of_failed additive starts kernels ran
    have each := starts _ (List.getElem_mem i.isLt) (List.mem_filter.mp isOpen).2
    exact ⟨i, isOpen, .alone each alone⟩

/-- Where it does not, neither does it at any of them. -/
theorem journalEnds_of_done (additive : ∀ journal, Additive (report journal))
    (ends : CommandEnds report journals kernels (.ok ())) {i : Fin journals.length}
    (isOpen : i ∈ opened journals) :
    JournalEnds (kernels i) (report (journals.get i)) (journals.get i) (.ok ()) := by
  cases ends with
  | done started ran ended =>
    have starts := startAll_starts additive started
    have each := starts _ (List.getElem_mem i.isLt) (List.mem_filter.mp isOpen).2
    obtain ⟨k, rfl⟩ := exists_pointee additive starts isOpen
    obtain ⟨own, finished⟩ := ended k
    obtain ⟨cache, alone⟩ := alone_of_done additive starts kernels ran finished
    exact .alone each alone

/-- Where the command comes to something at each journal, every run of it can be taken to an
end. -/
theorem commandEnds_of_each (additive : ∀ journal, Additive (report journal))
    (each : ∀ i ∈ opened journals, ∃ r,
      JournalEnds (kernels i) (report (journals.get i)) (journals.get i) r)
    (started : 0 ≤ (startAll report journals).r)
    {schedule : List (Fin (startAll report journals).user.foos.length)}
    {last : Processes _ (Foo journals.length Own) (Heap journals.length Totals)}
    (ran : runCommand report journals kernels schedule = .ok last) :
    ∃ more, (∃ code, runCommand report journals kernels (schedule ++ more) = .error code) ∨
      ∃ final, runCommand report journals kernels (schedule ++ more) = .ok final ∧
        ∀ k, ∃ own, (final.own k).status = .finished own := by
  have starts := startAll_starts additive started
  refine exists_end additive starts kernels ?_ ran
  intro i isOpen
  obtain ⟨r, ends⟩ := each i isOpen
  cases ends with
  | refused failed =>
    exact absurd failed
      (not_lt.mpr (starts _ (List.getElem_mem i.isLt) (List.mem_filter.mp isOpen).2))
  | alone _ alone => exact ⟨_, alone⟩

/-- The command ends, if it does at each journal. -/
theorem exists_commandEnds (additive : ∀ journal, Additive (report journal))
    (each : ∀ i ∈ opened journals, ∃ r,
      JournalEnds (kernels i) (report (journals.get i)) (journals.get i) r) :
    ∃ r, CommandEnds report journals kernels r := by
  by_cases failed : (startAll report journals).r < 0
  · exact ⟨_, .refused failed⟩
  · have started := not_lt.mp failed
    obtain ⟨more, ⟨code, ran⟩ | ⟨final, ran, ended⟩⟩ :=
      commandEnds_of_each additive each started
        (show runCommand report journals kernels [] = .ok _ from rfl)
    · exact ⟨_, .failed started ran⟩
    · exact ⟨_, .done started ran ended⟩

theorem commandEnds_done_iff (additive : ∀ journal, Additive (report journal)) :
    CommandEnds report journals kernels (.ok ()) ↔ ∀ i ∈ opened journals,
      JournalEnds (kernels i) (report (journals.get i)) (journals.get i) (.ok ()) := by
  constructor
  · exact fun ends i isOpen => journalEnds_of_done additive ends isOpen
  · intro each
    obtain ⟨r, ends⟩ := exists_commandEnds additive fun i isOpen => ⟨_, each i isOpen⟩
    cases r with
    | ok => exact ends
    | error code =>
      obtain ⟨i, isOpen, failed⟩ := journalEnds_of_failed additive ends
      cases failed.unique (each i isOpen)

/-- Of one open journal, that is how the command ends. -/
theorem commandEnds_singleton (additive : ∀ journal, Additive (report journal))
    {journal : JournalOnDisk} (isOpen : journal.isOpen = true) (kernel : Kernel)
    (r : Except (Except Fault Int) Unit) :
    CommandEnds report [journal] (fun _ => kernel) r ↔
      JournalEnds kernel (report journal) journal r := by
  have only : opened [journal] = [⟨0, Nat.zero_lt_one⟩] := opened_singleton isOpen
  have ends_of {r : Except (Except Fault Int) Unit}
      (ends : CommandEnds report [journal] (fun _ => kernel) r) :
      JournalEnds kernel (report journal) journal r := by
    cases r with
    | ok =>
      exact journalEnds_of_done additive ends (i := ⟨0, Nat.zero_lt_one⟩) (by simp [only])
    | error code =>
      obtain ⟨i, member, failed⟩ := journalEnds_of_failed additive ends
      rw [only, List.mem_singleton] at member
      subst member
      exact failed
  refine ⟨ends_of, ?_⟩
  intro ends
  obtain ⟨r', commandEnds⟩ : ∃ r', CommandEnds report [journal] (fun _ => kernel) r' := by
    refine exists_commandEnds additive fun i member => ?_
    rw [only, List.mem_singleton] at member
    subst member
    exact ⟨r, ends⟩
  rwa [ends.unique (ends_of commandEnds)]

section Contributing

variable {alone : JournalOnDisk → Own × Totals}

theorem comesTo_of_walk {kernel : Kernel} {report : Report Own Totals} {n : Nat}
    {start : Status Own × Cache} {own : Own} {cache : Cache} {c : Totals}
    (walked : walk (ownTurn kernel report) n start = some ((.finished own, cache), c)) :
    ComesTo (ownStep kernel report) start (.ok (.finished own, cache)) := by
  induction n generalizing start c with
  | zero =>
    obtain ⟨rfl, -⟩ := Prod.mk.inj (Option.some.inj walked)
    exact .rests ownStep_finished
  | succ n ih =>
    obtain ⟨next, d, c', turned, rest, -⟩ := walk_succ.mp walked
    have steps : ownStep kernel report start = .goesOn next := by
      unfold ownStep
      rw [turned]
    exact .goesOn steps (ih rest)

/-- Where each open journal brings something, the command succeeds, with what they bring. -/
theorem command_succeeds (additive : ∀ journal, Additive (report journal))
    (contributes : ∀ journal ∈ journals, journal.isOpen = true →
      Contributes report journal (alone journal)) (answers : Answers journals kernels) :
    (∀ r, CommandEnds report journals kernels r ↔ r = .ok ()) ∧
    ∀ schedule last, runCommand report journals kernels schedule = .ok last →
      (∀ k own, (last.own k).status = .finished own →
        own = (alone (journals.get (pointee report journals k))).1) ∧
      ((∀ k, ∃ own, (last.own k).status = .finished own) →
        last.shared.totals = ((opened journals).map fun i => (alone (journals.get i)).2).sum) ∧
      ∃ more final, runCommand report journals kernels (schedule ++ more) = .ok final ∧
        ∀ k, ∃ own, (final.own k).status = .finished own := by
  have starts := starts_of_contributes contributes
  have started : 0 ≤ (startAll report journals).r := by
    rw [startAll_eq additive starts]
  have ends (k : Fin (startAll report journals).user.foos.length) :
      let i := pointee report journals k
      ∃ cache, AloneEnds (kernels i) (report (journals.get i)) (journals.get i)
        (.ok (.finished (alone (journals.get i)).1, cache)) := by
    obtain ⟨n, cache, c, walked, -⟩ := walks_to_end additive contributes answers k
    exact ⟨cache, (comesTo_started additive starts kernels k _).mp (comesTo_of_walk walked)⟩
  have each (i : Fin journals.length) (isOpen : i ∈ opened journals) :
      JournalEnds (kernels i) (report (journals.get i)) (journals.get i) (.ok ()) := by
    obtain ⟨k, rfl⟩ := exists_pointee additive starts isOpen
    obtain ⟨cache, alone⟩ := ends k
    exact .alone (starts _ (List.getElem_mem _) (List.mem_filter.mp isOpen).2) alone
  have comesTo (i : Fin journals.length) (isOpen : i ∈ opened journals) :
      ∃ r, JournalEnds (kernels i) (report (journals.get i)) (journals.get i) r :=
    ⟨_, each i isOpen⟩
  have succeeds : CommandEnds report journals kernels (.ok ()) :=
    (commandEnds_done_iff additive).mpr each
  have never {code : Except Fault Int} : ¬CommandEnds report journals kernels (.error code) := by
    intro result
    obtain ⟨i, isOpen, failed⟩ := journalEnds_of_failed additive result
    cases failed.unique (each i isOpen)
  refine ⟨?_, ?_⟩
  · intro r
    refine ⟨fun result => ?_, fun same => same ▸ succeeds⟩
    cases r with
    | ok => rfl
    | error code => exact absurd result never
  · intro schedule last ran
    refine ⟨?_, ?_, ?_⟩
    · intro k own finished
      obtain ⟨cache, reached⟩ := alone_of_done additive starts kernels ran finished
      obtain ⟨cache', alone⟩ := ends k
      have same := Except.ok.inj (reached.unique alone)
      exact Status.finished.inj (congrArg Prod.fst same)
    · intro ended
      obtain ⟨schedule', ran'⟩ := run_of_runUntil ran
      exact (finished_run additive contributes answers ran' ended).2
    · obtain ⟨more, ⟨code, failed⟩ | ⟨final, done⟩⟩ :=
        commandEnds_of_each additive comesTo started ran
      · exact absurd (.failed started failed) never
      · exact ⟨more, final, done⟩

end Contributing

/-- Over any journals, with any kernels, reads that fail and journals that fault included: at one
journal the command ends in one way only. Over all of them it succeeds if it does at each, and
otherwise fails as it does at one of them; and where it ends at each, it can never go on forever
without being able to end. -/
def EndsAsAtEach (report : JournalOnDisk → Report Own Totals) : Prop :=
  ∀ (journals : List JournalOnDisk) (kernels : Fin journals.length → Kernel),
    let Ends := CommandEnds report journals kernels
    let EndsAt (i : Fin journals.length) :=
      CommandEnds report [journals.get i] fun _ => kernels i
    (∀ i ∈ opened journals, ∀ r r', EndsAt i r → EndsAt i r' → r = r') ∧
    (Ends (.ok ()) ↔ ∀ i ∈ opened journals, EndsAt i (.ok ())) ∧
    (∀ code, Ends (.error code) → ∃ i ∈ opened journals, EndsAt i (.error code)) ∧
    ((∀ i ∈ opened journals, ∃ r, EndsAt i r) → 0 ≤ (startAll report journals).r →
      ∀ schedule last, runCommand report journals kernels schedule = .ok last →
        ∃ more, (∃ code, runCommand report journals kernels (schedule ++ more) = .error code) ∨
          ∃ final, runCommand report journals kernels (schedule ++ more) = .ok final ∧
            ∀ k, ∃ own, (final.own k).status = .finished own)

theorem Additive.endsAsAtEach (additive : ∀ journal, Additive (report journal)) :
    EndsAsAtEach report := by
  intro journals kernels
  have alone (i : Fin journals.length) (isOpen : i ∈ opened journals)
      (r : Except (Except Fault Int) Unit) :=
    commandEnds_singleton additive (List.mem_filter.mp isOpen).2 (kernels i) r
  refine ⟨?_, ?_, ?_, ?_⟩
  · intro i isOpen r r' ends ends'
    exact ((alone i isOpen r).mp ends).unique ((alone i isOpen r').mp ends')
  · rw [commandEnds_done_iff additive]
    exact forall₂_congr fun i isOpen => (alone i isOpen _).symm
  · intro code ends
    obtain ⟨i, isOpen, failed⟩ := journalEnds_of_failed additive ends
    exact ⟨i, isOpen, (alone i isOpen _).mpr failed⟩
  · intro each started schedule last ran
    refine commandEnds_of_each additive (fun i isOpen => ?_) started ran
    obtain ⟨r, ends⟩ := each i isOpen
    exact ⟨r, (alone i isOpen r).mp ends⟩

end Commands

end Jio.ReportTotals
