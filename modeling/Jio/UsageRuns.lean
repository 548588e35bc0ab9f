import Jio.ReportTotals

/-! The report on usage from dispatch to dispatch. What `reportTurn` takes for one turn of a
journal is a walk of its closures, so its runs are runs of the closures, and both come to the
same total. -/
namespace Jio.ReportTotals
open ByteOrder ReadProgram Interleaving JournalsOpen

/-! ## Turns -/

/-- A program that comes to its dispatch comes there in turns that add nothing. -/
theorem walk_exec {Own Totals : Type} [AddCommMonoid Totals] {kernel : Kernel}
    {report : Report Own Totals} {cache cache' : Cache} {program : Reading Own} {own : Own}
    (ran : exec (cachedReader kernel) cache program = .ok (cache', .dispatched own)) : ∃ n,
      walk (ownTurn kernel report) n (.running program, cache) =
        some ((.running (.dispatch own), cache'), 0) := by
  induction program generalizing cache with
  | dispatch own' =>
    cases ran
    exact ⟨0, rfl⟩
  | fail code own' => cases ran
  | abort fault => cases ran
  | read request own' resume ih =>
    unfold exec at ran
    split at ran
    · cases ran
    · cases ran
    · rename_i middle answer answered
      cases @readTurns _ _ _ kernel report request own' resume cache with
      | stuck read => exact absurd answered (read middle answer)
      | answered n middle' dest read first =>
        obtain ⟨rfl, same⟩ := Prod.mk.inj (Except.ok.inj (answered.symm.trans read))
        obtain rfl := Except.ok.inj same
        obtain ⟨n', walked⟩ := ih _ ran
        exact ⟨n + 1 + n', walk_append.mpr ⟨_, 0, 0, first, walked, (add_zero 0).symm⟩⟩

/-- Between two dispatches nothing is made of what the closures keep. -/
theorem journalIterNextObject_at {υ : Type} (host : Endian) (header : Header)
    (object : UInt64 × ObjectHeader) (user : υ) :
    journalIterNextObject host header (.at object user) =
      (journalIterNextObject host header (.at object ())).map
        fun cells => .at cells.object user := by
  unfold journalIterNextObject
  rw [show Iteration.advance (.at object user) header = Iteration.advance (.at object ()) header
    from rfl]
  dsimp only
  split <;> rfl

/-- Where `reportTurn` leaves a journal, as its closures are here. -/
def usageStatus (host : Endian) (header : Header) (size : UInt64) (own : JournalReport) :
    Status (Iteration UsageFoo) × Cache :=
  let foo : Iteration UsageFoo := { own.cells with user := ⟨header, own.cells.user, size⟩ }
  (if own.finished then .finished foo else .running (journalIterNextObject host header foo),
    own.cache)

theorem perDataObject_dispatched {ρ : Type}
    {reader : Reader (UInt64 × UInt64) (List UInt8) Int Fault ρ} {r r' : ρ}
    {cells cells' : Iteration (Usage × Usage)}
    (ran : exec reader r (journalIterObjectsDispatch perDataObject cells) =
      .ok (r', .dispatched cells')) : r = r' ∧ ∃ usage total,
        cells.user.1.tally cells.iterObjectHeader = .ok usage ∧
        cells.user.2.tally cells.iterObjectHeader = .ok total ∧
        cells' = { cells with user := (usage, total) } := by
  unfold journalIterObjectsDispatch perDataObject at ran
  cases alone : cells.user.1.tally cells.iterObjectHeader with
  | error fault => simp [alone, bind, Except.bind, exec] at ran
  | ok usage =>
    cases together : cells.user.2.tally cells.iterObjectHeader with
    | error fault => simp [alone, together, bind, Except.bind, exec] at ran
    | ok total =>
      simp only [alone, together, bind_ok] at ran
      cases ran
      exact ⟨rfl, usage, total, rfl, rfl, rfl⟩

/-- All a turn of `reportTurn` can do: come to its next dispatch, and tally there. -/
theorem reportTurn_cases {host : Endian} {journals : List WellFormedJournal}
    {i : Fin journals.length} {own own' : JournalReport} {total total' : Usage}
    (took : reportTurn journals host i own total = some (own', total')) :
    own.finished = false ∧ ∃ visit cache usage,
      (∀ {τ : Type} (user : τ), exec (cachedReader (journals.get i).kernel) own.cache
        (journalIterNextObject host (journals.get i).header (.at own.cells.object user)) =
          .ok (cache, .dispatched (.at visit user))) ∧
      own.cells.user.tally visit.2 = .ok usage ∧ total.tally visit.2 = .ok total' ∧
      own' = ⟨cache, .at visit usage, (Iteration.at visit usage).ended⟩ := by
  have mapped {τ : Type} (user : τ) : exec (cachedReader (journals.get i).kernel) own.cache
      (journalIterNextObject host (journals.get i).header (.at own.cells.object user)) =
        (exec (cachedReader (journals.get i).kernel) own.cache (journalIterNextObject host
          (journals.get i).header (.at own.cells.object ()))).map fun (cache, ended) =>
            (cache, ended.map fun cells => Iteration.at cells.object user) := by
    rw [journalIterNextObject_at, exec_map]
  unfold reportTurn at took
  split at took
  · cases took
  rename_i unfinished
  refine ⟨eq_false_of_ne_true unfinished, ?_⟩
  dsimp only at took
  split at took
  · rename_i cache cells ran
    obtain ⟨rfl, rfl⟩ := Prod.mk.inj (Option.some.inj took)
    change exec (cachedReader (journals.get i).kernel) _ (journalIterObjectsStep host
      (journals.get i).header _ (.at own.cells.object (own.cells.user, total))) = _ at ran
    rw [journalIterObjectsStep, exec_andThen, mapped] at ran
    cases bare : exec (cachedReader (journals.get i).kernel) own.cache
        (journalIterNextObject host (journals.get i).header (.at own.cells.object ())) with
    | error fault =>
      rw [bare] at ran
      cases ran
    | ok reply =>
      rw [bare] at ran
      obtain ⟨middle, base | ⟨code, base⟩⟩ := reply
      · obtain ⟨rfl, usage, total', alone, together, rfl⟩ := perDataObject_dispatched ran
        refine ⟨base.object, middle, usage, fun user => ?_, alone, together, rfl⟩
        rw [mapped, bare]
        rfl
      · cases ran
  · cases took

/-- A turn from one dispatch to the next is some turns, which add what it adds. -/
theorem reportTurn_walks {host : Endian} {journals : List WellFormedJournal}
    {i : Fin journals.length} {own own' : JournalReport} {total total' : Usage}
    (took : reportTurn journals host i own total = some (own', total'))
    (journal : JournalOnDisk) (size : UInt64) : ∃ n d,
      walk (ownTurn (journals.get i).kernel (usageReport host journal)) n
        (usageStatus host (journals.get i).header size own) =
          some (usageStatus host (journals.get i).header size own', d) ∧
      ∀ fileSize nJournals, (⟨total', fileSize, nJournals⟩ : UsageTotals) =
        ⟨total, fileSize, nJournals⟩ + d := by
  obtain ⟨unfinished, visit, cache, usage, reads, alone, together, rfl⟩ := reportTurn_cases took
  let foo : Iteration UsageFoo := .at visit ⟨(journals.get i).header, own.cells.user, size⟩
  let foo' : Iteration UsageFoo := .at visit ⟨(journals.get i).header, usage, size⟩
  have dispatched (fileSize : UInt64) (nJournals : UInt32) :
      (usageReport host journal).closure foo ⟨total, fileSize, nJournals⟩ =
        .ok (1, foo', ⟨total', fileSize, nJournals⟩) := by
    simp only [usageReport, perDataObject, foo, Iteration.at, alone, together, bind_ok]
    rfl
  have additive := (usageReport_additive host journal).closure foo
  obtain ⟨d, ran⟩ : ∃ d, (usageReport host journal).closure foo 0 = .ok (1, foo', d) := by
    have whole := (additive ⟨total, 0, 0⟩).symm.trans (dispatched 0 0)
    cases ran : (usageReport host journal).closure foo 0 with
    | error fault =>
      rw [ran] at whole
      cases whole
    | ok result =>
      rw [ran] at whole
      obtain ⟨r, left, d⟩ := result
      obtain ⟨rfl, rest⟩ := Prod.mk.inj (Except.ok.inj whole)
      obtain ⟨rfl, -⟩ := Prod.mk.inj rest
      exact ⟨d, rfl⟩
  obtain ⟨n, walked⟩ := @walk_exec _ _ _ _ (usageReport host journal) _ _ _ _
    (reads (⟨(journals.get i).header, own.cells.user, size⟩ : UsageFoo))
  have last : walk (ownTurn (journals.get i).kernel (usageReport host journal)) 1
      (.running (.dispatch foo), cache) = some (usageStatus host (journals.get i).header size
        ⟨cache, .at visit usage, (Iteration.at visit usage).ended⟩, d) := by
    refine walk_succ.mpr ⟨_, d, 0, ?_, rfl, (add_zero d).symm⟩
    simp only [ownTurn, journalTurn, ran, show ¬(1 : Int) < 0 by decide, ↓reduceIte, usageStatus,
      Iteration.ended, decide_eq_true_eq]
    by_cases ended : visit.1 = 0
    · rw [show (usageReport host journal).again foo' = none from if_pos ended]
      exact congrArg some (Prod.ext (Prod.ext (if_pos ended).symm rfl) rfl)
    · rw [show (usageReport host journal).again foo' = _ from if_neg ended]
      exact congrArg some (Prod.ext (Prod.ext (if_neg ended).symm rfl) rfl)
  refine ⟨n + 1, d, walk_append.mpr ⟨_, 0, d, ?_, last, (zero_add d).symm⟩, ?_⟩
  · rw [usageStatus, unfinished]
    exact walked
  · intro fileSize nJournals
    have whole := (dispatched fileSize nJournals).symm.trans (additive _)
    rw [ran] at whole
    exact (Prod.mk.inj (Prod.mk.inj (Except.ok.inj whole)).2).2

/-! ## Runs -/

/-- A state of the reports by dispatches, as it is here. -/
def usageView (host : Endian) {journals : List WellFormedJournal}
    (sizes : Fin journals.length → UInt64) (fileSize : UInt64) (nJournals : UInt32)
    (state : Processes (Fin journals.length) JournalReport Usage) :
    Processes (Fin journals.length) (Status (Iteration UsageFoo) × Cache) UsageTotals where
  own i := usageStatus host (journals.get i).header (sizes i) (state.own i)
  shared := ⟨state.shared, fileSize, nJournals⟩

/-- Every run from dispatch to dispatch is a run of the closures. -/
theorem reportRun_is_run {host : Endian} {journals : List WellFormedJournal}
    (onDisk : Fin journals.length → JournalOnDisk) (sizes : Fin journals.length → UInt64)
    (fileSize : UInt64) (nJournals : UInt32) {schedule : List (Fin journals.length)}
    {state last : Processes (Fin journals.length) JournalReport Usage}
    (ran : run (reportTurn journals host) state schedule = some last) : ∃ schedule',
      run (adding fun i => ownTurn (journals.get i).kernel (usageReport host (onDisk i)))
        (usageView host sizes fileSize nJournals state) schedule' =
          some (usageView host sizes fileSize nJournals last) := by
  induction schedule generalizing state with
  | nil =>
    obtain rfl := Option.some.inj ran
    exact ⟨[], rfl⟩
  | cons i schedule ih =>
    obtain ⟨next, took, rest⟩ := Option.bind_eq_some_iff.mp ran
    obtain ⟨own', total', acted, rfl⟩ := turn_some took
    obtain ⟨n, d, walked, adds⟩ := reportTurn_walks acted (onDisk i) (sizes i)
    let step (i : Fin journals.length) :=
      ownTurn (journals.get i).kernel (usageReport host (onDisk i))
    let view := usageView host sizes fileSize nJournals
    have walked : walk (step i) n ((view state).own i) =
        some (usageStatus host (journals.get i).header (sizes i) own', d) := walked
    obtain ⟨first, begun⟩ := run_walk walked
    obtain ⟨later, ended⟩ := ih rest
    refine ⟨first ++ later, ?_⟩
    show run (adding step) (view state) _ = _
    rw [run_append, begun, Option.bind_some, ← ended]
    refine congrArg (run _ · later) (congrArg₂ Processes.mk (funext fun j => ?_) (adds ..).symm)
    by_cases here : j = i
    · subst here
      simp [view, usageView]
    · simp [view, usageView, here]

/-- A journal of the directory with what `reportTurn` has of it. -/
structure Reported (onDisk : JournalOnDisk) (journal : WellFormedJournal) : Prop where
  isOpen : onDisk.isOpen = true
  file : onDisk.file = journal.file
  header : onDisk.file.header = journal.header
  large : 256 ≤ onDisk.file.size
  found : 0 ≤ onDisk.sys.fstat

theorem tallied_unique {usage usage' : Usage} {objects : List ObjectHeader}
    (tallied : usage.Tallied objects) (tallied' : usage'.Tallied objects) : usage = usage' := by
  apply Usage.ext
  · exact Vector.ext fun type known => (tallied.count type known).trans
      (tallied'.count type known).symm
  · exact Vector.ext fun type known => (tallied.use type known).trans
      (tallied'.use type known).symm
  · exact tallied.total.trans tallied'.total.symm

/-- Where the report on usage finishes, what is dispatched of each journal is tallied. -/
theorem usageReport_tallied {host : Endian} {onDisk : List JournalOnDisk}
    {shown : JournalOnDisk → WellFormedJournal}
    (reported : ∀ journal ∈ onDisk, Reported journal (shown journal))
    {foos : List (Foo onDisk.length (Iteration UsageFoo))} {totals : UsageTotals}
    (finishes : Finishes (usageReport host) onDisk foos totals) :
    totals.usage.Tallied
      ((onDisk.map shown).flatMap fun journal => journal.dispatched.map Prod.snd) := by
  have each : ∀ journal ∈ onDisk, ∃ alone : Iteration UsageFoo × UsageTotals,
      Contributes (usageReport host) journal alone ∧
        alone.2.usage.Tallied ((shown journal).dispatched.map Prod.snd) := by
    intro journal member
    obtain ⟨isOpen, file, header, large, found⟩ := reported journal member
    obtain ⟨own, totals, finishes, tallied, -⟩ :=
      usageReport_finishes host (shown journal) isOpen file header large found
    exact ⟨(own, totals), contributes_of_alone (usageReport_additive host) isOpen finishes, tallied⟩
  have : Nonempty (Iteration UsageFoo × UsageTotals) :=
    ⟨.at (0, zeroObjectHeader) ⟨default, zeroUsage, 0⟩, 0⟩
  choose! alone contributes tallied using each
  obtain ⟨-, rfl⟩ := (finishes_iff (usageReport_additive host)
    (fun journal member _ => contributes journal member) foos totals).mp finishes
  rw [List.filter_eq_self.mpr fun journal member => (reported journal member).isOpen]
  clear finishes reported contributes foos
  induction onDisk with
  | nil => exact zeroUsage_tallied
  | cons journal others ih =>
    have rest := ih fun other member => tallied other (.tail _ member)
    exact tallied_add (tallied journal (.head _)) rest

/-- Whatever schedules they finish under, both have the same total. -/
theorem reports_agree {host : Endian} {onDisk : List JournalOnDisk}
    {shown : JournalOnDisk → WellFormedJournal}
    (reported : ∀ journal ∈ onDisk, Reported journal (shown journal))
    {schedule : List (Fin (onDisk.map shown).length)}
    {last : Processes (Fin (onDisk.map shown).length) JournalReport Usage}
    (ran : run (reportTurn (onDisk.map shown) host) (reportStart (onDisk.map shown)) schedule =
      some last)
    (finished : ∀ i, (last.own i).finished = true)
    {foos : List (Foo onDisk.length (Iteration UsageFoo))} {totals : UsageTotals}
    (finishes : Finishes (usageReport host) onDisk foos totals) : totals.usage = last.shared :=
  tallied_unique (usageReport_tallied reported finishes) (finished_total ran finished)

end Jio.ReportTotals
