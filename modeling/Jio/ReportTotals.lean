import Mathlib.Algebra.BigOperators.Fin
import Mathlib.Data.List.OfFn
import Jio.EntryArrayStats
import Jio.Reports

/-! The totals of a report are sums. Each journal's closures go on as if they were alone, under
every schedule and every kernel, because a `foo` works on its own journal only; what they
add does not depend on the totals they add it to. -/
namespace Jio.ReportTotals
open ByteOrder ReadProgram Interleaving JournalsOpen

/-! ## One journal -/

section OneJournal

variable {Own Totals : Type} [AddCommMonoid Totals] {kernel : Kernel} {report : Report Own Totals}
  {file : JournalFile} {cache : Cache} {own : Own}

/-- A turn of one journal's closures, and what it adds to the totals. -/
def ownTurn (kernel : Kernel) (report : Report Own Totals) (own : Status Own × Cache) :
    Option ((Status Own × Cache) × Totals) :=
  (journalTurn kernel report own.1 own.2 0).map fun (status, cache, totals) =>
    ((status, cache), totals)

theorem journalTurn_additive (additive : Additive report) (kernel : Kernel) (status : Status Own)
    (cache : Cache) (totals : Totals) : journalTurn kernel report status cache totals =
      (ownTurn kernel report (status, cache)).map
        fun ran => (ran.1.1, ran.1.2, totals + ran.2) := by
  unfold ownTurn journalTurn
  cases status with
  | finished own => rfl
  | waiting op resume =>
    dsimp only
    split <;> simp
  | running program =>
    cases program with
    | fail code own => rfl
    | abort fault => rfl
    | read request own resume =>
      dsimp only
      split <;> simp
    | dispatch own =>
      dsimp only
      rw [additive.closure own totals]
      cases report.closure own 0 with
      | error fault => rfl
      | ok ran =>
        dsimp only [Except.map]
        split
        · rfl
        · cases report.again ran.2.1 <;> rfl

theorem ownTurn_finished (own : Own) (cache : Cache) :
    ownTurn kernel report (.finished own, cache) = none := rfl

/-- A read goes on with its answer, after one turn or two, or never goes on. -/
inductive ReadTurns (kernel : Kernel) (report : Report Own Totals) (request : UInt64 × UInt64)
    (own : Own) (resume : List UInt8 → Reading Own) (cache : Cache) : Prop where
  | answered (n : Nat) (cache' : Cache) (dest : List UInt8)
    (read : cachedReader kernel cache request = .ok (cache', .ok dest))
    (walked : walk (ownTurn kernel report) (n + 1) (.running (.read request own resume), cache) =
      some ((.running (resume dest), cache'), 0))
  | stuck (read : ∀ cache' dest, cachedReader kernel cache request ≠ .ok (cache', .ok dest))
    (walked : ∀ n own' cache' c,
      walk (ownTurn kernel report) n (.running (.read request own resume), cache) ≠
        some ((.finished own', cache'), c))

theorem never_finishes {status : Status Own}
    (blocked : ownTurn kernel report (status, cache) = none)
    (unfinished : ∀ own, status ≠ .finished own) (n : Nat) (own : Own) (cache' : Cache)
    (c : Totals) :
    walk (ownTurn kernel report) n (status, cache) ≠ some ((.finished own, cache'), c) := by
  intro walked
  cases n with
  | zero =>
    obtain ⟨same, -⟩ := Prod.mk.inj (Option.some.inj walked)
    exact unfinished own (Prod.mk.inj same).1
  | succ n =>
    obtain ⟨l, d, c', stepped, -, -⟩ := walk_succ.mp walked
    rw [blocked] at stepped
    cases stepped

theorem readTurns (request : UInt64 × UInt64) (own : Own) (resume : List UInt8 → Reading Own)
    (cache : Cache) : ReadTurns kernel report request own resume cache := by
  obtain ⟨offset, length⟩ := request
  cases submitted : journalRead cache.journal (kernel.opNew cache.clock) offset length with
  | error fault =>
    apply ReadTurns.stuck
    · simp [cachedReader, submitted]
    · exact never_finishes (by simp [ownTurn, journalTurn, submitted]) (by simp)
  | ok ran =>
    obtain ⟨journal, dest | op | code⟩ := ran
    · apply ReadTurns.answered 0 ⟨journal, cache.clock + 1⟩ dest
      · simp only [cachedReader, submitted]
      · exact walk_succ.mpr ⟨_, 0, 0, by simp only [ownTurn, journalTurn, submitted]; rfl, rfl,
          (add_zero 0).symm⟩
    · have queued : ownTurn kernel report (.running (.read (offset, length) own resume), cache) =
          some ((.waiting op resume, ⟨journal, cache.clock⟩), 0) := by
        simp only [ownTurn, journalTurn, submitted]
        rfl
      let answer := kernel.answer cache.clock op.offset op.nbytes
      cases completed : bufGotRead (journal.kernelWrites op answer.data) op answer.result
        answer.data with
      | mk journal' outcome =>
        cases outcome with
        | error code =>
          apply ReadTurns.stuck
          · simp [cachedReader, submitted, answer, completed]
          · intro n own' cache' c walked
            cases n with
            | zero => cases walked
            | succ n =>
              obtain ⟨l, d, c', stepped, rest, -⟩ := walk_succ.mp walked
              obtain ⟨rfl, rfl⟩ := Prod.mk.inj (Option.some.inj (queued.symm.trans stepped))
              exact never_finishes (by simp [ownTurn, journalTurn, answer, completed]) (by simp)
                _ _ _ _ rest
        | ok dest =>
          apply ReadTurns.answered 1 ⟨journal', cache.clock + 1⟩ dest
          · simp [cachedReader, submitted, answer, completed]
          · have answered : ownTurn kernel report (.waiting op resume, ⟨journal, cache.clock⟩) =
                some ((.running (resume dest), ⟨journal', cache.clock + 1⟩), 0) := by
              simp [ownTurn, journalTurn, answer, completed]
            apply walk_succ.mpr ⟨_, 0, 0, queued, ?_, (add_zero 0).symm⟩
            exact walk_succ.mpr ⟨_, 0, 0, answered, rfl, (add_zero 0).symm⟩
    · apply ReadTurns.stuck
      · simp [cachedReader, submitted]
      · exact never_finishes (by simp [ownTurn, journalTurn, submitted]) (by simp)

/-- Against the file, this program comes to its end with `own`, and adds `c` to the totals. -/
inductive Comes (file : JournalFile) (report : Report Own Totals) (own : Own) :
    Reading Own → Totals → Prop
  | read {request : UInt64 × UInt64} {own' : Own} {resume : List UInt8 → Reading Own}
      {answer : List UInt8} {c : Totals}
      (answered : fileReader file () request = .ok ((), .ok answer))
      (rest : Comes file report own (resume answer) c) :
      Comes file report own (.read request own' resume) c
  | last {own' : Own} {r : Int} {d : Totals} (ran : report.closure own' 0 = .ok (r, own, d))
      (ok : 0 ≤ r) (done : report.again own = none) : Comes file report own (.dispatch own') d
  | next {own' own'' : Own} {r : Int} {d c : Totals} {program : Reading Own}
      (ran : report.closure own' 0 = .ok (r, own'', d)) (ok : 0 ≤ r)
      (goes : report.again own'' = some program) (rest : Comes file report own program c) :
      Comes file report own (.dispatch own') (d + c)

/-- A program whose closure comes to its end comes to it as well. -/
theorem Comes.andThen {program : Reading Own} {closure : Own → Reading Own} {own' : Own}
    {c : Totals} (ran : exec (fileReader file) () program = .ok ((), .dispatched own'))
    (rest : Comes file report own (closure own') c) :
    Comes file report own (program.andThen closure) c := by
  induction program with
  | dispatch s =>
    cases ran
    exact rest
  | fail code s => cases ran
  | abort fault => cases ran
  | read request s resume ih =>
    unfold exec at ran
    split at ran
    · cases ran
    · cases ran
    · rename_i answered
      exact .read answered (ih _ ran)

theorem Comes.of_dispatched {program : Reading Own} {own' : Own} {c : Totals}
    (ran : exec (fileReader file) () program = .ok ((), .dispatched own'))
    (rest : Comes file report own (.dispatch own') c) : Comes file report own program c := by
  rw [← program.andThen_dispatch]
  exact .andThen ran rest

theorem Comes.walk {program : Reading Own} {c : Totals} (comes : Comes file report own program c)
    (serves : kernel.ServesFile file) (reliable : kernel.Reliable)
    (invariant : CacheInvariant file cache.journal) : ∃ n cache',
      Interleaving.walk (ownTurn kernel report) n (.running program, cache) =
        some ((.finished own, cache'), c) := by
  induction comes generalizing cache with
  | read answered rest ih =>
    rename_i request own' resume answer c
    obtain ⟨next, ran, kept⟩ :=
      cachedReader_refines serves reliable cache () request () (.ok answer) invariant answered
    cases @readTurns _ _ _ kernel report request own' resume cache with
    | stuck read => exact absurd ran (read next answer)
    | answered n cache' dest read walked =>
      rw [ran] at read
      obtain ⟨rfl, same⟩ := Prod.mk.inj (Except.ok.inj read)
      obtain rfl := Except.ok.inj same
      obtain ⟨n', last, goes⟩ := ih kept
      exact ⟨n + 1 + n', last, walk_append.mpr ⟨_, 0, c, walked, goes, (zero_add c).symm⟩⟩
  | last ran ok done =>
    refine ⟨1, cache, walk_succ.mpr ⟨_, _, 0, ?_, rfl, (add_zero _).symm⟩⟩
    simp only [ownTurn, journalTurn, ran, not_lt.mpr ok, ↓reduceIte, done, Option.map_some]
  | next ran ok goes rest ih =>
    obtain ⟨n, last, walked⟩ := ih invariant
    refine ⟨n + 1, last, walk_succ.mpr ⟨_, _, _, ?_, walked, rfl⟩⟩
    simp only [ownTurn, journalTurn, ran, not_lt.mpr ok, ↓reduceIte, goes, Option.map_some]

theorem comes_of_walk (serves : kernel.ServesFile file) {n : Nat} {program : Reading Own}
    {cache' : Cache} {c : Totals} (invariant : CacheInvariant file cache.journal)
    (walked : walk (ownTurn kernel report) n (.running program, cache) =
      some ((.finished own, cache'), c)) : Comes file report own program c := by
  induction n using Nat.strong_induction_on generalizing program cache c with
  | _ n ih =>
    cases program with
    | read request own' resume =>
      cases @readTurns _ _ _ kernel report request own' resume cache with
      | stuck read never => exact absurd walked (never n own cache' c)
      | answered n' middle dest read first =>
        obtain ⟨kept, answered⟩ := cachedReader_answers serves invariant read
        obtain ⟨n'', c', shape, rest, rfl⟩ := walk_rest walked (ownTurn_finished own cache') first
        rw [zero_add]
        exact .read answered (ih n'' (by omega) kept rest)
    | dispatch own' =>
      cases n with
      | zero => cases walked
      | succ n =>
        obtain ⟨l, d, c', stepped, rest, rfl⟩ := walk_succ.mp walked
        simp only [ownTurn, journalTurn] at stepped
        cases ran : report.closure own' 0 with
        | error fault => simp [ran] at stepped
        | ok ran' =>
          obtain ⟨r, own'', d'⟩ := ran'
          simp only [ran] at stepped
          by_cases failed : r < 0
          · simp [failed] at stepped
          · cases goes : report.again own'' with
            | none =>
              simp only [failed, ↓reduceIte, goes, Option.map_some, Option.some.injEq,
                Prod.mk.injEq] at stepped
              obtain ⟨rfl, rfl⟩ := stepped
              obtain ⟨same, rfl⟩ := walk_stopped (ownTurn_finished own'' cache) rest
              obtain rfl := Status.finished.inj (Prod.mk.inj same).1
              rw [add_zero]
              exact .last ran (not_lt.mp failed) goes
            | some program =>
              simp only [failed, ↓reduceIte, goes, Option.map_some, Option.some.injEq,
                Prod.mk.injEq] at stepped
              obtain ⟨rfl, rfl⟩ := stepped
              exact .next ran (not_lt.mp failed) goes (ih n (Nat.lt_succ_self n) invariant rest)
    | fail code own' => exact absurd walked (never_finishes rfl (by simp) n own cache' c)
    | abort fault => exact absurd walked (never_finishes rfl (by simp) n own cache' c)

end OneJournal

/-! ## All of them -/

section Views

variable {n : Nat} {κ Own Totals : Type}
  {kernels : Fin n → Kernel} {reports : Fin n → Report Own Totals} {idx : κ → Fin n}
  {state next : Processes κ (Foo n Own) (Heap n Totals)}

/-- Each `foo` together with the cache of its journal. -/
def ownView (state : Processes κ (Foo n Own) (Heap n Totals)) :
    Processes κ (Status Own × Cache) Totals where
  own k := ((state.own k).status, state.shared.caches (state.own k).journal)
  shared := state.shared.totals

/-- The journals the `foo`s point at. -/
def PointsAt (idx : κ → Fin n) (state : Processes κ (Foo n Own) (Heap n Totals)) : Prop :=
  ∀ k, (state.own k).journal = idx k

theorem PointsAt.view (points : PointsAt idx state) (k : κ) :
    (ownView state).own k = ((state.own k).status, state.shared.caches (idx k)) :=
  Prod.ext rfl (congrArg state.shared.caches (points k))

variable [DecidableEq κ]

theorem fooTurn_points (points : PointsAt idx state) {k : κ}
    (took : turn (fun _ => fooTurn kernels reports) state k = some next) : PointsAt idx next := by
  obtain ⟨foo, heap, acted, rfl⟩ := turn_some took
  obtain ⟨ran, -, same⟩ := Option.map_eq_some_iff.mp acted
  obtain ⟨rfl, -⟩ := Prod.mk.inj same
  intro j
  by_cases here : j = k
  · subst here
    simpa using points j
  · simpa [here] using points j

variable [AddCommMonoid Totals]

/-- A turn is a turn of the journal's own closures, and adds what it adds alone. -/
theorem fooTurn_view (additive : ∀ i, Additive (reports i)) (distinct : Function.Injective idx)
    (points : PointsAt idx state) (k : κ) :
    (turn (fun _ => fooTurn kernels reports) state k).map ownView =
      turn (adding fun k => ownTurn (kernels (idx k)) (reports (idx k))) (ownView state) k := by
  unfold turn fooTurn adding
  dsimp only [ownView]
  rw [journalTurn_additive (additive _)]
  rw [points k]
  cases ownTurn (kernels (idx k)) (reports (idx k))
      ((state.own k).status, state.shared.caches (idx k)) with
  | none => rfl
  | some ran =>
    obtain ⟨⟨status, cache⟩, d⟩ := ran
    refine congrArg some (congrArg (Processes.mk · _) (funext fun j => ?_))
    by_cases here : j = k
    · subst here
      simp
    · have apart : idx j ≠ idx k := fun same => here (distinct same)
      simp [here, points j, apart]

theorem run_ownView (additive : ∀ i, Additive (reports i)) (distinct : Function.Injective idx)
    (points : PointsAt idx state) (schedule : List κ) :
    (run (fun _ => fooTurn kernels reports) state schedule).map ownView =
      run (adding fun k => ownTurn (kernels (idx k)) (reports (idx k))) (ownView state) schedule :=
  run_view (fun _ _ _ points took => fooTurn_points points took)
    (fun _ k points => fooTurn_view additive distinct points k) points schedule

end Views

section Start

variable {n : Nat} {Own Totals : Type} [AddCommMonoid Totals] {reports : Fin n → Report Own Totals}
  {journals : Journals n}

/-- Each open journal gets a `foo`, and adds what `per_journal` adds. -/
theorem forEachFrom_starts (additive : ∀ i, Additive (reports i)) {slots : List (Fin n)}
    (goes : ∀ i ∈ slots, 0 ≤ (journals.journals i).fd → 0 ≤ ((reports i).perJournal 0).1)
    (started : Started n Own Totals) :
    let opened := slots.filter fun i => 0 ≤ (journals.journals i).fd
    forEachFrom journals (perJournal reports) slots started =
      ⟨0, opened, started.foos ++ opened.map fun i => ⟨i, .running (reports i).start⟩,
        started.totals + (opened.map fun i => ((reports i).perJournal 0).2).sum⟩ := by
  induction slots generalizing started with
  | nil => simp [forEachFrom]
  | cons i slots ih =>
    have rest := ih fun j member => goes j (by simp [member])
    unfold forEachFrom
    by_cases closed : (journals.journals i).fd < 0
    · rw [if_pos closed, List.filter_cons_of_neg (by simpa using closed)]
      exact rest started
    · have ok := goes i (by simp) (not_lt.mp closed)
      rw [if_neg closed, List.filter_cons_of_pos (by simpa using closed)]
      simp only [perJournal, (additive i).perJournal started.totals, not_lt.mpr ok, ↓reduceIte,
        lt_self_iff_false]
      rw [rest]
      simp [add_assoc]

/-- `journals_for_each` does not get past a `per_journal` that fails. -/
theorem forEachFrom_refuses (additive : ∀ i, Additive (reports i)) {slots : List (Fin n)}
    {started : Started n Own Totals}
    (ok : 0 ≤ (forEachFrom journals (perJournal reports) slots started).r) :
    ∀ i ∈ slots, 0 ≤ (journals.journals i).fd → 0 ≤ ((reports i).perJournal 0).1 := by
  induction slots generalizing started with
  | nil => simp
  | cons i slots ih =>
    unfold forEachFrom at ok
    by_cases closed : (journals.journals i).fd < 0
    · rw [if_pos closed] at ok
      intro j member isOpen
      rcases List.mem_cons.mp member with rfl | later
      · omega
      · exact ih ok j later isOpen
    · rw [if_neg closed] at ok
      by_cases failed : ((reports i).perJournal 0).1 < 0
      · simp only [perJournal, (additive i).perJournal started.totals, failed, ↓reduceIte] at ok
        omega
      · simp only [perJournal, (additive i).perJournal started.totals, failed, ↓reduceIte,
          lt_self_iff_false] at ok
        intro j member isOpen
        rcases List.mem_cons.mp member with rfl | later
        · exact not_lt.mp failed
        · exact ih ok j later isOpen

end Start

/-! ## Totals -/

section Reports

variable {Own Totals : Type} [AddCommMonoid Totals]
  {report : JournalOnDisk → Report Own Totals}

/-- The open ones, in order. -/
def opened (journals : List JournalOnDisk) : List (Fin journals.length) :=
  (List.finRange journals.length).filter fun i => (journals.get i).isOpen

theorem opened_singleton {journal : JournalOnDisk} (isOpen : journal.isOpen = true) :
    opened [journal] = [⟨0, Nat.zero_lt_one⟩] := by
  unfold opened
  rw [List.filter_eq_self.mpr fun i _ => by simpa using isOpen]
  rfl

theorem map_opened {α : Type} (journals : List JournalOnDisk) (f : JournalOnDisk → α) :
    (opened journals).map (fun i => f (journals.get i)) =
      (journals.filter JournalOnDisk.isOpen).map f := by
  conv_rhs => rw [← List.map_getElem_finRange journals, List.filter_map, List.map_map]
  rfl

/-- What the journal brings: `own` is what its closures end with, and `totals` what they add. -/
def Contributes (report : JournalOnDisk → Report Own Totals) (journal : JournalOnDisk)
    (alone : Own × Totals) : Prop :=
  0 ≤ ((report journal).perJournal 0).1 ∧ ∃ c,
    Comes journal.file (report journal) alone.1 (report journal).start c ∧
      alone.2 = ((report journal).perJournal 0).2 + c

/-- Every `per_journal` of an open journal succeeds. -/
def Starts (report : JournalOnDisk → Report Own Totals) (journals : List JournalOnDisk) : Prop :=
  ∀ journal ∈ journals, journal.isOpen = true → 0 ≤ ((report journal).perJournal 0).1

variable {journals : List JournalOnDisk}

theorem startAll_eq (additive : ∀ journal, Additive (report journal))
    (starts : Starts report journals) : startAll report journals = ⟨0, opened journals,
      (opened journals).map fun i => ⟨i, .running (report (journals.get i)).start⟩,
      ((opened journals).map fun i => ((report (journals.get i)).perJournal 0).2).sum⟩ := by
  have each : startAll report journals = ⟨0, opened journals,
      [] ++ (opened journals).map fun i => ⟨i, .running (report (journals.get i)).start⟩,
      (0 : Totals) +
        ((opened journals).map fun i => ((report (journals.get i)).perJournal 0).2).sum⟩ :=
    forEachFrom_starts (fun i => additive (journals.get i))
      (fun i _ isOpen => starts (journals.get i) (List.get_mem ..)
        (decide_eq_true (p := _ ≤ _) isOpen))
      ⟨[], 0⟩
  rwa [List.nil_append, zero_add] at each

theorem startAll_starts (additive : ∀ journal, Additive (report journal))
    (ok : 0 ≤ (startAll report journals).r) : Starts report journals := by
  intro journal member isOpen
  obtain ⟨i, bound, rfl⟩ := List.getElem_of_mem member
  exact forEachFrom_refuses (fun i => additive (journals.get i)) ok ⟨i, bound⟩ (List.mem_finRange _)
    (of_decide_eq_true isOpen)

/-- The journal a `foo` was allocated for. -/
def pointee (report : JournalOnDisk → Report Own Totals) (journals : List JournalOnDisk)
    (k : Fin (startAll report journals).user.foos.length) : Fin journals.length :=
  (startAll report journals).user.foos[k].journal

theorem started_points : PointsAt (pointee report journals) (started report journals) :=
  fun _ => rfl

section Started

variable (additive : ∀ journal, Additive (report journal)) (starts : Starts report journals)
include additive starts

theorem foos_eq : (startAll report journals).user.foos =
    (opened journals).map fun i => ⟨i, .running (report (journals.get i)).start⟩ := by
  rw [startAll_eq additive starts]

theorem map_foos {α : Type} (f : Fin journals.length → α) :
    ((startAll report journals).user.foos.map fun foo => f foo.journal) =
      (opened journals).map f := by
  rw [foos_eq additive starts, List.map_map]
  rfl

theorem sum_pointee (f : Fin journals.length → Totals) :
    ∑ k, f (pointee report journals k) = ((opened journals).map f).sum := by
  rw [← map_foos additive starts]
  exact Fin.sum_univ_fun_getElem _ fun foo : Foo journals.length Own => f foo.journal

theorem startAll_totals : (startAll report journals).user.totals =
    ((opened journals).map fun i => ((report (journals.get i)).perJournal 0).2).sum := by
  rw [startAll_eq additive starts]

theorem pointee_injective : Function.Injective (pointee report journals) := by
  have distinct : ((startAll report journals).user.foos.map Foo.journal).Nodup := by
    rw [map_foos additive starts fun i => i, List.map_id']
    exact (List.nodup_finRange _).filter _
  intro k j same
  have held : ∀ k : Fin (startAll report journals).user.foos.length,
      k < ((startAll report journals).user.foos.map Foo.journal).length := by simp
  refine Fin.ext ((@List.Nodup.getElem_inj_iff _ _ distinct k (held k) j (held j)).mp ?_)
  rw [List.getElem_map, List.getElem_map]
  exact same

theorem started_own (k : Fin (startAll report journals).user.foos.length) :
    pointee report journals k ∈ opened journals ∧ (ownView (started report journals)).own k =
      (.running (report (journals.get (pointee report journals k))).start,
        ⟨(journals.get (pointee report journals k)).journal, 0⟩) := by
  have every : ∀ foo ∈ (startAll report journals).user.foos,
      foo.journal ∈ opened journals ∧
        foo.status = .running (report (journals.get foo.journal)).start := by
    rw [foos_eq additive starts]
    intro foo member
    obtain ⟨i, isOpen, rfl⟩ := List.mem_map.mp member
    exact ⟨isOpen, rfl⟩
  obtain ⟨isOpen, status⟩ := every _ (List.getElem_mem k.isLt)
  exact ⟨isOpen, Prod.ext status rfl⟩

theorem reaches {kernels : Fin journals.length → Kernel}
    {schedule : List (Fin (startAll report journals).user.foos.length)}
    {last : Processes _ (Foo journals.length Own) (Heap journals.length Totals)}
    (ran : runReport report journals kernels schedule = some last) :
    PointsAt (pointee report journals) last ∧
      run (adding fun k => ownTurn (kernels (pointee report journals k))
        (report (journals.get (pointee report journals k)))) (ownView (started report journals))
          schedule = some (ownView last) := by
  constructor
  · exact run_invariant (fun _ _ _ points took => fooTurn_points points took) ran started_points
  · rw [← run_ownView (fun i => additive (journals.get i)) (pointee_injective additive starts)
      started_points schedule]
    exact congrArg (Option.map ownView) ran

end Started

/-- A journal whose report finishes alone brings something. -/
theorem exists_contribution (additive : ∀ journal, Additive (report journal))
    {journal : JournalOnDisk} (isOpen : journal.isOpen = true) {foos : List (Foo 1 Own)}
    {totals : Totals} (finishes : Finishes report [journal] foos totals) :
    ∃ alone, Contributes report journal alone := by
  obtain ⟨ok, kernels, schedule, last, answers, ran, shape, ended, -⟩ := finishes
  have starts := startAll_starts additive ok
  have single : (startAll report [journal]).user.foos.length = 1 := by
    rw [foos_eq additive starts]
    simp [opened, isOpen]
  let k : Fin (startAll report [journal]).user.foos.length := ⟨0, by omega⟩
  obtain ⟨points, alone⟩ := reaches additive starts ran
  obtain ⟨m, walks, -⟩ := run_adding alone
  obtain ⟨own, finished⟩ := ended (last.own k) (shape ▸ List.mem_ofFn.mpr ⟨k, rfl⟩)
  obtain ⟨-, start⟩ := started_own additive starts k
  have walked := walks k
  have final : (ownView last).own k = (.finished own, ((ownView last).own k).2) :=
    Prod.ext finished rfl
  have serves := (answers (pointee report [journal] k)).1
  have only : [journal].get (pointee report [journal] k) = journal := List.getElem_singleton _
  rw [only] at serves
  rw [start, final, only] at walked
  refine ⟨(own, ((report journal).perJournal 0).2 + m k), starts _ (by simp) isOpen, m k, ?_, rfl⟩
  have cached : CacheInvariant journal.file (Cache.mk journal.journal 0).journal :=
    journal.cached (of_decide_eq_true isOpen)
  exact comes_of_walk serves cached walked

section Contributing

variable {alone : JournalOnDisk → Own × Totals}

theorem starts_of_contributes (contributes : ∀ journal ∈ journals, journal.isOpen = true →
    Contributes report journal (alone journal)) : Starts report journals :=
  fun journal member isOpen => (contributes journal member isOpen).1

variable (additive : ∀ journal, Additive (report journal))
  (contributes : ∀ journal ∈ journals, journal.isOpen = true →
    Contributes report journal (alone journal))
include additive contributes

/-- Where the closures of each journal come to, and what they add. -/
theorem walks_to_end {kernels : Fin journals.length → Kernel} (answers : Answers journals kernels)
    (k : Fin (startAll report journals).user.foos.length) :
    let i := pointee report journals k
    ∃ n cache c, walk (ownTurn (kernels i) (report (journals.get i))) n
        ((ownView (started report journals)).own k) =
          some ((.finished (alone (journals.get i)).1, cache), c) ∧
      (alone (journals.get i)).2 = ((report (journals.get i)).perJournal 0).2 + c := by
  obtain ⟨isOpen, start⟩ := started_own additive (starts_of_contributes contributes) k
  have isOpen := (List.mem_filter.mp isOpen).2
  obtain ⟨-, c, comes, sum⟩ := contributes _ (List.getElem_mem _) isOpen
  obtain ⟨n, cache, walked⟩ := comes.walk (answers _).1 (answers _).2
    (show CacheInvariant _ (Cache.mk _ 0).journal from
      (journals.get (pointee report journals k)).cached (of_decide_eq_true isOpen))
  exact ⟨n, cache, c, start ▸ walked, sum⟩

section Reached

variable {kernels : Fin journals.length → Kernel}
  {schedule : List (Fin (startAll report journals).user.foos.length)}
  {last : Processes _ (Foo journals.length Own) (Heap journals.length Totals)}

/-- In every state reached, a `foo` is done or can go on. -/
theorem reached_goes_on (answers : Answers journals kernels)
    (ran : runReport report journals kernels schedule = some last)
    (k : Fin (startAll report journals).user.foos.length) :
    (∃ own, (last.own k).status = .finished own) ∨
      (fooTurn kernels (fun i => report (journals.get i)) (last.own k)
        last.shared).isSome = true := by
  obtain ⟨points, alone'⟩ := reaches additive (starts_of_contributes contributes) ran
  obtain ⟨m, walks, -⟩ := run_adding alone'
  obtain ⟨n, cache, c, walked, -⟩ := walks_to_end additive contributes answers k
  unfold fooTurn
  rw [Option.isSome_map, journalTurn_additive (additive _), Option.isSome_map, points k]
  cases stepped : ownTurn (kernels (pointee report journals k))
      (report (journals.get (pointee report journals k)))
      ((last.own k).status, last.shared.caches (pointee report journals k)) with
  | some ran => exact .inr rfl
  | none =>
    have stops := (congrArg (ownTurn _ _) (points.view k)).trans stepped
    obtain ⟨same, -⟩ := walk_stops walked (ownTurn_finished _ _) (walks k) stops
    exact .inl ⟨_, congrArg Prod.fst same⟩

/-- When all are done, each journal's closures have ended with what they end with alone, and
the totals are the sum of what they add alone. -/
theorem finished_run (answers : Answers journals kernels)
    (ran : runReport report journals kernels schedule = some last)
    (ended : ∀ k, ∃ own, (last.own k).status = .finished own) :
    List.ofFn last.own =
        (opened journals).map (fun i => ⟨i, .finished (alone (journals.get i)).1⟩) ∧
      last.shared.totals = ((opened journals).map fun i => (alone (journals.get i)).2).sum := by
  have starts := starts_of_contributes contributes
  obtain ⟨points, alone'⟩ := reaches additive starts ran
  obtain ⟨m, walks, sum⟩ := run_adding alone'
  have each : ∀ k, last.own k = ⟨pointee report journals k,
      .finished (alone (journals.get (pointee report journals k))).1⟩ ∧
      (alone (journals.get (pointee report journals k))).2 =
        ((report (journals.get (pointee report journals k))).perJournal 0).2 + m k := by
    intro k
    obtain ⟨n, cache, c, walked, brings⟩ := walks_to_end additive contributes answers k
    obtain ⟨own, finished⟩ := ended k
    have final : (ownView last).own k = (.finished own, ((ownView last).own k).2) :=
      Prod.ext finished rfl
    have stops : ownTurn (kernels (pointee report journals k))
        (report (journals.get (pointee report journals k))) ((ownView last).own k) = none := by
      rw [final, ownTurn_finished]
    obtain ⟨same, rfl⟩ := walk_stops walked (ownTurn_finished _ _) (walks k) stops
    exact ⟨Foo.ext (points k) (congrArg Prod.fst same), brings⟩
  constructor
  · rw [← map_foos additive starts, ← List.ofFn_getElem_eq_map]
    exact congrArg List.ofFn (funext fun k => (each k).1)
  · have added : ((opened journals).map fun i => (alone (journals.get i)).2).sum =
        ((opened journals).map fun i => ((report (journals.get i)).perJournal 0).2).sum +
          ∑ k, m k := by
      rw [← sum_pointee additive starts, ← sum_pointee additive starts, ← Finset.sum_add_distrib]
      exact Finset.sum_congr rfl fun k _ => (each k).2
    rw [added, ← startAll_totals additive starts]
    exact sum

end Reached

/-- Some schedule takes every journal to its end. -/
theorem finishes_contributed : Finishes report journals
    ((opened journals).map fun i => ⟨i, .finished (alone (journals.get i)).1⟩)
    ((opened journals).map fun i => (alone (journals.get i)).2).sum := by
  have starts := starts_of_contributes contributes
  obtain ⟨kernels, answers⟩ : ∃ kernels, Answers journals kernels :=
    ⟨fun i => fileKernel (journals.get i).file,
      fun i => ⟨fileKernel_servesFile _, fileKernel_reliable _⟩⟩
  choose n cache c walks brings using walks_to_end additive contributes answers
  obtain ⟨schedule, finishes⟩ := exists_run walks
  rw [← run_ownView (fun i => additive (journals.get i)) (pointee_injective additive starts)
    started_points schedule] at finishes
  obtain ⟨last, ran, view⟩ := Option.map_eq_some_iff.mp finishes
  have ended : ∀ k, ∃ own, (last.own k).status = .finished own := fun k =>
    ⟨_, congrArg (fun state => (state.own k).1) view⟩
  obtain ⟨foos, totals⟩ := finished_run additive contributes answers ran ended
  refine ⟨by rw [startAll_eq additive starts], _, schedule, last, answers, ran, foos, ?_, totals⟩
  intro foo member
  obtain ⟨i, -, rfl⟩ := List.mem_map.mp member
  exact ⟨_, rfl⟩

theorem finishes_iff (foos : List (Foo journals.length Own)) (totals : Totals) :
    Finishes report journals foos totals ↔
      foos = (opened journals).map (fun i => ⟨i, .finished (alone (journals.get i)).1⟩) ∧
      totals =
        ((journals.filter JournalOnDisk.isOpen).map fun journal => (alone journal).2).sum := by
  rw [← map_opened]
  constructor
  · rintro ⟨-, kernels, schedule, last, answers, ran, shape, ended, total⟩
    have finished : ∀ k, ∃ own, (last.own k).status = .finished own := fun k =>
      ended _ (shape ▸ List.mem_ofFn.mpr ⟨k, rfl⟩)
    obtain ⟨owns, sum⟩ := finished_run additive contributes answers ran finished
    exact ⟨shape.symm.trans owns, total.symm.trans sum⟩
  · rintro ⟨rfl, rfl⟩
    exact finishes_contributed additive contributes

end Contributing

/-- A journal whose report finishes alone brings what it then ends with. -/
theorem contributes_of_alone (additive : ∀ journal, Additive (report journal))
    {journal : JournalOnDisk} (isOpen : journal.isOpen = true) {own : Own} {totals : Totals}
    (finishes : Finishes report [journal] [⟨⟨0, Nat.zero_lt_one⟩, .finished own⟩] totals) :
    Contributes report journal (own, totals) := by
  obtain ⟨alone, brings⟩ := exists_contribution additive isOpen finishes
  have contributes : ∀ other ∈ [journal], other.isOpen = true → Contributes report other alone := by
    rintro other member -
    exact List.mem_singleton.mp member ▸ brings
  obtain ⟨foos, sum⟩ := (finishes_iff additive contributes _ _).mp finishes
  simp only [opened_singleton isOpen, List.map_singleton, List.cons.injEq, Foo.mk.injEq,
    Status.finished.injEq, and_true, true_and] at foos
  have total : totals = alone.2 := by simpa [isOpen] using sum
  rw [foos, total]
  exact brings

/-- A journal that brings something finishes alone. -/
theorem finishes_alone (additive : ∀ journal, Additive (report journal))
    {journal : JournalOnDisk} (isOpen : journal.isOpen = true) {own : Own} {totals : Totals}
    (brings : Contributes report journal (own, totals)) :
    Finishes report [journal] [⟨⟨0, Nat.zero_lt_one⟩, .finished own⟩] totals := by
  have contributes : ∀ other ∈ [journal], other.isOpen = true →
      Contributes report other (own, totals) := by
    rintro other member -
    exact List.mem_singleton.mp member ▸ brings
  have finishes := finishes_contributed additive contributes
  rwa [opened_singleton isOpen, List.map_singleton, List.map_singleton,
    List.sum_singleton] at finishes

/-- The report is over journals each open one of which it finishes alone. Then, whatever
their order, the kernels and the schedule, every `foo` keeps pointing at its own journal
and is done or can go on. When all are done there is one for each open journal, as it would be
alone, and the totals are the sum of the totals of each alone. -/
def TotalsAreSums (report : JournalOnDisk → Report Own Totals) : Prop :=
  ∀ (journals : List JournalOnDisk) (alone : JournalOnDisk → Own × Totals),
    (∀ journal ∈ journals, journal.isOpen = true →
      Finishes report [journal] [⟨⟨0, Nat.zero_lt_one⟩, .finished (alone journal).1⟩]
        (alone journal).2) →
    ∀ journals', journals'.Perm journals →
      (∀ kernels schedule last, Answers journals' kernels →
        runReport report journals' kernels schedule = some last →
        (List.ofFn fun k => (last.own k).journal) = opened journals' ∧
        ∀ k, (∃ own, (last.own k).status = .finished own) ∨
          (fooTurn kernels (fun i => report (journals'.get i)) (last.own k)
            last.shared).isSome = true) ∧
      ∀ foos totals, Finishes report journals' foos totals ↔
        foos = (opened journals').map (fun i => ⟨i, .finished (alone (journals'.get i)).1⟩) ∧
        totals = ((journals.filter JournalOnDisk.isOpen).map fun journal => (alone journal).2).sum

theorem Additive.totalsAreSums (additive : ∀ journal, Additive (report journal)) :
    TotalsAreSums report := by
  intro journals alone finish journals' order
  have contributes : ∀ journal ∈ journals', journal.isOpen = true →
      Contributes report journal (alone journal) := fun journal member isOpen =>
    contributes_of_alone additive isOpen (finish journal (order.mem_iff.mp member) isOpen)
  have starts := starts_of_contributes contributes
  constructor
  · intro kernels schedule last answers ran
    refine ⟨?_, reached_goes_on additive contributes answers ran⟩
    obtain ⟨points, -⟩ := reaches additive starts ran
    have pointees := map_foos additive starts fun i => i
    rw [List.map_id', ← List.ofFn_getElem_eq_map] at pointees
    rw [← pointees]
    exact congrArg List.ofFn (funext points)
  · intro foos totals
    rw [finishes_iff additive contributes]
    have same := ((order.filter JournalOnDisk.isOpen).map fun journal => (alone journal).2).sum_eq
    rw [same]

/-! ## Reports that finish -/

/-- What the report on tail waste ends with over a journal alone. -/
def tailWasteAlone (journal : JournalOnDisk) : TailWasteFoo × TailWasteReport :=
  let foo : TailWasteFoo :=
    ⟨journal.file.header, journal.file.objectHeader journal.file.header.tailObjectOffset.toNat⟩
  (foo, match printTailWaste journal.sys foo.header foo.tailObjectHeader 0 with
    | .ok (_, totals) => totals
    | .error _ => 0)

theorem tailWasteAlone_eq {journal : JournalOnDisk} {r : Int} {totals : TailWasteReport}
    (printed : printTailWaste journal.sys (tailWasteAlone journal).1.header
      (tailWasteAlone journal).1.tailObjectHeader 0 = .ok (r, totals)) :
    (tailWasteAlone journal).2 = totals :=
  congrArg (fun ran => match ran with
    | Except.ok (_, totals) => totals
    | Except.error _ => 0) printed

/-- Where the file holds both headers, and its state is one of the known ones, the report on
tail waste finishes. -/
theorem tailWasteReport_finishes (host : Endian) {journal : JournalOnDisk}
    (isOpen : journal.isOpen = true) (large : 256 ≤ journal.file.size)
    (inFile : journal.file.header.tailObjectOffset.toNat + 16 ≤ journal.file.size)
    (found : 0 ≤ journal.sys.fstat) (state : journal.file.header.state.toNat < STATE_MAX) :
    Finishes (tailWasteReport host) [journal]
      [⟨⟨0, Nat.zero_lt_one⟩, .finished (tailWasteAlone journal).1⟩] (tailWasteAlone journal).2 := by
  let foo : TailWasteFoo := (tailWasteAlone journal).1
  have dispatched : exec (fileReader journal.file) () (tailWasteReport host journal).start =
      .ok ((), .dispatched foo) := by
    unfold tailWasteReport
    dsimp only
    rw [exec_andThen, exec_journalGetHeader large]
    exact exec_journalGetObjectHeader inFile host _ _
  obtain ⟨totals, printed, -⟩ :=
    printTailWaste_adds (not_lt.mpr found) state foo.tailObjectHeader 0
  have adds : (tailWasteReport host journal).closure foo 0 = .ok (0, foo, totals) := by
    unfold tailWasteReport
    dsimp only
    rw [show printTailWaste journal.sys foo.header _ _ = _ from printed]
    rfl
  have comes := Comes.of_dispatched dispatched (.last adds le_rfl rfl)
  rw [tailWasteAlone_eq printed]
  exact finishes_alone (tailWasteReport_additive host) isOpen
    ⟨le_rfl, totals, comes, (zero_add totals).symm⟩

/-- What one dispatch of `per_data_object` adds to totals. -/
theorem perDataObject_totals (host : Endian) (journal : JournalOnDisk) (header : Header)
    {object : UInt64 × ObjectHeader} (known : object.2.type.toNat < OBJECT_TYPE_MAX)
    (usage : Usage) (size : UInt64) : ∃ usage' d,
      (usageReport host journal).closure (.at object ⟨header, usage, size⟩) 0 =
        .ok (1, .at object ⟨header, usage', size⟩, ⟨d, 0, 0⟩) ∧ d.Tallied [object.2] := by
  obtain ⟨usage', ran⟩ := usage.tally_known known
  obtain ⟨d, tally, tallied⟩ := zeroUsage_tallied.tally known
  refine ⟨usage', d, ?_, tallied⟩
  unfold usageReport perDataObject Iteration.at
  simp only [ran, UsageTotals.zero_def, tally, bind_ok]
  rfl

theorem tallied_add {usage usage' : Usage} {objects objects' : List ObjectHeader}
    (tallied : usage.Tallied objects) (tallied' : usage'.Tallied objects') :
    ((⟨usage, 0, 0⟩ : UsageTotals) + ⟨usage', 0, 0⟩).usage.Tallied (objects ++ objects') := by
  rw [UsageTotals.add_def]
  refine ⟨fun type known => ?_, fun type known => ?_, ?_⟩
  · simp [tallied.count type known, tallied'.count type known, countOf, UInt64.ofNat_add]
  · simp [tallied.use type known, tallied'.use type known, sizeOfType, UInt64.ofNat_add]
  · simp [tallied.total, tallied'.total, sizeOfAll, UInt64.ofNat_add]

/-- A walk to the end of a journal has its objects tallied. -/
theorem usageReport_comes (host : Endian) {journal : JournalOnDisk} {header : Header}
    {a last : UInt64 × ObjectHeader} {visits : List (UInt64 × ObjectHeader)}
    (chain : List.IsChain (Leads journal.file header host) (a :: (visits ++ [last])))
    (going : ∀ visit ∈ visits, visit.1 ≠ 0) (ended : last.1 = 0)
    (typed : ∀ visit ∈ visits ++ [last], visit.2.type.toNat < OBJECT_TYPE_MAX) (usage : Usage)
    (size : UInt64) : ∃ own c, Comes journal.file (usageReport host journal) own
      (journalIterNextObject host header (.at a ⟨header, usage, size⟩)) ⟨c, 0, 0⟩ ∧
        c.Tallied ((visits ++ [last]).map Prod.snd) := by
  induction visits generalizing a usage with
  | nil =>
    have ran := List.isChain_pair.mp chain UsageFoo ⟨header, usage, size⟩
    obtain ⟨usage', d, dispatched, tallied⟩ :=
      perDataObject_totals host journal header (typed last (by simp)) usage size
    have done : (usageReport host journal).again (.at last ⟨header, usage', size⟩) = none := by
      unfold usageReport Iteration.at
      exact if_pos ended
    exact ⟨_, d, .of_dispatched ran (.last dispatched (by decide) done), tallied⟩
  | cons visit visits ih =>
    obtain ⟨first, rest⟩ := List.isChain_cons_cons.mp chain
    obtain ⟨usage', d, dispatched, tallied⟩ :=
      perDataObject_totals host journal header (typed visit (by simp)) usage size
    obtain ⟨own, c, comes, tallied'⟩ := ih rest (fun later member => going later (.tail _ member))
      (fun later member => typed later (.tail _ member)) usage'
    have goes : (usageReport host journal).again (.at visit ⟨header, usage', size⟩) =
        some (journalIterNextObject host header (.at visit ⟨header, usage', size⟩)) := by
      unfold usageReport Iteration.at
      exact if_neg (going visit (by simp))
    refine ⟨own, _, .of_dispatched (first UsageFoo ⟨header, usage, size⟩)
      (.next dispatched (by decide) goes comes), ?_⟩
    exact tallied_add tallied tallied'

/-- The report on usage finishes over every well-formed journal, and has what is dispatched of it
tallied. -/
theorem usageReport_finishes (host : Endian) (wellFormed : WellFormedJournal)
    {journal : JournalOnDisk} (isOpen : journal.isOpen = true)
    (file : journal.file = wellFormed.file) (header : journal.file.header = wellFormed.header)
    (large : 256 ≤ journal.file.size) (found : 0 ≤ journal.sys.fstat) : ∃ own totals,
      Finishes (usageReport host) [journal] [⟨⟨0, Nat.zero_lt_one⟩, .finished own⟩] totals ∧
        totals.usage.Tallied (wellFormed.dispatched.map Prod.snd) ∧
        totals.fileSize = journal.sys.stSize ∧ totals.nJournals = 1 := by
  obtain ⟨last, member, final, shape⟩ := wellFormed.dispatched_eq
  have passes := wellFormed.wellFormed.passes final host 1
    (show ((0 : UInt64), zeroObjectHeader).1 = 0 from rfl)
  rw [List.replicate_one, List.flatten_singleton, ← file, ← header] at passes
  have going : ∀ visit ∈ wellFormed.objects, visit.1 ≠ 0 := by
    intro visit member zero
    obtain ⟨before, after, split⟩ := List.append_of_mem member
    have whole : wellFormed.dispatched = before ++ visit :: (after ++ [(0, last.2)]) := by
      rw [shape, split, List.append_assoc, List.cons_append]
    exact absurd ((wellFormed.dispatched_ends whole).mp zero) (by simp)
  have typed : ∀ visit ∈ wellFormed.objects ++ [(0, last.2)],
      visit.2.type.toNat < OBJECT_TYPE_MAX := shape ▸ fun _ => wellFormed.dispatched_typed
  obtain ⟨own, c, comes, tallied⟩ :=
    usageReport_comes host passes going rfl typed zeroUsage journal.sys.stSize
  have fromStart : Comes journal.file (usageReport host journal) own
      (usageReport host journal).start ⟨c, 0, 0⟩ :=
    .andThen (exec_journalGetHeader large host _ _) comes
  have begun : (usageReport host journal).perJournal 0 =
      (0, ⟨zeroUsage, journal.sys.stSize, 1⟩) := by
    unfold usageReport
    simp [not_lt.mpr found, UsageTotals.zero_def]
  have brings : Contributes (usageReport host) journal
      (own, ⟨zeroUsage, journal.sys.stSize, 1⟩ + ⟨c, 0, 0⟩) :=
    ⟨by rw [begun], _, fromStart, by rw [begun]⟩
  have all := shape ▸ tallied_add zeroUsage_tallied tallied
  exact ⟨own, _, finishes_alone (usageReport_additive host) isOpen brings, all,
    UInt64.add_zero _, rfl⟩

/-- A walk of `per_object` to the end of a journal has the stats of its profile added. -/
theorem entryArrayReport_comes (sha1 : List UInt8 → EntryArrays.Digest) (host : Endian)
    {journal : JournalOnDisk} {fuel : Nat} {cells : Iteration EntryArrays.ProfileCells}
    {trace : List (Iteration EntryArrays.ProfileCells)}
    (ran : loop (fileReader journal.file) (EntryArrays.perObjectStep sha1 journal.allocs host)
      Iteration.ended fuel () cells = .ok ((), trace, .finished)) : ∃ last stats,
      trace.getLast? = some last ∧ EntryArrays.profileStats last.user.profile = .ok stats ∧
        Comes journal.file (entryArrayReport sha1 host journal) last
          (EntryArrays.perObjectStep sha1 journal.allocs host cells) stats := by
  induction fuel generalizing cells trace with
  | zero => cases ran
  | succ fuel ih =>
    unfold loop at ran
    split at ran
    · cases ran
    · cases ran
    · rename_i next turned
      split at ran
      · rename_i ended
        cases ran
        have final : next.iterOffset = 0 := of_decide_eq_true ended
        obtain ⟨stats, computed, -⟩ := EntryArrays.profileStats_tallied next.user.profile
        have dispatched : (entryArrayReport sha1 host journal).closure next 0 =
            .ok (0, next, stats) := by
          simp only [entryArrayReport, if_pos final, EntryArrays.perObjectEnd, computed, bind_ok]
          refine congrArg Except.ok (Prod.ext rfl (Prod.ext rfl ?_))
          exact zero_add stats
        exact ⟨next, stats, rfl, computed, .of_dispatched turned
          (.last dispatched le_rfl (if_pos final))⟩
      · rename_i more
        split at ran
        · cases ran
        · rename_i rest ended rested
          cases ran
          have going : next.iterOffset ≠ 0 := fun final => more (decide_eq_true final)
          obtain ⟨last, stats, reached, computed, comes⟩ := ih rested
          have dispatched : (entryArrayReport sha1 host journal).closure next 0 =
              .ok (0, next, 0) := if_neg going
          refine ⟨last, stats, ?_, computed, .of_dispatched turned ?_⟩
          · rw [List.getLast?_cons, reached, Option.getD_some]
          · rw [← zero_add stats]
            exact .next dispatched le_rfl (if_neg going) comes

/-- The report on entry arrays finishes over every journal its walk finishes over, and has the
stats of the profile at its end added. -/
theorem entryArrayReport_finishes (sha1 : List UInt8 → EntryArrays.Digest) (host : Endian)
    {journal : JournalOnDisk} (isOpen : journal.isOpen = true) (large : 256 ≤ journal.file.size)
    {fuel : Nat} {trace : List (Iteration EntryArrays.ProfileCells)}
    (ran : loop (fileReader journal.file) (EntryArrays.perObjectStep sha1 journal.allocs host)
      Iteration.ended fuel ()
        ⟨0, zeroObjectHeader, ⟨journal.file.header, EntryArrays.emptyProfile⟩⟩ =
          .ok ((), trace, .finished)) : ∃ last stats,
      trace.getLast? = some last ∧ EntryArrays.profileStats last.user.profile = .ok stats ∧
        Finishes (entryArrayReport sha1 host) [journal]
          [⟨⟨0, Nat.zero_lt_one⟩, .finished last⟩] stats := by
  obtain ⟨last, stats, reached, computed, comes⟩ := entryArrayReport_comes sha1 host ran
  have fromStart : Comes journal.file (entryArrayReport sha1 host journal) last
      (entryArrayReport sha1 host journal).start stats :=
    .andThen (exec_journalGetHeader large host _ _) comes
  exact ⟨last, stats, reached, computed, finishes_alone (entryArrayReport_additive sha1 host) isOpen
    ⟨le_rfl, stats, fromStart, (zero_add stats).symm⟩⟩

end Reports

/-- The totals of all three reports are sums. -/
theorem report_totals_are_sums (sha1 : List UInt8 → EntryArrays.Digest) (host : Endian) :
    TotalsAreSums (usageReport host) ∧ TotalsAreSums (entryArrayReport sha1 host) ∧
      TotalsAreSums (tailWasteReport host) :=
  ⟨Additive.totalsAreSums (usageReport_additive host),
    Additive.totalsAreSums (entryArrayReport_additive sha1 host),
    Additive.totalsAreSums (tailWasteReport_additive host)⟩

/-- A journal of 520 bytes with one entry, which is behind its header. -/
def oneEntry (state size : UInt8) : JournalFile where
  size := 520
  byte := fun i => match i with
    | 16 => state
    | 89 => 1
    | 137 => 1
    | 256 => ObjectType.entry.toByte
    | 264 => size
    | _ => 0
  size_lt := by decide

/-- It in the directory. -/
def entryOnDisk (state size : UInt8) {journal : Journal}
    (ready : freshJournal "system.journal" 3 0 = .ok journal) : JournalOnDisk where
  journal := journal
  file := oneEntry state size
  sys := ⟨0, 520, fun _ => 0⟩
  allocs := ⟨fun _ _ => true, fun _ => true⟩
  cached _ := .fresh ready

theorem entryOnDisk_isOpen (state size : UInt8) {journal : Journal}
    (ready : freshJournal "system.journal" 3 0 = .ok journal) :
    (entryOnDisk state size ready).isOpen = true :=
  decide_eq_true (show 0 ≤ journal.fd from freshJournal_fd ready ▸ by decide)

theorem entryOnDisk_finishes {state size : UInt8}
    (inFile : (oneEntry state size).header.tailObjectOffset.toNat + 16 ≤ 520)
    (known : (oneEntry state size).header.state.toNat < STATE_MAX) {journal : Journal}
    (ready : freshJournal "system.journal" 3 0 = .ok journal) :
    Finishes (tailWasteReport .little) [entryOnDisk state size ready]
      [⟨⟨0, Nat.zero_lt_one⟩, .finished (tailWasteAlone (entryOnDisk state size ready)).1⟩]
      (tailWasteAlone (entryOnDisk state size ready)).2 :=
  tailWasteReport_finishes .little (entryOnDisk_isOpen state size ready)
    (show 256 ≤ 520 by decide) inFile le_rfl known

theorem entryOnDisk_alone {state size : UInt8} {totals : TailWasteReport}
    (tail : (oneEntry state size).header.tailObjectOffset = 256)
    (printed : printTailWaste ⟨0, 520, fun _ => 0⟩ (oneEntry state size).header
      ((oneEntry state size).objectHeader 256) 0 = .ok (0, totals)) {journal : Journal}
    (ready : freshJournal "system.journal" 3 0 = .ok journal) :
    (tailWasteAlone (entryOnDisk state size ready)).2 = totals := by
  apply tailWasteAlone_eq
  show printTailWaste _ (oneEntry state size).header ((oneEntry state size).objectHeader
    (oneEntry state size).header.tailObjectOffset.toNat) 0 = _
  rw [tail]
  exact printed

/-- Two journals, in whatever order, have the waste of both. -/
theorem report_totals_are_sums_twoJournals :
    ∃ journal, ∃ ready : freshJournal "system.journal" 3 0 = .ok journal,
      ∀ journals, journals.Perm
          [entryOnDisk STATE_ARCHIVED 64 ready, entryOnDisk STATE_ONLINE 72 ready] →
        (∃ foos, Finishes (tailWasteReport .little) journals foos
          ⟨#v[0, 1, 1], #v[0, 192, 200], 392, 1040, 2⟩) ∧
        ∀ foos totals, Finishes (tailWasteReport .little) journals foos totals →
          totals = ⟨#v[0, 1, 1], #v[0, 192, 200], 392, 1040, 2⟩ := by
  obtain ⟨journal, ready, -⟩ := freshJournal_spec "system.journal" 3 0
  refine ⟨journal, ready, fun journals order => ?_⟩
  have finish (onDisk : JournalOnDisk) (member : onDisk ∈
      [entryOnDisk STATE_ARCHIVED 64 ready, entryOnDisk STATE_ONLINE 72 ready])
      (_ : onDisk.isOpen = true) : Finishes (tailWasteReport .little) [onDisk]
        [⟨⟨0, Nat.zero_lt_one⟩, .finished (tailWasteAlone onDisk).1⟩] (tailWasteAlone onDisk).2 := by
    rcases List.mem_pair.mp member with rfl | rfl
    · exact entryOnDisk_finishes (by decide) (by decide) ready
    · exact entryOnDisk_finishes (by decide) (by decide) ready
  obtain ⟨-, totals⟩ := (report_totals_are_sums (fun _ => .replicate _ 0) .little).2.2 _
    tailWasteAlone finish journals order
  have archived := @entryOnDisk_alone STATE_ARCHIVED 64 ⟨#v[0, 0, 1], #v[0, 0, 200], 200, 520, 1⟩
    (by decide) (by decide) _ ready
  have online := @entryOnDisk_alone STATE_ONLINE 72 ⟨#v[0, 1, 0], #v[0, 192, 0], 192, 520, 1⟩
    (by decide) (by decide) _ ready
  have sum : (⟨#v[0, 0, 1], #v[0, 0, 200], 200, 520, 1⟩ : TailWasteReport) +
      ⟨#v[0, 1, 0], #v[0, 192, 0], 192, 520, 1⟩ = ⟨#v[0, 1, 1], #v[0, 192, 200], 392, 1040, 2⟩ := by
    decide +kernel
  simp only [List.filter_cons, entryOnDisk_isOpen, List.filter_nil, ↓reduceIte, List.map_cons,
    List.map_nil, List.sum_cons, List.sum_nil, add_zero, archived, online, sum] at totals
  exact ⟨⟨_, (totals _ _).mpr ⟨rfl, rfl⟩⟩, fun foos total finishes =>
    ((totals foos total).mp finishes).2⟩

end Jio.ReportTotals
