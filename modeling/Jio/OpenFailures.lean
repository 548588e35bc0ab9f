import Jio.JournalsOpen

/-! Failures on the way from `journals_open` to the closure. Of the steps that can fail,
all but one are reported by a negative result, at which `iou_run` stops; when
`fdopendir` fails, `get_journals` returns `errno` itself, which is positive. -/
namespace Jio.JournalsOpen

/-! ## The chain -/

/-- `PERSISTENT_PATH`. -/
def PERSISTENT_PATH : String := "/var/log/journal"

/-- `O_DIRECTORY|O_RDONLY`. -/
def directoryFlags : Int := 65536

/-- An `openat` of a directory. -/
structure DirOp where
  dirfd : Int
  path : String
  flags : Int

/-- `journals_open`: its result, and what it queued for `var_opened`. -/
def journalsOpen (opNew : Bool) : Int × Option DirOp :=
  if opNew then (0, some ⟨0, PERSISTENT_PATH, directoryFlags⟩) else (-ENOMEM, none)

/-- `var_opened`: its result, and what it queued for `get_journals`. -/
def varOpened (opNew : Bool) (machid : String) (result : Int) : Int × Option DirOp :=
  if result < 0 then (result, none)
  else if opNew then (0, some ⟨result, machid, directoryFlags⟩) else (-ENOMEM, none)

/-- Everything the chain depends on: whether `iou_op_new` yields the two operations in front
of the opens, the results of all opens, by slot, and their order of completion. -/
structure Surroundings where
  machid : String
  flags : Int
  rootOp : Bool
  root : Int
  machidOp : Bool
  machidDir : Int
  dir : Directory
  dents : List String
  results : Nat → Int
  order : (n : Nat) → List (OpenOp n) → List (OpenOp n)
  registrations : Registrations
  errno_positive : ∀ errno ∈ dir.fdopendir, 0 < errno
  order_perm : ∀ n ops, (order n ops).Perm ops

/-- A callback that ran, `opened_journal` with the slot it was for. -/
inductive Callback where
  | journalsOpen
  | varOpened
  | getJournals
  | openedJournal (slot : Nat)
  deriving DecidableEq

/-- `iou_run` goes on unless a result is negative. -/
def Returned.goesOn : Returned → Bool
  | .returned r => 0 ≤ r
  | .dispatched => true

/-- `iou_run`, while opens complete in this order. -/
def iouRun {n : Nat} (env : Registrations) (journals : Journals n) (ring : Ring n) :
    List (OpenOp n × Int) → Except Fault (List (Callback × Returned))
  | [] => .ok []
  | (op, result) :: completions => do
    let (journals, ring, returned) ← openedJournal env result op.slot journals ring
    let others ← if returned.goesOn then iouRun env journals ring completions else .ok []
    return (.openedJournal op.slot, returned) :: others

/-- What `iou_run` is left with by `get_journals`. -/
def runQueued (env : Surroundings) : Option Queued → Except Fault (List (Callback × Returned))
  | none => .ok []
  | some queued => iouRun env.registrations queued.journals ⟨none, none⟩
      ((env.order queued.n queued.ops).map fun op => (op, env.results op.slot))

/-- `get_journals` and what it leads to. -/
def runGetJournals (env : Surroundings) : Except Fault (List (Callback × Returned)) := do
  let (r, queued) ← getJournals env.dir env.machidDir env.flags env.dents env.dents
  return (.getJournals, .returned r) :: (← runQueued env queued)

/-- `var_opened` and what it leads to. One that queues nothing is the last. -/
def runVarOpened (env : Surroundings) : Except Fault (List (Callback × Returned)) :=
  match varOpened env.machidOp env.machid env.root with
  | (r, none) => .ok [(.varOpened, .returned r)]
  | (r, some _) => do return (.varOpened, .returned r) :: (← runGetJournals env)

/-- All callbacks from `journals_open` on, with what they returned. -/
def openChain (env : Surroundings) : Except Fault (List (Callback × Returned)) :=
  match journalsOpen env.rootOp with
  | (r, none) => .ok [(.journalsOpen, .returned r)]
  | (r, some _) => do return (.journalsOpen, .returned r) :: (← runVarOpened env)

/-! ## Steps that can fail -/

/-- The steps, with the slot of an operation or of an open. -/
inductive Step where
  | rootOp
  | root
  | machidOp
  | machidDir
  | fdopendir
  | calloc
  | resize
  | openOp (i : Nat)
  | opened (slot : Nat)
  | mallocFds
  | registerFiles
  | mallocBufs
  | registerBuffers
  deriving DecidableEq

instance : DecidablePred Allowed := fun result =>
  inferInstanceAs (Decidable (0 ≤ result ∨ result = -EPERM ∨ result = -EACCES))

namespace Surroundings

/-- The opens in the order they complete. -/
def completed (env : Surroundings) : List (OpenOp (visible env.dents).length) :=
  env.order _ (openOps env.dir.dup env.flags (visible env.dents))

def succeeds (env : Surroundings) : Step → Bool
  | .rootOp => env.rootOp
  | .root => 0 ≤ env.root
  | .machidOp => env.machidOp
  | .machidDir => 0 ≤ env.machidDir
  | .fdopendir => env.dir.fdopendir = none
  | .calloc => env.dir.calloc
  | .resize => 0 ≤ env.dir.resize
  | .openOp i => env.dir.opNew i
  | .opened slot => Allowed (env.results slot)
  | .mallocFds => env.registrations.mallocFds
  | .registerFiles => 0 ≤ env.registrations.registerFiles
  | .mallocBufs => env.registrations.mallocBufs
  | .registerBuffers => 0 ≤ env.registrations.registerBuffers

/-- What the last completion does. -/
def lastSteps : List Step := [.mallocFds, .registerFiles, .mallocBufs, .registerBuffers]

/-- What is done for the journals there are. -/
def journalSteps (env : Surroundings) : List Step :=
  .calloc :: .resize :: ((List.range (visible env.dents).length).map .openOp ++
    (env.completed.map (fun op => .opened op.slot) ++ lastSteps))

/-- All steps, in the order they are made in. -/
def steps (env : Surroundings) : List Step :=
  .rootOp :: .root :: .machidOp :: .machidDir :: .fdopendir ::
    if visible env.dents = [] then [] else env.journalSteps

/-- The callback a step is made in, or its failure is seen in. -/
def callback (env : Surroundings) : Step → Option Callback
  | .rootOp => some .journalsOpen
  | .root => some .varOpened
  | .machidOp => some .varOpened
  | .opened slot => some (.openedJournal slot)
  | .mallocFds | .registerFiles | .mallocBufs | .registerBuffers =>
    env.completed.getLast?.map fun op => .openedJournal op.slot
  | _ => some .getJournals

/-- This step fails, and none before it does. -/
def Fails (env : Surroundings) (step : Step) : Prop :=
  env.steps.find? (fun step => !env.succeeds step) = some step

end Surroundings

/-- The failure is reported: the callback it occurs in returns a negative result, after
which nothing runs, and the closure was not dispatched. -/
def Reported (env : Surroundings) (step : Step) (ran : List (Callback × Returned)) : Prop :=
  ∃ before callback r, ran = before ++ [(callback, .returned r)] ∧ r < 0 ∧
    env.callback step = some callback ∧ ∀ entry ∈ ran, entry.2 ≠ .dispatched

/-! ## How a run ends -/

/-- The run ends with this callback, after others at which it went on. -/
def Ends (ran : List (Callback × Returned)) (callback : Callback) (returned : Returned) : Prop :=
  ∃ before, ran = before ++ [(callback, returned)] ∧ ∀ entry ∈ before, entry.2 = .returned 0

section Ends

variable {env : Surroundings} {step : Step} {ran : List (Callback × Returned)}
  {callback other : Callback} {returned : Returned} {r : Int}

theorem Ends.last : Ends [(callback, returned)] callback returned := ⟨[], rfl, nofun⟩

theorem Ends.cons (ends : Ends ran callback returned) :
    Ends ((other, .returned 0) :: ran) callback returned := by
  obtain ⟨before, rfl, wentOn⟩ := ends
  refine ⟨(other, .returned 0) :: before, rfl, ?_⟩
  rintro entry (_ | ⟨_, member⟩)
  · rfl
  · exact wentOn entry member

/-- A failure is reported by the last callback, or not at all. -/
theorem Ends.reported_iff (ends : Ends ran callback (.returned r)) :
    Reported env step ran ↔ r < 0 ∧ env.callback step = some callback := by
  obtain ⟨before, rfl, wentOn⟩ := ends
  constructor
  · rintro ⟨before', callback', r', same, negative, here, -⟩
    obtain ⟨-, last⟩ := List.append_inj' same rfl
    cases last
    exact ⟨negative, here⟩
  · rintro ⟨negative, here⟩
    refine ⟨before, callback, r, rfl, negative, here, ?_⟩
    intro entry member
    rw [List.mem_append, List.mem_singleton] at member
    rcases member with earlier | rfl
    · rw [wentOn entry earlier]
      nofun
    · nofun

end Ends

/-! ## The opens -/

/-- The first of several to fail is this one, or one of the others. -/
theorem first_fails {α : Type} {p : α → Bool} {a b : α} {l : List α}
    (first : (a :: l).find? (fun a => !p a) = some b) :
    (p a = false ∧ b = a) ∨ (p a = true ∧ l.find? (fun a => !p a) = some b) := by
  rcases List.find?_cons_eq_some.mp first with ⟨failed, rfl⟩ | ⟨succeeded, later⟩
  · exact .inl ⟨by simpa using failed, rfl⟩
  · exact .inr ⟨by simpa using succeeded, later⟩

section Runs

variable {n : Nat} {names : Fin n → String} {results : Fin n → Int} {env : Registrations}
  {journals : Journals n} {ring : Ring n} {done : List (Fin n)}

theorem openedJournal_denied {i : Fin n} (denied : ¬Allowed (results i)) :
    openedJournal env (results i) i journals ring =
      .ok ({ journals with nOpened := journals.nOpened + 1 }, ring, .returned (results i)) := by
  simp only [Allowed, not_or, not_le] at denied
  exact if_pos denied

variable (env ring) in
/-- In whatever order the opens complete, the run ends with the first of them to fail, or
else with the last. -/
theorem Prefix.iouRun {ops : List (OpenOp n)} (some : ops ≠ [])
    (opened : Prefix names results done journals)
    (once : (done ++ ops.map OpenOp.slot).Perm (List.finRange n)) : ∃ ran,
      iouRun env journals ring (ops.map fun op => (op, results op.slot)) = .ok ran ∧
      (∀ op, ops.find? (fun op => !decide (Allowed (results op.slot))) = .some op →
        Ends ran (.openedJournal op.slot) (.returned (results op.slot))) ∧
      (ops.find? (fun op => !decide (Allowed (results op.slot))) = none →
        ∃ op ∈ ops.getLast?, ∃ journals' : Journals n,
          Ends ran (.openedJournal op.slot) (registerJournals env journals' ring).2.2) := by
  induction ops generalizing done journals with
  | nil => exact absurd rfl some
  | cons op ops ih =>
    rw [List.map_cons]
    unfold JournalsOpen.iouRun
    by_cases allowed : Allowed (results op.slot)
    · obtain ⟨fresh, length, once⟩ := once_cons once
      rw [List.find?_cons_of_neg (by simpa using allowed)]
      obtain ⟨next, opened, ran⟩ := opened.complete env ring fresh allowed
      rw [ran]
      cases ops with
      | nil =>
        rw [if_pos (by simpa using length)]
        refine ⟨[(.openedJournal op.slot, (registerJournals env next ring).2.2)], ?_, nofun, ?_⟩
        · rw [bind_ok]
          dsimp only
          split <;> rfl
        · exact fun _ => ⟨op, rfl, next, Ends.last⟩
      | cons other ops =>
        obtain ⟨rest, later, failed, last⟩ := ih (by simp) opened once
        have more : done.length + 1 ≠ n := by
          rw [List.length_cons] at length
          omega
        refine ⟨(.openedJournal op.slot, .returned 0) :: rest, ?_, ?_, ?_⟩
        · simp only [if_neg more, bind_ok, Returned.goesOn, le_refl, decide_true, ↓reduceIte, later]
          rfl
        · exact fun op found => (failed op found).cons
        · intro none
          obtain ⟨op, final, journals', ends⟩ := last none
          exact ⟨op, final, journals', ends.cons⟩
    · rw [List.find?_cons_of_pos (by simpa using allowed), openedJournal_denied allowed]
      have negative : ¬0 ≤ results op.slot := fun fd => allowed (.inl fd)
      refine ⟨[(.openedJournal op.slot, .returned (results op.slot))], ?_, ?_, nofun⟩
      · simp only [bind_ok, Returned.goesOn, decide_eq_true_eq, if_neg negative]
        rfl
      · rintro op' found
        obtain rfl := Option.some.inj found
        exact Ends.last

end Runs

theorem enomem_negative : -ENOMEM < 0 := by decide

/-- What the last completion does fails with a negative result. -/
theorem registerJournals_fails {n : Nat} {env : Surroundings} {step : Step}
    (fails : Surroundings.lastSteps.find? (fun step => !env.succeeds step) = some step)
    (journals : Journals n) (ring : Ring n) : ∃ r < 0,
      (registerJournals env.registrations journals ring).2.2 = .returned r := by
  unfold registerJournals
  rcases first_fails fails with ⟨failed, rfl⟩ | ⟨mallocFds, fails⟩
  · exact ⟨-ENOMEM, enomem_negative, by simp_all [Surroundings.succeeds]⟩
  rcases first_fails fails with ⟨failed, rfl⟩ | ⟨registerFiles, fails⟩
  · refine ⟨env.registrations.registerFiles, ?_, ?_⟩ <;> simp_all [Surroundings.succeeds]
  rcases first_fails fails with ⟨failed, rfl⟩ | ⟨mallocBufs, fails⟩
  · refine ⟨-ENOMEM, enomem_negative, ?_⟩
    simp_all [Surroundings.succeeds, not_lt.mpr]
  rcases first_fails fails with ⟨failed, rfl⟩ | ⟨registerBuffers, fails⟩
  · refine ⟨env.registrations.registerBuffers, ?_, ?_⟩ <;>
      simp_all [Surroundings.succeeds, not_lt.mpr]
  · cases fails

/-! ## The whole chain -/

section Chain

variable {env : Surroundings} {step : Step}

/-- The last completion is that of one of the journals. -/
theorem completed_ne_nil (some : visible env.dents ≠ []) : env.completed ≠ [] := by
  intro none
  have length := (env.order_perm _ (openOps env.dir.dup env.flags (visible env.dents))).length_eq
  have several : (openOps env.dir.dup env.flags (visible env.dents)).length =
      (visible env.dents).length := by simp [openOps]
  unfold Surroundings.completed at none
  rw [none, several] at length
  exact some (List.length_eq_zero_iff.mp length.symm)

theorem completed_once : ([] ++ env.completed.map OpenOp.slot).Perm (List.finRange _) := by
  rw [List.nil_append, ← slots_openOps env.dir.dup env.flags (visible env.dents)]
  exact (env.order_perm _ _).map OpenOp.slot

/-- How the failure of a step shows. -/
def EndsIn (env : Surroundings) (step : Step) (ran : List (Callback × Returned)) : Prop :=
  ∃ callback r, Ends ran callback (.returned r) ∧ env.callback step = some callback ∧
    (r < 0 ↔ step ≠ .fdopendir)

theorem EndsIn.cons {ran : List (Callback × Returned)} {other : Callback}
    (ends : EndsIn env step ran) : EndsIn env step ((other, .returned 0) :: ran) := by
  obtain ⟨callback, r, last, here, negative⟩ := ends
  exact ⟨callback, r, last.cons, here, negative⟩

/-- A callback that fails by itself is the last. -/
theorem EndsIn.last {callback : Callback} {r : Int} (here : env.callback step = some callback)
    (negative : r < 0 ↔ step ≠ .fdopendir) : EndsIn env step [(callback, .returned r)] :=
  ⟨callback, r, Ends.last, here, negative⟩

theorem opens_endIn (some : visible env.dents ≠ [])
    (fails : (env.completed.map (fun op => Step.opened op.slot) ++
      Surroundings.lastSteps).find? (fun step => !env.succeeds step) = .some step) : ∃ ran,
      iouRun env.registrations (unopenedJournals (visible env.dents)) ⟨none, none⟩
        (env.completed.map fun op => (op, env.results op.slot)) = .ok ran ∧
      EndsIn env step ran := by
  obtain ⟨ran, ok, failed, last⟩ := (unopenedJournals_start _ fun i => env.results i).iouRun
    env.registrations ⟨none, none⟩ (completed_ne_nil some) completed_once
  refine ⟨ran, ok, ?_⟩
  rw [List.find?_append, Option.or_eq_some_iff, List.find?_map, Option.map_eq_some_iff,
    Option.map_eq_none_iff] at fails
  rcases fails with ⟨op, found, rfl⟩ | ⟨allowed, fails⟩
  · have denied := List.find?_some found
    simp only [Function.comp_apply, Bool.not_eq_true', Surroundings.succeeds,
      decide_eq_false_iff_not] at denied
    have negative : env.results op.slot < 0 := not_le.mp fun fd => denied (.inl fd)
    exact ⟨_, _, failed op found, rfl, iff_of_true negative nofun⟩
  · obtain ⟨op, final, journals, ends⟩ := last allowed
    obtain ⟨r, negative, returned⟩ := registerJournals_fails fails journals ⟨none, none⟩
    rw [returned] at ends
    have here : env.completed.getLast?.map (fun op => Callback.openedJournal op.slot) =
        .some (.openedJournal op.slot) := by
      rw [Option.mem_def.mp final]
      rfl
    have one := List.mem_of_find?_eq_some fails
    simp only [Surroundings.lastSteps, List.mem_cons, List.not_mem_nil, or_false] at one
    refine ⟨_, _, ends, ?_, iff_of_true negative ?_⟩
    · rcases one with rfl | rfl | rfl | rfl <;> exact here
    · rintro rfl
      simp at one

/-- `get_journals` that fails, or queues nothing, is the last. -/
theorem runGetJournals_alone {r : Int}
    (ran : getJournals env.dir env.machidDir env.flags env.dents env.dents = .ok (r, none)) :
    runGetJournals env = .ok [(.getJournals, .returned r)] := by
  unfold runGetJournals
  rw [ran]
  rfl

/-- Whatever fails for the journals there are, the run ends in it. -/
theorem journalSteps_endIn (opened : 0 ≤ env.machidDir) (read : env.dir.fdopendir = none)
    (some : visible env.dents ≠ [])
    (fails : env.journalSteps.find? (fun step => !env.succeeds step) = .some step) : ∃ ran,
      runGetJournals env = .ok ran ∧ EndsIn env step ran := by
  have several : (visible env.dents).length ≠ 0 := fun none => some (List.length_eq_zero_iff.mp none)
  have alone (r : Int) (here : env.callback step = .some .getJournals)
      (negative : r < 0 ↔ step ≠ .fdopendir)
      (ran : getJournals env.dir env.machidDir env.flags env.dents env.dents = .ok (r, none)) :
      ∃ ran, runGetJournals env = .ok ran ∧ EndsIn env step ran :=
    ⟨_, runGetJournals_alone ran, EndsIn.last here negative⟩
  unfold getJournals at alone
  simp only [if_neg (not_lt.mpr opened), read, if_neg several, lt_irrefl, if_false] at alone
  rcases first_fails fails with ⟨calloc, rfl⟩ | ⟨calloc, fails⟩
  · have failed : env.dir.calloc = false := calloc
    exact alone (-ENOMEM) rfl (iff_of_true enomem_negative nofun) (if_pos (by simp [failed]))
  have calloc : env.dir.calloc = true := calloc
  simp only [calloc, Bool.not_true, Bool.false_eq_true, if_false] at alone
  rcases first_fails fails with ⟨resize, rfl⟩ | ⟨resize, fails⟩
  · have negative : env.dir.resize < 0 := not_le.mp (of_decide_eq_false resize)
    exact alone env.dir.resize rfl (iff_of_true negative nofun) (if_pos negative)
  have resize : 0 ≤ env.dir.resize := of_decide_eq_true resize
  simp only [if_neg (not_lt.mpr resize)] at alone
  rw [List.find?_append, Option.or_eq_some_iff, List.find?_map, Option.map_eq_some_iff,
    Option.map_eq_none_iff] at fails
  rcases fails with ⟨i, found, rfl⟩ | ⟨opNew, fails⟩
  · have failed := List.find?_some found
    apply alone (-ENOMEM) rfl (iff_of_true enomem_negative nofun)
    apply if_neg
    intro every
    have succeeded := List.all_eq_true.mp every i (List.mem_of_find?_eq_some found)
    simp [Surroundings.succeeds, succeeded] at failed
  · have queued (i : Nat) (below : i < (visible env.dents).length) : env.dir.opNew i = true := by
      simpa [Surroundings.succeeds] using List.find?_eq_none.mp opNew i (List.mem_range.mpr below)
    obtain ⟨rest, later, ends⟩ := opens_endIn some fails
    have ran := getJournals_queues read calloc resize opened env.flags some queued
    refine ⟨(.getJournals, .returned 0) :: rest, ?_, ends.cons⟩
    unfold runGetJournals
    rw [ran, bind_ok]
    exact congrArg (fun others => others >>= fun others => pure (_ :: others)) later

/-- Whatever fails once the directory has been opened, or not, the run ends in it. -/
theorem runGetJournals_endIn
    (fails : (.machidDir :: .fdopendir :: if visible env.dents = [] then [] else
      env.journalSteps).find? (fun step => !env.succeeds step) = some step) : ∃ ran,
      runGetJournals env = .ok ran ∧ EndsIn env step ran := by
  rcases first_fails fails with ⟨opened, rfl⟩ | ⟨opened, fails⟩
  · have negative : env.machidDir < 0 := not_le.mp (of_decide_eq_false opened)
    exact ⟨_, runGetJournals_alone (if_pos negative), EndsIn.last rfl (iff_of_true negative nofun)⟩
  have opened : 0 ≤ env.machidDir := of_decide_eq_true opened
  rcases first_fails fails with ⟨read, rfl⟩ | ⟨read, fails⟩
  · obtain ⟨errno, failed⟩ := Option.ne_none_iff_exists'.mp (of_decide_eq_false read)
    have positive := env.errno_positive errno failed
    refine ⟨[(.getJournals, .returned errno)], runGetJournals_alone ?_,
      EndsIn.last rfl (iff_of_false ?_ (not_not.mpr rfl))⟩
    · unfold getJournals
      rw [if_neg (not_lt.mpr opened), failed]
    · omega
  · by_cases empty : visible env.dents = []
    · rw [if_pos empty] at fails
      cases fails
    · rw [if_neg empty] at fails
      exact journalSteps_endIn opened (of_decide_eq_true read) empty fails

/-- Whatever step fails, the run ends in it. -/
theorem openChain_endIn (fails : env.Fails step) : ∃ ran,
    openChain env = .ok ran ∧ EndsIn env step ran := by
  unfold Surroundings.Fails Surroundings.steps at fails
  unfold openChain journalsOpen
  rcases first_fails fails with ⟨failed, rfl⟩ | ⟨rootOp, fails⟩
  · rw [show env.rootOp = false from failed]
    exact ⟨_, rfl, EndsIn.last rfl (iff_of_true enomem_negative nofun)⟩
  rw [show env.rootOp = true from rootOp]
  suffices varOpened : ∃ ran, runVarOpened env = .ok ran ∧ EndsIn env step ran by
    obtain ⟨ran, ok, ends⟩ := varOpened
    refine ⟨(.journalsOpen, .returned 0) :: ran, ?_, ends.cons⟩
    simp only [if_true, ok]
    rfl
  unfold runVarOpened varOpened
  rcases first_fails fails with ⟨failed, rfl⟩ | ⟨root, fails⟩
  · have negative : env.root < 0 := by simpa [Surroundings.succeeds] using failed
    rw [if_pos negative]
    exact ⟨_, rfl, EndsIn.last rfl (iff_of_true negative nofun)⟩
  have root : 0 ≤ env.root := by simpa [Surroundings.succeeds] using root
  rw [if_neg (not_lt.mpr root)]
  rcases first_fails fails with ⟨failed, rfl⟩ | ⟨machidOp, fails⟩
  · rw [show env.machidOp = false from failed]
    exact ⟨_, rfl, EndsIn.last rfl (iff_of_true enomem_negative nofun)⟩
  rw [show env.machidOp = true from machidOp]
  obtain ⟨ran, ok, ends⟩ := runGetJournals_endIn fails
  refine ⟨(.varOpened, .returned 0) :: ran, ?_, ends.cons⟩
  simp only [if_true, ok]
  rfl

/-- The failure of every step is reported, except for that of `fdopendir`, which has
`get_journals` return a positive result and `iou_run` succeed. -/
theorem failures_are_reported_iff (env : Surroundings) (step : Step) (fails : env.Fails step) :
    (∃ ran, openChain env = .ok ran ∧ Reported env step ran) ↔ step ≠ .fdopendir := by
  obtain ⟨ran, ok, callback, r, ends, here, negative⟩ := openChain_endIn fails
  rw [← negative]
  constructor
  · rintro ⟨ran', ok', reported⟩
    obtain rfl := Except.ok.inj (ok.symm.trans ok')
    exact (ends.reported_iff.mp reported).1
  · intro failed
    exact ⟨ran, ok, ends.reported_iff.mpr ⟨failed, here⟩⟩

end Chain

/-- Two journals, opened back to front. -/
def twoJournals (fdopendir : Option Int) (errno_positive : ∀ errno ∈ fdopendir, 0 < errno)
    (results : Nat → Int) : Surroundings where
  machid := "0f1e2d3c4b5a69788796a5b4c3d2e1f0"
  flags := 0
  rootOp := true
  root := 3
  machidOp := true
  machidDir := 4
  dir := ⟨fdopendir, true, 5, 0, fun _ => true⟩
  dents := [".", "..", "system.journal", "user-1000.journal"]
  results := results
  order := fun _ ops => ops.reverse
  registrations := ⟨true, 0, true, 0⟩
  errno_positive := errno_positive
  order_perm := fun _ ops => ops.reverse_perm

theorem failures_are_reported_iff_missing :
    let env := twoJournals none nofun fun slot => if slot = 0 then -2 else 6
    (∃ ran, openChain env = .ok ran ∧ Reported env (.opened 0) ran) ↔
      Step.opened 0 ≠ .fdopendir := by
  intro env
  exact failures_are_reported_iff env (.opened 0) rfl

theorem fdopendir_failure_is_success :
    let env := twoJournals (some 24) (by decide) fun _ => 6
    env.Fails .fdopendir ∧
      openChain env = .ok [(.journalsOpen, .returned 0), (.varOpened, .returned 0),
        (.getJournals, .returned 24)] ∧
      ¬∃ ran, openChain env = .ok ran ∧ Reported env .fdopendir ran := by
  intro env
  have ran : openChain env = .ok [(.journalsOpen, .returned 0), (.varOpened, .returned 0),
      (.getJournals, .returned 24)] := rfl
  have ends : Ends [(.journalsOpen, .returned 0), (.varOpened, .returned 0),
      (.getJournals, .returned 24)] .getJournals (.returned 24) := Ends.last.cons.cons
  refine ⟨rfl, ran, ?_⟩
  rintro ⟨ran', ok, reported⟩
  obtain rfl := Except.ok.inj (ran.symm.trans ok)
  exact absurd (ends.reported_iff.mp reported).1 (by decide)

end Jio.JournalsOpen
