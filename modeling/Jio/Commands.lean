import Jio.IdReaders
import Jio.OpenFailures
import Jio.VerifyJournals

/-! `jio` from its arguments to its status. The machine id is read, the journals are opened and
the command goes over them. Which opens and which reads complete first decides which failure
is seen, but not whether one is. -/
namespace Jio.Commands
open ByteOrder ReadProgram JournalsOpen ReportTotals IdReaders

/-! ## Commands -/

/-- What a command does with each open journal. -/
structure Command where
  Own : Type
  Totals : Type
  monoid : AddCommMonoid Totals
  report : JournalOnDisk → Report Own Totals
  additive : ∀ journal, Additive (report journal)

instance (command : Command) : AddCommMonoid command.Totals := command.monoid

/-- What is called with the arguments of `main`. -/
inductive Subcommand where
  | reclaimTailWaste
  | reportEntryArrays
  | reportLayout
  | reportTailWaste
  | reportUsage
  | verifyHashedObjects
  deriving DecidableEq

/-- What a command can be called with, besides journals. `layouts` is what comes of opening a
file of that name. -/
structure Host where
  endian : Endian
  sha1 : List UInt8 → EntryArrays.Digest
  zstd : HashedObjects.Zstd
  allocs : JournalOnDisk → UInt64 → HashedObjects.Allocs
  layouts : String → Int

/-- The commands. `jio_reclaim_tail_waste` is disabled. -/
def command (host : Host) : Subcommand → Option Command
  | .reclaimTailWaste => none
  | .reportEntryArrays =>
    some ⟨_, _, inferInstance, entryArrayReport host.sha1 host.endian,
      entryArrayReport_additive host.sha1 host.endian⟩
  | .reportLayout =>
    some ⟨_, _, inferInstance, LayoutReport.layoutReport host.layouts host.endian,
      LayoutReport.layoutReport_additive host.layouts host.endian⟩
  | .reportTailWaste =>
    some ⟨_, _, inferInstance, tailWasteReport host.endian, tailWasteReport_additive host.endian⟩
  | .reportUsage =>
    some ⟨_, _, inferInstance, usageReport host.endian, usageReport_additive host.endian⟩
  | .verifyHashedObjects =>
    some ⟨_, _, inferInstance, HashedObjects.verifyReport host.zstd host.allocs host.endian,
      HashedObjects.verifyReport_additive host.zstd host.allocs host.endian⟩

/-- `main`, up to the call of a subcommand, or with the status it returns without one. -/
def called (iouNew : Bool) : List String → Except Nat Subcommand
  | [] | [_] => .error 0
  | _ :: name :: args =>
    if !iouNew then .error 1
    else if name = "help" ∨ name = "license" then .error 0
    else if name = "reclaim" then
      match args with
      | [] => .error 0
      | subcommand :: _ =>
        if subcommand = "tail-waste" then .ok .reclaimTailWaste else .error 1
    else if name = "report" then
      match args with
      | [] => .error 0
      | subcommand :: _ =>
        if subcommand = "entry-arrays" then .ok .reportEntryArrays
        else if subcommand = "layout" then .ok .reportLayout
        else if subcommand = "tail-waste" then .ok .reportTailWaste
        else if subcommand = "usage" then .ok .reportUsage
        else .error 1
    else if name = "verify" then
      match args with
      | [] => .error 0
      | subcommand :: _ =>
        if subcommand = "hashed-objects" then .ok .verifyHashedObjects else .error 1
    else if name = "version" then .error 0
    else .error 1

/-! ## The machine id -/

/-- What reading the machine id depends on. -/
structure IdFile where
  openOp : Bool
  opened : Int
  readOp : Bool
  result : Int
  buf : Vector UInt8 4096
  strdup : Bool

/-- `machid_get`, with `readfile` and `open_done`. -/
def machidGet (file : IdFile) : Except Fault IdRead :=
  if !file.openOp then .ok (.returned (-ENOMEM))
  else if file.opened < 0 then .ok (.returned file.opened)
  else if !file.readOp then .ok (.returned (-ENOMEM))
  else readDone file.result ⟨file.buf, 4096⟩ (haveMachid file.strdup)

/-! ## Opening the journals -/

/-- What opening the journals comes to: a negative result, the journals the closure is dispatched
with, or nothing that is left to complete. -/
inductive Opened where
  | failed (r : Int)
  | joined {n : Nat} (journals : Journals n)
  | idle

/-- `iou_run`, while opens complete in this order. -/
def runOpens {n : Nat} (env : Registrations) (journals : Journals n) (ring : Ring n) :
    List (OpenOp n × Int) → Except Fault Opened
  | [] => .ok .idle
  | (op, result) :: completions => do
    let (journals, ring, returned) ← JournalsOpen.openedJournal env result op.slot journals ring
    match returned with
    | .dispatched => return .joined journals
    | .returned r => if r < 0 then return .failed r else runOpens env journals ring completions

/-- What a result of `get_journals` leads to. -/
def runJournals (env : Surroundings) (r : Int) (queued : Option Queued) : Except Fault Opened :=
  if r < 0 then .ok (.failed r)
  else match queued with
    | none => .ok .idle
    | some queued => runOpens env.registrations queued.journals ⟨none, none⟩
        ((env.order queued.n queued.ops).map fun op => (op, env.results op.slot))

/-- `get_journals`, and what it leads to. -/
def runDirectory (env : Surroundings) : Except Fault Opened := do
  let (r, queued) ← getJournals env.dir env.machidDir env.flags env.dents env.dents
  runJournals env r queued

/-- `journals_open`, and what it leads to. -/
def openJournals (env : Surroundings) : Except Fault Opened :=
  match journalsOpen env.rootOp with
  | (r, none) => .ok (.failed r)
  | (_, some _) =>
    match varOpened env.machidOp env.machid env.root with
    | (r, none) => .ok (.failed r)
    | (_, some _) => runDirectory env

/-! ## Whole runs -/

/-- A file, and its surroundings. -/
structure Stored where
  file : JournalFile
  sys : Syscalls
  allocs : EntryArrays.EntryArrayAllocs

/-- Where `jio` runs. `opens` is what opening the journals depends on, given the machine id, and
`stored` is what the slots are opened as. -/
structure Machine where
  idFile : IdFile
  opens : List UInt8 → Surroundings
  stored : Nat → Stored
  kernels : Nat → Kernel

/-- The journal is what the slot was opened as. -/
def Stored.Is (stored : Stored) (journal : JournalOnDisk) : Prop :=
  journal.file = stored.file ∧ journal.sys = stored.sys ∧ journal.allocs = stored.allocs

/-- The journals the closure finds. -/
structure Found {n : Nat} (machine : Machine) (journals : Journals n) (disk : List JournalOnDisk) :
    Prop where
  opened : disk.map JournalOnDisk.journal = (List.finRange n).map journals.journals
  stored : ∀ i : Fin disk.length, (machine.stored i).Is (disk.get i)

/-- How a command may end on a machine. -/
inductive RunEnds (command : Command) (machine : Machine) :
    Except (Except Fault Int) Unit → Prop
  | faulted {fault : Fault} (read : machidGet machine.idFile = .error fault) :
      RunEnds command machine (.error (.error fault))
  | unread {r : Int} (read : machidGet machine.idFile = .ok (.returned r)) :
      RunEnds command machine (.error (.ok r))
  | openFaulted {id : List UInt8} {fault : Fault}
      (read : machidGet machine.idFile = .ok (.dispatched id))
      (opened : openJournals (machine.opens id) = .error fault) :
      RunEnds command machine (.error (.error fault))
  | unopened {id : List UInt8} {r : Int} (read : machidGet machine.idFile = .ok (.dispatched id))
      (opened : openJournals (machine.opens id) = .ok (.failed r)) :
      RunEnds command machine (.error (.ok r))
  | idle {id : List UInt8} (read : machidGet machine.idFile = .ok (.dispatched id))
      (opened : openJournals (machine.opens id) = .ok .idle) : RunEnds command machine (.ok ())
  | ran {id : List UInt8} {n : Nat} {journals : Journals n} {disk : List JournalOnDisk}
      {r : Except (Except Fault Int) Unit}
      (read : machidGet machine.idFile = .ok (.dispatched id))
      (opened : openJournals (machine.opens id) = .ok (.joined journals))
      (found : Found machine journals disk)
      (ends : CommandEnds command.report disk (fun i => machine.kernels i) r) :
      RunEnds command machine r

/-- `main`: 1 where the subcommand returned a negative result, 0 where it did not. -/
inductive Exits (command : Command) (machine : Machine) : Nat → Prop
  | succeeded (ends : RunEnds command machine (.ok ())) : Exits command machine 0
  | failed {r : Int} (ends : RunEnds command machine (.error (.ok r))) : Exits command machine 1

/-- The status `jio` may exit with. -/
inductive JioExits (host : Host) (machine : Machine) (iouNew : Bool) (argv : List String) :
    Nat → Prop
  | atOnce {status : Nat} (without : called iouNew argv = .error status) :
      JioExits host machine iouNew argv status
  | disabled {subcommand : Subcommand} (calls : called iouNew argv = .ok subcommand)
      (none : command host subcommand = none) : JioExits host machine iouNew argv 1
  | ran {subcommand : Subcommand} {c : Command} {status : Nat}
      (calls : called iouNew argv = .ok subcommand) (some : command host subcommand = some c)
      (exits : Exits c machine status) : JioExits host machine iouNew argv status

/-! ## Opening all of them -/

section Opens

variable {n : Nat} {names : Fin n → String} {results : Fin n → Int} {env : Registrations}
  {journals : Journals n} {ring : Ring n} {done : List (Fin n)}

theorem registerJournals_refused (failed : ¬env.Succeed) (journals : Journals n) (ring : Ring n) :
    ∃ r < 0, (registerJournals env journals ring).2.2 = .returned r := by
  unfold registerJournals
  cases mallocFds : env.mallocFds with
  | false => exact ⟨_, enomem_negative, rfl⟩
  | true =>
    by_cases registerFiles : env.registerFiles < 0
    · exact ⟨_, registerFiles, by simp [registerFiles]⟩
    · cases mallocBufs : env.mallocBufs with
      | false => exact ⟨_, enomem_negative, by simp [registerFiles]⟩
      | true =>
        by_cases registerBuffers : env.registerBuffers < 0
        · exact ⟨_, registerBuffers, by simp [registerFiles, registerBuffers]⟩
        · exact absurd ⟨mallocFds, not_lt.mp registerFiles, mallocBufs, not_lt.mp registerBuffers⟩
            failed

variable (env ring) in
/-- In whatever order opens complete, the closure is dispatched with all journals if each is
allowed and can be registered; and otherwise there is a negative result. -/
theorem Prefix.runOpens {ops : List (OpenOp n)} (some : ops ≠ [])
    (opened : Prefix names results done journals)
    (once : (done ++ ops.map OpenOp.slot).Perm (List.finRange n)) :
    ((∀ op ∈ ops, Allowed (results op.slot)) → env.Succeed → ∃ journals',
      Prefix names results (done ++ ops.map OpenOp.slot) journals' ∧
      runOpens env journals ring (ops.map fun op => (op, results op.slot)) =
        .ok (.joined (registerJournals env journals' ring).1)) ∧
    (¬((∀ op ∈ ops, Allowed (results op.slot)) ∧ env.Succeed) → ∃ r < 0,
      runOpens env journals ring (ops.map fun op => (op, results op.slot)) = .ok (.failed r)) := by
  induction ops generalizing done journals with
  | nil => exact absurd rfl some
  | cons op ops ih =>
    rw [List.map_cons, List.map_cons, List.append_cons]
    unfold Commands.runOpens
    by_cases allowed : Allowed (results op.slot)
    · obtain ⟨fresh, length, once⟩ := once_cons once
      obtain ⟨next, opened, ran⟩ := opened.complete env ring fresh allowed
      rw [ran]
      cases ops with
      | nil =>
        rw [if_pos (by simpa using length), bind_ok]
        constructor
        · intro _ succeed
          refine ⟨next, by simpa using opened, ?_⟩
          simp only [registerJournals_eq succeed]
          rfl
        · intro fails
          have failed : ¬env.Succeed := fun succeed => fails ⟨by simpa using allowed, succeed⟩
          obtain ⟨r, negative, returned⟩ := registerJournals_refused failed next ring
          exact ⟨r, negative, by simp only [returned, if_pos negative]; rfl⟩
      | cons other ops =>
        have more : done.length + 1 ≠ n := by
          rw [List.length_cons] at length
          omega
        rw [if_neg more, bind_ok]
        simp only [lt_irrefl, if_false]
        obtain ⟨joins, fails⟩ := ih (by simp) opened once
        constructor
        · exact fun all => joins fun op member => all op (.tail _ member)
        · intro refused
          refine fails fun accepted => refused ⟨?_, accepted.2⟩
          rintro op' (_ | ⟨_, member⟩)
          · exact allowed
          · exact accepted.1 op' member
    · have negative : results op.slot < 0 := not_le.mp fun fd => allowed (.inl fd)
      rw [openedJournal_denied allowed, bind_ok]
      constructor
      · exact fun all => absurd (all op (.head _)) allowed
      · exact fun _ => ⟨_, negative, if_pos negative⟩

end Opens

/-- Nothing fails until the directory with the journals is open. -/
structure Reaches (env : Surroundings) : Prop where
  rootOp : env.rootOp = true
  root : 0 ≤ env.root
  machidOp : env.machidOp = true
  machidDir : 0 ≤ env.machidDir

/-- Nothing fails for the journals there are. -/
structure OpensAll (env : Surroundings) : Prop where
  calloc : env.dir.calloc = true
  resize : 0 ≤ env.dir.resize
  opNew : ∀ i < (visible env.dents).length, env.dir.opNew i = true
  allowed : ∀ i < (visible env.dents).length, Allowed (env.results i)
  registered : env.registrations.Succeed

/-- Nothing fails until all journals are open. -/
structure Opens (env : Surroundings) : Prop where
  reaches : Reaches env
  fdopendir : env.dir.fdopendir = none
  journals : visible env.dents ≠ [] → OpensAll env

/-- The directory is open, but `fdopendir` fails: its `errno` is positive, and so no failure. -/
structure Overlooks (env : Surroundings) : Prop where
  reaches : Reaches env
  fdopendir : env.dir.fdopendir ≠ none

section Surroundings

variable {env : Surroundings}

theorem mem_completed (slot : Fin (visible env.dents).length) :
    ∃ op ∈ env.completed, op.slot = slot := by
  have member : slot ∈ env.completed.map OpenOp.slot := by
    rw [← List.nil_append (env.completed.map _), completed_once.mem_iff]
    exact List.mem_finRange slot
  exact List.mem_map.mp member

/-- What comes of the opens that were queued. -/
theorem runOpens_completed (some : visible env.dents ≠ []) :
    let opens := runOpens env.registrations (unopenedJournals (visible env.dents)) ⟨none, none⟩
      (env.completed.map fun op => (op, env.results op.slot))
    let allowed := ∀ i < (visible env.dents).length, Allowed (env.results i)
    (allowed → env.registrations.Succeed → ∃ journals ring,
      Joined (fun i => (visible env.dents)[i]) (fun i => env.results i) journals ring ∧
        opens = .ok (.joined journals)) ∧
    (¬(allowed ∧ env.registrations.Succeed) → ∃ r < 0, opens = .ok (.failed r)) := by
  obtain ⟨joins, fails⟩ := Prefix.runOpens env.registrations ⟨none, none⟩ (completed_ne_nil some)
    (unopenedJournals_start _ fun i => env.results i) completed_once
  constructor
  · intro allowed succeed
    obtain ⟨journals, all, ran⟩ := joins (fun op _ => allowed _ op.slot.isLt) succeed
    have every (i : Fin (visible env.dents).length) : i ∈ [] ++ env.completed.map OpenOp.slot :=
      completed_once.mem_iff.mpr (List.mem_finRange i)
    exact ⟨_, _, registered_joined ⟨none, none⟩ succeed every all, ran⟩
  · intro refused
    refine fails fun accepted => refused ⟨?_, accepted.2⟩
    intro i bound
    obtain ⟨op, member, slot⟩ := mem_completed ⟨i, bound⟩
    have allowed := accepted.1 op member
    rwa [slot] at allowed

theorem runDirectory_eq {r : Int} {queued : Option Queued}
    (ran : getJournals env.dir env.machidDir env.flags env.dents env.dents = .ok (r, queued)) :
    runDirectory env = runJournals env r queued := by
  unfold runDirectory
  rw [ran]
  rfl

/-- With no journals, nothing is left to complete. -/
theorem runDirectory_empty (opened : 0 ≤ env.machidDir) (read : env.dir.fdopendir = none)
    (none : visible env.dents = []) : runDirectory env = .ok .idle := by
  have empty : (visible env.dents).length = 0 := List.length_eq_zero_iff.mpr none
  refine @runDirectory_eq env 0 .none ?_
  unfold getJournals
  simp only [if_neg (not_lt.mpr opened), read, if_pos empty]

/-- Nor is there with none to be seen. -/
theorem runDirectory_unread (opened : 0 ≤ env.machidDir) (unread : env.dir.fdopendir ≠ none) :
    runDirectory env = .ok .idle := by
  obtain ⟨errno, failed⟩ := Option.ne_none_iff_exists'.mp unread
  have positive := env.errno_positive errno failed
  have ran : getJournals env.dir env.machidDir env.flags env.dents env.dents =
      .ok (errno, none) := by
    unfold getJournals
    simp only [if_neg (not_lt.mpr opened), failed]
  rw [runDirectory_eq ran, runJournals, if_neg (by omega)]

/-- With journals, the closure is dispatched if nothing fails, and otherwise there is a negative
result. -/
theorem runDirectory_opens (opened : 0 ≤ env.machidDir) (read : env.dir.fdopendir = none)
    (some : visible env.dents ≠ []) :
    (OpensAll env → ∃ journals ring,
      Joined (fun i => (visible env.dents)[i]) (fun i => env.results i) journals ring ∧
        runDirectory env = .ok (.joined journals)) ∧
    (¬OpensAll env → ∃ r < 0, runDirectory env = .ok (.failed r)) := by
  obtain ⟨joins, fails⟩ := runOpens_completed some
  have several : (visible env.dents).length ≠ 0 := fun none => some (List.length_eq_zero_iff.mp none)
  have failed (r : Int) (negative : r < 0)
      (ran : getJournals env.dir env.machidDir env.flags env.dents env.dents = .ok (r, .none)) :
      ∃ r < 0, runDirectory env = .ok (.failed r) :=
    ⟨r, negative, by rw [runDirectory_eq ran, runJournals, if_pos negative]⟩
  have queued (calloc : env.dir.calloc = true) (resize : 0 ≤ env.dir.resize)
      (opNew : ∀ i < (visible env.dents).length, env.dir.opNew i = true) :
      runDirectory env = runOpens env.registrations (unopenedJournals (visible env.dents))
        ⟨none, none⟩ (env.completed.map fun op => (op, env.results op.slot)) :=
    runDirectory_eq (getJournals_queues read calloc resize opened env.flags some opNew)
  constructor
  · intro opens
    obtain ⟨journals, ring, joined, ran⟩ := joins opens.allowed opens.registered
    exact ⟨journals, ring, joined,
      (queued opens.calloc opens.resize opens.opNew).trans ran⟩
  · intro refused
    unfold getJournals at failed
    simp only [if_neg (not_lt.mpr opened), read, if_neg several, lt_irrefl, if_false] at failed
    by_cases calloc : env.dir.calloc = true
    · simp only [calloc, Bool.not_true, Bool.false_eq_true, if_false] at failed
      by_cases resize : env.dir.resize < 0
      · exact failed _ resize (if_pos resize)
      · simp only [if_neg resize] at failed
        by_cases opNew : ∀ i < (visible env.dents).length, env.dir.opNew i = true
        · obtain ⟨r, negative, ran⟩ := fails fun accepted => refused
            ⟨calloc, not_lt.mp resize, opNew, accepted.1, accepted.2⟩
          exact ⟨r, negative, (queued calloc (not_lt.mp resize) opNew).trans ran⟩
        · refine failed _ enomem_negative (if_neg fun every => opNew fun i below => ?_)
          exact List.all_eq_true.mp every i (List.mem_range.mpr below)
    · exact failed _ enomem_negative (if_pos (by simpa using calloc))

/-- The directory is read, unless something fails before it is open. -/
theorem openJournals_spec :
    (Reaches env → openJournals env = runDirectory env) ∧
    (¬Reaches env → ∃ r < 0, openJournals env = .ok (.failed r)) := by
  constructor
  · intro reaches
    unfold openJournals journalsOpen varOpened
    simp only [reaches.rootOp, reaches.machidOp, if_true, if_neg (not_lt.mpr reaches.root)]
  · intro refused
    unfold openJournals journalsOpen varOpened
    cases rootOp : env.rootOp with
    | false => exact ⟨_, enomem_negative, rfl⟩
    | true =>
      by_cases root : env.root < 0
      · exact ⟨_, root, by simp [root]⟩
      · cases machidOp : env.machidOp with
        | false => exact ⟨_, enomem_negative, by simp [root]⟩
        | true =>
          simp only [if_true, if_neg root]
          have machidDir : env.machidDir < 0 :=
            not_le.mp fun opened => refused ⟨rootOp, not_lt.mp root, machidOp, opened⟩
          have ran : getJournals env.dir env.machidDir env.flags env.dents env.dents =
              .ok (env.machidDir, none) := if_pos machidDir
          exact ⟨_, machidDir, by rw [runDirectory_eq ran, runJournals, if_pos machidDir]⟩

/-- How opening ends. -/
inductive OpenEnds (env : Surroundings) : Prop
  | failed (refused : ¬Opens env) (noticed : ¬Overlooks env) {r : Int}
      (ran : openJournals env = .ok (.failed r))
  | overlooked (unread : Overlooks env) (ran : openJournals env = .ok .idle)
  | empty (opens : Opens env) (none : visible env.dents = [])
      (ran : openJournals env = .ok .idle)
  | joined (opens : Opens env) {journals : Journals (visible env.dents).length}
      {ring : Ring (visible env.dents).length}
      (joined : Joined (fun i => (visible env.dents)[i]) (fun i => env.results i) journals ring)
      (ran : openJournals env = .ok (.joined journals))

variable (env) in
theorem openJournals_ends : OpenEnds env := by
  obtain ⟨reads, fails⟩ := @openJournals_spec env
  by_cases reaches : Reaches env
  · have ran := reads reaches
    by_cases read : env.dir.fdopendir = none
    · by_cases none : visible env.dents = []
      · exact .empty ⟨reaches, read, fun some => absurd none some⟩ none
          (ran.trans (runDirectory_empty reaches.machidDir read none))
      · obtain ⟨joins, refuses⟩ := runDirectory_opens reaches.machidDir read none
        by_cases all : OpensAll env
        · obtain ⟨journals, ring, joined, opened⟩ := joins all
          exact .joined ⟨reaches, read, fun _ => all⟩ joined (ran.trans opened)
        · obtain ⟨r, -, failed⟩ := refuses all
          exact .failed (fun opens => all (opens.journals none))
            (fun unread => unread.fdopendir read) (ran.trans failed)
    · exact .overlooked ⟨reaches, read⟩
        (ran.trans (runDirectory_unread reaches.machidDir read))
  · obtain ⟨r, -, failed⟩ := fails reaches
    exact .failed (fun opens => reaches opens.reaches) (fun unread => reaches unread.reaches) failed

end Surroundings

/-! ## The journals that are open -/

/-- The journal is what the slot was opened as. -/
structure OfSlot (machine : Machine) (env : Surroundings) (slot : Fin (visible env.dents).length)
    (journal : JournalOnDisk) : Prop where
  opened : 0 ≤ env.results slot
  fresh : freshJournal (visible env.dents)[slot] (env.results slot) slot = .ok journal.journal
  stored : (machine.stored slot).Is journal

/-- What the command comes to at the journal of a slot. -/
def SlotEnds (command : Command) (machine : Machine) (env : Surroundings)
    (slot : Fin (visible env.dents).length) (r : Except (Except Fault Int) Unit) : Prop :=
  ∃ journal, OfSlot machine env slot journal ∧
    JournalEnds (machine.kernels slot) (command.report journal) journal r

section Slots

variable {machine : Machine} {env : Surroundings} {slot : Fin (visible env.dents).length}
  {journal journal' : JournalOnDisk} {command : Command}

theorem OfSlot.unique (here : OfSlot machine env slot journal)
    (here' : OfSlot machine env slot journal') : journal = journal' := by
  have fresh := here.fresh.symm.trans here'.fresh
  obtain ⟨file, sys, allocs⟩ := here.stored
  obtain ⟨file', sys', allocs'⟩ := here'.stored
  obtain ⟨opened, -, -⟩ := here
  cases journal
  cases journal'
  simp_all

theorem SlotEnds.unique {r r' : Except (Except Fault Int) Unit}
    (ends : SlotEnds command machine env slot r) (ends' : SlotEnds command machine env slot r') :
    r = r' := by
  obtain ⟨journal, here, ends⟩ := ends
  obtain ⟨journal', here', ends'⟩ := ends'
  obtain rfl := here.unique here'
  exact ends.unique ends'

variable {journals : Journals (visible env.dents).length}
  {ring : Ring (visible env.dents).length} {disk : List JournalOnDisk}
  (joined : Joined (fun i => (visible env.dents)[i]) (fun i => env.results i) journals ring)
include joined

/-- An open journal is one whose open succeeded. -/
theorem open_iff (i : Fin (visible env.dents).length) :
    0 ≤ (journals.journals i).fd ↔ 0 ≤ env.results i := by
  rw [joined.fd]
  split <;> simp_all

variable (machine) in
theorem exists_found : ∃ disk, Found machine journals disk := by
  let journal (i : Fin (visible env.dents).length) : JournalOnDisk :=
    { journal := journals.journals i
      file := (machine.stored i).file
      sys := (machine.stored i).sys
      allocs := (machine.stored i).allocs
      cached := fun isOpen => .fresh (joined.fresh i ((open_iff joined i).mp isOpen)) }
  refine ⟨(List.finRange _).map journal, ?_, ?_⟩
  · rw [List.map_map]
    rfl
  · intro i
    rw [List.get_eq_getElem, List.getElem_map, List.getElem_finRange]
    exact ⟨rfl, rfl, rfl⟩

omit joined in
theorem Found.length (found : Found machine journals disk) :
    disk.length = (visible env.dents).length := by
  simpa using congrArg List.length found.opened

omit joined in
theorem Found.journal_eq (found : Found machine journals disk) (i : Fin disk.length) :
    (disk.get i).journal = journals.journals ⟨i, found.length ▸ i.isLt⟩ := by
  have here := congrArg (fun journals => journals[(i : Nat)]?) found.opened
  have inside : (i : Nat) < (visible env.dents).length := found.length ▸ i.isLt
  simpa [inside] using here

/-- What is open on the disk are the slots whose open succeeded. -/
theorem Found.ofSlot (found : Found machine journals disk) {i : Fin disk.length}
    (isOpen : i ∈ ReportTotals.opened disk) :
    OfSlot machine env ⟨i, found.length ▸ i.isLt⟩ (disk.get i) := by
  have opened : 0 ≤ (disk.get i).journal.fd := of_decide_eq_true (List.mem_filter.mp isOpen).2
  rw [found.journal_eq, open_iff joined] at opened
  refine ⟨opened, ?_, found.stored i⟩
  rw [found.journal_eq]
  exact joined.fresh _ opened

theorem Found.exists_open (found : Found machine journals disk) (opened : 0 ≤ env.results slot) :
    ∃ i ∈ ReportTotals.opened disk, (⟨i, found.length ▸ i.isLt⟩ : Fin _) = slot := by
  refine ⟨⟨slot, found.length.symm ▸ slot.isLt⟩, ?_, rfl⟩
  refine List.mem_filter.mpr ⟨List.mem_finRange _, decide_eq_true ?_⟩
  rw [found.journal_eq]
  exact (open_iff joined slot).mpr opened

theorem Found.ends_iff (found : Found machine journals disk) {i : Fin disk.length}
    (isOpen : i ∈ ReportTotals.opened disk) (r : Except (Except Fault Int) Unit) :
    JournalEnds (machine.kernels i) (command.report (disk.get i)) (disk.get i) r ↔
      SlotEnds command machine env ⟨i, found.length ▸ i.isLt⟩ r := by
  have here := found.ofSlot joined isOpen
  constructor
  · exact fun ends => ⟨_, here, ends⟩
  · rintro ⟨journal, here', ends⟩
    obtain rfl := here.unique here'
    exact ends

end Slots

/-! ## The status -/

/-- The command does not run into a fault, and comes to an end at each open journal. -/
structure NoFaults (command : Command) (machine : Machine) : Prop where
  read : ∀ fault, machidGet machine.idFile ≠ .error fault
  ends : ∀ id, machidGet machine.idFile = .ok (.dispatched id) →
    ∀ slot : Fin (visible (machine.opens id).dents).length,
      0 ≤ (machine.opens id).results slot →
        ∃ r, SlotEnds command machine (machine.opens id) slot r ∧
          ∀ fault, r ≠ .error (.error fault)

/-- The machine id can be read, nothing fails until all journals are open, and the command
succeeds at each that is. -/
def Succeeds (command : Command) (machine : Machine) : Prop :=
  ∃ id, machidGet machine.idFile = .ok (.dispatched id) ∧ Opens (machine.opens id) ∧
    ∀ slot : Fin (visible (machine.opens id).dents).length, 0 ≤ (machine.opens id).results slot →
      SlotEnds command machine (machine.opens id) slot (.ok ())

/-- The machine id can be read, and no journal is looked at. -/
def LooksAtNone (machine : Machine) : Prop :=
  ∃ id, machidGet machine.idFile = .ok (.dispatched id) ∧ Overlooks (machine.opens id)

section Status

variable {c : Command} {machine : Machine}

/-- A run that ends well had everything succeed, or looked at nothing. -/
theorem succeeds_of_runEnds (ends : RunEnds c machine (.ok ())) :
    Succeeds c machine ∨ LooksAtNone machine := by
  cases ends with
  | @idle id read opened =>
    cases openJournals_ends (machine.opens id) with
    | failed _ _ failed => cases opened.symm.trans failed
    | overlooked unread _ => exact .inr ⟨id, read, unread⟩
    | empty opens none _ =>
      refine .inl ⟨id, read, opens, fun slot => ?_⟩
      exact absurd slot.isLt (by simp [none])
    | joined _ _ ran => cases opened.symm.trans ran
  | @ran id n journals disk _ read opened found ends =>
    cases openJournals_ends (machine.opens id) with
    | failed _ _ failed => cases opened.symm.trans failed
    | overlooked _ idle => cases opened.symm.trans idle
    | empty _ _ idle => cases opened.symm.trans idle
    | joined opens joined ran =>
      obtain ⟨rfl, same⟩ := Opened.joined.inj (Except.ok.inj (opened.symm.trans ran))
      obtain rfl := eq_of_heq same
      refine .inl ⟨id, read, opens, fun slot opened => ?_⟩
      obtain ⟨i, isOpen, rfl⟩ := found.exists_open joined opened
      exact (found.ends_iff joined isOpen _).mp (journalEnds_of_done c.additive ends isOpen)

theorem Opens.not_overlooks {env : Surroundings} (opens : Opens env) : ¬Overlooks env :=
  fun unread => unread.fdopendir opens.fdopendir

theorem runEnds_of_succeeds (succeeds : Succeeds c machine) : RunEnds c machine (.ok ()) := by
  obtain ⟨id, read, opens, each⟩ := succeeds
  cases openJournals_ends (machine.opens id) with
  | failed refused => exact absurd opens refused
  | overlooked unread _ => exact absurd unread opens.not_overlooks
  | empty _ _ idle => exact .idle read idle
  | joined _ joined ran =>
    obtain ⟨disk, found⟩ := exists_found machine joined
    refine .ran read ran found ((commandEnds_done_iff c.additive).mpr fun i isOpen => ?_)
    exact (found.ends_iff joined isOpen _).mpr (each _ (found.ofSlot joined isOpen).opened)

theorem runEnds_of_looksAtNone (looks : LooksAtNone machine) : RunEnds c machine (.ok ()) := by
  obtain ⟨id, read, unread⟩ := looks
  cases openJournals_ends (machine.opens id) with
  | failed _ noticed => exact absurd unread noticed
  | overlooked _ idle => exact .idle read idle
  | empty opens => exact absurd unread opens.not_overlooks
  | joined opens => exact absurd unread opens.not_overlooks

/-- Where everything succeeds, or nothing is looked at, no order makes it fail. -/
theorem not_failed_of_succeeds (succeeds : Succeeds c machine ∨ LooksAtNone machine) (r : Int) :
    ¬RunEnds c machine (.error (.ok r)) := by
  obtain ⟨id, read, goes⟩ : ∃ id, machidGet machine.idFile = .ok (.dispatched id) ∧
      (Opens (machine.opens id) ∧ (∀ slot : Fin (visible (machine.opens id).dents).length,
        0 ≤ (machine.opens id).results slot →
          SlotEnds c machine (machine.opens id) slot (.ok ())) ∨
      Overlooks (machine.opens id)) := by
    rcases succeeds with ⟨id, read, opens⟩ | ⟨id, read, unread⟩
    · exact ⟨id, read, .inl opens⟩
    · exact ⟨id, read, .inr unread⟩
  intro ends
  cases ends with
  | unread returned => cases read.symm.trans returned
  | @unopened id' _ read' opened =>
    obtain rfl := IdRead.dispatched.inj (Except.ok.inj (read.symm.trans read'))
    cases openJournals_ends (machine.opens id) with
    | failed refused noticed => exact goes.elim (fun opens => refused opens.1) noticed
    | overlooked _ idle => cases opened.symm.trans idle
    | empty _ _ idle => cases opened.symm.trans idle
    | joined _ _ ran => cases opened.symm.trans ran
  | @ran id' n journals disk _ read' opened found ends =>
    obtain rfl := IdRead.dispatched.inj (Except.ok.inj (read.symm.trans read'))
    cases openJournals_ends (machine.opens id) with
    | failed refused noticed => exact goes.elim (fun opens => refused opens.1) noticed
    | overlooked _ idle => cases opened.symm.trans idle
    | empty _ _ idle => cases opened.symm.trans idle
    | joined opens joined ran =>
      obtain ⟨rfl, same⟩ := Opened.joined.inj (Except.ok.inj (opened.symm.trans ran))
      obtain rfl := eq_of_heq same
      obtain ⟨-, each⟩ := goes.resolve_right opens.not_overlooks
      obtain ⟨i, isOpen, failed⟩ := journalEnds_of_failed c.additive ends
      have slot := (found.ends_iff joined isOpen _).mp failed
      cases slot.unique (each _ (found.ofSlot joined isOpen).opened)

/-- Where something does not succeed, some order ends in a failure. -/
theorem exists_failed (noFaults : NoFaults c machine)
    (refused : ¬(Succeeds c machine ∨ LooksAtNone machine)) :
    ∃ r, RunEnds c machine (.error (.ok r)) := by
  cases read : machidGet machine.idFile with
  | error fault => exact absurd read (noFaults.read fault)
  | ok reading =>
    cases reading with
    | returned r => exact ⟨r, .unread read⟩
    | dispatched id =>
      cases openJournals_ends (machine.opens id) with
      | failed _ _ failed => exact ⟨_, .unopened read failed⟩
      | overlooked _ idle => exact absurd (succeeds_of_runEnds (.idle read idle)) refused
      | empty _ _ idle => exact absurd (succeeds_of_runEnds (.idle read idle)) refused
      | joined _ joined ran =>
        obtain ⟨disk, found⟩ := exists_found machine joined
        have comes (i : Fin disk.length) (isOpen : i ∈ ReportTotals.opened disk) :=
          noFaults.ends id read _ (found.ofSlot joined isOpen).opened
        obtain ⟨r, ends⟩ := exists_commandEnds c.additive fun i isOpen =>
          (comes i isOpen).imp fun r slot => (found.ends_iff joined isOpen r).mpr slot.1
        cases r with
        | ok => exact absurd (succeeds_of_runEnds (.ran read ran found ends)) refused
        | error code =>
          obtain ⟨i, isOpen, failed⟩ := journalEnds_of_failed c.additive ends
          obtain ⟨r, slot, noFault⟩ := comes i isOpen
          obtain rfl := slot.unique ((found.ends_iff joined isOpen _).mp failed)
          cases code with
          | error fault => exact absurd rfl (noFault fault)
          | ok r => exact ⟨r, .ran read ran found ends⟩

/-- The status says whether something failed, other than `fdopendir`. -/
structure Tells (succeeds noFaults : Prop) (exits : Nat → Prop) : Prop where
  success : exits 0 ↔ succeeds
  failure : exits 1 → ¬succeeds
  fails : noFaults → ¬succeeds → exits 1
  only : ∀ status, exits status → status = 0 ∨ status = 1

theorem exits_tells : Tells (Succeeds c machine ∨ LooksAtNone machine) (NoFaults c machine)
    (Exits c machine) where
  success := by
    constructor
    · intro exits
      cases exits with
      | succeeded ends => exact succeeds_of_runEnds ends
    · intro succeeds
      exact .succeeded (succeeds.elim runEnds_of_succeeds runEnds_of_looksAtNone)
  failure exits succeeds := by
    cases exits with
    | failed ends => exact not_failed_of_succeeds succeeds _ ends
  fails noFaults refused := by
    obtain ⟨r, ends⟩ := exists_failed noFaults refused
    exact .failed ends
  only status exits := by
    cases exits with
    | succeeded => exact .inl rfl
    | failed => exact .inr rfl

end Status

/-! ## Other orders -/

/-- The machine, but for the order in which opens complete. -/
def Machine.reordered (machine : Machine)
    (order : (n : Nat) → List (OpenOp n) → List (OpenOp n))
    (order_perm : ∀ n ops, (order n ops).Perm ops) : Machine :=
  { machine with opens := fun id => { machine.opens id with order, order_perm } }

section Reordered

variable {c : Command} {machine : Machine} {order : (n : Nat) → List (OpenOp n) → List (OpenOp n)}
  {order_perm : ∀ n ops, (order n ops).Perm ops}

theorem reaches_reordered {id : List UInt8}
    (reaches : Reaches ((machine.reordered order order_perm).opens id)) :
    Reaches (machine.opens id) := by
  obtain ⟨rootOp, root, machidOp, machidDir⟩ := reaches
  exact ⟨rootOp, root, machidOp, machidDir⟩

theorem reordered_reaches {id : List UInt8} (reaches : Reaches (machine.opens id)) :
    Reaches ((machine.reordered order order_perm).opens id) := by
  obtain ⟨rootOp, root, machidOp, machidDir⟩ := reaches
  exact ⟨rootOp, root, machidOp, machidDir⟩

theorem opens_reordered (id : List UInt8) :
    Opens ((machine.reordered order order_perm).opens id) ↔ Opens (machine.opens id) := by
  constructor
  · rintro ⟨reaches, read, journals⟩
    refine ⟨reaches_reordered reaches, read, fun some => ?_⟩
    obtain ⟨calloc, resize, opNew, allowed, registered⟩ := journals some
    exact ⟨calloc, resize, opNew, allowed, registered⟩
  · rintro ⟨reaches, read, journals⟩
    refine ⟨reordered_reaches reaches, read, fun some => ?_⟩
    obtain ⟨calloc, resize, opNew, allowed, registered⟩ := journals some
    exact ⟨calloc, resize, opNew, allowed, registered⟩

theorem overlooks_reordered (id : List UInt8) :
    Overlooks ((machine.reordered order order_perm).opens id) ↔ Overlooks (machine.opens id) :=
  ⟨fun ⟨reaches, unread⟩ => ⟨reaches_reordered reaches, unread⟩,
    fun ⟨reaches, unread⟩ => ⟨reordered_reaches reaches, unread⟩⟩

theorem slotEnds_reordered {id : List UInt8} {slot : Fin (visible (machine.opens id).dents).length}
    {r : Except (Except Fault Int) Unit} :
    SlotEnds c (machine.reordered order order_perm)
        ((machine.reordered order order_perm).opens id) slot r ↔
      SlotEnds c machine (machine.opens id) slot r := by
  constructor
  · rintro ⟨journal, ⟨opened, fresh, stored⟩, ends⟩
    exact ⟨journal, ⟨opened, fresh, stored⟩, ends⟩
  · rintro ⟨journal, ⟨opened, fresh, stored⟩, ends⟩
    exact ⟨journal, ⟨opened, fresh, stored⟩, ends⟩

theorem succeeds_reordered :
    Succeeds c (machine.reordered order order_perm) ↔ Succeeds c machine := by
  refine exists_congr fun id => and_congr Iff.rfl (and_congr (opens_reordered id) ?_)
  exact forall_congr' fun slot => imp_congr Iff.rfl slotEnds_reordered

theorem looksAtNone_reordered :
    LooksAtNone (machine.reordered order order_perm) ↔ LooksAtNone machine :=
  exists_congr fun id => and_congr Iff.rfl (overlooks_reordered id)

theorem NoFaults.reordered (noFaults : NoFaults c machine) :
    NoFaults c (machine.reordered order order_perm) where
  read := noFaults.read
  ends id read slot opened := by
    obtain ⟨r, ends, noFault⟩ := noFaults.ends id read slot opened
    exact ⟨r, slotEnds_reordered.mpr ends, noFault⟩

end Reordered

/-- Whatever the order in which the opens and the reads complete, `jio` can exit with 0 exactly if
everything succeeds, or if the one failure is that of `fdopendir`; it then exits with nothing else,
and otherwise with 1, unless it runs into a fault or never ends. -/
theorem status_is_no_race {host : Host} {machine : Machine} {iouNew : Bool} {argv : List String}
    {subcommand : Subcommand} (calls : called iouNew argv = .ok subcommand) {c : Command}
    (some : command host subcommand = some c)
    (order : (n : Nat) → List (OpenOp n) → List (OpenOp n))
    (order_perm : ∀ n ops, (order n ops).Perm ops) :
    Tells (Succeeds c machine ∨ LooksAtNone machine) (NoFaults c machine)
      (JioExits host (machine.reordered order order_perm) iouNew argv) := by
  have called_ (status : Nat) : JioExits host (machine.reordered order order_perm) iouNew argv
      status ↔ Exits c (machine.reordered order order_perm) status := by
    constructor
    · intro exits
      cases exits with
      | atOnce without => cases calls.symm.trans without
      | disabled calls' none =>
        obtain rfl := Except.ok.inj (calls.symm.trans calls')
        cases some.symm.trans none
      | ran calls' some' exits =>
        obtain rfl := Except.ok.inj (calls.symm.trans calls')
        obtain rfl := Option.some.inj (some.symm.trans some')
        exact exits
    · exact fun exits => .ran calls some exits
  obtain ⟨success, failure, fails, only⟩ := @exits_tells c (machine.reordered order order_perm)
  rw [succeeds_reordered, looksAtNone_reordered] at success failure fails
  constructor
  · rw [called_]
    exact success
  · rw [called_]
    exact failure
  · rw [called_]
    exact fun noFaults => fails noFaults.reordered
  · intro status
    rw [called_]
    exact only status

/-! ## A machine with one journal -/

/-- A system with everything that is asked of it. -/
def oneDirectory (machid : List UInt8) : Surroundings where
  machid := String.ofList (machid.map fun c => Char.ofNat c.toNat)
  flags := 0
  rootOp := true
  root := 3
  machidOp := true
  machidDir := 4
  dir := ⟨none, true, 5, 0, fun _ => true⟩
  dents := [".", "..", "system.journal"]
  results _ := 6
  order _ ops := ops
  registrations := ⟨true, 0, true, 0⟩
  errno_positive := nofun
  order_perm _ ops := .refl ops

def oneJournal : Machine where
  idFile := ⟨true, 3, true, ([102, 10] : List UInt8).length, (filled [102, 10]).buf, true⟩
  opens := oneDirectory
  stored _ := ⟨twoMessages.file, ⟨0, UInt64.ofNat twoMessages.file.size, fun _ => 0⟩,
    ⟨fun _ _ => true, fun _ => true⟩⟩
  kernels _ := fileKernel twoMessages.file

def oneHost : Host where
  endian := .big
  sha1 _ := .replicate _ 0
  zstd := HashedObjects.someFrames
  allocs _ _ := HashedObjects.zeroAllocs
  layouts _ := 0

theorem oneJournal_read : machidGet oneJournal.idFile = .ok (.dispatched [102]) :=
  haveMachid_eq (by decide) (filled_delivered _ (by decide))

theorem oneDirectory_opens (id : List UInt8) : Opens (oneDirectory id) where
  reaches := ⟨rfl, show (0 : Int) ≤ 3 by decide, rfl, show (0 : Int) ≤ 4 by decide⟩
  fdopendir := rfl
  journals _ :=
    { calloc := rfl
      resize := le_rfl
      opNew := fun _ _ => rfl
      allowed := fun _ _ => .inl (show (0 : Int) ≤ 6 by decide)
      registered := ⟨rfl, le_rfl, rfl, le_rfl⟩ }

/-- `report layout`. -/
def oneCommand : Command :=
  ⟨_, _, inferInstance, LayoutReport.layoutReport (fun _ => 0) .big,
    LayoutReport.layoutReport_additive (fun _ => 0) .big⟩

theorem oneJournal_slotEnds (id : List UInt8) (slot : Fin (visible (oneDirectory id).dents).length) :
    SlotEnds oneCommand oneJournal (oneDirectory id) slot (.ok ()) := by
  obtain ⟨journal, ready, -⟩ := freshJournal_spec (visible (oneDirectory id).dents)[slot] 6 slot
  have cached : CacheInvariant twoMessages.file journal := .fresh ready
  have isOpen : (onDisk twoMessages cached).isOpen = true :=
    decide_eq_true (freshJournal_fd ready ▸ by decide)
  have laid := LayoutReport.Written.laid (onDisk_written twoMessages cached)
  have contributes (journal' : JournalOnDisk) (member : journal' ∈ [onDisk twoMessages cached])
      (_ : journal'.isOpen = true) :
      Contributes (LayoutReport.layoutReport (fun _ => 0) .big) journal'
        (LayoutReport.reported journal' (twoMessages.placed.map shown), ()) :=
    List.mem_singleton.mp member ▸ laid.contributes le_rfl .big
  obtain ⟨results, -⟩ := command_succeeds (LayoutReport.layoutReport_additive (fun _ => 0) .big)
    contributes (onDisk_answers twoMessages cached)
  refine ⟨onDisk twoMessages cached, ⟨show (0 : Int) ≤ 6 by decide, ready, rfl, rfl, rfl⟩, ?_⟩
  exact (commandEnds_singleton (LayoutReport.layoutReport_additive (fun _ => 0) .big) isOpen _ _).mp
    ((results _).mpr rfl)

/-- The same with a directory that cannot be read. -/
def unreadDirectory : Machine :=
  { oneJournal with opens := fun id => { oneDirectory id with
      dir := ⟨some 24, true, 5, 0, fun _ => true⟩
      errno_positive := by simp } }

/-- The same without memory for the first operation. -/
def unopenedDirectory : Machine :=
  { oneJournal with opens := fun id =>
      { oneDirectory id with rootOp := false, results := fun _ => -EACCES } }

/-- With one journal the status is 0, as it is with a directory that cannot be read; where
opening fails it is 1. -/
theorem status_is_no_race_oneJournal :
    let exits (machine : Machine) := JioExits oneHost
      (machine.reordered (fun _ ops => ops.reverse) fun _ => List.reverse_perm) true
      ["jio", "report", "layout"]
    (exits oneJournal 0 ∧ ¬exits oneJournal 1) ∧
      (exits unreadDirectory 0 ∧ ¬exits unreadDirectory 1) ∧
      exits unopenedDirectory 1 ∧ ¬exits unopenedDirectory 0 := by
  intro exits
  have calls : called true ["jio", "report", "layout"] = .ok .reportLayout := by decide
  have tells (machine : Machine) : Tells (Succeeds oneCommand machine ∨ LooksAtNone machine)
      (NoFaults oneCommand machine) (exits machine) :=
    @status_is_no_race oneHost machine _ _ _ calls oneCommand rfl (fun _ ops => ops.reverse)
      fun _ => List.reverse_perm
  have well : Succeeds oneCommand oneJournal :=
    ⟨_, oneJournal_read, oneDirectory_opens _, fun slot _ => oneJournal_slotEnds _ slot⟩
  have looks : LooksAtNone unreadDirectory := by
    obtain ⟨rootOp, root, machidOp, machidDir⟩ := (oneDirectory_opens [102]).reaches
    exact ⟨_, oneJournal_read, ⟨rootOp, root, machidOp, machidDir⟩, show some 24 ≠ none from nofun⟩
  have refused : ¬(Succeeds oneCommand unopenedDirectory ∨ LooksAtNone unopenedDirectory) := by
    rintro (⟨id, -, opens, -⟩ | ⟨id, -, overlooks⟩)
    · exact absurd opens.reaches.rootOp (show false ≠ true by decide)
    · exact absurd overlooks.reaches.rootOp (show false ≠ true by decide)
  have noFaults : NoFaults oneCommand unopenedDirectory :=
    { read := fun fault failed => by cases oneJournal_read.symm.trans failed
      ends := fun id _ slot opened => absurd opened (show ¬(0 : Int) ≤ -EACCES by decide) }
  refine ⟨⟨?_, ?_⟩, ⟨?_, ?_⟩, ?_, ?_⟩
  · exact (tells oneJournal).success.mpr (.inl well)
  · exact fun failed => (tells oneJournal).failure failed (.inl well)
  · exact (tells unreadDirectory).success.mpr (.inr looks)
  · exact fun failed => (tells unreadDirectory).failure failed (.inr looks)
  · exact (tells unopenedDirectory).fails noFaults refused
  · exact fun succeeded => refused ((tells unopenedDirectory).success.mp succeeded)

end Jio.Commands
