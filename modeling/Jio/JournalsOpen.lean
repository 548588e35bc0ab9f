import Mathlib.Data.List.FinRange
import Mathlib.Data.Set.Function
import Jio.CachedReads

/-! `journals_open` from where the directory is opened. All journals in it are opened at the
same time; the completion that makes the count of opens that of the journals, whichever
it is, registers files and buffers and dispatches the closure. -/
namespace Jio.JournalsOpen
open LinkedOrder

/-! ## The directory -/

/-- `journals_t`. `n_journals` is the number of its slots. -/
structure Journals (n : Nat) where
  nOpened : Nat
  journals : Fin n → Journal

/-- An `openat` in flight, with the slot its completion is for. -/
structure OpenOp (n : Nat) where
  dirfd : Int
  name : String
  flags : Int
  slot : Fin n

/-- What `get_journals` leaves behind: its slots, and the opens it queued. -/
structure Queued where
  n : Nat
  journals : Journals n
  ops : List (OpenOp n)

/-- The surroundings of `get_journals`. -/
structure Directory where
  fdopendir : Option Int
  calloc : Bool
  dup : Int
  resize : Int
  opNew : Nat → Bool

/-- Dot files are skipped. -/
def visible (dents : List String) : List String :=
  dents.filter fun name => name.toList.head? ≠ some '.'

/-- The slots before any open completes. -/
def unopenedJournals (names : List String) : Journals names.length :=
  ⟨0, fun i => unopenedJournal names[i]⟩

/-- The opens of all of them. -/
def openOps (dirfd flags : Int) (names : List String) : List (OpenOp names.length) :=
  (List.finRange names.length).map fun i => ⟨dirfd, names[i], flags, i⟩

/-- `get_journals`: its result and what it leaves at `*journals`. The directory is read twice,
first for the number of journals and then for their names. -/
def getJournals (dir : Directory) (result flags : Int) (dents dents' : List String) :
    Except Fault (Int × Option Queued) :=
  if result < 0 then .ok (result, none)
  else match dir.fdopendir with
  | some errno => .ok (errno, none)
  | none =>
    let nAllocated := (visible dents).length
    if nAllocated = 0 then .ok (0, none)
    else if !dir.calloc then .ok (-ENOMEM, none)
    else
      let names := visible dents'
      if nAllocated < names.length then .error .assertion
      else if dir.resize < 0 then .ok (dir.resize, none)
      else if (List.range names.length).all dir.opNew then
        .ok (0, some ⟨names.length, unopenedJournals names, openOps dir.dup flags names⟩)
      else .ok (-ENOMEM, none)

/-! ## Completions -/

/-- `struct iovec`, its base being the data of a buffer. -/
structure Iovec (n : Nat) where
  journal : Fin n
  buf : BufId
  len : Nat
  deriving DecidableEq

/-- What is registered with the ring. -/
structure Ring (n : Nat) where
  files : Option (List Int)
  buffers : Option (List (Iovec n))

/-- The surroundings of the last completion. -/
structure Registrations where
  mallocFds : Bool
  registerFiles : Int
  mallocBufs : Bool
  registerBuffers : Int

/-- How a completion leaves off: it returns, or it has the closure dispatched. -/
inductive Returned where
  | returned (r : Int)
  | dispatched
  deriving DecidableEq

variable {n : Nat}

/-- `journals->journals[i].public.fd = fd`, and the like. -/
def Journals.set (journals : Journals n) (i : Fin n) (journal : Journal) : Journals n :=
  { journals with journals := Function.update journals.journals i journal }

/-- `journals`, `bufs` and `n_bufs` in the loop that collects the buffers. No more journals
can be registered than an `int` numbers the buffers of. -/
structure Collected (n : Nat) where
  journals : Journals n
  bufs : List (Iovec n)
  nBufs : Nat

/-- The body of the inner loop. -/
def collectBuf (i : Fin n) (collected : Collected n) (buf : BufId) : Collected n where
  journals := collected.journals.set i
    ((collected.journals.journals i).setBuf buf fun b => { b with idx := collected.nBufs })
  bufs := collected.bufs ++ [⟨i, buf, JOURNAL_BUF_SIZE⟩]
  nBufs := collected.nBufs + 1

/-- The body of the outer loop. -/
def collectBufs (collected : Collected n) (i : Fin n) : Collected n :=
  (List.finRange JOURNAL_BUF_CNT).foldl (collectBuf i) collected

/-- What the last completion does before it dispatches the closure. -/
def registerJournals (env : Registrations) (journals : Journals n) (ring : Ring n) :
    Journals n × Ring n × Returned :=
  if !env.mallocFds then (journals, ring, .returned (-ENOMEM))
  else
    let fds := (List.finRange n).map fun i => (journals.journals i).fd
    let journals := { journals with
      journals := fun i => { journals.journals i with idx := (i : Nat) } }
    if env.registerFiles < 0 then (journals, ring, .returned env.registerFiles)
    else
      let ring := { ring with files := some fds }
      if !env.mallocBufs then (journals, ring, .returned (-ENOMEM))
      else
        let collected := (List.finRange n).foldl collectBufs ⟨journals, [], 0⟩
        if env.registerBuffers < 0 then
          (collected.journals, ring, .returned env.registerBuffers)
        else (collected.journals, { ring with buffers := some collected.bufs }, .dispatched)

/-- What the result of an open makes of its slot. -/
def openedSlot (result : Int) (journal : Journal) : Except Fault Journal :=
  if result < 0 then .ok { journal with fd := -1 } else Jio.openedJournal journal result

/-- `opened_journal`, for the slot `i`. -/
def openedJournal (env : Registrations) (result : Int) (i : Fin n) (journals : Journals n)
    (ring : Ring n) : Except Fault (Journals n × Ring n × Returned) :=
  -- a count of opens, not of successes
  let journals := { journals with nOpened := journals.nOpened + 1 }
  if result < 0 ∧ result ≠ -EPERM ∧ result ≠ -EACCES then .ok (journals, ring, .returned result)
  else do
    let journal ← openedSlot result (journals.journals i)
    let journals := journals.set i journal
    if journals.nOpened = n then return registerJournals env journals ring
    else return (journals, ring, .returned 0)

/-- Completions delivered one after the other. -/
def deliver (env : Registrations) (journals : Journals n) (ring : Ring n) :
    List (OpenOp n × Int) → Except Fault (Journals n × Ring n × List Returned)
  | [] => .ok (journals, ring, [])
  | (op, result) :: completions => do
    let (journals, ring, returned) ← openedJournal env result op.slot journals ring
    let (journals, ring, others) ← deliver env journals ring completions
    return (journals, ring, returned :: others)

/-! ## Each open journal -/

/-- How `journals_for_each` leaves off: its result, `*journal_iter` at each dispatch, and what
the closure keeps. -/
structure ForEach (n : Nat) (σ : Type) where
  r : Int
  journalIter : List (Fin n)
  user : σ

/-- The loop, over these slots. Nothing that is dispatched changes an `fd`. -/
def forEachFrom {σ : Type} (journals : Journals n) (closure : Fin n → σ → Int × σ) :
    List (Fin n) → σ → ForEach n σ
  | [], user => ⟨0, [], user⟩
  | i :: slots, user =>
    if (journals.journals i).fd < 0 then forEachFrom journals closure slots user
    else
      let (r, user) := closure i user
      if r < 0 then ⟨r, [i], user⟩
      else
        let rest := forEachFrom journals closure slots user
        { rest with journalIter := i :: rest.journalIter }

/-- `journals_for_each`. -/
def journalsForEach {σ : Type} (journals : Journals n) (closure : Fin n → σ → Int × σ)
    (user : σ) : ForEach n σ := forEachFrom journals closure (List.finRange n) user

/-! ## Registered buffers -/

/-- The journal with these buffers numbered. -/
def numbered (journal : Journal) (first : Nat) (bufs : List BufId) : Journal :=
  { journal with
    bufs := fun buf =>
      if buf ∈ bufs then { journal.bufs buf with idx := (first + bufs.idxOf buf : Nat) }
      else journal.bufs buf }

/-- The inner loop numbers buffers on from where it is. -/
theorem foldl_collectBuf (i : Fin n) {bufs : List BufId} (distinct : bufs.Nodup)
    (collected : Collected n) : bufs.foldl (collectBuf i) collected =
      { journals := collected.journals.set i
          (numbered (collected.journals.journals i) collected.nBufs bufs)
        bufs := collected.bufs ++ bufs.map fun buf => ⟨i, buf, JOURNAL_BUF_SIZE⟩
        nBufs := collected.nBufs + bufs.length } := by
  induction bufs generalizing collected with
  | nil =>
    have same : numbered (collected.journals.journals i) collected.nBufs [] =
        collected.journals.journals i := by simp [numbered]
    simp [Journals.set, same]
  | cons buf bufs ih =>
    obtain ⟨fresh, distinct⟩ := List.nodup_cons.mp distinct
    have numbers : numbered ((collected.journals.journals i).setBuf buf
        fun b => { b with idx := collected.nBufs }) (collected.nBufs + 1) bufs =
          numbered (collected.journals.journals i) collected.nBufs (buf :: bufs) := by
      unfold numbered Journal.setBuf
      congr 1
      funext other
      by_cases here : other = buf
      · subst here
        simp [fresh]
      · by_cases later : other ∈ bufs
        · simp [later, here, List.idxOf_cons_ne _ (Ne.symm here)]
          omega
        · simp [later, here]
    rw [List.foldl_cons, ih distinct]
    simp only [collectBuf, Journals.set, Function.update_self, Function.update_idem, numbers]
    simp [Nat.add_assoc, Nat.add_comm 1]

/-- The outer loop goes on with the next journal where it left off. -/
theorem foldl_collectBufs {slots : List (Fin n)} (distinct : slots.Nodup)
    (collected : Collected n) : slots.foldl collectBufs collected =
      { journals := { collected.journals with
          journals := fun i =>
            if i ∈ slots then numbered (collected.journals.journals i)
              (collected.nBufs + slots.idxOf i * JOURNAL_BUF_CNT) (List.finRange JOURNAL_BUF_CNT)
            else collected.journals.journals i }
        bufs := collected.bufs ++ slots.flatMap fun i =>
          (List.finRange JOURNAL_BUF_CNT).map fun buf => ⟨i, buf, JOURNAL_BUF_SIZE⟩
        nBufs := collected.nBufs + slots.length * JOURNAL_BUF_CNT } := by
  induction slots generalizing collected with
  | nil => simp
  | cons i slots ih =>
    obtain ⟨fresh, distinct⟩ := List.nodup_cons.mp distinct
    have numbers (other : Fin n) :
        (if other ∈ slots then numbered (Function.update collected.journals.journals i
            (numbered (collected.journals.journals i) collected.nBufs
              (List.finRange JOURNAL_BUF_CNT)) other)
          (collected.nBufs + JOURNAL_BUF_CNT + slots.idxOf other * JOURNAL_BUF_CNT)
          (List.finRange JOURNAL_BUF_CNT)
        else Function.update collected.journals.journals i
          (numbered (collected.journals.journals i) collected.nBufs
            (List.finRange JOURNAL_BUF_CNT)) other) =
        if other ∈ i :: slots then numbered (collected.journals.journals other)
          (collected.nBufs + (i :: slots).idxOf other * JOURNAL_BUF_CNT)
          (List.finRange JOURNAL_BUF_CNT)
        else collected.journals.journals other := by
      by_cases here : other = i
      · subst here
        simp [fresh]
      · by_cases later : other ∈ slots
        · have next : collected.nBufs + JOURNAL_BUF_CNT + slots.idxOf other * JOURNAL_BUF_CNT =
              collected.nBufs + (slots.idxOf other).succ * JOURNAL_BUF_CNT := by
            rw [Nat.succ_mul]
            omega
          rw [if_pos later, if_pos (List.mem_cons_of_mem i later),
            List.idxOf_cons_ne _ (Ne.symm here), Function.update_of_ne here, next]
        · simp [later, here]
    rw [List.foldl_cons, ih distinct]
    unfold collectBufs
    simp only [foldl_collectBuf i (List.nodup_finRange _), List.length_finRange, Journals.set,
      numbers, List.flatMap_cons, List.append_assoc, List.length_cons, Nat.succ_mul]
    rw [Nat.add_right_comm, Nat.add_assoc]

/-- Once all have been opened, the journals are numbered, and so are their buffers. -/
theorem collected_eq (journals : Journals n) :
    (List.finRange n).foldl collectBufs
      ⟨{ journals with journals := fun i => { journals.journals i with idx := (i : Nat) } }, [], 0⟩ =
      { journals := { journals with journals := fun i => registeredJournal (journals.journals i) i }
        bufs := (List.finRange n).flatMap fun i =>
          (List.finRange JOURNAL_BUF_CNT).map fun buf => ⟨i, buf, JOURNAL_BUF_SIZE⟩
        nBufs := n * JOURNAL_BUF_CNT } := by
  rw [foldl_collectBufs (List.nodup_finRange n)]
  simp [numbered, registeredJournal]

/-! ## The join -/

/-- An open succeeds, or is denied. -/
def Allowed (result : Int) : Prop := 0 ≤ result ∨ result = -EPERM ∨ result = -EACCES

section Runs

variable {names : Fin n → String} {results : Fin n → Int} {env : Registrations}
  {journals : Journals n} {ring : Ring n} {done : List (Fin n)} {i : Fin n}

/-- A slot opened is ready for a file descriptor, and one that is not has none. -/
theorem openedSlot_spec (name : String) (result : Int) (i : Nat) :
    ∃ journal, openedSlot result (unopenedJournal name) = .ok journal ∧
      journal.fd = (if 0 ≤ result then result else -1) ∧
      (0 ≤ result → freshJournal name result i = .ok (registeredJournal journal i)) := by
  unfold openedSlot
  by_cases negative : result < 0
  · refine ⟨_, if_pos negative, ?_, fun fd => by omega⟩
    rw [if_neg (by omega)]
  · obtain ⟨_, ready, -⟩ := freshJournal_spec name result i
    obtain ⟨journal, linked, -⟩ := bind_eq_ok.mp ready
    refine ⟨journal, (if_neg negative).trans linked, ?_, fun _ => ?_⟩
    · rw [if_pos (by omega)]
      unfold Jio.openedJournal at linked
      obtain ⟨_, -, stored⟩ := bind_eq_ok.mp linked
      cases stored
      rfl
    · unfold freshJournal
      rw [linked]
      rfl

/-- These opens have completed, and no others. -/
structure Prefix (names : Fin n → String) (results : Fin n → Int) (done : List (Fin n))
    (journals : Journals n) : Prop where
  count : journals.nOpened = done.length
  completed : ∀ i ∈ done, openedSlot (results i) (unopenedJournal (names i)) =
    .ok (journals.journals i)
  unopened : ∀ i ∉ done, journals.journals i = unopenedJournal (names i)

variable (env ring) in
/-- One more open completes. If it is the last, everything is registered. -/
theorem Prefix.complete (opened : Prefix names results done journals) (fresh : i ∉ done)
    (allowed : Allowed (results i)) : ∃ journals',
      Prefix names results (done ++ [i]) journals' ∧
      openedJournal env (results i) i journals ring = .ok
        (if done.length + 1 = n then registerJournals env journals' ring
        else (journals', ring, .returned 0)) := by
  have permitted : ¬(results i < 0 ∧ results i ≠ -EPERM ∧ results i ≠ -EACCES) := by
    rintro ⟨negative, notPerm, notAcces⟩
    rcases allowed with fd | perm | acces
    · omega
    · exact notPerm perm
    · exact notAcces acces
  obtain ⟨journal, completed, -⟩ := openedSlot_spec (names i) (results i) i
  have ran : openedSlot (results i) (journals.journals i) = .ok journal := by
    rw [opened.unopened i fresh]
    exact completed
  refine ⟨Journals.set { journals with nOpened := journals.nOpened + 1 } i journal,
    ⟨?_, ?_, ?_⟩, ?_⟩
  · rw [List.length_append, ← opened.count]
    rfl
  · intro j member
    unfold Journals.set
    by_cases here : j = i
    · subst here
      simpa using completed
    · have before : j ∈ done := by simpa [here] using member
      simpa [here] using opened.completed j before
  · intro j outside
    unfold Journals.set
    rw [List.mem_append, List.mem_singleton, not_or] at outside
    simpa [outside.2] using opened.unopened j outside.1
  · unfold openedJournal
    simp only [if_neg permitted, ran, bind_ok, Journals.set, opened.count]
    split <;> rfl

/-- The next open to complete is none of those that have. -/
theorem once_cons {op : OpenOp n} {ops : List (OpenOp n)}
    (once : (done ++ (op :: ops).map OpenOp.slot).Perm (List.finRange n)) :
    op.slot ∉ done ∧ done.length + (ops.length + 1) = n ∧
      (done ++ [op.slot] ++ ops.map OpenOp.slot).Perm (List.finRange n) := by
  have distinct := once.nodup_iff.mpr (List.nodup_finRange n)
  refine ⟨fun member => (List.nodup_append.mp distinct).2.2 _ member _ (by simp) rfl, ?_, ?_⟩
  · simpa using once.length_eq
  · rwa [List.map_cons, List.append_cons] at once

/-- There is one open for each slot. -/
theorem slots_openOps (dirfd flags : Int) (names : List String) :
    (openOps dirfd flags names).map OpenOp.slot = List.finRange names.length := by
  unfold openOps
  rw [List.map_map]
  exact List.map_id _

/-- Every allocation and registration succeeds. -/
structure Registrations.Succeed (env : Registrations) : Prop where
  mallocFds : env.mallocFds = true
  registerFiles : 0 ≤ env.registerFiles
  mallocBufs : env.mallocBufs = true
  registerBuffers : 0 ≤ env.registerBuffers

theorem registerJournals_eq (succeed : env.Succeed) : registerJournals env journals ring =
    ({ journals with journals := fun i => registeredJournal (journals.journals i) i },
      { files := some ((List.finRange n).map fun i => (journals.journals i).fd)
        buffers := some ((List.finRange n).flatMap fun i =>
          (List.finRange JOURNAL_BUF_CNT).map fun buf => ⟨i, buf, JOURNAL_BUF_SIZE⟩) },
      .dispatched) := by
  unfold registerJournals
  simp only [succeed.mallocFds, succeed.mallocBufs, Bool.not_true, Bool.false_eq_true, ↓reduceIte,
    if_neg (not_lt.mpr succeed.registerFiles), if_neg (not_lt.mpr succeed.registerBuffers)]
  rw [collected_eq]

variable (ring) in
/-- Whatever is left to complete, in whatever order, the closure is dispatched by the last of
it and not before. -/
theorem Prefix.deliver (succeed : env.Succeed) (allowed : ∀ i, Allowed (results i))
    {ops : List (OpenOp n)} (some : ops ≠ []) (opened : Prefix names results done journals)
    (once : (done ++ ops.map OpenOp.slot).Perm (List.finRange n)) : ∃ journals',
      Prefix names results (done ++ ops.map OpenOp.slot) journals' ∧
      deliver env journals ring (ops.map fun op => (op, results op.slot)) =
        .ok ((registerJournals env journals' ring).1, (registerJournals env journals' ring).2.1,
          List.replicate (ops.length - 1) (.returned 0) ++ [.dispatched]) := by
  induction ops generalizing done journals with
  | nil => exact absurd rfl some
  | cons op ops ih =>
    obtain ⟨fresh, length, once⟩ := once_cons once
    obtain ⟨next, opened, ran⟩ := opened.complete env ring fresh (allowed op.slot)
    rw [List.map_cons, List.append_cons, List.map_cons]
    unfold JournalsOpen.deliver
    rw [ran]
    cases ops with
    | nil =>
      rw [if_pos (by simpa using length), registerJournals_eq succeed]
      refine ⟨next, by simpa using opened, ?_⟩
      rw [registerJournals_eq succeed]
      rfl
    | cons other ops =>
      obtain ⟨journals', last, rest⟩ := ih (by simp) opened once
      refine ⟨journals', last, ?_⟩
      have more : done.length + 1 ≠ n := by
        rw [List.length_cons] at length
        omega
      simp only [if_neg more, bind_ok, rest]
      rfl

/-- Where an element of lists of one length, put one after the other, is found. -/
theorem getElem?_flatMap {α β : Type} {l : List α} {f : α → List β} {m : Nat}
    (length : ∀ a, (f a).length = m) (k : Nat) {j : Nat} (inside : j < m) :
    (l.flatMap f)[k * m + j]? = l[k]?.bind fun a => (f a)[j]? := by
  induction l generalizing k with
  | nil => rfl
  | cons a l ih =>
    rw [List.flatMap_cons]
    cases k with
    | zero =>
      rw [Nat.zero_mul, Nat.zero_add, List.getElem?_append_left (by rw [length]; exact inside)]
      rfl
    | succ k =>
      have later : (k + 1) * m + j = m + (k * m + j) := by
        rw [Nat.succ_mul]
        omega
      rw [later, List.getElem?_append_right (by rw [length]; omega), length,
        Nat.add_sub_cancel_left, ih]
      rfl

/-- The numbers of the buffers are those below the number of buffers, each once. -/
theorem numbers_bijOn (n : Nat) : Set.BijOn (fun buf : Fin n × BufId =>
    ((buf.1 : Nat) * 8 + (buf.2 : Nat) : Int)) Set.univ {idx | 0 ≤ idx ∧ idx < 8 * n} := by
  refine ⟨?_, ?_, ?_⟩
  · rintro ⟨i, buf⟩ -
    have := i.isLt
    have below : (buf : Nat) < 8 := buf.isLt
    constructor <;> dsimp only <;> omega
  · rintro ⟨i, buf⟩ - ⟨i', buf'⟩ - same
    have below : (buf : Nat) < 8 := buf.isLt
    have below' : (buf' : Nat) < 8 := buf'.isLt
    dsimp only at same
    rw [Prod.mk.injEq]
    constructor <;> apply Fin.ext <;> omega
  · rintro x ⟨positive, inside⟩
    have journal : x.toNat / 8 < n := by omega
    refine ⟨(⟨x.toNat / 8, journal⟩, ⟨x.toNat % 8, Nat.mod_lt _ (by decide)⟩), trivial, ?_⟩
    dsimp only
    omega

/-- What the closure finds. -/
structure Joined (names : Fin n → String) (results : Fin n → Int) (journals : Journals n)
    (ring : Ring n) : Prop where
  idx : ∀ i, (journals.journals i).idx = (i : Nat)
  fd : ∀ i, (journals.journals i).fd = if 0 ≤ results i then results i else -1
  files : ∃ fds, ring.files = some fds ∧ fds.length = n ∧
    ∀ i : Fin n, fds[i]? = some (journals.journals i).fd
  numbers : Set.BijOn (fun buf : Fin n × BufId => ((journals.journals buf.1).bufs buf.2).idx)
    Set.univ {idx | 0 ≤ idx ∧ idx < 8 * n}
  iovecs : ∃ bufs, ring.buffers = some bufs ∧ bufs.length = 8 * n ∧
    ∀ i buf, bufs[((journals.journals i).bufs buf).idx.toNat]? = some ⟨i, buf, JOURNAL_BUF_SIZE⟩
  lru : ∀ i, 0 ≤ results i → LruOrder (journals.journals i) (List.finRange JOURNAL_BUF_CNT)
  fresh : ∀ i, 0 ≤ results i → freshJournal (names i) (results i) i = .ok (journals.journals i)

variable (ring) in
theorem registered_joined (succeed : env.Succeed) {all : List (Fin n)} (every : ∀ i, i ∈ all)
    (opened : Prefix names results all journals) :
    Joined names results (registerJournals env journals ring).1
      (registerJournals env journals ring).2.1 := by
  rw [registerJournals_eq succeed]
  have slot (i : Fin n) : (journals.journals i).fd = (if 0 ≤ results i then results i else -1) ∧
      (0 ≤ results i →
        freshJournal (names i) (results i) i = .ok (registeredJournal (journals.journals i) i)) := by
    obtain ⟨journal, completed, fd, fresh⟩ := openedSlot_spec (names i) (results i) i
    obtain rfl := Except.ok.inj (completed.symm.trans (opened.completed i (every i)))
    exact ⟨fd, fresh⟩
  refine ⟨fun _ => rfl, fun i => (slot i).1, ⟨_, rfl, by simp, fun i => ?_⟩, numbers_bijOn n,
    ⟨_, rfl, by simp [Nat.mul_comm], fun i buf => ?_⟩, fun i fd => ?_, fun i => (slot i).2⟩
  · simp [registeredJournal]
  · have number : ((registeredJournal (journals.journals i) i).bufs buf).idx.toNat =
        i * JOURNAL_BUF_CNT + buf := by
      simp only [registeredJournal]
      omega
    rw [number, getElem?_flatMap (fun _ => by simp) i buf.isLt]
    simp
  · obtain ⟨journal, ready, order, -⟩ := freshJournal_spec (names i) (results i) i
    obtain rfl := Except.ok.inj (ready.symm.trans ((slot i).2 fd))
    exact order

end Runs

/-! ## Each open journal, once -/

/-- The closure is dispatched with these slots in turn, until its result is negative. -/
structure DispatchesEach {σ : Type} (slots : List (Fin n)) (closure : Fin n → σ → Int × σ)
    (user : σ) (ran : ForEach n σ) : Prop where
  inOrder : ran.journalIter <+: slots
  all : 0 ≤ ran.r → ran.r = 0 ∧ ran.journalIter = slots
  stopped : ran.r < 0 → ∃ before i, ran.journalIter = before ++ [i] ∧
    ran.r = (closure i (before.foldl (fun user i => (closure i user).2) user)).1
  user : ran.user = ran.journalIter.foldl (fun user i => (closure i user).2) user

theorem forEachFrom_dispatches {σ : Type} (journals : Journals n) (closure : Fin n → σ → Int × σ)
    (slots : List (Fin n)) (user : σ) :
    DispatchesEach (slots.filter fun i => 0 ≤ (journals.journals i).fd) closure user
      (forEachFrom journals closure slots user) := by
  induction slots generalizing user with
  | nil => exact ⟨List.prefix_rfl, fun _ => ⟨rfl, rfl⟩, (nomatch ·), rfl⟩
  | cons i slots ih =>
    unfold forEachFrom
    by_cases closed : (journals.journals i).fd < 0
    · rw [if_pos closed, List.filter_cons_of_neg (by simpa using closed)]
      exact ih user
    · rw [if_neg closed, List.filter_cons_of_pos (by simpa using closed)]
      obtain ⟨inOrder, all, stopped, kept⟩ := ih (closure i user).2
      by_cases failed : (closure i user).1 < 0
      · simp only [if_pos failed]
        refine ⟨⟨_, rfl⟩, fun ok => ?_, fun _ => ⟨[], i, rfl, rfl⟩, rfl⟩
        exact absurd failed (not_lt.mpr ok)
      · simp only [if_neg failed]
        refine ⟨List.cons_prefix_cons.mpr ⟨rfl, inOrder⟩, fun ok => ?_, fun negative => ?_, kept⟩
        · obtain ⟨zero, whole⟩ := all ok
          exact ⟨zero, congrArg (List.cons i) whole⟩
        · obtain ⟨before, last, shape, result⟩ := stopped negative
          exact ⟨i :: before, last, congrArg (List.cons i) shape, result⟩

/-- The directory can be read, and there is room for the opens. -/
structure Directory.Succeed (dir : Directory) : Prop where
  fdopendir : dir.fdopendir = none
  calloc : dir.calloc = true
  resize : 0 ≤ dir.resize
  opNew : ∀ i, dir.opNew i = true

/-- Only the operations there are journals for have to be there. -/
theorem getJournals_queues {dir : Directory} (read : dir.fdopendir = none)
    (calloc : dir.calloc = true) (resize : 0 ≤ dir.resize) {fd : Int} (opened : 0 ≤ fd)
    (flags : Int) {dents : List String} (journals : visible dents ≠ [])
    (opNew : ∀ i < (visible dents).length, dir.opNew i = true) :
    getJournals dir fd flags dents dents = .ok (0, some ⟨(visible dents).length,
      unopenedJournals (visible dents), openOps dir.dup flags (visible dents)⟩) := by
  have several : (visible dents).length ≠ 0 := fun none => journals (List.length_eq_zero_iff.mp none)
  have queued : (List.range (visible dents).length).all dir.opNew = true :=
    List.all_eq_true.mpr fun i member => opNew i (List.mem_range.mp member)
  unfold getJournals
  simp only [if_neg (not_lt.mpr opened), read, if_neg several, calloc, Bool.not_true,
    Bool.false_eq_true, ↓reduceIte, lt_irrefl, if_neg (not_lt.mpr resize), queued]

theorem getJournals_eq {dir : Directory} (succeed : dir.Succeed) {fd : Int} (opened : 0 ≤ fd)
    (flags : Int) {dents : List String} (journals : visible dents ≠ []) :
    getJournals dir fd flags dents dents = .ok (0, some ⟨(visible dents).length,
      unopenedJournals (visible dents), openOps dir.dup flags (visible dents)⟩) :=
  getJournals_queues succeed.fdopendir succeed.calloc succeed.resize opened flags journals
    fun i _ => succeed.opNew i

theorem unopenedJournals_start (names : List String) (results : Fin names.length → Int) :
    Prefix (fun i => names[i]) results [] (unopenedJournals names) where
  count := rfl
  completed := nofun
  unopened _ _ := rfl

/-- In whatever order the opens complete, the last has the closure dispatched with what they
joined. -/
theorem deliver_joins {env : Registrations} (succeed : env.Succeed) {names : List String}
    (some : names ≠ []) {results : Fin names.length → Int} (allowed : ∀ i, Allowed (results i))
    {dirfd flags : Int} {ops : List (OpenOp names.length)}
    (order : ops.Perm (openOps dirfd flags names)) : ∃ journals ring,
      deliver env (unopenedJournals names) ⟨none, none⟩ (ops.map fun op => (op, results op.slot)) =
        .ok (journals, ring, List.replicate (names.length - 1) (.returned 0) ++ [.dispatched]) ∧
      Joined (fun i => names[i]) results journals ring := by
  have length : ops.length = names.length := by
    rw [order.length_eq]
    simp [openOps]
  have several : ops ≠ [] := by
    rintro rfl
    exact some (List.length_eq_zero_iff.mp length.symm)
  have once : (ops.map OpenOp.slot).Perm (List.finRange _) := by
    rw [← slots_openOps dirfd flags names]
    exact order.map OpenOp.slot
  obtain ⟨opened, all, ran⟩ := (unopenedJournals_start _ results).deliver ⟨none, none⟩
    succeed allowed several once
  have every (i : Fin names.length) : i ∈ [] ++ ops.map OpenOp.slot :=
    once.mem_iff.mpr (List.mem_finRange i)
  rw [length] at ran
  exact ⟨_, _, ran, registered_joined ⟨none, none⟩ succeed every all⟩

/-- In whatever order the opens complete, and whichever of them are denied, the closure is
dispatched once, by the last, with every journal in its place; and then
`journals_for_each` dispatches with each journal that is open. -/
theorem opening_joins {dir : Directory} (readable : dir.Succeed) {env : Registrations}
    (succeed : env.Succeed) {fd : Int} (opened : 0 ≤ fd) (flags : Int) {dents : List String}
    (journals : visible dents ≠ []) :
    getJournals dir fd flags dents dents = .ok (0, some ⟨(visible dents).length,
        unopenedJournals (visible dents), openOps dir.dup flags (visible dents)⟩) ∧
      ∀ results : Fin (visible dents).length → Int, (∀ i, Allowed (results i)) →
        ∀ ops : List (OpenOp (visible dents).length),
          ops.Perm (openOps dir.dup flags (visible dents)) →
          ∃ journals ring, deliver env (unopenedJournals (visible dents)) ⟨none, none⟩
              (ops.map fun op => (op, results op.slot)) = .ok (journals, ring,
                List.replicate ((visible dents).length - 1) (.returned 0) ++ [.dispatched]) ∧
            Joined (fun i => (visible dents)[i]) results journals ring ∧
            ∀ (σ : Type) (closure : Fin (visible dents).length → σ → Int × σ) (user : σ),
              DispatchesEach ((List.finRange _).filter fun i => 0 ≤ results i) closure user
                (journalsForEach journals closure user) := by
  refine ⟨getJournals_eq readable opened flags journals, ?_⟩
  intro results allowed ops order
  obtain ⟨joined, ring, ran, registered⟩ := deliver_joins succeed journals allowed order
  refine ⟨joined, ring, ran, registered, ?_⟩
  intro σ closure user
  have each := forEachFrom_dispatches joined closure (List.finRange _) user
  have same (i : Fin (visible dents).length) :
      decide (0 ≤ (joined.journals i).fd) = decide (0 ≤ results i) := by
    rw [registered.fd]
    split <;> simp_all
  rwa [List.filter_congr fun i _ => same i] at each

theorem opening_joins_two :
    let dir : Directory := ⟨none, true, 4, 0, fun _ => true⟩
    let env : Registrations := ⟨true, 0, true, 0⟩
    let dents := [".", "..", "system.journal", "user-1000.journal"]
    getJournals dir 3 0 dents dents = .ok (0, some ⟨(visible dents).length,
        unopenedJournals (visible dents), openOps 4 0 (visible dents)⟩) ∧
      ∀ results : Fin (visible dents).length → Int, (∀ i, Allowed (results i)) →
        ∀ ops : List (OpenOp (visible dents).length), ops.Perm (openOps 4 0 (visible dents)) →
          ∃ journals ring, deliver env (unopenedJournals (visible dents)) ⟨none, none⟩
              (ops.map fun op => (op, results op.slot)) = .ok (journals, ring,
                List.replicate ((visible dents).length - 1) (.returned 0) ++ [.dispatched]) ∧
            Joined (fun i => (visible dents)[i]) results journals ring ∧
            ∀ (σ : Type) (closure : Fin (visible dents).length → σ → Int × σ) (user : σ),
              DispatchesEach ((List.finRange _).filter fun i => 0 ≤ results i) closure user
                (journalsForEach journals closure user) := by
  intro dir env dents
  exact @opening_joins dir ⟨rfl, rfl, by decide, fun _ => rfl⟩ env ⟨rfl, by decide, rfl, by decide⟩
    3 (by decide) 0 dents (by decide)

end Jio.JournalsOpen
