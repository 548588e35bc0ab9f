import Jio.InFlightReads
import Jio.JournalsOpen

/-! The reads of all journals on the ring they are registered with. An operation names its file
and its memory by number. Whatever is in flight, these are the numbers of the journal it is for
and of the buffer its bytes are taken from, and so each journal is read as if it were alone. -/
namespace Jio.JournalsOpen

/-! ## The ring -/

/-- What is registered under a number. -/
def registered {α : Type} (table : Option (List α)) (number : Int) : Option α :=
  table.bind fun entries => if number < 0 then none else entries[number.toNat]?

/-- An operation of the `i`-th journal is carried out on this file: it is registered, and so is the
memory, if the operation names any, which then has room for all bytes and is the buffer the
operation is for. -/
structure Ring.Carries {n : Nat} (ring : Ring n) (i : Fin n) (op : ReadOp) (fd : Int) : Prop where
  file : registered ring.files op.fixedFile = some fd
  memory : ∀ number ∈ op.fixedBuf, ∃ iovec, registered ring.buffers number = some iovec ∧
    iovec.journal = i ∧ op.buf = some iovec.buf ∧ op.nbytes.toNat ≤ iovec.len
  direct : op.fixedBuf = none → op.buf = none

/-- What callers and the kernel may do to the `i`-th journal: an operation is carried out on the
file that is registered, and fails where the ring refuses it. -/
def RingPossible {n : Nat} (ring : Ring n) (files : Int → JournalFile) (i : Fin n)
    (state : InFlight) : Event → Prop
  | .call offset length opNew =>
    Possible (files state.journal.fd) state (.call offset length opNew)
  | .kernelWrites id place data => ∀ flight, state.flights id = some flight →
      ∃ fd, ring.Carries i flight.op fd ∧ Possible (files fd) state (.kernelWrites id place data)
  | .completed id answer => ∀ flight, state.flights id = some flight → answer.result < 0 ∨
      ∃ fd, ring.Carries i flight.op fd ∧ Possible (files fd) state (.completed id answer)

/-- The states of all journals that steps of the open ones lead to, where each meets a condition. -/
inductive AllReached {n : Nat} (ring : Ring n) (files : Int → JournalFile)
    (meets : InFlight → Event → Prop) (start : Fin n → InFlight) : (Fin n → InFlight) → Prop
  | opened : AllReached ring files meets start start
  | step {states : Fin n → InFlight} {i : Fin n} {event : Event} {state : InFlight}
      (reached : AllReached ring files meets start states) (isOpen : 0 ≤ (states i).journal.fd)
      (possible : RingPossible ring files i (states i) event) (met : meets (states i) event)
      (ran : (states i).step event = .ok state) :
      AllReached ring files meets start (Function.update states i state)

/-! ## Numbers -/

/-- What is registered of two journals is the same. -/
structure SameNumbers (journal journal' : Journal) : Prop where
  fd : journal'.fd = journal.fd
  idx : journal'.idx = journal.idx
  bufs : ∀ buf, (journal'.bufs buf).idx = (journal.bufs buf).idx

/-- The operation has the numbers of this journal, and of the buffer it is for. -/
structure HasNumbers (op : ReadOp) (journal : Journal) : Prop where
  file : op.fixedFile = journal.idx
  memory : op.fixedBuf = op.buf.map fun buf => (journal.bufs buf).idx
  room : op.buf ≠ none → op.nbytes.toNat = JOURNAL_BUF_SIZE

section Numbers

variable {journal journal' journal'' : Journal} {op : ReadOp}

theorem SameNumbers.rfl : SameNumbers journal journal := ⟨.refl _, .refl _, fun _ => .refl _⟩

theorem SameNumbers.trans (same : SameNumbers journal journal')
    (same' : SameNumbers journal' journal'') : SameNumbers journal journal'' :=
  ⟨same'.fd.trans same.fd, same'.idx.trans same.idx,
    fun buf => (same'.bufs buf).trans (same.bufs buf)⟩

theorem SameNumbers.setBuf (same : SameNumbers journal journal') (buf : BufId)
    {assign : JournalBuf → JournalBuf} (keeps : ∀ b, (assign b).idx = b.idx) :
    SameNumbers journal (journal'.setBuf buf assign) where
  fd := same.fd
  idx := same.idx
  bufs other := by
    rw [← same.bufs other]
    by_cases here : other = buf
    · subst here
      simp [Journal.setBuf, keeps]
    · simp [Journal.setBuf, here]

theorem SameNumbers.setTail (same : SameNumbers journal journal') (tail : Option BufId) :
    SameNumbers journal { journal' with lruTail := tail } := ⟨same.fd, same.idx, same.bufs⟩

theorem SameNumbers.symm (same : SameNumbers journal journal') : SameNumbers journal' journal :=
  ⟨same.fd.symm, same.idx.symm, fun buf => (same.bufs buf).symm⟩

theorem HasNumbers.same (has : HasNumbers op journal) (same : SameNumbers journal journal') :
    HasNumbers op journal' := by
  obtain ⟨file, memory, room⟩ := has
  refine ⟨file.trans same.idx.symm, memory.trans ?_, room⟩
  simp only [same.bufs]

theorem bypass_numbers (journal : Journal) (buf : BufId) :
    SameNumbers journal (journal.bypass buf) := by
  unfold Journal.bypass
  split
  · exact SameNumbers.rfl.setBuf _ fun _ => rfl
  · exact ⟨rfl, rfl, fun _ => rfl⟩

theorem bufUsed_numbers {buf : BufId} (ran : bufUsed journal buf = .ok journal') :
    SameNumbers journal journal' := by
  unfold bufUsed at ran
  split at ran
  · cases ran
    exact .rfl
  · have bypassed := bypass_numbers journal buf
    generalize journal.bypass buf = middle at ran bypassed
    dsimp only at ran
    split at ran
    · cases ran
      apply SameNumbers.setTail
      unfold Journal.setPrev Journal.setNext
      iterate 4 refine SameNumbers.setBuf ?_ _ fun _ => rfl
      exact bypassed
    · cases ran

/-- A call leaves all numbers as they are, and submits them. -/
theorem journalRead_numbers {opNew : Bool} {offset length : UInt64} {submitted : Submitted}
    (ran : journalRead journal opNew offset length = .ok (journal', submitted)) :
    SameNumbers journal journal' ∧ ∀ op, submitted = .queued op → HasNumbers op journal' := by
  unfold journalRead at ran
  split at ran
  · cases ran
  split at ran
  · split at ran
    · obtain ⟨used, moved, copied⟩ := bind_eq_ok.mp ran
      obtain ⟨dest, -, ended⟩ := bind_eq_ok.mp copied
      cases ended
      exact ⟨bufUsed_numbers moved, nofun⟩
    · split at ran
      · cases ran
      · obtain ⟨used, moved, ended⟩ := bind_eq_ok.mp ran
        have numbers := bufUsed_numbers moved
        dsimp only at ended
        split at ended
        · cases ended
          refine ⟨numbers.setBuf _ fun _ => rfl, ?_⟩
          rintro op ⟨⟩
          exact ⟨rfl, rfl, fun _ => rfl⟩
        · cases ended
          exact ⟨numbers.setBuf _ fun _ => rfl, nofun⟩
  split at ran
  · cases ran
    refine ⟨.rfl, ?_⟩
    rintro op ⟨⟩
    exact ⟨rfl, rfl, fun room => absurd rfl room⟩
  · cases ran
    exact ⟨.rfl, nofun⟩

theorem kernelFills_numbers (op : ReadOp) (place : Nat → Bool) (data : Nat → UInt8) :
    SameNumbers journal (journal.kernelFills op place data) := by
  unfold Journal.kernelFills
  split
  · exact SameNumbers.rfl.setBuf _ fun _ => rfl
  · exact .rfl

theorem bufGotRead_numbers (op : ReadOp) (result : Int) (direct : Nat → UInt8) :
    SameNumbers journal (bufGotRead journal op result direct).1 := by
  unfold bufGotRead
  split
  · exact .rfl
  split
  · exact .rfl
  split
  · dsimp only
    exact SameNumbers.rfl.setBuf _ fun _ => rfl
  · exact .rfl

/-- Whatever was done to a journal, what is registered of it is as at first, and what is in flight
has these numbers. -/
structure Numbered (journal : Journal) (state : InFlight) : Prop where
  same : SameNumbers journal state.journal
  flights : ∀ id flight, state.flights id = some flight → HasNumbers flight.op journal

theorem Numbered.start (journal : Journal) : Numbered journal (.start journal) :=
  ⟨.rfl, fun _ _ present => by simp [InFlight.start] at present⟩

/-- No step changes a number. -/
theorem Numbered.step {state state' : InFlight} {event : Event} (numbered : Numbered journal state)
    (ran : state.step event = .ok state') : Numbered journal state' := by
  obtain ⟨same, flights⟩ := numbered
  cases event with
  | call offset length opNew =>
    obtain ⟨⟨journal', submitted⟩, read, ended⟩ := bind_eq_ok.mp ran
    obtain ⟨kept, submits⟩ := journalRead_numbers read
    have same' := same.trans kept
    have noted (id : Nat) (flight : Flight) (there : noteUse state.flights
        (state.journal.usedFor offset length) id = some flight) : HasNumbers flight.op journal := by
      obtain ⟨before, held, rfl⟩ := Option.map_eq_some_iff.mp there
      cases state.journal.usedFor offset length <;> exact flights id before held
    cases submitted with
    | hit dest =>
      cases ended
      exact ⟨same', noted⟩
    | failed code =>
      cases ended
      exact ⟨same', noted⟩
    | queued op =>
      cases ended
      refine ⟨same', fun id flight there => ?_⟩
      dsimp only at there
      by_cases new : id = state.calls
      · rw [new, Function.update_self] at there
        cases there
        exact (submits op rfl).same same'.symm
      · rw [Function.update_of_ne new] at there
        exact noted id flight there
  | kernelWrites id place data =>
    unfold InFlight.step at ran
    cases present : state.flights id with
    | none =>
      simp only [present, Except.ok.injEq] at ran
      exact ran ▸ ⟨same, flights⟩
    | some flight =>
      simp only [present, Except.ok.injEq] at ran
      subst ran
      refine ⟨same.trans (kernelFills_numbers ..), fun id' flight' there => ?_⟩
      dsimp only at there
      by_cases here : id' = id
      · rw [here, Function.update_self] at there
        cases there
        exact flights id flight present
      · rw [Function.update_of_ne here] at there
        exact flights id' flight' there
  | completed id answer =>
    unfold InFlight.step at ran
    cases present : state.flights id with
    | none =>
      simp only [present, Except.ok.injEq] at ran
      exact ran ▸ ⟨same, flights⟩
    | some flight =>
      simp only [present, Except.ok.injEq] at ran
      subst ran
      refine ⟨same.trans ((kernelFills_numbers ..).trans (bufGotRead_numbers ..)),
        fun id' flight' there => ?_⟩
      dsimp only at there
      by_cases here : id' = id
      · rw [here, Function.update_self] at there
        cases there
      · rw [Function.update_of_ne here] at there
        exact flights id' flight' there

end Numbers

/-! ## All journals -/

section AllJournals

variable {n : Nat} {names : Fin n → String} {results : Fin n → Int} {journals : Journals n}
  {ring : Ring n} {files : Int → JournalFile} {meets : InFlight → Event → Prop}
  {states : Fin n → InFlight}

/-- An operation with the numbers of a journal is carried out on its file. -/
theorem Joined.carries (joined : Joined names results journals ring) {i : Fin n} {op : ReadOp}
    (has : HasNumbers op (journals.journals i)) : ring.Carries i op (journals.journals i).fd := by
  obtain ⟨fds, registered_, -, entries⟩ := joined.files
  obtain ⟨bufs, buffers, -, iovecs⟩ := joined.iovecs
  obtain ⟨file, memory, room⟩ := has
  refine ⟨?_, ?_, ?_⟩
  · rw [file, joined.idx, registered_]
    simp only [registered, Option.bind_some]
    rw [if_neg (by omega)]
    exact entries i
  · intro number named
    rw [memory] at named
    obtain ⟨buf, here, rfl⟩ := Option.map_eq_some_iff.mp named
    have positive := (joined.numbers.mapsTo (Set.mem_univ (i, buf))).1
    have fits := room (by rw [here]; nofun)
    refine ⟨⟨i, buf, JOURNAL_BUF_SIZE⟩, ?_, rfl, here, fits.le⟩
    rw [buffers]
    simp only [registered, Option.bind_some]
    rw [if_neg (not_lt.mpr positive)]
    exact iovecs i buf
  · intro none
    rw [memory, Option.map_eq_none_iff] at none
    exact none

theorem Ring.Carries.unique {i : Fin n} {op : ReadOp} {fd fd' : Int} (carries : ring.Carries i op fd)
    (carries' : ring.Carries i op fd') : fd = fd' :=
  Option.some.inj (carries.file.symm.trans carries'.file)

/-- In every state all journals lead to, each has its numbers. -/
theorem AllReached.numbered
    (reached : AllReached ring files meets (fun i => .start (journals.journals i)) states)
    (i : Fin n) : Numbered (journals.journals i) (states i) := by
  induction reached with
  | opened => exact .start _
  | @step states j event state _ _ _ _ ran ih =>
    by_cases here : i = j
    · subst here
      rw [Function.update_self]
      exact ih.step ran
    · rw [Function.update_of_ne here]
      exact ih

/-- What the ring makes possible is possible for the journal's own file. -/
theorem RingPossible.own {i : Fin n} (joined : Joined names results journals ring)
    {state : InFlight} {event : Event} (numbered : Numbered (journals.journals i) state)
    (possible : RingPossible ring files i state event) :
    Possible (files (journals.journals i).fd) state event := by
  have carries {id : Nat} {flight : Flight} (present : state.flights id = some flight) :=
    joined.carries (numbered.flights id flight present)
  cases event with
  | call offset length opNew =>
    rw [← numbered.same.fd]
    exact possible
  | kernelWrites id place data =>
    intro flight present
    obtain ⟨fd, here, writes⟩ := possible flight present
    obtain rfl := here.unique (carries present)
    exact writes flight present
  | completed id answer =>
    intro flight present
    rcases possible flight present with failed | ⟨fd, here, serves⟩
    · exact .inl failed
    · obtain rfl := here.unique (carries present)
      exact serves flight present

/-- Whatever all journals are asked for, every read in flight is carried out on the file of its
journal and into the buffer it is for; and each journal is in a state that its own calls,
writes and completions lead to, on its own file. -/
theorem reads_reach_their_journals (joined : Joined names results journals ring)
    (reached : AllReached ring files meets (fun i => .start (journals.journals i)) states) :
    (∀ i id flight, (states i).flights id = some flight →
      ring.Carries i flight.op (journals.journals i).fd) ∧
    ∀ i, 0 ≤ results i → Reached (files (results i)) meets (states i) := by
  refine ⟨fun i id flight present => ?_, fun i opened => ?_⟩
  · exact joined.carries ((reached.numbered i).flights id flight present)
  have fd : (journals.journals i).fd = results i := (joined.fd i).trans (if_pos opened)
  induction reached with
  | opened => exact .opened (joined.fresh i opened)
  | @step states j event state reached _ possible met ran ih =>
    by_cases here : i = j
    · subst here
      rw [Function.update_self]
      exact .step ih (fd ▸ possible.own joined (reached.numbered i)) met ran
    · rw [Function.update_of_ne here]
      exact ih

end AllJournals

/-- The second of two journals is asked for 16 bytes. -/
theorem reads_reach_their_journals_two :
    let dents := [".", "..", "system.journal", "user-1000.journal"]
    ∃ (journals : Journals (visible dents).length) (ring : Ring (visible dents).length)
      (slot : Fin (visible dents).length) (states : Fin (visible dents).length → InFlight)
      (flight : Flight), (journals.journals slot).name = "user-1000.journal" ∧
      (states slot).flights 0 = some flight ∧ flight.op = ⟨1, some 8, 8192, 0, 16, some 0⟩ ∧
      ring.Carries slot flight.op 7 ∧ Reached nineBlocks SparesFlights (states slot) := by
  intro dents
  let results : Fin (visible dents).length → Int := fun i => 6 + (i : Nat)
  have allowed (i : Fin (visible dents).length) : Allowed (results i) :=
    .inl (show (0 : Int) ≤ 6 + (i : Nat) by omega)
  obtain ⟨journals, ring, -, joined⟩ := @deliver_joins ⟨true, 0, true, 0⟩
    ⟨rfl, by decide, rfl, by decide⟩ (visible dents) (by decide) results allowed 4 0 _ (.refl _)
  let slot : Fin (visible dents).length := ⟨1, by decide⟩
  have ready : freshJournal "user-1000.journal" 7 1 = .ok (journals.journals slot) :=
    joined.fresh slot (show (0 : Int) ≤ 7 by decide)
  have seen : (do
      let journal ← freshJournal "user-1000.journal" 7 1
      let state ← (InFlight.start journal).step (.call 0 16 true)
      return (journal.name, (state.flights 0).map Flight.op) : Except Fault _) =
      .ok ("user-1000.journal", some ⟨1, some 8, 8192, 0, 16, some 0⟩) := rfl
  rw [ready, bind_ok] at seen
  obtain ⟨state, ran, shown⟩ := bind_eq_ok.mp seen
  simp only [pure, Except.pure, Except.ok.injEq, Prod.mk.injEq] at shown
  obtain ⟨name, flight, present, op⟩ := shown.imp id Option.map_eq_some_iff.mp
  have fd : (journals.journals slot).fd = 7 := joined.fd slot
  have reached : AllReached ring (fun _ => nineBlocks) SparesFlights
      (fun i => .start (journals.journals i))
      (Function.update (fun i => .start (journals.journals i)) slot state) := by
    have possible : RingPossible ring (fun _ => nineBlocks) slot
        (.start (journals.journals slot)) (.call 0 16 true) :=
      ⟨by decide, by decide, show 0 + 16 ≤ nineBlocks.size by decide⟩
    have spared : SparesFlights (.start (journals.journals slot)) (.call 0 16 true) := by
      intro _ _ id flight present
      simp [InFlight.start] at present
    exact .step .opened (show 0 ≤ (journals.journals slot).fd by rw [fd]; decide) possible spared ran
  obtain ⟨carries, runs⟩ := reads_reach_their_journals joined reached
  refine ⟨journals, ring, slot, _, flight, name, ?_, op, ?_, runs slot (show (0 : Int) ≤ 7 by decide)⟩
  · rw [Function.update_self]
    exact present
  · exact fd ▸ carries slot 0 flight (by rw [Function.update_self]; exact present)

end Jio.JournalsOpen
