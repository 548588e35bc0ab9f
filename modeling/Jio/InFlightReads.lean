import Mathlib.Tactic.IntervalCases
import Jio.CachedReads

/-! Reads of one journal that overlap in time. A miss takes the least recently
used buffer whether or not a read into it is still in flight, so a buffer that
waits for the kernel is safe only as long as some other buffer has not been used
since. This file has the interleavings of calls, kernel writes and completions,
and the condition under which no two reads share a buffer. -/
namespace Jio
open LinkedOrder ReadProgram

/-! ## Interleavings -/

/-- A read in flight. `written` are the bytes of its destination the kernel has
written, and `used` the buffers used since its own one was, in order. -/
structure Flight where
  op : ReadOp
  written : Nat → Bool
  used : List BufId

/-- A buffer is used while the read is in flight. -/
def Flight.note (flight : Flight) (buf : BufId) : Flight :=
  { flight with used := if flight.op.buf = some buf then [] else flight.used ++ [buf] }

/-- What a finished call of `journal_read` was for, and how it ended. -/
structure Answer where
  offset : UInt64
  length : UInt64
  outcome : Except Int (List UInt8)

/-- A journal and its reads in flight, by the number of the call. -/
structure InFlight where
  journal : Journal
  calls : Nat
  flights : Nat → Option Flight
  answers : List Answer

/-- A call of `journal_read`, a write of the kernel to the memory of a read in
flight, or the completion of one. -/
inductive Event where
  | call (offset length : UInt64) (opNew : Bool)
  | kernelWrites (id : Nat) (place : Nat → Bool) (data : Nat → UInt8)
  | completed (id : Nat) (answer : KernelAnswer)

/-- The kernel writes some bytes of the memory a read is directed at. -/
def Journal.kernelFills (journal : Journal) (op : ReadOp) (place : Nat → Bool)
    (data : Nat → UInt8) : Journal :=
  match op.buf with
  | some buf => journal.setBuf buf fun b =>
      { b with data := fun i => if place i then data i else b.data i }
  | none => journal

/-- The buffer a request that fits one uses: the one that covers it, or else the
least recently used one. -/
def Journal.usedFor (journal : Journal) (offset length : UInt64) : Option BufId :=
  (journal.lookup offset length).or journal.lruHead

/-- Every read in flight sees a buffer being used. -/
def noteUse (flights : Nat → Option Flight) (buf : Option BufId) : Nat → Option Flight :=
  fun id => (flights id).map fun flight => buf.elim flight flight.note

def InFlight.step (state : InFlight) : Event → Except Fault InFlight
  | .call offset length opNew => do
    let flights := noteUse state.flights (state.journal.usedFor offset length)
    match ← journalRead state.journal opNew offset length with
    | (journal, .hit dest) =>
      return ⟨journal, state.calls + 1, flights, state.answers ++ [⟨offset, length, .ok dest⟩]⟩
    | (journal, .queued op) =>
      return ⟨journal, state.calls + 1,
        Function.update flights state.calls (some ⟨op, fun _ => false, []⟩), state.answers⟩
    | (journal, .failed code) =>
      return ⟨journal, state.calls + 1, flights, state.answers ++ [⟨offset, length, .error code⟩]⟩
  | .kernelWrites id place data =>
    match state.flights id with
    | none => .ok state
    | some flight => .ok { state with
        journal := state.journal.kernelFills flight.op place data
        flights := Function.update state.flights id
          (some { flight with written := fun i => flight.written i || place i }) }
  | .completed id answer =>
    match state.flights id with
    | none => .ok state
    | some flight =>
      -- what the kernel has not written before, it writes now
      let journal := state.journal.kernelFills flight.op (fun i => !flight.written i) answer.data
      let (journal, outcome) := bufGotRead journal flight.op answer.result answer.data
      .ok { state with
        journal
        flights := Function.update state.flights id none
        answers := state.answers ++ [⟨flight.op.offset, flight.op.length, outcome⟩] }

/-- What callers and the kernel may do: ask for a range of the file that fits a
buffer, write the file's bytes, and complete a read with what it transferred. -/
def Possible (file : JournalFile) (state : InFlight) : Event → Prop
  | .call offset length _ => 0 < length.toNat ∧ length.toNat ≤ JOURNAL_BUF_SIZE ∧
      offset.toNat + length.toNat ≤ file.size
  | .kernelWrites id place data => ∀ flight, state.flights id = some flight →
      ∀ i, place i = true → i < JOURNAL_BUF_SIZE ∧ flight.op.offset.toNat + i < file.size ∧
        data i = file.byte (flight.op.offset.toNat + i)
  | .completed id answer => ∀ flight, state.flights id = some flight →
      Serves file flight.op.offset.toNat flight.op.nbytes.toNat answer

/-- A journal just opened, with nothing in flight. -/
def InFlight.start (journal : Journal) : InFlight := ⟨journal, 0, fun _ => none, []⟩

/-- The states that steps which meet a condition lead to. -/
inductive Reached (file : JournalFile) (meets : InFlight → Event → Prop) : InFlight → Prop
  | opened {name : String} {fd : Int} {i : Nat} {journal : Journal}
      (ready : freshJournal name fd i = .ok journal) : Reached file meets (.start journal)
  | step {state state' : InFlight} {event : Event} (reached : Reached file meets state)
      (possible : Possible file state event) (met : meets state event)
      (ran : state.step event = .ok state') : Reached file meets state'

/-! ## Exclusive buffers -/

/-- The call ended with the file's bytes, or with an error. -/
def Answer.Right (file : JournalFile) (answer : Answer) : Prop :=
  answer.outcome = .ok (file.slice answer.offset.toNat answer.length.toNat) ∨
    ∃ code < 0, answer.outcome = .error code

/-- No two reads in flight share a buffer, every call that ended got its own
bytes, and the tags of the buffers describe what is in them. -/
structure Exclusive (file : JournalFile) (state : InFlight) : Prop where
  apart : ∀ id id' flight flight', state.flights id = some flight →
    state.flights id' = some flight' → id ≠ id' → flight.op.buf ≠ flight'.op.buf
  right : ∀ answer ∈ state.answers, answer.Right file
  coherent : Coherent file state.journal

/-- At a miss that gets an operation, every read in flight has some other buffer
that was not used since its own one was. -/
def SparesFlights (state : InFlight) : Event → Prop
  | .call offset length opNew => opNew = true → state.journal.lookup offset length = none →
      ∀ id flight, state.flights id = some flight →
        ∃ buf, flight.op.buf ≠ some buf ∧ buf ∉ flight.used
  | _ => True

/-- What is known of a read in flight into `buf`. -/
structure Awaits (file : JournalFile) (journal : Journal) (order : List BufId) (flight : Flight)
    (buf : BufId) : Prop where
  target : flight.op.buf = some buf
  asked : flight.op.nbytes.toNat = JOURNAL_BUF_SIZE
  positive : 0 < flight.op.length.toNat
  small : flight.op.length.toNat ≤ JOURNAL_BUF_SIZE
  inside : flight.op.offset.toNat + flight.op.length.toNat ≤ file.size
  invalid : (journal.bufs buf).valid = false
  written : ∀ i, flight.written i = true →
    (journal.bufs buf).data i = file.byte (flight.op.offset.toNat + i)
  untouched : buf ∉ flight.used
  since : ∃ before, (before ++ [buf]).Nodup ∧ (∀ other, other ∈ before ++ [buf]) ∧
    order = flight.used.foldl touch (before ++ [buf])

structure FlightInvariant (file : JournalFile) (state : InFlight) : Prop where
  exclusive : Exclusive file state
  fresh : ∀ id, state.calls ≤ id → state.flights id = none
  awaited : ∃ order, LruOrder state.journal order ∧ ∀ id flight, state.flights id = some flight →
    ∃ buf, Awaits file state.journal order flight buf

/-- A flight only depends on its own buffer and on the order. -/
theorem Awaits.frame {file : JournalFile} {journal journal' : Journal} {order : List BufId}
    {flight : Flight} {buf : BufId} (awaits : Awaits file journal order flight buf)
    (invalid : (journal'.bufs buf).valid = false)
    (data : (journal'.bufs buf).data = (journal.bufs buf).data) :
    Awaits file journal' order flight buf :=
  { awaits with invalid, written := fun i held => data ▸ awaits.written i held }

/-- Using a buffer moves it to the back of the order. -/
theorem Awaits.note {file : JournalFile} {journal : Journal} {order : List BufId}
    {flight : Flight} {buf used : BufId} (awaits : Awaits file journal order flight buf)
    (nodup : (touch order used).Nodup) (all : ∀ other, other ∈ touch order used) :
    Awaits file journal (touch order used) (flight.note used) buf := by
  by_cases own : buf = used
  · subst own
    have restarts : flight.note buf = { flight with used := [] } := by
      rw [Flight.note, if_pos awaits.target]
    rw [restarts]
    exact { awaits with untouched := by simp, since := ⟨order.erase buf, nodup, all, rfl⟩ }
  · have longer : flight.note used = { flight with used := flight.used ++ [used] } := by
      rw [Flight.note, awaits.target, if_neg (by simpa using own)]
    obtain ⟨before, nodup, all, since⟩ := awaits.since
    rw [longer]
    refine { awaits with untouched := ?_, since := ⟨before, nodup, all, ?_⟩ }
    · simp [awaits.untouched, own]
    · rw [since, List.foldl_append]
      rfl

/-- The next victim is the destination of a read in flight exactly when every
other buffer has been used since the read was submitted. -/
theorem Awaits.least_iff {file : JournalFile} {journal : Journal} {order : List BufId}
    {flight : Flight} {buf : BufId} (awaits : Awaits file journal order flight buf) :
    order.head? = some buf ↔ ∀ other, other ≠ buf → other ∈ flight.used := by
  obtain ⟨before, nodup, all, since⟩ := awaits.since
  rw [since, head_touches_iff nodup (fun other _ => all other) awaits.untouched]
  constructor
  · intro used other apart
    have member := all other
    rw [List.mem_append, List.mem_singleton] at member
    exact used other (member.resolve_right apart)
  · intro used other member
    refine used other ?_
    rintro rfl
    exact (List.nodup_append.mp nodup).2.2 other member other (by simp) rfl

theorem noteUse_some {flights : Nat → Option Flight} {buf : BufId} {id : Nat} {flight' : Flight}
    (noted : noteUse flights (some buf) id = some flight') :
    ∃ flight, flights id = some flight ∧ flight' = flight.note buf := by
  simp only [noteUse, Option.map_eq_some_iff] at noted
  obtain ⟨flight, present, rfl⟩ := noted
  exact ⟨flight, present, rfl⟩

/-- The reads in flight after some buffer was used. -/
private theorem awaited_note {file : JournalFile} {journal journal' : Journal}
    {order : List BufId} {flights : Nat → Option Flight} {used : BufId}
    (awaited : ∀ id flight, flights id = some flight →
      ∃ buf, Awaits file journal order flight buf)
    (listed : LruOrder journal' (touch order used))
    (same : ∀ buf, (journal.bufs buf).valid = false → (journal'.bufs buf).valid = false ∧
      (journal'.bufs buf).data = (journal.bufs buf).data) :
    ∀ id flight, noteUse flights (some used) id = some flight →
      ∃ buf, Awaits file journal' (touch order used) flight buf := by
  intro id flight' noted
  obtain ⟨flight, present, rfl⟩ := noteUse_some noted
  obtain ⟨buf, awaits⟩ := awaited id flight present
  obtain ⟨invalid, data⟩ := same buf awaits.invalid
  exact ⟨buf, (awaits.note listed.1.nodup listed.2).frame invalid data⟩

private theorem apart_note {flights : Nat → Option Flight} {used : BufId}
    (apart : ∀ id id' flight flight', flights id = some flight → flights id' = some flight' →
      id ≠ id' → flight.op.buf ≠ flight'.op.buf) :
    ∀ id id' flight flight', noteUse flights (some used) id = some flight →
      noteUse flights (some used) id' = some flight' → id ≠ id' →
        flight.op.buf ≠ flight'.op.buf := by
  intro id id' flight flight' noted noted' distinct
  obtain ⟨flight, here, rfl⟩ := noteUse_some noted
  obtain ⟨flight', there, rfl⟩ := noteUse_some noted'
  exact apart id id' flight flight' here there distinct

private theorem apart_update {flights : Nat → Option Flight} {id : Nat} {new : Flight}
    (alone : ∀ id' ≠ id, ∀ flight, flights id' = some flight → flight.op.buf ≠ new.op.buf)
    (apart : ∀ id id' flight flight', flights id = some flight → flights id' = some flight' →
      id ≠ id' → flight.op.buf ≠ flight'.op.buf) :
    ∀ id₁ id₂ flight flight', Function.update flights id (some new) id₁ = some flight →
      Function.update flights id (some new) id₂ = some flight' → id₁ ≠ id₂ →
        flight.op.buf ≠ flight'.op.buf := by
  intro id₁ id₂ flight flight' here there distinct
  by_cases first : id₁ = id <;> by_cases second : id₂ = id
  · exact absurd (first.trans second.symm) distinct
  · subst first
    rw [Function.update_self, Option.some.injEq] at here
    rw [Function.update_of_ne second] at there
    exact here ▸ (alone id₂ second flight' there).symm
  · subst second
    rw [Function.update_self, Option.some.injEq] at there
    rw [Function.update_of_ne first] at here
    exact there ▸ alone id₁ first flight here
  · rw [Function.update_of_ne first] at here
    rw [Function.update_of_ne second] at there
    exact apart id₁ id₂ flight flight' here there distinct

private theorem fresh_note {flights : Nat → Option Flight} {calls : Nat} (buf : Option BufId)
    (fresh : ∀ id, calls ≤ id → flights id = none) :
    ∀ id, calls + 1 ≤ id → noteUse flights buf id = none := by
  intro id late
  simp [noteUse, fresh id (by omega)]

/-! ## Steps -/

/-- A hit uses a valid buffer, and no read in flight waits for one. -/
private theorem call_hit {file : JournalFile} {state : InFlight} {offset length : UInt64}
    (opNew : Bool) {buf : BufId} (invariant : FlightInvariant file state)
    (possible : Possible file state (.call offset length opNew))
    (found : state.journal.lookup offset length = some buf) :
    ∃ state', state.step (.call offset length opNew) = .ok state' ∧
      FlightInvariant file state' := by
  obtain ⟨positive, small, inside⟩ := possible
  obtain ⟨order, listed, awaited⟩ := invariant.awaited
  have bound := file.size_lt
  have hit := lookup_some found
  have valid := JournalBuf.valid_of_covers hit
  obtain ⟨copied, -⟩ := (invariant.exclusive.coherent buf valid).copyOut hit (by omega)
  obtain ⟨used, listed', same, ran⟩ := journalRead_hit opNew listed positive small found
  rw [copied] at ran
  refine ⟨⟨used, state.calls + 1, noteUse state.flights (some buf), state.answers ++
    [⟨offset, length, .ok (file.slice offset.toNat length.toNat)⟩]⟩, ?_, ?_⟩
  · simp only [InFlight.step, ran, Except.map, bind_ok, Journal.usedFor, found, Option.some_or]
    rfl
  refine ⟨⟨apart_note invariant.exclusive.apart, ?_, same.coherent invariant.exclusive.coherent⟩,
    fresh_note _ invariant.fresh, touch order buf, listed',
    awaited_note awaited listed' fun other invalid => ?_⟩
  · intro answer member
    rw [List.mem_append, List.mem_singleton] at member
    rcases member with member | rfl
    · exact invariant.exclusive.right answer member
    · exact .inl rfl
  · have block := same.bufs other
    simp only [JournalBuf.block, Block.mk.injEq] at block
    exact ⟨block.2.2.1.trans invalid, block.2.2.2.2⟩

/-- The state a miss leads to, whichever buffer it takes. -/
private theorem call_miss_ran {file : JournalFile} {state : InFlight} {order : List BufId}
    {victim : BufId} {offset length : UInt64} (opNew : Bool) (coherent : Coherent file state.journal)
    (listed : LruOrder state.journal order) (least : order.head? = some victim)
    (possible : Possible file state (.call offset length opNew))
    (missed : state.journal.lookup offset length = none) :
    ∃ journal : Journal, Coherent file journal ∧ LruOrder journal (touch order victim) ∧
      (journal.bufs victim).valid = false ∧
      (∀ buf, (state.journal.bufs buf).valid = false → (journal.bufs buf).valid = false ∧
        (journal.bufs buf).data = (state.journal.bufs buf).data) ∧
      state.step (.call offset length opNew) = .ok
        (let flights := noteUse state.flights (some victim)
        if opNew then
          ⟨journal, state.calls + 1, Function.update flights state.calls (some
            { op := { fixedFile := journal.idx, fixedBuf := some (journal.bufs victim).idx,
                      nbytes := UInt32.ofNat JOURNAL_BUF_SIZE, offset, length, buf := some victim }
              written := fun _ => false
              used := [] }), state.answers⟩
        else ⟨journal, state.calls + 1, flights,
          state.answers ++ [⟨offset, length, .error (-ENOMEM)⟩]⟩) := by
  obtain ⟨positive, small, -⟩ := possible
  obtain ⟨used, listed', same, ran⟩ := journalRead_miss opNew listed least positive small missed
  have head : state.journal.lruHead = some victim := listed.1.head.trans least
  refine ⟨used.setBuf victim fun b => { b with valid := false },
    coherent_invalidated victim coherent same, listed'.setBuf (fun _ => rfl) (fun _ => rfl),
    by simp [Journal.setBuf], fun buf invalid => ?_, ?_⟩
  · have block := same.bufs buf
    simp only [JournalBuf.block, Block.mk.injEq] at block
    by_cases here : buf = victim
    · subst here
      simp [Journal.setBuf, block.2.2.2.2]
    · simp [Journal.setBuf, here, block.2.2.1, block.2.2.2.2, invalid]
  · simp only [InFlight.step, ran, bind_ok, Journal.usedFor, missed, head, Option.none_or]
    cases opNew <;> rfl

/-- The victim of a miss is not in flight when every read in flight is spared. -/
private theorem victim_apart {file : JournalFile} {state : InFlight} {order : List BufId}
    {victim : BufId} (least : order.head? = some victim)
    (awaited : ∀ id flight, state.flights id = some flight →
      ∃ buf, Awaits file state.journal order flight buf)
    (spared : ∀ id flight, state.flights id = some flight →
      ∃ buf, flight.op.buf ≠ some buf ∧ buf ∉ flight.used) :
    ∀ id flight, state.flights id = some flight → flight.op.buf ≠ some victim := by
  intro id flight present target
  obtain ⟨buf, awaits⟩ := awaited id flight present
  obtain rfl : buf = victim := Option.some.inj (awaits.target.symm.trans target)
  obtain ⟨other, distinct, unused⟩ := spared id flight present
  exact unused (awaits.least_iff.mp least other (by rintro rfl; exact distinct target))

/-- A miss while every read in flight is spared takes a buffer of its own. -/
private theorem call_miss {file : JournalFile} {state : InFlight} {offset length : UInt64}
    {opNew : Bool} (invariant : FlightInvariant file state)
    (possible : Possible file state (.call offset length opNew))
    (spared : SparesFlights state (.call offset length opNew))
    (missed : state.journal.lookup offset length = none) :
    ∃ state', state.step (.call offset length opNew) = .ok state' ∧
      FlightInvariant file state' := by
  obtain ⟨order, listed, awaited⟩ := invariant.awaited
  obtain ⟨victim, least⟩ := listed.least
  obtain ⟨journal, coherent, listed', invalid, same, ran⟩ :=
    call_miss_ran opNew invariant.exclusive.coherent listed least possible missed
  have noted := awaited_note awaited listed' same
  refine ⟨_, ran, ?_⟩
  cases opNew with
  | false =>
    refine ⟨⟨apart_note invariant.exclusive.apart, ?_, coherent⟩, fresh_note _ invariant.fresh,
      touch order victim, listed', noted⟩
    intro answer member
    rw [if_neg (by decide), List.mem_append, List.mem_singleton] at member
    rcases member with member | rfl
    · exact invariant.exclusive.right answer member
    · exact .inr ⟨_, by decide, rfl⟩
  | true =>
    obtain ⟨positive, small, inside⟩ := possible
    have apart := victim_apart least awaited (spared rfl missed)
    refine ⟨⟨apart_update ?_ (apart_note invariant.exclusive.apart), invariant.exclusive.right,
      coherent⟩, ?_, touch order victim, listed', ?_⟩
    · intro id _ flight' there
      obtain ⟨flight, present, rfl⟩ := noteUse_some there
      exact apart id flight present
    · intro id late
      simp only [↓reduceIte] at late ⊢
      rw [Function.update_of_ne (by omega)]
      exact fresh_note _ invariant.fresh id late
    · intro id flight present
      simp only [↓reduceIte] at present ⊢
      by_cases new : id = state.calls
      · subst new
        rw [Function.update_self, Option.some.injEq] at present
        subst present
        exact ⟨victim,
          { target := rfl
            asked := show (UInt64.ofNat JOURNAL_BUF_SIZE).toNat = JOURNAL_BUF_SIZE by decide
            positive, small, inside, invalid
            written := fun i held => by simp at held
            untouched := by simp
            since := ⟨order.erase victim, listed'.1.nodup, listed'.2, rfl⟩ }⟩
      · rw [Function.update_of_ne new] at present
        exact noted id flight present

/-- A miss that gets an operation while some read in flight is not spared takes
that read's buffer. -/
private theorem call_miss_shares {file : JournalFile} {state state' : InFlight}
    {offset length : UInt64} {id : Nat} {flight : Flight} (invariant : FlightInvariant file state)
    (possible : Possible file state (.call offset length true))
    (missed : state.journal.lookup offset length = none)
    (present : state.flights id = some flight)
    (exhausted : ∀ buf, flight.op.buf ≠ some buf → buf ∈ flight.used)
    (ran : state.step (.call offset length true) = .ok state') : ¬ Exclusive file state' := by
  obtain ⟨order, listed, awaited⟩ := invariant.awaited
  obtain ⟨victim, awaits⟩ := awaited id flight present
  have least : order.head? = some victim := awaits.least_iff.mpr fun other distinct =>
    exhausted other (by rw [awaits.target]; simpa using distinct.symm)
  obtain ⟨journal, -, -, -, -, ran'⟩ :=
    call_miss_ran true invariant.exclusive.coherent listed least possible missed
  obtain rfl := Except.ok.inj (ran'.symm.trans ran)
  have older : id ≠ state.calls := by
    rintro rfl
    simp [invariant.fresh _ (Nat.le_refl _)] at present
  intro exclusive
  refine exclusive.apart id state.calls (flight.note victim) _ ?_ (Function.update_self ..) older
    awaits.target
  simp only [↓reduceIte]
  rw [Function.update_of_ne older, noteUse, present]
  rfl

/-- The kernel writes to one buffer, which is invalid. -/
private theorem kernelFills_spec {file : JournalFile} {journal : Journal} {order : List BufId}
    {flight : Flight} {buf : BufId} (awaits : Awaits file journal order flight buf)
    (listed : LruOrder journal order) (coherent : Coherent file journal) (place : Nat → Bool)
    (data : Nat → UInt8) :
    let filled := journal.kernelFills flight.op place data
    LruOrder filled order ∧ Coherent file filled ∧ (filled.bufs buf).valid = false ∧
      (filled.bufs buf).data =
        (fun i => if place i then data i else (journal.bufs buf).data i) ∧
      ∀ other ≠ buf, filled.bufs other = journal.bufs other := by
  simp only [Journal.kernelFills, awaits.target]
  refine ⟨listed.setBuf (fun _ => rfl) (fun _ => rfl),
    coherent_setData _ awaits.invalid coherent, ?_, ?_, fun other apart => ?_⟩
  · simp [Journal.setBuf, awaits.invalid]
  · simp [Journal.setBuf]
  · simp [Journal.setBuf, apart]

private theorem kernelWrites_step {file : JournalFile} {state : InFlight} {id : Nat}
    {place : Nat → Bool} {data : Nat → UInt8} (invariant : FlightInvariant file state)
    (possible : Possible file state (.kernelWrites id place data)) :
    ∃ state', state.step (.kernelWrites id place data) = .ok state' ∧
      FlightInvariant file state' := by
  obtain ⟨order, listed, awaited⟩ := invariant.awaited
  cases present : state.flights id with
  | none => exact ⟨state, by simp only [InFlight.step, present], invariant⟩
  | some flight =>
    refine ⟨_, by simp only [InFlight.step, present]; rfl, ?_⟩
    obtain ⟨buf, awaits⟩ := awaited id flight present
    obtain ⟨listed', coherent, invalid, filled, others⟩ :=
      kernelFills_spec awaits listed invariant.exclusive.coherent place data
    generalize state.journal.kernelFills flight.op place data = journal at *
    have alone : ∀ id' ≠ id, ∀ flight', state.flights id' = some flight' →
        flight'.op.buf ≠ flight.op.buf := fun id' other flight' there =>
      invariant.exclusive.apart id' id flight' flight there present other
    refine ⟨⟨apart_update alone invariant.exclusive.apart, invariant.exclusive.right, coherent⟩,
      ?_, order, listed', ?_⟩
    · intro id' late
      dsimp only at late ⊢
      have other : id' ≠ id := by
        rintro rfl
        simp [invariant.fresh id' late] at present
      rw [Function.update_of_ne other]
      exact invariant.fresh id' late
    · intro id' flight' there
      dsimp only at there ⊢
      by_cases same : id' = id
      · subst same
        rw [Function.update_self, Option.some.injEq] at there
        subst there
        refine ⟨buf, { awaits with invalid := invalid, written := fun i held => ?_ }⟩
        rw [filled]
        dsimp only at held ⊢
        by_cases new : place i = true
        · rw [if_pos new]
          exact (possible flight present i new).2.2
        · rw [if_neg new]
          exact awaits.written i (by simpa [new] using held)
      · rw [Function.update_of_ne same] at there
        obtain ⟨buf', awaits'⟩ := awaited id' flight' there
        have apart : buf' ≠ buf := by
          rintro rfl
          exact alone id' same flight' there (awaits'.target.trans awaits.target.symm)
        exact ⟨buf', awaits'.frame (by rw [others buf' apart]; exact awaits'.invalid)
          (by rw [others buf' apart])⟩

private theorem landed {flights : Nat → Option Flight} {id id' : Nat} {flight : Flight}
    (there : Function.update flights id none id' = some flight) :
    id' ≠ id ∧ flights id' = some flight := by
  by_cases same : id' = id
  · simp [same] at there
  · exact ⟨same, by simpa [same] using there⟩

private theorem completed_step {file : JournalFile} {state : InFlight} {id : Nat}
    {answer : KernelAnswer} (invariant : FlightInvariant file state)
    (possible : Possible file state (.completed id answer)) :
    ∃ state', state.step (.completed id answer) = .ok state' ∧ FlightInvariant file state' := by
  obtain ⟨order, listed, awaited⟩ := invariant.awaited
  cases present : state.flights id with
  | none => exact ⟨state, by simp only [InFlight.step, present], invariant⟩
  | some flight =>
    refine ⟨_, by simp only [InFlight.step, present]; rfl, ?_⟩
    obtain ⟨buf, awaits⟩ := awaited id flight present
    obtain ⟨listed', coherent, invalid, filled, others⟩ :=
      kernelFills_spec awaits listed invariant.exclusive.coherent (fun i => !flight.written i)
        answer.data
    generalize state.journal.kernelFills flight.op (fun i => !flight.written i) answer.data =
      journal at *
    have serves : Serves file flight.op.offset.toNat flight.op.nbytes.toNat
        { answer with data := (journal.bufs buf).data } := by
      rcases possible flight present with failed | ⟨count, bytes⟩
      · exact .inl failed
      refine .inr ⟨count, fun i low => ?_⟩
      rw [filled]
      dsimp only
      cases held : flight.written i with
      | true => simpa using awaits.written i held
      | false => simpa using bytes i low
    obtain ⟨coherent', links, outcome⟩ := bufGotRead_buffered answer.data awaits.target coherent
      awaits.asked awaits.small awaits.positive serves
    have frame : ∀ other ≠ buf,
        (bufGotRead journal flight.op answer.result answer.data).1.bufs other =
          state.journal.bufs other := fun other apart =>
      (bufGotRead_frame answer.result answer.data awaits.target apart).trans (others other apart)
    generalize bufGotRead journal flight.op answer.result answer.data = finished at *
    refine ⟨⟨?_, ?_, coherent'⟩, ?_, order, ⟨links ▸ listed'.1, listed'.2⟩, ?_⟩
    · intro id₁ id₂ flight₁ flight₂ here there
      exact invariant.exclusive.apart id₁ id₂ flight₁ flight₂ (landed here).2 (landed there).2
    · intro ended member
      rw [List.mem_append, List.mem_singleton] at member
      rcases member with member | rfl
      · exact invariant.exclusive.right ended member
      rcases outcome with plain | ⟨negative, failed⟩
      · left
        rw [plain, plainRead, if_pos ((readable_iff_inside awaits.small).mpr awaits.inside)]
      · exact .inr ⟨_, negative, failed⟩
    · intro id' late
      by_contra present'
      obtain ⟨flight', there⟩ := Option.ne_none_iff_exists'.mp present'
      have held := (landed there).2
      simp [invariant.fresh id' late] at held
    · intro id' flight' there
      obtain ⟨other, there⟩ := landed there
      obtain ⟨buf', awaits'⟩ := awaited id' flight' there
      have apart : buf' ≠ buf := by
        rintro rfl
        exact invariant.exclusive.apart id' id flight' flight there present other
          (awaits'.target.trans awaits.target.symm)
      exact ⟨buf', awaits'.frame (by rw [frame buf' apart]; exact awaits'.invalid)
        (by rw [frame buf' apart])⟩

theorem start_invariant {file : JournalFile} {name : String} {fd : Int} {i : Nat}
    {journal : Journal} (ready : freshJournal name fd i = .ok journal) :
    FlightInvariant file (.start journal) := by
  have invariant : CacheInvariant file journal := .fresh ready
  obtain ⟨order, listed⟩ := invariant.listed
  exact ⟨⟨fun _ _ _ _ present => by simp [InFlight.start] at present, by simp [InFlight.start],
    invariant.coherent⟩, fun _ _ => rfl, order, listed,
    fun _ _ present => by simp [InFlight.start] at present⟩

/-- A step that spares the reads in flight is never stuck and keeps the invariant. -/
theorem step_spec {file : JournalFile} {state : InFlight} {event : Event}
    (invariant : FlightInvariant file state) (possible : Possible file state event)
    (spared : SparesFlights state event) :
    ∃ state', state.step event = .ok state' ∧ FlightInvariant file state' := by
  cases event with
  | call offset length opNew =>
    cases found : state.journal.lookup offset length with
    | none => exact call_miss invariant possible spared found
    | some buf => exact call_hit opNew invariant possible found
  | kernelWrites id place data => exact kernelWrites_step invariant possible
  | completed id answer => exact completed_step invariant possible

theorem reached_invariant {file : JournalFile} {state : InFlight}
    (reached : Reached file SparesFlights state) : FlightInvariant file state := by
  induction reached with
  | opened ready => exact start_invariant ready
  | step _ possible met ran ih =>
    obtain ⟨next, ok, invariant⟩ := step_spec ih possible met
    exact Except.ok.inj (ok.symm.trans ran) ▸ invariant

/-- In every state that steps which spare the reads in flight lead to, no two
reads share a buffer, every call that ended got its own bytes, and the tags are
true; and of the steps possible there, exactly those that spare the reads in
flight keep it so. -/
theorem spared_flights_are_exclusive {file : JournalFile} {state : InFlight}
    (reached : Reached file SparesFlights state) :
    Exclusive file state ∧ ∀ event, Possible file state event →
      (SparesFlights state event ↔
        ∃ state', state.step event = .ok state' ∧ Exclusive file state') := by
  have invariant := reached_invariant reached
  refine ⟨invariant.exclusive, fun event possible => ⟨fun spared => ?_, ?_⟩⟩
  · obtain ⟨state', ok, kept⟩ := step_spec invariant possible spared
    exact ⟨state', ok, kept.exclusive⟩
  · rintro ⟨state', ran, exclusive⟩
    cases event with
    | call offset length opNew =>
      rintro rfl missed id flight present
      by_contra exhausted
      exact call_miss_shares invariant possible missed present
        (fun buf other => by_contra fun unused => exhausted ⟨buf, other, unused⟩) ran exclusive
    | kernelWrites id place data => trivial
    | completed id answer => trivial

/-- Nine blocks, each filled with its own number. -/
def nineBlocks : JournalFile where
  size := 9 * JOURNAL_BUF_SIZE
  byte := fun i => UInt8.ofNat (i / JOURNAL_BUF_SIZE)
  size_lt := by decide

/-- The state with one read in flight. -/
theorem spared_flights_are_exclusive_first :
    ∃ journal state, freshJournal "system.journal" 3 0 = .ok journal ∧
      (InFlight.start journal).step (.call 0 16 true) = .ok state ∧
      Exclusive nineBlocks state ∧ ∀ event, Possible nineBlocks state event →
        (SparesFlights state event ↔
          ∃ state', state.step event = .ok state' ∧ Exclusive nineBlocks state') := by
  obtain ⟨journal, ready, -⟩ := freshJournal_spec "system.journal" 3 0
  have possible : Possible nineBlocks (.start journal) (.call 0 16 true) :=
    ⟨by decide, by decide, by decide⟩
  have spared : SparesFlights (.start journal) (.call 0 16 true) := by
    intro _ _ id flight present
    simp [InFlight.start] at present
  obtain ⟨state, ran, -⟩ := step_spec (start_invariant ready) possible spared
  exact ⟨journal, state, ready, ran,
    spared_flights_are_exclusive (.step (.opened ready) possible spared ran)⟩

/-! ## Two reads in one buffer -/

theorem Reached.run {file : JournalFile} {state state' : InFlight} {events : List Event}
    (reached : Reached file (fun _ _ => True) state)
    (possible : ∀ event ∈ events, ∀ state, Possible file state event)
    (ran : events.foldlM InFlight.step state = .ok state') :
    Reached file (fun _ _ => True) state' := by
  induction events generalizing state with
  | nil => exact Except.ok.inj ran ▸ reached
  | cons event events ih =>
    obtain ⟨middle, first, rest⟩ := bind_eq_ok.mp ran
    exact ih (.step reached (possible event (by simp) state) trivial first)
      (fun other member => possible other (by simp [member])) rest

theorem kernelWrites_ops {state state' : InFlight} {id : Nat} {place : Nat → Bool}
    {data : Nat → UInt8} (ran : state.step (.kernelWrites id place data) = .ok state') (id' : Nat) :
    (state'.flights id').map Flight.op = (state.flights id').map Flight.op := by
  cases present : state.flights id with
  | none =>
    simp only [InFlight.step, present, Except.ok.injEq] at ran
    rw [ran]
  | some flight =>
    simp only [InFlight.step, present, Except.ok.injEq] at ran
    subst ran
    by_cases same : id' = id
    · subst same
      simp [present]
    · simp [same]

/-- A read of 16 bytes from each of the nine blocks, none of them completed. -/
def nineMisses : List Event :=
  (List.range 9).map fun block => .call (UInt64.ofNat (block * JOURNAL_BUF_SIZE)) 16 true

/-- The kernel carries out the first read, then starts on the ninth, and only
then is the first completion handled. -/
def lateCompletion : List Event :=
  [.kernelWrites 0 (· < JOURNAL_BUF_SIZE) nineBlocks.byte,
    .kernelWrites 8 (· < 16) (fun i => nineBlocks.byte (8 * JOURNAL_BUF_SIZE + i)),
    .completed 0 ⟨JOURNAL_BUF_SIZE, nineBlocks.byte, by decide, by decide⟩]

/-- What can be seen of the state after some events. -/
def observe {α : Type} (events : List Event) (seen : InFlight → α) : Except Fault α := do
  let journal ← freshJournal "system.journal" 3 0
  let state ← events.foldlM InFlight.step (.start journal)
  return seen state

private theorem nineMisses_possible : ∀ event ∈ nineMisses, ∀ state,
    Possible nineBlocks state event := by
  intro event member state
  obtain ⟨block, low, rfl⟩ := List.mem_map.mp member
  rw [List.mem_range] at low
  refine ⟨by decide, by decide, ?_⟩
  interval_cases block <;> decide

/-- The ninth miss is read into the buffer that the first one waits for, and the
first one is answered with the bytes of the ninth. -/
theorem nine_misses_share_a_buffer :
    ∃ state state', Reached nineBlocks (fun _ _ => True) state ∧
      Reached nineBlocks (fun _ _ => True) state' ∧
      ((state.flights 0).map fun flight => (flight.op.offset, flight.op.buf)) = some (0, some 0) ∧
      ((state.flights 8).map fun flight => (flight.op.offset, flight.op.buf)) =
        some (65536, some 0) ∧
      state'.answers.map (fun answer => (answer.offset, answer.length, answer.outcome)) =
        [(0, 16, .ok (nineBlocks.slice 65536 16))] ∧
      ¬ Exclusive nineBlocks state ∧ ¬ Exclusive nineBlocks state' := by
  have submitted : observe nineMisses (fun state => [0, 8].map fun id =>
      (state.flights id).map Flight.op) =
      .ok [some ⟨0, some 0, 8192, 0, 16, some 0⟩, some ⟨0, some 0, 8192, 65536, 16, some 0⟩] := rfl
  have finished : observe (nineMisses ++ lateCompletion) (fun state =>
      state.answers.map fun answer => (answer.offset, answer.length, answer.outcome)) =
      .ok [(0, 16, .ok (nineBlocks.slice 65536 16))] := rfl
  obtain ⟨journal, ready, calls⟩ := bind_eq_ok.mp submitted
  obtain ⟨state, ran, seen⟩ := bind_eq_ok.mp calls
  rw [observe, ready, bind_ok, List.foldlM_append, ran, bind_ok] at finished
  obtain ⟨state', late, answers⟩ := bind_eq_ok.mp finished
  obtain ⟨written, step, rest⟩ := bind_eq_ok.mp late
  obtain ⟨rewritten, step', rest⟩ := bind_eq_ok.mp rest
  obtain ⟨completed, step'', rest⟩ := bind_eq_ok.mp rest
  obtain rfl := Except.ok.inj rest
  simp only [List.map_cons, List.map_nil, pure, Except.pure, Except.ok.injEq, List.cons.injEq,
    and_true] at seen answers
  obtain ⟨first, ninth⟩ := seen
  have reached : Reached nineBlocks (fun _ _ => True) state :=
    Reached.run (.opened ready) nineMisses_possible ran
  have reached' : Reached nineBlocks (fun _ _ => True) completed := by
    refine .step (.step (.step reached ?_ trivial step) ?_ trivial step') ?_ trivial step''
    · intro flight present i low
      rw [present, Option.map_some, Option.some.injEq] at first
      have low := of_decide_eq_true low
      rw [first]
      exact ⟨low, by simp [nineBlocks]; omega, by simp⟩
    · intro flight present i low
      rw [← kernelWrites_ops step, present, Option.map_some, Option.some.injEq] at ninth
      have low := of_decide_eq_true low
      rw [ninth]
      exact ⟨by unfold JOURNAL_BUF_SIZE; omega,
        by simp [nineBlocks, JOURNAL_BUF_SIZE]; omega, by simp [JOURNAL_BUF_SIZE]⟩
    · intro flight present
      rw [← kernelWrites_ops step, ← kernelWrites_ops step', present, Option.map_some,
        Option.some.injEq] at first
      rw [first]
      exact .inr ⟨by decide, fun i _ => by simp⟩
  refine ⟨state, completed, reached, reached', ?_, ?_, answers, ?_, ?_⟩
  · obtain ⟨flight, present, op⟩ := Option.map_eq_some_iff.mp first
    rw [present, Option.map_some, op]
  · obtain ⟨flight, present, op⟩ := Option.map_eq_some_iff.mp ninth
    rw [present, Option.map_some, op]
  · intro exclusive
    obtain ⟨flight, present, op⟩ := Option.map_eq_some_iff.mp first
    obtain ⟨flight', present', op'⟩ := Option.map_eq_some_iff.mp ninth
    exact exclusive.apart 0 8 flight flight' present present' (by decide) (by rw [op, op'])
  · intro exclusive
    obtain ⟨answer, only, shape⟩ := List.map_eq_singleton_iff.mp answers
    simp only [Prod.mk.injEq] at shape
    rcases exclusive.right answer (by simp [only]) with right | ⟨_, _, failed⟩
    · rw [shape.1, shape.2.1, shape.2.2] at right
      exact absurd right (by decide)
    · rw [shape.2.2] at failed
      cases failed

end Jio
