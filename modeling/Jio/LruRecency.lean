import Jio.Library.FaultingRuns
import Jio.Library.Recency
import Jio.InFlightReads

/-! The list of buffers is a least-recently-used list. Whatever `journal_read` is asked
for and the kernel answers, it runs through all eight buffers in the order they were
last used in, so that a miss takes the one whose last use is longest ago. -/
namespace Jio
open LinkedOrder ReadProgram FaultingRuns

/-! ## Uses -/

/-- The buffer used in a step: by a call that fits a buffer, and by nothing else. -/
def InFlight.uses (state : InFlight) : Event → Option BufId
  | .call offset length _ =>
    if length.toNat ≤ JOURNAL_BUF_SIZE then state.journal.usedFor offset length else none
  | .kernelWrites .. => none
  | .completed .. => none

/-- A state that any steps lead to from a journal just opened, with the buffers used
on the way. Nothing is assumed of what is asked for and of what the kernel does. -/
inductive Used : InFlight → List BufId → Prop
  | opened {name : String} {fd : Int} {i : Nat} {journal : Journal}
      (ready : freshJournal name fd i = .ok journal) : Used (.start journal) []
  | step {state state' : InFlight} {uses : List BufId} {event : Event} (used : Used state uses)
      (ran : state.step event = .ok state') : Used state' (uses ++ (state.uses event).toList)

/-- The list visits all buffers once, forwards and backwards, in order of last use. -/
structure LruList (journal : Journal) (uses order : List BufId) : Prop where
  visits : ∀ fuel, JOURNAL_BUF_CNT ≤ fuel →
    follow (fun buf => (journal.bufs buf).lruNext) fuel journal.lruHead = order
  once : order.Nodup
  all : ∀ buf, buf ∈ order
  ends : order.getLast? = journal.lruTail
  inverse : ∀ buf buf', (journal.bufs buf).lruNext = some buf' ↔
    (journal.bufs buf').lruPrev = some buf
  first : ∀ buf, journal.lruHead = some buf → (journal.bufs buf).lruPrev = none
  last : ∀ buf, journal.lruTail = some buf → (journal.bufs buf).lruNext = none
  recency : order.Pairwise (UsedBefore (· < ·) uses)

/-- The next victim was used before every other buffer, and after any use of it there
were at least seven uses of others. -/
structure Evictable (uses : List BufId) (victim : BufId) : Prop where
  least : ∀ other, other ≠ victim → UsedBefore (· < ·) uses victim other
  since : ∀ before since, uses = before ++ victim :: since →
    7 ≤ (since.filter (· ≠ victim)).length

/-- The order that uses leave behind. -/
def orderAfter (uses : List BufId) : List BufId :=
  uses.foldl touch (List.finRange JOURNAL_BUF_CNT)

/-! ## Steps -/

section Steps

variable {journal : Journal} {uses : List BufId} {offset length : UInt64}

theorem orderAfter_spec (uses : List BufId) :
    (orderAfter uses).Pairwise (UsedBefore (· < ·) uses) ∧ (orderAfter uses).Nodup ∧
      ∀ buf, buf ∈ orderAfter uses ↔ buf ∈ List.finRange JOURNAL_BUF_CNT :=
  touches_pairwise (List.nodup_finRange _) (List.pairwise_lt_finRange _)
    fun buf _ => List.mem_finRange buf

theorem orderAfter_concat (uses : List BufId) (buf : BufId) :
    orderAfter (uses ++ [buf]) = touch (orderAfter uses) buf := by
  simp [orderAfter]

theorem LruOrder.lruList (listed : LruOrder journal (orderAfter uses)) :
    LruList journal uses (orderAfter uses) := by
  obtain ⟨threads, all⟩ := listed
  obtain ⟨recency, once, -⟩ := orderAfter_spec uses
  have length : (orderAfter uses).length ≤ JOURNAL_BUF_CNT := by
    have known : orderAfter uses ⊆ List.finRange JOURNAL_BUF_CNT :=
      fun buf _ => List.mem_finRange buf
    simpa using once.length_le_of_subset known
  exact {
    visits := fun fuel enough => threads.follow_next (length.trans enough)
    once
    all
    ends := threads.tail.symm
    inverse := fun buf buf' => threads.next_iff_prev (all buf) (all buf')
    first := fun buf => threads.prev_head
    last := fun buf => threads.next_tail
    recency }

theorem evictable {victim : BufId} (front : (orderAfter uses).head? = some victim) :
    Evictable uses victim := by
  obtain ⟨recency, -, all⟩ := orderAfter_spec uses
  constructor
  · intro other apart
    obtain ⟨after, shape⟩ := List.head?_eq_some_iff.mp front
    have member := (all other).mpr (List.mem_finRange other)
    rw [shape] at recency member
    exact (List.pairwise_cons.mp recency).1 other ((List.mem_cons.mp member).resolve_left apart)
  · intro before since shape
    have others := uses_since_of_head (List.nodup_finRange _) (fun buf _ => List.mem_finRange buf)
      front shape
    simpa using others

/-- Using a buffer appends it to the uses. -/
theorem LruOrder.use (listed : LruOrder journal (orderAfter uses)) (buf : BufId) :
    ∃ used, bufUsed journal buf = .ok used ∧ LruOrder used (orderAfter (uses ++ [buf])) := by
  obtain ⟨used, ran, listed', -⟩ := listed.used buf
  exact ⟨used, ran, orderAfter_concat uses buf ▸ listed'⟩

/-- A completion and the kernel's writes leave the list alone. -/
theorem bufGotRead_links (journal : Journal) (op : ReadOp) (result : Int) (direct : Nat → UInt8) :
    (bufGotRead journal op result direct).1.links = journal.links := by
  unfold bufGotRead
  split
  · rfl
  split
  · rfl
  split
  · exact links_setBuf (fun _ => rfl) (fun _ => rfl)
  · rfl

theorem kernelFills_links (journal : Journal) (op : ReadOp) (place : Nat → Bool)
    (data : Nat → UInt8) : (journal.kernelFills op place data).links = journal.links := by
  unfold Journal.kernelFills
  split
  · exact links_setBuf (fun _ => rfl) (fun _ => rfl)
  · rfl

/-- A call uses the buffer it hits or evicts, if it fits one. -/
theorem journalRead_order {opNew : Bool} {journal' : Journal} {submitted : Submitted}
    (listed : LruOrder journal (orderAfter uses))
    (ran : journalRead journal opNew offset length = .ok (journal', submitted)) :
    LruOrder journal' (orderAfter (uses ++ (if length.toNat ≤ JOURNAL_BUF_SIZE then
      journal.usedFor offset length else none).toList)) := by
  have nonzero : length ≠ 0 := by
    intro zero
    rw [journalRead, if_pos zero] at ran
    cases ran
  have positive : 0 < length.toNat := Nat.pos_of_ne_zero fun zero => nonzero (UInt64.toNat_inj.mp zero)
  by_cases small : length.toNat ≤ JOURNAL_BUF_SIZE
  · rw [if_pos small]
    unfold Journal.usedFor
    cases found : journal.lookup offset length with
    | some buf =>
      obtain ⟨used, listed', -, hit⟩ := journalRead_hit opNew listed positive small found
      rw [hit] at ran
      cases copied : (journal.bufs buf).copyOut (offset - (journal.bufs buf).offset) length with
      | error fault => simp [copied, Except.map] at ran
      | ok dest =>
        simp only [copied, Except.map, Except.ok.injEq, Prod.mk.injEq] at ran
        rw [Option.some_or, Option.toList_some, orderAfter_concat, ← ran.1]
        exact listed'
    | none =>
      obtain ⟨victim, least⟩ := listed.least
      obtain ⟨used, listed', -, miss⟩ := journalRead_miss opNew listed least positive small found
      simp only [miss, Except.ok.injEq, Prod.mk.injEq] at ran
      have head : journal.lruHead = some victim := listed.1.head.trans least
      rw [Option.none_or, head, Option.toList_some, orderAfter_concat, ← ran.1]
      exact listed'.setBuf (fun _ => rfl) (fun _ => rfl)
  · rw [if_neg small, Option.toList_none, List.append_nil]
    rw [journalRead, if_neg nonzero, if_neg small] at ran
    cases opNew <;> simp at ran <;> exact ran.1 ▸ listed

/-- A step keeps the buffers in order of last use. -/
theorem step_order {state state' : InFlight} {event : Event}
    (listed : LruOrder state.journal (orderAfter uses)) (ran : state.step event = .ok state') :
    LruOrder state'.journal (orderAfter (uses ++ (state.uses event).toList)) := by
  cases event with
  | call offset length opNew =>
    obtain ⟨⟨journal, submitted⟩, read, ended⟩ := bind_eq_ok.mp ran
    have order := journalRead_order listed read
    cases submitted <;> cases ended <;> exact order
  | kernelWrites id place data =>
    unfold InFlight.step at ran
    rw [InFlight.uses, Option.toList_none, List.append_nil]
    cases present : state.flights id with
    | none =>
      simp only [present, Except.ok.injEq] at ran
      exact ran ▸ listed
    | some flight =>
      simp only [present, Except.ok.injEq] at ran
      rw [← ran]
      exact ⟨(kernelFills_links ..).symm ▸ listed.1, listed.2⟩
  | completed id answer =>
    unfold InFlight.step at ran
    rw [InFlight.uses, Option.toList_none, List.append_nil]
    cases present : state.flights id with
    | none =>
      simp only [present, Except.ok.injEq] at ran
      exact ran ▸ listed
    | some flight =>
      simp only [present, Except.ok.injEq] at ran
      rw [← ran]
      refine ⟨?_, listed.2⟩
      rw [bufGotRead_links, kernelFills_links]
      exact listed.1

theorem Used.order {state : InFlight} (used : Used state uses) :
    LruOrder state.journal (orderAfter uses) := by
  induction used with
  | @opened name fd i journal ready =>
    obtain ⟨fresh, ready', listed, -⟩ := freshJournal_spec name fd i
    obtain rfl := Except.ok.inj (ready'.symm.trans ready)
    exact listed
  | step used ran ih => exact step_order ih ran

/-- From the list at the start, any buffers can be used one after the other. -/
theorem bufsUsed_order (listed : LruOrder journal (orderAfter uses)) (more : List BufId) :
    ∃ used, more.foldlM bufUsed journal = .ok used ∧
      LruOrder used (orderAfter (uses ++ more)) := by
  refine run_exists (fun _ => True) (fun journal uses => LruOrder journal (orderAfter uses))
    ?_ (fun _ _ => trivial) listed
  intro journal uses buf _ listed
  exact listed.use buf

end Steps

/-- From a journal just opened, any sequence of uses succeeds and leaves the buffers in
order of last use; and so does any sequence of calls of `journal_read`, kernel writes
and completions, where a miss takes the buffer that was not used for longest and at
least seven others have been used since. -/
theorem buffers_are_in_lru_order :
    (∀ name fd i journal, freshJournal name fd i = .ok journal → ∀ uses : List BufId,
      ∃ used, uses.foldlM bufUsed journal = .ok used ∧ ∃ order, LruList used uses order) ∧
    ∀ state uses, Used state uses →
      (∃ order, LruList state.journal uses order) ∧
      (∀ buf, ∃ used, bufUsed state.journal buf = .ok used) ∧
      ∀ (offset length : UInt64) (opNew : Bool), 0 < length.toNat →
        length.toNat ≤ JOURNAL_BUF_SIZE → state.journal.lookup offset length = none →
        ∃ victim journal' submitted, Evictable uses victim ∧
          journalRead state.journal opNew offset length = .ok (journal', submitted) ∧
          (journal'.bufs victim).valid = false ∧
          ∀ op, submitted = .queued op → op.buf = some victim := by
  constructor
  · intro name fd i journal ready uses
    obtain ⟨fresh, ready', listed, -⟩ := freshJournal_spec name fd i
    obtain rfl := Except.ok.inj (ready'.symm.trans ready)
    obtain ⟨used, ran, listed'⟩ := @bufsUsed_order _ [] listed uses
    exact ⟨used, ran, _, listed'.lruList⟩
  · intro state uses used
    have listed := used.order
    refine ⟨⟨_, listed.lruList⟩, fun buf => ?_, ?_⟩
    · obtain ⟨next, ran, -⟩ := listed.use buf
      exact ⟨next, ran⟩
    · intro offset length opNew positive small missed
      obtain ⟨victim, least⟩ := listed.least
      obtain ⟨next, -, -, ran⟩ := journalRead_miss opNew listed least positive small missed
      refine ⟨victim, _, _, evictable least, ran, by simp [Journal.setBuf], ?_⟩
      intro op queued
      cases opNew <;> cases queued
      rfl

/-- Before anything is read, the first buffer is the one to go. -/
theorem buffers_are_in_lru_order_fresh :
    ∃ journal, freshJournal "system.journal" 3 0 = .ok journal ∧
      (∃ used, [3, 0, 3].foldlM bufUsed journal = .ok used ∧ ∃ order, LruList used [3, 0, 3] order) ∧
      ∃ victim journal' submitted, Evictable [] victim ∧
        journalRead journal true 256 16 = .ok (journal', submitted) ∧
        (journal'.bufs victim).valid = false ∧
        ∀ op, submitted = .queued op → op.buf = some victim := by
  obtain ⟨journal, ready, -, invalid⟩ := freshJournal_spec "system.journal" 3 0
  obtain ⟨sequences, runs⟩ := buffers_are_in_lru_order
  obtain ⟨-, -, evicts⟩ := runs _ _ (.opened ready)
  refine ⟨journal, ready, sequences _ _ _ _ ready [3, 0, 3], ?_⟩
  refine evicts 256 16 true (by decide) (by decide) ?_
  unfold Journal.lookup
  simp [JournalBuf.covers, InFlight.start, invalid]

end Jio
