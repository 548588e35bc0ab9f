import Jio.BufferCache

/-! The cache of `journal_read` serves what an uncached read would. The list of
buffers is always a permutation of all eight, a valid buffer always holds the
bytes of the file its tag names, and a read whose end does not wrap around is
answered as if there were no cache. -/
namespace Jio
open LinkedOrder ReadProgram

/-! ## The list of buffers -/

/-- The list pointers of a journal. -/
def Journal.links (journal : Journal) : Links BufId where
  head := journal.lruHead
  tail := journal.lruTail
  next := fun buf => (journal.bufs buf).lruNext
  prev := fun buf => (journal.bufs buf).lruPrev

@[simp] theorem links_setNext (journal : Journal) (buf : BufId) (link : Option BufId) :
    (journal.setNext buf link).links =
      { journal.links with next := Function.update journal.links.next buf link } := by
  simp only [Journal.links, Journal.setNext, Journal.setBuf, Links.mk.injEq, true_and]
  constructor <;> funext other <;> by_cases same : other = buf <;> simp [same]

@[simp] theorem links_setPrev (journal : Journal) (buf : BufId) (link : Option BufId) :
    (journal.setPrev buf link).links =
      { journal.links with prev := Function.update journal.links.prev buf link } := by
  simp only [Journal.links, Journal.setPrev, Journal.setBuf, Links.mk.injEq, true_and]
  constructor <;> funext other <;> by_cases same : other = buf <;> simp [same]

theorem links_setTail (journal : Journal) (tail : Option BufId) :
    { journal with lruTail := tail }.links = { journal.links with tail := tail } := rfl

/-- A buffer without its list pointers. -/
structure Block where
  offset : UInt64
  length : UInt64
  valid : Bool
  idx : Int
  data : Nat → UInt8

def JournalBuf.block (buf : JournalBuf) : Block :=
  ⟨buf.offset, buf.length, buf.valid, buf.idx, buf.data⟩

/-- Nothing but list pointers differs. -/
structure SameContents (journal journal' : Journal) : Prop where
  name : journal'.name = journal.name
  fd : journal'.fd = journal.fd
  idx : journal'.idx = journal.idx
  bufs : ∀ buf, (journal'.bufs buf).block = (journal.bufs buf).block

theorem SameContents.rfl {journal : Journal} : SameContents journal journal :=
  ⟨.refl _, .refl _, .refl _, fun _ => .refl _⟩

theorem SameContents.setNext {journal journal' : Journal} (same : SameContents journal journal')
    (buf : BufId) (link : Option BufId) : SameContents journal (journal'.setNext buf link) where
  name := same.name
  fd := same.fd
  idx := same.idx
  bufs := fun other => by
    rw [← same.bufs other]
    by_cases here : other = buf <;> simp [Journal.setNext, Journal.setBuf, JournalBuf.block, here]

theorem SameContents.setPrev {journal journal' : Journal} (same : SameContents journal journal')
    (buf : BufId) (link : Option BufId) : SameContents journal (journal'.setPrev buf link) where
  name := same.name
  fd := same.fd
  idx := same.idx
  bufs := fun other => by
    rw [← same.bufs other]
    by_cases here : other = buf <;> simp [Journal.setPrev, Journal.setBuf, JournalBuf.block, here]

theorem SameContents.setHead {journal journal' : Journal} (same : SameContents journal journal')
    (head : Option BufId) : SameContents journal { journal' with lruHead := head } :=
  ⟨same.name, same.fd, same.idx, same.bufs⟩

theorem SameContents.setTail {journal journal' : Journal} (same : SameContents journal journal')
    (tail : Option BufId) : SameContents journal { journal' with lruTail := tail } :=
  ⟨same.name, same.fd, same.idx, same.bufs⟩

private theorem bypass_spec (journal : Journal) (buf : BufId) :
    (journal.bypass buf).links = journal.links.bypass buf ∧
      SameContents journal (journal.bypass buf) := by
  have before : journal.links.prev buf = (journal.bufs buf).lruPrev := rfl
  unfold Journal.bypass Links.bypass
  rw [before]
  cases (journal.bufs buf).lruPrev with
  | none => exact ⟨rfl, SameContents.rfl.setHead _⟩
  | some prev => exact ⟨links_setNext .., SameContents.rfl.setNext ..⟩

/-- `buf_used` is a move to the back of the list, and touches nothing else. -/
theorem bufUsed_links {journal : Journal} {buf : BufId} {moved : Links BufId}
    (ran : journal.links.moveToBack buf = some moved) :
    ∃ used, bufUsed journal buf = .ok used ∧ used.links = moved ∧ SameContents journal used := by
  by_cases last : journal.lruTail = some buf
  · refine ⟨journal, by simp [bufUsed, last], ?_, .rfl⟩
    simpa [Links.moveToBack, Journal.links, last] using ran
  have last' : journal.links.tail ≠ some buf := last
  obtain ⟨links, same⟩ := bypass_spec journal buf
  rw [Links.moveToBack, if_neg last', ← links] at ran
  rw [bufUsed, if_neg last]
  generalize journal.bypass buf = bypassed at ran same ⊢
  simp only [Journal.links] at ran
  cases succ : (bypassed.bufs buf).lruNext <;> cases tail : bypassed.lruTail <;>
    simp only [succ, tail, Option.some.injEq, reduceCtorEq] at ran ⊢
  subst ran
  refine ⟨_, rfl, ?_, ((((same.setPrev _ _).setNext _ _).setNext _ _).setPrev _ _).setTail _⟩
  rw [links_setTail, links_setPrev, links_setNext, links_setNext, links_setPrev]
  rfl

/-- Using a buffer of the list succeeds and makes it the most recently used. -/
theorem bufUsed_spec {journal : Journal} {buf : BufId} {order : List BufId}
    (threads : Threads journal.links order) (member : buf ∈ order) :
    ∃ used, bufUsed journal buf = .ok used ∧ Threads used.links (touch order buf) ∧
      SameContents journal used := by
  obtain ⟨moved, ran, threaded⟩ := threads.moveToBack member
  obtain ⟨used, ok, links, same⟩ := bufUsed_links ran
  exact ⟨used, ok, links ▸ threaded, same⟩

/-! ## What the buffers hold -/

/-- The tag of a buffer names bytes of the file, and the buffer holds them. -/
structure Holds (file : JournalFile) (buf : JournalBuf) : Prop where
  small : buf.length.toNat ≤ JOURNAL_BUF_SIZE
  inside : buf.offset.toNat + buf.length.toNat ≤ file.size
  bytes : ∀ i < buf.length.toNat, buf.data i = file.byte (buf.offset.toNat + i)

/-- Every valid buffer holds what its tag says. -/
def Coherent (file : JournalFile) (journal : Journal) : Prop :=
  ∀ buf, (journal.bufs buf).valid = true → Holds file (journal.bufs buf)

/-- The list runs through all eight buffers, in this order. -/
def LruOrder (journal : Journal) (order : List BufId) : Prop :=
  Threads journal.links order ∧ ∀ buf, buf ∈ order

/-- What every reachable cache satisfies. -/
structure CacheInvariant (file : JournalFile) (journal : Journal) : Prop where
  coherent : Coherent file journal
  listed : ∃ order, LruOrder journal order

theorem bytesAt_congr {data data' : Nat → UInt8} {off off' length : Nat}
    (same : ∀ i < length, data (off + i) = data' (off' + i)) :
    bytesAt data off length = bytesAt data' off' length :=
  List.map_congr_left fun i member => same i (List.mem_range.mp member)

@[simp] theorem bytesAt_length (data : Nat → UInt8) (off length : Nat) :
    (bytesAt data off length).length = length := by simp [bytesAt]

theorem bytesAt_sub (data : Nat → UInt8) (off : Nat) {length i n : Nat} (inside : i + n ≤ length) :
    ((bytesAt data off length).drop i).take n = bytesAt data (off + i) n := by
  refine List.ext_getElem (by simp; omega) fun k low _ => ?_
  simp [bytesAt, Nat.add_assoc]

theorem bytesAt_append (data : Nat → UInt8) (off m n : Nat) :
    bytesAt data off m ++ bytesAt data (off + m) n = bytesAt data off (m + n) := by
  simp [bytesAt, List.range_add, Nat.add_assoc]

theorem holds_congr {file : JournalFile} {buf buf' : JournalBuf} (same : buf'.block = buf.block)
    (holds : Holds file buf) : Holds file buf' := by
  simp only [JournalBuf.block, Block.mk.injEq] at same
  obtain ⟨offset, length, -, -, data⟩ := same
  exact ⟨length ▸ holds.small, offset ▸ length ▸ holds.inside,
    offset ▸ length ▸ data ▸ holds.bytes⟩

theorem SameContents.coherent {file : JournalFile} {journal journal' : Journal}
    (same : SameContents journal journal') (coherent : Coherent file journal) :
    Coherent file journal' := by
  intro buf valid
  have unchanged := same.bufs buf
  have valid' : (journal.bufs buf).valid = true := by
    simp only [JournalBuf.block, Block.mk.injEq] at unchanged
    exact unchanged.2.2.1 ▸ valid
  exact holds_congr unchanged (coherent buf valid')

theorem LruOrder.used {journal : Journal} {order : List BufId} (listed : LruOrder journal order)
    (buf : BufId) : ∃ used, bufUsed journal buf = .ok used ∧ LruOrder used (touch order buf) ∧
      SameContents journal used := by
  obtain ⟨used, ok, threads, same⟩ := bufUsed_spec listed.1 (listed.2 buf)
  exact ⟨used, ok, ⟨threads, fun other => (mem_touch (listed.2 buf)).mpr (listed.2 other)⟩, same⟩

/-- Assigning to fields other than the list pointers leaves the list alone. -/
theorem links_setBuf {journal : Journal} {buf : BufId} {assign : JournalBuf → JournalBuf}
    (prev : ∀ b, (assign b).lruPrev = b.lruPrev) (next : ∀ b, (assign b).lruNext = b.lruNext) :
    (journal.setBuf buf assign).links = journal.links := by
  simp only [Journal.links, Journal.setBuf, Links.mk.injEq, true_and]
  constructor <;> funext other <;> by_cases same : other = buf <;> simp [same, prev, next]

theorem LruOrder.setBuf {journal : Journal} {order : List BufId} (listed : LruOrder journal order)
    {buf : BufId} {assign : JournalBuf → JournalBuf} (prev : ∀ b, (assign b).lruPrev = b.lruPrev)
    (next : ∀ b, (assign b).lruNext = b.lruNext) : LruOrder (journal.setBuf buf assign) order := by
  have links : (journal.setBuf buf assign).links = journal.links := links_setBuf prev next
  exact ⟨links ▸ listed.1, listed.2⟩

/-! ## The hit test -/

theorem JournalBuf.valid_of_covers {buf : JournalBuf} {offset length : UInt64}
    (hit : buf.covers offset length = true) : buf.valid = true := by
  unfold JournalBuf.covers at hit
  rw [Bool.and_eq_true, Bool.and_eq_true] at hit
  exact hit.1.1

theorem lookup_some {journal : Journal} {offset length : UInt64} {buf : BufId}
    (found : journal.lookup offset length = some buf) :
    (journal.bufs buf).covers offset length = true :=
  List.find?_some (p := fun buf => (journal.bufs buf).covers offset length) found

theorem lookup_isSome_iff {journal : Journal} {offset length : UInt64} :
    (journal.lookup offset length).isSome ↔
      ∃ buf, (journal.bufs buf).covers offset length = true := by
  simp [Journal.lookup, List.find?_isSome]

/-- Of a buffer that holds its tag, only the requested end can wrap around. -/
theorem Holds.covers_iff {file : JournalFile} {buf : JournalBuf} (holds : Holds file buf)
    (offset length : UInt64) : buf.covers offset length = true ↔ buf.valid = true ∧
      buf.offset.toNat ≤ offset.toNat ∧ (offset.toNat + length.toNat) % 2 ^ 64 ≤
        buf.offset.toNat + buf.length.toNat := by
  have bound := file.size_lt
  have inside := holds.inside
  rw [JournalBuf.covers, Bool.and_eq_true, Bool.and_eq_true, decide_eq_true_iff,
    decide_eq_true_iff, UInt64.le_iff_toNat_le, UInt64.le_iff_toNat_le, UInt64.toNat_add,
    UInt64.toNat_add, Nat.mod_eq_of_lt (a := buf.offset.toNat + _) (by omega), and_assoc]

/-- A hit whose end does not wrap around copies the file's bytes. -/
theorem Holds.copyOut {file : JournalFile} {buf : JournalBuf} {offset length : UInt64}
    (holds : Holds file buf) (hit : buf.covers offset length = true)
    (straight : offset.toNat + length.toNat < 2 ^ 64) :
    buf.copyOut (offset - buf.offset) length = .ok (file.slice offset.toNat length.toNat) ∧
      offset.toNat + length.toNat ≤ file.size := by
  obtain ⟨-, starts, ends⟩ := (holds.covers_iff offset length).mp hit
  rw [Nat.mod_eq_of_lt straight] at ends
  have small := holds.small
  have inside := holds.inside
  have index : (offset - buf.offset).toNat = offset.toNat - buf.offset.toNat :=
    UInt64.toNat_sub_of_le _ _ (UInt64.le_iff_toNat_le.mpr starts)
  refine ⟨?_, by omega⟩
  rw [JournalBuf.copyOut, if_pos (by omega), index, JournalFile.slice]
  refine congrArg _ (bytesAt_congr fun i low => ?_)
  rw [holds.bytes _ (by omega)]
  congr 1
  omega

/-- A hit whose end wraps around lies far outside the buffer. -/
theorem Holds.copyOut_wrapped {file : JournalFile} {buf : JournalBuf} {offset length : UInt64}
    (holds : Holds file buf) (hit : buf.covers offset length = true)
    (wraps : 2 ^ 64 ≤ offset.toNat + length.toNat) :
    buf.copyOut (offset - buf.offset) length = .error .outOfBounds := by
  obtain ⟨-, starts, ends⟩ := (holds.covers_iff offset length).mp hit
  have inside := holds.inside
  have bound := file.size_lt
  have index : (offset - buf.offset).toNat = offset.toNat - buf.offset.toNat :=
    UInt64.toNat_sub_of_le _ _ (UInt64.le_iff_toNat_le.mpr starts)
  rw [JournalBuf.copyOut, if_neg (by unfold JOURNAL_BUF_SIZE; omega)]

/-! ## One read -/

/-- The range lies in the file, and is no longer than an `int` can count. -/
def Readable (file : JournalFile) (offset length : UInt64) : Prop :=
  length.toNat < 2 ^ 31 ∧ offset.toNat + length.toNat ≤ file.size

instance (file : JournalFile) (offset length : UInt64) : Decidable (Readable file offset length) :=
  inferInstanceAs (Decidable (_ ∧ _))

/-- A read of the range, with no cache in between. -/
def plainRead (file : JournalFile) (offset length : UInt64) : Except Int (List UInt8) :=
  if Readable file offset length then .ok (file.slice offset.toNat length.toNat)
  else .error (-EINVAL)

/-- The number of bytes `journal_read` asks the kernel for. -/
def askedFor (length : UInt64) : UInt32 :=
  if length.toNat ≤ JOURNAL_BUF_SIZE then UInt32.ofNat JOURNAL_BUF_SIZE else length.toUInt32

/-- No buffer answers the request. -/
def GoesToKernel (journal : Journal) (offset length : UInt64) : Prop :=
  JOURNAL_BUF_SIZE < length.toNat ∨ journal.lookup offset length = none

/-- The request cannot be carried out, and this is the error it reports. -/
def ReadFails (kernel : Kernel) (cache : Cache) (offset length : UInt64) (code : Int) : Prop :=
  GoesToKernel cache.journal offset length ∧ (kernel.opNew cache.clock = false ∧ code = -ENOMEM ∨
    code < 0 ∧ code = (kernel.answer cache.clock offset (askedFor length)).result)

/-- A read has the outcome of a plain read, or reports why it could not be
carried out. -/
def ReadOutcome (kernel : Kernel) (file : JournalFile) (cache : Cache) (offset length : UInt64)
    (outcome : Except Int (List UInt8)) : Prop :=
  outcome = plainRead file offset length ∨
    ∃ code, outcome = .error code ∧ ReadFails kernel cache offset length code

/-- The kernel transfers enough for a plain read exactly when the range is in
the file, whatever it was asked for beyond the range. -/
theorem transferred_enough (file : JournalFile) (off : Nat) {n length : Nat} (fits : length ≤ n)
    (positive : 0 < length) : length ≤ min n (file.size - off) ↔ off + length ≤ file.size := by
  omega

/-- What fits a buffer is read if it is in the file. -/
theorem readable_iff_inside {file : JournalFile} {offset length : UInt64}
    (small : length.toNat ≤ JOURNAL_BUF_SIZE) :
    Readable file offset length ↔ offset.toNat + length.toNat ≤ file.size :=
  and_iff_right (lt_of_le_of_lt small (by decide))

/-- `buf_got_read` for a read into a buffer: the outcome is that of a plain
read, and what the buffer is tagged with is what it holds. -/
theorem bufGotRead_buffered {file : JournalFile} {journal : Journal} {op : ReadOp} {buf : BufId}
    {answer : KernelAnswer} (direct : Nat → UInt8) (target : op.buf = some buf)
    (coherent : Coherent file journal) (asked : op.nbytes.toNat = JOURNAL_BUF_SIZE)
    (small : op.length.toNat ≤ JOURNAL_BUF_SIZE) (positive : 0 < op.length.toNat)
    (serves : Serves file op.offset.toNat op.nbytes.toNat
      { answer with data := (journal.bufs buf).data }) :
    Coherent file (bufGotRead journal op answer.result direct).1 ∧
      (bufGotRead journal op answer.result direct).1.links = journal.links ∧
      ((bufGotRead journal op answer.result direct).2 = plainRead file op.offset op.length ∨
        answer.result < 0 ∧
          (bufGotRead journal op answer.result direct).2 = .error answer.result) := by
  obtain ⟨result, data, result_int⟩ := answer
  dsimp only at serves ⊢
  rw [bufGotRead]
  by_cases failed : result < 0
  · rw [if_pos failed]
    exact ⟨coherent, rfl, .inr ⟨failed, rfl⟩⟩
  rw [if_neg failed]
  obtain ⟨count, bytes⟩ := serves.resolve_left failed
  simp only [asked] at count bytes
  have enough := transferred_enough file op.offset.toNat small positive
  rw [← readable_iff_inside small] at enough
  by_cases short : result < op.length.toNat
  · rw [if_pos short]
    refine ⟨coherent, rfl, .inl ?_⟩
    rw [plainRead, if_neg]
    rw [← enough]
    omega
  rw [if_neg short, target]
  have length : (UInt64.ofNat result.toNat).toNat = result.toNat := by
    apply UInt64.toNat_ofNat_of_lt'
    unfold JOURNAL_BUF_SIZE at count
    exact lt_of_le_of_lt (by omega : result.toNat ≤ 8192) (by decide)
  refine ⟨?_, links_setBuf (fun _ => rfl) (fun _ => rfl), .inl ?_⟩
  · intro other valid
    by_cases same : other = buf
    · subst same
      simp only [Journal.setBuf, Function.update_self] at valid ⊢
      refine ⟨by simp only [length]; omega, by simp only [length]; omega, fun i low => ?_⟩
      simp only [length] at low
      exact bytes i (by omega)
    · simp only [Journal.setBuf, Function.update_of_ne same] at valid ⊢
      exact coherent other valid
  · rw [plainRead, if_pos (enough.mp (by omega)), JournalFile.slice]
    refine congrArg _ (bytesAt_congr fun i low => ?_)
    rw [Nat.zero_add]
    exact bytes i (by omega)

/-- `buf_got_read` writes to no buffer but its own. -/
theorem bufGotRead_frame {journal : Journal} {op : ReadOp} {buf other : BufId} (result : Int)
    (direct : Nat → UInt8) (target : op.buf = some buf) (apart : other ≠ buf) :
    (bufGotRead journal op result direct).1.bufs other = journal.bufs other := by
  rw [bufGotRead, target]
  split
  · rfl
  split
  · rfl
  · simp [Journal.setBuf, apart]

/-- As much as the length names is transferred exactly when the range can be read: what the
length loses when it is narrowed is never transferred. -/
theorem transferred_narrowed (file : JournalFile) (offset length : UInt64) {result : Int}
    (fits : IsInt result)
    (count : result = (min length.toUInt32.toNat (file.size - offset.toNat) : Nat))
    (positive : 0 < length.toNat) : length.toNat ≤ result ↔ Readable file offset length := by
  rw [UInt64.toNat_toUInt32] at count
  unfold IsInt at fits
  unfold Readable
  constructor
  · intro enough
    omega
  · rintro ⟨short, inside⟩
    omega

/-- `buf_got_read` for a read straight into `dest`. -/
theorem bufGotRead_direct {file : JournalFile} (journal : Journal) (op : ReadOp)
    {answer : KernelAnswer} (target : op.buf = none) (asked : op.nbytes = op.length.toUInt32)
    (positive : 0 < op.length.toNat)
    (serves : Serves file op.offset.toNat op.nbytes.toNat answer) :
    bufGotRead journal op answer.result answer.data = (journal,
      if answer.result < 0 then .error answer.result else plainRead file op.offset op.length) := by
  rw [bufGotRead]
  by_cases failed : answer.result < 0
  · rw [if_pos failed, if_pos failed]
  rw [if_neg failed, if_neg failed]
  obtain ⟨count, bytes⟩ := serves.resolve_left failed
  rw [asked] at count
  have enough := transferred_narrowed file op.offset op.length answer.result_int count positive
  by_cases short : answer.result < op.length.toNat
  · rw [if_pos short, plainRead, if_neg]
    rw [← enough]
    omega
  rw [if_neg short, target, plainRead, if_pos (enough.mp (by omega)), JournalFile.slice]
  refine congrArg (fun dest => (journal, Except.ok dest)) (bytesAt_congr fun i low => ?_)
  rw [Nat.zero_add]
  exact bytes i (by omega)

/-- What `journal_read` does with a request that fits a buffer, found in none of
them: it invalidates the least recently used one and queues a read into it. -/
theorem journalRead_miss {journal : Journal} {order : List BufId} {victim : BufId}
    {offset length : UInt64} (opNew : Bool) (listed : LruOrder journal order)
    (least : order.head? = some victim) (positive : 0 < length.toNat)
    (small : length.toNat ≤ JOURNAL_BUF_SIZE) (missed : journal.lookup offset length = none) :
    ∃ used, LruOrder used (touch order victim) ∧ SameContents journal used ∧
      journalRead journal opNew offset length =
        let invalidated := used.setBuf victim fun b => { b with valid := false }
        .ok (invalidated, if opNew then .queued
            { fixedFile := invalidated.idx, fixedBuf := some (invalidated.bufs victim).idx,
              nbytes := UInt32.ofNat JOURNAL_BUF_SIZE, offset, length, buf := some victim }
          else .failed (-ENOMEM)) := by
  obtain ⟨used, ok, listed', same⟩ := listed.used victim
  have head : journal.lruHead = some victim := listed.1.head.trans least
  have nonzero : length ≠ 0 := by rintro rfl; simp at positive
  refine ⟨used, listed', same, ?_⟩
  rw [journalRead, if_neg nonzero, if_pos small, missed, head]
  simp only [ok]
  cases opNew <;> rfl

/-- What `journal_read` does with a request that a buffer covers. -/
theorem journalRead_hit {journal : Journal} {order : List BufId} {buf : BufId}
    {offset length : UInt64} (opNew : Bool) (listed : LruOrder journal order)
    (positive : 0 < length.toNat) (small : length.toNat ≤ JOURNAL_BUF_SIZE)
    (found : journal.lookup offset length = some buf) :
    ∃ used, LruOrder used (touch order buf) ∧ SameContents journal used ∧
      journalRead journal opNew offset length =
        ((journal.bufs buf).copyOut (offset - (journal.bufs buf).offset) length).map
          fun dest => (used, .hit dest) := by
  obtain ⟨used, ok, listed', same⟩ := listed.used buf
  have nonzero : length ≠ 0 := by rintro rfl; simp at positive
  refine ⟨used, listed', same, ?_⟩
  have block := same.bufs buf
  simp only [JournalBuf.block, Block.mk.injEq] at block
  have copied : (used.bufs buf).copyOut (offset - (used.bufs buf).offset) length =
      (journal.bufs buf).copyOut (offset - (journal.bufs buf).offset) length := by
    simp only [JournalBuf.copyOut, block]
  rw [journalRead, if_neg nonzero, if_pos small, found]
  change (bufUsed journal buf >>= fun used => _) = _
  rw [ok]
  change ((used.bufs buf).copyOut (offset - (used.bufs buf).offset) length >>= fun dest => _) = _
  rw [copied]
  cases (journal.bufs buf).copyOut (offset - (journal.bufs buf).offset) length <;> rfl

/-- The cache after a miss, before the kernel has answered: what was coherent
stays so, because the victim is invalid. -/
theorem coherent_invalidated {file : JournalFile} {journal used : Journal} (victim : BufId)
    (coherent : Coherent file journal) (same : SameContents journal used) :
    Coherent file (used.setBuf victim fun b => { b with valid := false }) := by
  intro buf valid
  by_cases here : buf = victim
  · subst here; simp [Journal.setBuf] at valid
  · simp only [Journal.setBuf, Function.update_of_ne here] at valid ⊢
    exact same.coherent coherent buf valid

/-- Overwriting the data of an invalid buffer keeps the cache coherent. -/
theorem coherent_setData {file : JournalFile} {journal : Journal} {buf : BufId}
    (data : Nat → UInt8) (invalid : (journal.bufs buf).valid = false)
    (coherent : Coherent file journal) :
    Coherent file (journal.setBuf buf fun b => { b with data }) := by
  intro other valid
  by_cases here : other = buf
  · subst here; simp [Journal.setBuf, invalid] at valid
  · simp only [Journal.setBuf, Function.update_of_ne here] at valid ⊢
    exact coherent other valid

/-- The kernel's writes and `buf_got_read` together, for a read into a buffer
that was invalidated when it was queued. -/
theorem completion_buffered {file : JournalFile} {journal : Journal} (op : ReadOp) {buf : BufId}
    {answer : KernelAnswer} (target : op.buf = some buf)
    (invalid : (journal.bufs buf).valid = false) (coherent : Coherent file journal)
    (asked : op.nbytes.toNat = JOURNAL_BUF_SIZE) (small : op.length.toNat ≤ JOURNAL_BUF_SIZE)
    (positive : 0 < op.length.toNat)
    (serves : Serves file op.offset.toNat op.nbytes.toNat answer) :
    let finished := bufGotRead (journal.kernelWrites op answer.data) op answer.result answer.data
    Coherent file finished.1 ∧ finished.1.links = journal.links ∧
      (finished.2 = plainRead file op.offset op.length ∨
        answer.result < 0 ∧ finished.2 = .error answer.result) := by
  have writes : journal.kernelWrites op answer.data =
      journal.setBuf buf fun b => { b with data := answer.data } := by
    rw [Journal.kernelWrites, target]
  have links : (journal.kernelWrites op answer.data).links = journal.links := by
    rw [writes]
    exact links_setBuf (fun _ => rfl) (fun _ => rfl)
  have data : ((journal.kernelWrites op answer.data).bufs buf).data = answer.data := by
    simp [writes, Journal.setBuf]
  have written : Coherent file (journal.kernelWrites op answer.data) :=
    writes ▸ coherent_setData answer.data invalid coherent
  rw [← links]
  exact bufGotRead_buffered answer.data target written asked small positive
    (by rw [data]; exact serves)

/-- Some buffer is the least recently used one. -/
theorem LruOrder.least {journal : Journal} {order : List BufId} (listed : LruOrder journal order) :
    ∃ victim, order.head? = some victim := by
  cases order with
  | nil => exact absurd (listed.2 0) (by simp)
  | cons victim _ => exact ⟨victim, rfl⟩

/-- A request that fits a buffer and is found in none of them. -/
theorem cachedReader_miss {kernel : Kernel} {file : JournalFile} {cache : Cache}
    {offset length : UInt64} (serves : kernel.ServesFile file)
    (invariant : CacheInvariant file cache.journal) (positive : 0 < length.toNat)
    (small : length.toNat ≤ JOURNAL_BUF_SIZE)
    (missed : cache.journal.lookup offset length = none) :
    ∃ journal outcome,
      cachedReader kernel cache (offset, length) = .ok (⟨journal, cache.clock + 1⟩, outcome) ∧
      CacheInvariant file journal ∧
      ReadOutcome kernel file cache offset length outcome := by
  obtain ⟨order, listed⟩ := invariant.listed
  obtain ⟨victim, least⟩ := listed.least
  obtain ⟨used, listed', same, ran⟩ :=
    journalRead_miss (kernel.opNew cache.clock) listed least positive small missed
  have coherent := coherent_invalidated victim invariant.coherent same
  have invalid : ((used.setBuf victim fun b => { b with valid := false }).bufs victim).valid =
      false := by simp [Journal.setBuf]
  have listed'' : LruOrder (used.setBuf victim fun b => { b with valid := false }) _ :=
    listed'.setBuf (fun _ => rfl) (fun _ => rfl)
  generalize (used.setBuf victim fun b => { b with valid := false }) = journal at *
  cases opNew : kernel.opNew cache.clock with
  | false =>
    rw [opNew] at ran
    simp only [cachedReader, opNew, ran, Bool.false_eq_true, ↓reduceIte]
    exact ⟨journal, _, rfl, ⟨coherent, _, listed''⟩,
      .inr ⟨_, rfl, .inr missed, .inl ⟨opNew, rfl⟩⟩⟩
  | true =>
    rw [opNew] at ran
    simp only [cachedReader, opNew, ran, ↓reduceIte]
    obtain ⟨kept, links, outcome⟩ := completion_buffered
      (⟨journal.idx, some (journal.bufs victim).idx, UInt32.ofNat JOURNAL_BUF_SIZE, offset,
        length, some victim⟩) rfl invalid coherent
      (show (UInt32.ofNat JOURNAL_BUF_SIZE).toNat = JOURNAL_BUF_SIZE by decide) small positive
      (serves cache.clock offset _)
    refine ⟨_, _, rfl, ⟨kept, _, ⟨links ▸ listed''.1, listed''.2⟩⟩, ?_⟩
    rcases outcome with plain | ⟨negative, failed⟩
    · exact .inl plain
    · refine .inr ⟨_, failed, .inr missed, .inr ⟨negative, ?_⟩⟩
      rw [askedFor, if_pos small]

/-- A request that fits no buffer leaves them alone. -/
theorem cachedReader_direct {kernel : Kernel} {file : JournalFile} {cache : Cache}
    {offset length : UInt64} (serves : kernel.ServesFile file)
    (large : ¬ length.toNat ≤ JOURNAL_BUF_SIZE) :
    cachedReader kernel cache (offset, length) = .ok (⟨cache.journal, cache.clock + 1⟩,
      if kernel.opNew cache.clock = false then .error (-ENOMEM)
      else if (kernel.answer cache.clock offset length.toUInt32).result < 0 then
        .error (kernel.answer cache.clock offset length.toUInt32).result
      else plainRead file offset length) := by
  have positive : 0 < length.toNat := by omega
  have nonzero : length ≠ 0 := by rintro rfl; simp at positive
  cases opNew : kernel.opNew cache.clock with
  | false =>
    simp only [cachedReader, opNew, journalRead, if_neg nonzero, if_neg large, Bool.false_eq_true,
      ↓reduceIte]
  | true =>
    simp only [cachedReader, opNew, journalRead, if_neg nonzero, if_neg large, ↓reduceIte,
      Journal.kernelWrites, Bool.true_eq_false]
    rw [bufGotRead_direct cache.journal
      ⟨cache.journal.idx, none, length.toUInt32, offset, length, none⟩
      rfl rfl positive (serves cache.clock offset length.toUInt32)]

/-- It has the outcome of a plain read, or reports why it could not be carried out. -/
theorem readOutcome_direct {kernel : Kernel} {file : JournalFile} {cache : Cache}
    {offset length : UInt64} (serves : kernel.ServesFile file)
    (invariant : CacheInvariant file cache.journal) (large : ¬ length.toNat ≤ JOURNAL_BUF_SIZE) :
    ∃ journal outcome,
      cachedReader kernel cache (offset, length) = .ok (⟨journal, cache.clock + 1⟩, outcome) ∧
      CacheInvariant file journal ∧
      ReadOutcome kernel file cache offset length outcome := by
  refine ⟨_, _, cachedReader_direct serves large, invariant, ?_⟩
  have goes : GoesToKernel cache.journal offset length := .inl (not_le.mp large)
  by_cases missing : kernel.opNew cache.clock = false
  · rw [if_pos missing]
    exact .inr ⟨_, rfl, goes, .inl ⟨missing, rfl⟩⟩
  rw [if_neg missing]
  by_cases negative : (kernel.answer cache.clock offset length.toUInt32).result < 0
  · rw [if_pos negative]
    exact .inr ⟨_, rfl, goes, .inr ⟨negative, by rw [askedFor, if_neg large]⟩⟩
  · rw [if_neg negative]
    exact .inl rfl

/-- One read, whatever the cache holds and however the kernel answers, unless
the end of the range wraps around. -/
theorem cachedReader_spec {kernel : Kernel} {file : JournalFile} {cache : Cache}
    {offset length : UInt64} (serves : kernel.ServesFile file)
    (invariant : CacheInvariant file cache.journal) (positive : 0 < length.toNat)
    (straight : offset.toNat + length.toNat < 2 ^ 64) :
    ∃ journal outcome,
      cachedReader kernel cache (offset, length) = .ok (⟨journal, cache.clock + 1⟩, outcome) ∧
      CacheInvariant file journal ∧
      ReadOutcome kernel file cache offset length outcome := by
  by_cases small : length.toNat ≤ JOURNAL_BUF_SIZE
  · cases found : cache.journal.lookup offset length with
    | none => exact cachedReader_miss serves invariant positive small found
    | some buf =>
      obtain ⟨order, listed⟩ := invariant.listed
      obtain ⟨used, listed', same, ran⟩ :=
        journalRead_hit (kernel.opNew cache.clock) listed positive small found
      have hit := lookup_some found
      have valid := JournalBuf.valid_of_covers hit
      obtain ⟨copied, inside⟩ := (invariant.coherent buf valid).copyOut hit straight
      refine ⟨used, plainRead file offset length, ?_,
        ⟨same.coherent invariant.coherent, _, listed'⟩, .inl rfl⟩
      have readable := (readable_iff_inside small).mpr inside
      simp only [cachedReader, ran, copied, Except.map, plainRead, if_pos readable]
  · exact readOutcome_direct serves invariant small

/-- Whatever the range, a read that did not fault keeps the invariant and has the outcome of
a read without a cache. -/
theorem cachedReader_outcome {kernel : Kernel} {file : JournalFile} {cache cache' : Cache}
    {offset length : UInt64} {outcome : Except Int (List UInt8)} (serves : kernel.ServesFile file)
    (invariant : CacheInvariant file cache.journal) (positive : 0 < length.toNat)
    (ran : cachedReader kernel cache (offset, length) = .ok (cache', outcome)) :
    CacheInvariant file cache'.journal ∧ ReadOutcome kernel file cache offset length outcome := by
  have answered : ∃ journal outcome,
      cachedReader kernel cache (offset, length) = .ok (⟨journal, cache.clock + 1⟩, outcome) ∧
      CacheInvariant file journal ∧ ReadOutcome kernel file cache offset length outcome := by
    by_cases straight : offset.toNat + length.toNat < 2 ^ 64
    · exact cachedReader_spec serves invariant positive straight
    by_cases small : length.toNat ≤ JOURNAL_BUF_SIZE
    · cases found : cache.journal.lookup offset length with
      | none => exact cachedReader_miss serves invariant positive small found
      | some buf =>
        obtain ⟨order, listed⟩ := invariant.listed
        obtain ⟨used, -, -, read⟩ :=
          journalRead_hit (kernel.opNew cache.clock) listed positive small found
        have hit := lookup_some found
        have valid := JournalBuf.valid_of_covers hit
        have outside := (invariant.coherent buf valid).copyOut_wrapped hit (by omega)
        simp [cachedReader, read, outside, Except.map] at ran
    · exact readOutcome_direct serves invariant small
  obtain ⟨journal, outcome', ok, kept, answer⟩ := answered
  rw [ran, Except.ok.injEq, Prod.mk.injEq] at ok
  obtain ⟨rfl, rfl⟩ := ok
  exact ⟨kept, answer⟩

/-- Whatever the range, a read that did not fault keeps the invariant. -/
theorem cachedReader_invariant {kernel : Kernel} {file : JournalFile} {cache cache' : Cache}
    {offset length : UInt64} {outcome : Except Int (List UInt8)} (serves : kernel.ServesFile file)
    (invariant : CacheInvariant file cache.journal) (positive : 0 < length.toNat)
    (ran : cachedReader kernel cache (offset, length) = .ok (cache', outcome)) :
    CacheInvariant file cache'.journal :=
  (cachedReader_outcome serves invariant positive ran).1

end Jio
