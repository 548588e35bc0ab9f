import Mathlib.Logic.Function.Basic
import Jio.Library.LinkedOrder
import Jio.Library.ReadProgram
import Jio.JournalDef

/-! The per-journal read cache of `journals.c`: eight buffers of 8 KiB on a
least-recently-used list, `journal_read` in front of them, and `buf_got_read`
when the kernel is done. Everything here is translated from the source; the
kernel and `iou_op_new` are the parameters `Kernel` collects. -/
namespace Jio
open LinkedOrder ReadProgram

/-! ## Files and the kernel -/

/-- A journal file. Its size is an `off_t`. -/
structure JournalFile where
  size : Nat
  byte : Nat → UInt8
  size_lt : size < 2 ^ 63

/-- `length` bytes of a memory area or file from `off` on. -/
def bytesAt (data : Nat → UInt8) (off length : Nat) : List UInt8 :=
  (List.range length).map fun i => data (off + i)

/-- `file[off, off + length)`. -/
def JournalFile.slice (file : JournalFile) (off length : Nat) : List UInt8 :=
  bytesAt file.byte off length

/-- What an `int` can say. -/
def IsInt (r : Int) : Prop := -2 ^ 31 ≤ r ∧ r < 2 ^ 31

/-- What the kernel leaves behind for a read: `op->result`, which is an `int`, and the
memory the read was directed at. -/
structure KernelAnswer where
  result : Int
  data : Nat → UInt8
  result_int : IsInt result

/-- A read of `n` bytes either fails, or transfers what the file has of them; more than
an `int` can count is never transferred. Memory past the bytes transferred, and all of it
after a failure, is arbitrary. -/
def Serves (file : JournalFile) (off n : Nat) (answer : KernelAnswer) : Prop :=
  answer.result < 0 ∨
    answer.result = (min n (file.size - off) : Nat) ∧
      ∀ i : Nat, (i : Int) < answer.result → answer.data i = file.byte (off + i)

/-- The surroundings of a journal: whether `iou_op_new` yields an operation,
and what the kernel answers, at the `t`-th call of `journal_read`. It is asked for an
`unsigned` number of bytes. -/
structure Kernel where
  opNew : Nat → Bool
  answer : Nat → UInt64 → UInt32 → KernelAnswer

/-- Every answer is one the kernel may give for this file. An offset of `2^64 - 1`, with
which the ring means the position of the file, is taken for an offset like the others. -/
def Kernel.ServesFile (kernel : Kernel) (file : JournalFile) : Prop :=
  ∀ t off n, Serves file off.toNat n.toNat (kernel.answer t off n)

/-- No operation is missing, and no read of as much as an `int` can count reports an
error. -/
def Kernel.Reliable (kernel : Kernel) : Prop :=
  ∀ t off n, kernel.opNew t = true ∧ (n.toNat < 2 ^ 31 → 0 ≤ (kernel.answer t off n).result)

/-! ## The cache -/

/-- `JOURNAL_BUF_SIZE`. -/
def JOURNAL_BUF_SIZE : Nat := 8192

/-- `JOURNAL_BUF_CNT`. -/
abbrev JOURNAL_BUF_CNT : Nat := 8

/-- A pointer into `_journal_t.bufs`. -/
abbrev BufId := Fin JOURNAL_BUF_CNT

/-- `journal_buf_t`. Of `data`, the first `JOURNAL_BUF_SIZE` bytes exist. -/
structure JournalBuf where
  lruPrev : Option BufId
  lruNext : Option BufId
  offset : UInt64
  length : UInt64
  valid : Bool
  idx : Int
  data : Nat → UInt8

/-- `_journal_t`, with `journal_t`'s fields first. -/
structure Journal where
  name : String
  fd : Int
  idx : Int
  lruHead : Option BufId
  lruTail : Option BufId
  bufs : BufId → JournalBuf

/-- Assign to fields of one buffer. -/
def Journal.setBuf (journal : Journal) (buf : BufId) (assign : JournalBuf → JournalBuf) : Journal :=
  { journal with bufs := Function.update journal.bufs buf (assign (journal.bufs buf)) }

/-- `buf->lru_next = link`. -/
def Journal.setNext (journal : Journal) (buf : BufId) (link : Option BufId) : Journal :=
  journal.setBuf buf fun b => { b with lruNext := link }

/-- `buf->lru_prev = link`. -/
def Journal.setPrev (journal : Journal) (buf : BufId) (link : Option BufId) : Journal :=
  journal.setBuf buf fun b => { b with lruPrev := link }

/-- The first assignment of `buf_used`: what points at `buf` from the front is
made to point past it. -/
def Journal.bypass (journal : Journal) (buf : BufId) : Journal :=
  match (journal.bufs buf).lruPrev with
  | some prev => journal.setNext prev (journal.bufs buf).lruNext
  | none => { journal with lruHead := (journal.bufs buf).lruNext }

/-- `buf_used`: bump `buf` to the tail of the list. -/
def bufUsed (journal : Journal) (buf : BufId) : Except Fault Journal :=
  if journal.lruTail = some buf then .ok journal
  else
    let journal := journal.bypass buf
    match (journal.bufs buf).lruNext, journal.lruTail with
    | some next, some tail =>
      let journal := journal.setPrev next (journal.bufs buf).lruPrev
      let journal := journal.setNext buf none
      let journal := journal.setNext tail (some buf)
      let journal := journal.setPrev buf (some tail)
      .ok { journal with lruTail := some buf }
    | _, _ => .error .nullDeref

/-- A read in flight: what was prepared in the `sqe`, and the arguments of the
`buf_got_read` closure queued with it. `nbytes` is `unsigned`, as `io_uring_prep_read`
takes it. File and memory are numbers of the ring, which `Ring.Carries` looks up. -/
structure ReadOp where
  fixedFile : Int
  fixedBuf : Option Int
  nbytes : UInt32
  offset : UInt64
  length : UInt64
  buf : Option BufId
  deriving DecidableEq

/-- How `journal_read` leaves off: `dest` filled from a buffer and the closure
dispatched, an operation queued, or an error returned. -/
inductive Submitted where
  | hit (dest : List UInt8)
  | queued (op : ReadOp)
  | failed (code : Int)
  deriving DecidableEq

/-- `memcpy(dest, &buf->data[index], length)`. -/
def JournalBuf.copyOut (buf : JournalBuf) (index length : UInt64) : Except Fault (List UInt8) :=
  if index.toNat + length.toNat ≤ JOURNAL_BUF_SIZE then
    .ok (bytesAt buf.data index.toNat length.toNat)
  else .error .outOfBounds

/-- The hit test of `journal_read`, in the 64-bit arithmetic it is written in. -/
def JournalBuf.covers (buf : JournalBuf) (offset length : UInt64) : Bool :=
  buf.valid && buf.offset ≤ offset && offset + length ≤ buf.offset + buf.length

/-- The first buffer that passes the hit test. -/
def Journal.lookup (journal : Journal) (offset length : UInt64) : Option BufId :=
  (List.finRange JOURNAL_BUF_CNT).find? fun buf => (journal.bufs buf).covers offset length

/-- `journal_read`. `opNew` is whether `iou_op_new` yields an operation. -/
def journalRead (journal : Journal) (opNew : Bool) (offset length : UInt64) :
    Except Fault (Journal × Submitted) :=
  if length = 0 then .error .assertion
  else if length.toNat ≤ JOURNAL_BUF_SIZE then
    -- small enough to fit, look in the buffers
    match journal.lookup offset length with
    | some buf => do
      let used ← bufUsed journal buf
      let dest ← (used.bufs buf).copyOut (offset - (used.bufs buf).offset) length
      return (used, .hit dest)
    | none =>
      match journal.lruHead with
      | none => .error .assertion
      | some buf => do
        let used ← bufUsed journal buf
        let journal := used.setBuf buf fun b => { b with valid := false }
        if opNew then
          return (journal, .queued
            { fixedFile := journal.idx, fixedBuf := some (journal.bufs buf).idx,
              nbytes := UInt32.ofNat JOURNAL_BUF_SIZE, offset, length, buf := some buf })
        else return (journal, .failed (-ENOMEM))
  else if opNew then
    -- doesn't fit, the kernel reads straight into dest; the length loses its upper half
    .ok (journal, .queued
      { fixedFile := journal.idx, fixedBuf := none, nbytes := length.toUInt32, offset, length,
        buf := none })
  else .ok (journal, .failed (-ENOMEM))

/-- `buf_got_read`. The result is what `dest` holds when the closure is
dispatched, or the error returned; `direct` is what the kernel wrote to `dest`
itself when there is no buffer. -/
def bufGotRead (journal : Journal) (op : ReadOp) (result : Int) (direct : Nat → UInt8) :
    Journal × Except Int (List UInt8) :=
  if result < 0 then (journal, .error result)
  else if result < op.length.toNat then (journal, .error (-EINVAL))
  else match op.buf with
    | some buf =>
      (journal.setBuf buf fun b =>
        { b with length := UInt64.ofNat result.toNat, offset := op.offset, valid := true },
        .ok (bytesAt (journal.bufs buf).data 0 op.length.toNat))
    | none => (journal, .ok (bytesAt direct 0 op.length.toNat))

/-- The memory a read is directed at, as the kernel leaves it. -/
def Journal.kernelWrites (journal : Journal) (op : ReadOp) (data : Nat → UInt8) : Journal :=
  match op.buf with
  | some buf => journal.setBuf buf fun b => { b with data }
  | none => journal

/-! ## One read after the other -/

/-- A journal whose reads are each issued after the previous one finished. -/
structure Cache where
  journal : Journal
  clock : Nat

/-- One call of `journal_read` together with its completion: the closure is
dispatched with `dest`, or a negative result comes back. -/
def cachedReader (kernel : Kernel) : Reader (UInt64 × UInt64) (List UInt8) Int Fault Cache :=
  fun cache (offset, length) =>
    match journalRead cache.journal (kernel.opNew cache.clock) offset length with
    | .error fault => .error fault
    | .ok (journal, .hit dest) => .ok (⟨journal, cache.clock + 1⟩, .ok dest)
    | .ok (journal, .failed code) => .ok (⟨journal, cache.clock + 1⟩, .error code)
    | .ok (journal, .queued op) =>
      let answer := kernel.answer cache.clock op.offset op.nbytes
      let (journal, outcome) :=
        bufGotRead (journal.kernelWrites op answer.data) op answer.result answer.data
      .ok (⟨journal, cache.clock + 1⟩, outcome)

/-! ## A fresh journal -/

/-- A buffer as `calloc` leaves it. -/
def zeroedBuf : JournalBuf where
  lruPrev := none
  lruNext := none
  offset := 0
  length := 0
  valid := false
  idx := 0
  data := fun _ => 0

/-- A slot of `journals->journals` before its open completes. -/
def unopenedJournal (name : String) : Journal where
  name := name
  fd := 0
  idx := 0
  lruHead := none
  lruTail := none
  bufs := fun _ => zeroedBuf

/-- One turn of the loop in `opened_journal` that sets up the list. -/
def linkBuf (journal : Journal) (buf : BufId) : Except Fault Journal :=
  match journal.lruTail with
  | none => .error .nullDeref
  | some tail =>
    let journal := journal.setNext tail (some buf)
    let journal := journal.setPrev buf (some tail)
    .ok { journal with lruTail := some buf }

/-- What `opened_journal` does to the journal whose open succeeded. -/
def openedJournal (journal : Journal) (fd : Int) : Except Fault Journal := do
  let first := { journal with lruHead := some (0 : BufId), lruTail := some 0 }
  let linked ← ((List.finRange JOURNAL_BUF_CNT).drop 1).foldlM linkBuf first
  return { linked with fd := fd }

/-- What `opened_journal` does to the `i`-th journal once all have been opened. -/
def registeredJournal (journal : Journal) (i : Nat) : Journal :=
  { journal with
    idx := i
    bufs := fun buf => { journal.bufs buf with idx := i * JOURNAL_BUF_CNT + buf } }

/-- The state `opened_journal` sets up for the `i`-th journal. -/
def freshJournal (name : String) (fd : Int) (i : Nat) : Except Fault Journal := do
  let journal ← openedJournal (unopenedJournal name) fd
  return registeredJournal journal i

end Jio
