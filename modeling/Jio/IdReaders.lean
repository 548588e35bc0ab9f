import Mathlib.Data.Vector.Basic
import Jio.JournalDef
import Jio.Library.TerminatedString

/-! The machine id and the boot id. Both are read into a buffer of 4096 bytes and both
readers overwrite the last byte that was read, taking it for a newline; the boot id then
loses its hyphens in place. -/
namespace Jio.IdReaders
open TerminatedString

/-! ## The readers -/

/-- `'\n'`. -/
def newline : UInt8 := 10

/-- `'-'`. -/
def hyphen : UInt8 := 45

/-- What `machid_get` and `bootid_get` allocate: the buffer, and its size or how much of it
was read. -/
structure IdCells where
  buf : Vector UInt8 4096
  len : UInt64

/-- How a reader leaves off: with a result, or with the id at `*res_ptr` and its closure
dispatched. -/
inductive IdRead where
  | returned (r : Int)
  | dispatched (res : List UInt8)
  deriving DecidableEq

variable {n : Nat}

/-- `str[i] = c`. -/
def assign (mem : Vector UInt8 n) (i : Nat) (c : UInt8) : Except Fault (Vector UInt8 n) :=
  match store mem i c with
  | some mem => .ok mem
  | none => .error .outOfBounds

/-- `strdup`. -/
def strdup (malloc : Bool) (mem : Vector UInt8 n) : Except Fault (Option (List UInt8)) :=
  match load 0 mem 0 with
  | some s => .ok (if malloc then some s else none)
  | none => .error .outOfBounds

/-- The loop of `dehyphen`, and the assignment behind it. -/
def dehyphenFrom (mem : Vector UInt8 n) (str dest : Nat) : Except Fault (Vector UInt8 n) :=
  if inside : str < n then
    if mem[str] = 0 then assign mem dest 0
    else if mem[str] = hyphen then dehyphenFrom mem (str + 1) dest
    else do
      let mem ← assign mem dest mem[str]
      dehyphenFrom mem (str + 1) (dest + 1)
  else .error .outOfBounds
termination_by n - str

/-- `dehyphen`. -/
def dehyphen (mem : Vector UInt8 n) : Except Fault (Vector UInt8 n) := dehyphenFrom mem 0 0

/-- `read_done`, once the kernel has filled the buffer. -/
def readDone (result : Int) (cells : IdCells) (closure : IdCells → Except Fault IdRead) :
    Except Fault IdRead :=
  if result < 0 then .ok (.returned result)
  else closure { cells with len := UInt64.ofNat result.toNat }

/-- `have_machid`. -/
def haveMachid (malloc : Bool) (cells : IdCells) : Except Fault IdRead := do
  let buf ← assign cells.buf (cells.len - 1).toNat 0
  match ← strdup malloc buf with
  | some res => return .dispatched res
  | none => return .returned (-ENOMEM)

/-- `have_bootid`. -/
def haveBootid (malloc : Bool) (cells : IdCells) : Except Fault IdRead := do
  let buf ← assign cells.buf (cells.len - 1).toNat 0
  let buf ← dehyphen buf
  match ← strdup malloc buf with
  | some res => return .dispatched res
  | none => return .returned (-ENOMEM)

/-! ## In-place compaction -/

section Compaction

variable {mem : Vector UInt8 n} {kept gap s rest : List UInt8} {str dest : Nat}

/-- An assignment in front of what was not looked at yet: it closes the gap, or moves it
one place on. -/
theorem assign_kept (behind : str = kept.length + gap.length) (at_end : dest = kept.length)
    {old : UInt8} {after : List UInt8} (shape : mem.toList = kept ++ (gap ++ old :: after))
    (c : UInt8) : ∃ mem' left, assign mem dest c = .ok mem' ∧ left.length = gap.length ∧
      mem'.toList = kept ++ c :: (left ++ after) := by
  subst at_end
  unfold assign
  cases gap with
  | nil =>
    obtain ⟨mem', ran, stored⟩ := store_at (by simpa using shape) c
    exact ⟨mem', [], by rw [ran], rfl, by simpa using stored⟩
  | cons g gap =>
    obtain ⟨mem', ran, stored⟩ := store_at (by simpa using shape) c
    exact ⟨mem', gap ++ [old], by rw [ran], by simp, by simpa using stored⟩

/-- `dest` stands behind what was kept, and `str` in front of what is left of the string;
between them is a gap as long as what was dropped. -/
theorem dehyphenFrom_spec (clean : 0 ∉ s) (behind : str = kept.length + gap.length)
    (at_end : dest = kept.length) (shape : mem.toList = kept ++ (gap ++ (s ++ 0 :: rest))) :
    ∃ mem' left, dehyphenFrom mem str dest = .ok mem' ∧
      mem'.toList = kept ++ (s.filter (· ≠ hyphen) ++ 0 :: (left ++ rest)) := by
  induction s generalizing mem kept gap str dest with
  | nil =>
    obtain ⟨mem', left, ran, -, stored⟩ := assign_kept behind at_end shape 0
    obtain ⟨inside, here⟩ := get_at
      (show mem.toList = (kept ++ gap) ++ 0 :: rest by simpa using shape)
    rw [List.length_append, ← behind] at inside
    simp only [List.length_append, ← behind] at here
    refine ⟨mem', left, ?_, stored⟩
    rw [dehyphenFrom, dif_pos inside, if_pos here, ran]
  | cons c s ih =>
    obtain ⟨nonzero, clean⟩ := not_or.mp (List.mem_cons.not.mp clean)
    obtain ⟨inside, here⟩ := get_at
      (show mem.toList = (kept ++ gap) ++ c :: (s ++ 0 :: rest) by simpa using shape)
    rw [List.length_append, ← behind] at inside
    simp only [List.length_append, ← behind] at here
    rw [dehyphenFrom, dif_pos inside, here, if_neg (Ne.symm nonzero)]
    by_cases dropped : c = hyphen
    · rw [if_pos dropped]
      obtain ⟨mem', left, ran, moved⟩ := @ih mem kept (gap ++ [c]) (str + 1) dest clean
        (by simp [behind, Nat.add_assoc]) at_end (by simp [shape])
      exact ⟨mem', left, ran, by simpa [dropped] using moved⟩
    · rw [if_neg dropped]
      obtain ⟨next, gap', ran, same, stored⟩ := assign_kept behind at_end shape c
      obtain ⟨mem', left, rest, moved⟩ := @ih next (kept ++ [c]) gap' (str + 1) (dest + 1) clean
        (by simp [behind, same, Nat.add_right_comm]) (by simp [at_end]) (by simpa using stored)
      refine ⟨mem', left, ?_, by simpa [dropped] using moved⟩
      rw [ran]
      exact rest

/-- The string loses its hyphens, and nothing changes behind its terminator. -/
theorem dehyphen_spec (holds : HoldsString 0 mem [] s rest) :
    ∃ mem' left, dehyphen mem = .ok mem' ∧
      HoldsString 0 mem' [] (s.filter (· ≠ hyphen)) (left ++ rest) := by
  obtain ⟨mem', left, ran, stored⟩ := @dehyphenFrom_spec _ mem [] [] s rest 0 0 holds.clean rfl rfl
    (by simpa using holds.shape)
  refine ⟨mem', left, ran, ?_, by simpa using stored⟩
  intro member
  exact holds.clean (List.mem_of_mem_filter member)

end Compaction

/-! ## What is returned -/

section Contents

variable {content : List UInt8} {cells : IdCells}

theorem delivered_length (delivered : content <+: cells.buf.toList) : content.length ≤ 4096 := by
  simpa using delivered.length_le

/-- The last byte that was read becomes the terminator, whatever it is. -/
theorem assign_last (clean : 0 ∉ content) (delivered : content <+: cells.buf.toList)
    (some : content ≠ []) : ∃ buf rest,
      assign cells.buf (UInt64.ofNat (content.length : Int).toNat - 1).toNat 0 = .ok buf ∧
        HoldsString 0 buf [] content.dropLast rest := by
  have bound : content.length < UInt64.size :=
    lt_of_le_of_lt (delivered_length delivered) (by decide)
  have positive := List.length_pos_of_ne_nil some
  have place : (UInt64.ofNat (content.length : Int).toNat - 1).toNat = content.dropLast.length := by
    rw [Int.toNat_natCast, UInt64.toNat_sub_of_le, UInt64.toNat_ofNat_of_lt' bound,
      List.length_dropLast]
    · rfl
    · rw [UInt64.le_iff_toNat_le, UInt64.toNat_ofNat_of_lt' bound]
      exact positive
  obtain ⟨rest, shape⟩ := delivered
  rw [← List.dropLast_append_getLast some, List.append_assoc] at shape
  obtain ⟨buf, ran, stored⟩ := store_at shape.symm 0
  refine ⟨buf, rest, ?_, ?_, stored⟩
  · unfold assign
    rw [place, ran]
  · intro member
    exact clean (List.dropLast_subset _ member)

/-- Of nothing, the byte in front of the buffer would be the last. -/
theorem assign_last_nil (c : UInt8) :
    assign cells.buf (UInt64.ofNat (([] : List UInt8).length : Int).toNat - 1).toNat c =
      .error .outOfBounds := by
  unfold assign
  rw [store_outside (by decide)]

theorem haveMachid_eq (clean : 0 ∉ content) (delivered : content <+: cells.buf.toList) :
    readDone content.length cells (haveMachid true) =
      if content = [] then .error .outOfBounds else .ok (.dispatched content.dropLast) := by
  have read : ¬(content.length : Int) < 0 := by omega
  rw [readDone, if_neg read]
  unfold haveMachid
  split
  · rename_i none
    subst none
    rw [assign_last_nil]
    rfl
  · rename_i some
    obtain ⟨buf, rest, ran, holds⟩ := assign_last clean delivered some
    have loaded : strdup true buf = .ok (.some content.dropLast) := by
      unfold strdup
      rw [show load 0 buf 0 = _ from holds.load]
      rfl
    rw [ran, bind_ok, loaded]
    rfl

theorem haveBootid_eq (clean : 0 ∉ content) (delivered : content <+: cells.buf.toList) :
    readDone content.length cells (haveBootid true) =
      if content = [] then .error .outOfBounds
      else .ok (.dispatched (content.dropLast.filter (· ≠ hyphen))) := by
  have read : ¬(content.length : Int) < 0 := by omega
  rw [readDone, if_neg read]
  unfold haveBootid
  split
  · rename_i none
    subst none
    rw [assign_last_nil]
    rfl
  · rename_i some
    obtain ⟨buf, rest, ran, holds⟩ := assign_last clean delivered some
    obtain ⟨buf', left, compacted, holds'⟩ := dehyphen_spec holds
    have loaded : strdup true buf' = .ok (.some (content.dropLast.filter (· ≠ hyphen))) := by
      unfold strdup
      rw [show load 0 buf' 0 = _ from holds'.load]
      rfl
    rw [ran, bind_ok, compacted, bind_ok, loaded]
    rfl

/-- The content without the newline at its end, if there is one. -/
def withoutNewline (content : List UInt8) : List UInt8 :=
  if content.getLast? = some newline then content.dropLast else content

/-- Machine ids are right for the contents that end with a newline, boot ids for those that
end with a newline or with a hyphen; and in any block, a string loses its hyphens, in
place, and nothing else. -/
theorem ids_are_right_iff (clean : 0 ∉ content) (delivered : content <+: cells.buf.toList) :
    (readDone content.length cells (haveMachid true) = .ok (.dispatched (withoutNewline content)) ↔
      content.getLast? = some newline) ∧
    (readDone content.length cells (haveBootid true) =
        .ok (.dispatched ((withoutNewline content).filter (· ≠ hyphen))) ↔
      content.getLast? = some newline ∨ content.getLast? = some hyphen) ∧
    ∀ (size : Nat) (mem : Vector UInt8 size) (s rest : List UInt8), HoldsString 0 mem [] s rest →
      ∃ mem' left, dehyphen mem = .ok mem' ∧
        HoldsString 0 mem' [] (s.filter (· ≠ hyphen)) (left ++ rest) := by
  refine ⟨?_, ?_, fun size mem s rest holds => dehyphen_spec holds⟩
  · rw [haveMachid_eq clean delivered]
    unfold withoutNewline
    obtain rfl | ⟨init, last, rfl⟩ := List.eq_nil_or_concat' content
    · simp
    · by_cases ended : last = newline <;> simp [ended]
  · rw [haveBootid_eq clean delivered]
    unfold withoutNewline
    obtain rfl | ⟨init, last, rfl⟩ := List.eq_nil_or_concat' content
    · simp
    · by_cases ended : last = newline
      · simp [ended]
      · have apart : hyphen ≠ newline := by decide
        by_cases dropped : last = hyphen <;> simp [ended, dropped, apart]

end Contents

/-- A buffer that starts with these bytes. -/
def filled (content : List UInt8) : IdCells where
  buf := .ofFn fun i => content.getD i 0
  len := 4096

theorem filled_delivered (content : List UInt8) (fits : content.length ≤ 4096) :
    content <+: (filled content).buf.toList := by
  rw [List.prefix_iff_getElem?]
  intro i inside
  have below : i < 4096 := by omega
  simp [filled, below, inside]

/-- The machine id of a file with this content. -/
def machidOf (content : List UInt8) : Except Fault IdRead :=
  readDone content.length (filled content) (haveMachid true)

/-- The boot id of a file with this content. -/
def bootidOf (content : List UInt8) : Except Fault IdRead :=
  readDone content.length (filled content) (haveBootid true)

/-- Of an empty file, both readers write in front of the buffer; and without a newline, both
lose the last digit of an id. -/
theorem digits_are_lost :
    machidOf [] = .error .outOfBounds ∧ bootidOf [] = .error .outOfBounds ∧
      machidOf [50, 102] = .ok (.dispatched [50]) ∧ withoutNewline [50, 102] = [50, 102] ∧
      bootidOf [50, 45, 102] = .ok (.dispatched [50]) ∧
      (withoutNewline [50, 45, 102]).filter (· ≠ hyphen) = [50, 102] := by
  have none : [] <+: (filled []).buf.toList := List.nil_prefix
  have two := filled_delivered [50, 102] (by decide)
  have three := filled_delivered [50, 45, 102] (by decide)
  refine ⟨(haveMachid_eq (by decide) none).trans (if_pos rfl),
    (haveBootid_eq (by decide) none).trans (if_pos rfl),
    (haveMachid_eq (by decide) two).trans (if_neg (by decide)), by decide,
    (haveBootid_eq (by decide) three).trans (if_neg (by decide)), by decide⟩

theorem ids_are_right_iff_short :
    (machidOf [102, 10] = .ok (.dispatched (withoutNewline [102, 10])) ↔
      [102, 10].getLast? = some newline) ∧
    (bootidOf [102, 10] = .ok (.dispatched ((withoutNewline [102, 10]).filter (· ≠ hyphen))) ↔
      [102, 10].getLast? = some newline ∨ [102, 10].getLast? = some hyphen) ∧
    ∀ (size : Nat) (mem : Vector UInt8 size) (s rest : List UInt8), HoldsString 0 mem [] s rest →
      ∃ mem' left, dehyphen mem = .ok mem' ∧
        HoldsString 0 mem' [] (s.filter (· ≠ hyphen)) (left ++ rest) :=
  ids_are_right_iff (by decide) (filled_delivered _ (by decide))

end Jio.IdReaders
