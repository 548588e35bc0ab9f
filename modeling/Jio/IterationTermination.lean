import Jio.ObjectIteration

/-! When a pass of `journal_iter_next_object` ends. Its next position is a 64-bit
sum of two values taken from the file, so a pass climbs through the file, and
therefore ends, exactly when no object it comes to reaches past `2 ^ 64`. -/
namespace Jio
open ByteOrder ReadProgram

/-- A reader that returns the file's bytes, or fails when it is told to. Its
state counts the reads. -/
def failingReader (file : JournalFile) (fails : Nat → Option Int) (t : Nat)
    (request : UInt64 × UInt64) : Except Fault (Nat × Except Int (List UInt8)) :=
  match fails t with
  | some code => .ok (t + 1, .error code)
  | none => .ok (t + 1, plainRead file request.1 request.2)

/-- Positions other than the end only climb. -/
def Climbs (trace : List (Iteration Unit)) : Prop :=
  ((trace.map Iteration.iterOffset).filter (· ≠ 0)).Pairwise (· < ·)

/-- Whatever reads fail, a pass climbs, and ends after finitely many dispatches. -/
def PassEnds (file : JournalFile) (header : Header) : Prop :=
  ∀ (host : Endian) (fails : Nat → Option Int) (cells : Iteration Unit), cells.iterOffset = 0 →
    (∀ fuel t trace ended, loop (failingReader file fails) (journalIterNextObject host header)
        Iteration.ended fuel 0 cells = .ok (t, trace, ended) → Climbs trace) ∧
      ∃ fuel t trace ended, loop (failingReader file fails) (journalIterNextObject host header)
        Iteration.ended fuel 0 cells = .ok (t, trace, ended) ∧ ended ≠ .running

/-- The positions up to the tail object that the sizes in the file lead to from
the first object, added up without wrapping around. -/
inductive Walked (file : JournalFile) (header : Header) : Nat → Prop
  | first (positive : 0 < header.headerSize.toNat)
      (low : header.headerSize.toNat ≤ header.tailObjectOffset.toNat) :
      Walked file header header.headerSize.toNat
  | next {p : Nat} (walked : Walked file header p) (inside : p + 16 ≤ file.size)
      (sized : (file.objectHeader p).size ≠ 0)
      (low : p + roundUp8 (file.objectHeader p).size.toNat ≤ header.tailObjectOffset.toNat) :
      Walked file header (p + roundUp8 (file.objectHeader p).size.toNat)

/-- No object on the walk reaches past `2 ^ 64`. -/
def StaysBelowWrap (file : JournalFile) (header : Header) : Prop :=
  ∀ p, Walked file header p → p + 16 ≤ file.size →
    p + roundUp8 (file.objectHeader p).size.toNat ≤ 2 ^ 64

theorem Walked.low {file : JournalFile} {header : Header} {p : Nat}
    (walked : Walked file header p) : p ≤ header.tailObjectOffset.toNat := by
  cases walked <;> assumption

theorem Walked.positive {file : JournalFile} {header : Header} {p : Nat}
    (walked : Walked file header p) : 0 < p := by
  induction walked with
  | first positive _ => exact positive
  | next _ _ _ _ ih => omega

/-- The cells at the start of a pass, or at an object the walk comes to. -/
inductive OnWalk (file : JournalFile) (header : Header) : Iteration Unit → Prop
  | start {cells : Iteration Unit} (restarts : cells.iterOffset = 0) : OnWalk file header cells
  | object {cells : Iteration Unit} (walked : Walked file header cells.iterOffset.toNat)
      (inside : cells.iterOffset.toNat + 16 ≤ file.size)
      (held : cells.iterObjectHeader = file.objectHeader cells.iterOffset.toNat) :
      OnWalk file header cells

section Steps

variable {file : JournalFile} {header : Header} {cells : Iteration Unit}

/-- Where sums do not wrap around, the next position is the end, past the tail
object, or further up the walk. -/
theorem OnWalk.advance (onWalk : OnWalk file header cells) (below : StaysBelowWrap file header) :
    cells.advance header = 0 ∨ header.tailObjectOffset < cells.advance header ∨
      Walked file header (cells.advance header).toNat ∧
        cells.iterOffset < cells.advance header := by
  simp only [UInt64.lt_iff_toNat_lt]
  by_cases zero : cells.advance header = 0
  · exact .inl zero
  by_cases past : header.tailObjectOffset.toNat < (cells.advance header).toNat
  · exact .inr (.inl past)
  have positive : 0 < (cells.advance header).toNat := by
    rw [Nat.pos_iff_ne_zero]
    exact fun none => zero (UInt64.toNat_inj.mp none)
  refine .inr (.inr ?_)
  cases onWalk with
  | start restarts =>
    rw [Iteration.advance, if_pos restarts] at positive past ⊢
    exact ⟨.first positive (by omega), by rw [restarts]; exact positive⟩
  | object walked inside held =>
    have nonzero : cells.iterOffset ≠ 0 := by
      intro zero
      have := walked.positive
      simp [zero] at this
    by_cases sized : cells.iterObjectHeader.size = 0
    · -- a zero-sized object leads past the tail object, or to the end
      rw [Iteration.advance, if_neg nonzero, if_neg (not_not.mpr sized), UInt64.toNat_add] at positive past
      have one : (1 : UInt64).toNat = 1 := rfl
      have bound := header.tailObjectOffset.toNat_lt
      omega
    · have limit := below _ walked inside
      rw [Iteration.advance, if_neg nonzero, if_pos sized, add_align64_toNat] at positive past ⊢
      rw [held] at sized positive past ⊢
      have grows := roundUp8_pos (n := (file.objectHeader cells.iterOffset.toNat).size.toNat)
        (Nat.pos_iff_ne_zero.mpr fun none => sized (UInt64.toNat_inj.mp none))
      have straight : cells.iterOffset.toNat +
          roundUp8 (file.objectHeader cells.iterOffset.toNat).size.toNat < 2 ^ 64 := by
        by_contra wraps
        rw [Nat.le_antisymm limit (not_lt.mp wraps), Nat.mod_self] at positive
        exact absurd positive (lt_irrefl 0)
      rw [Nat.mod_eq_of_lt straight] at past ⊢
      exact ⟨walked.next inside sized (by omega), by omega⟩

/-- A read that is not told to fail gets the object at the next position. -/
theorem failingReader_reads (host : Endian) (fails : Nat → Option Int) (t : Nat)
    (works : fails t = none) (straight : ¬ header.tailObjectOffset < cells.advance header)
    (inside : (cells.advance header).toNat + 16 ≤ file.size) :
    Dispatches (failingReader file fails) (journalIterNextObject host header) (t, cells)
      (t + 1, { cells with
        iterOffset := cells.advance header
        iterObjectHeader := file.objectHeader (cells.advance header).toNat }) := by
  have size : sizeofObjectHeader.toNat = 16 := rfl
  have width : (file.slice (cells.advance header).toNat 16).length = 16 := bytesAt_length ..
  rw [Dispatches]
  simp only [journalIterNextObject, gt_iff_lt, if_neg straight, exec, failingReader, works,
    plainRead, readable_header, size, if_pos inside, gotIterObjectHeader, ObjectHeader.ofMemory,
    JournalFile.objectHeader, le64toh_readU64 host
      (show 8 + 8 ≤ (file.slice (cells.advance header).toNat 16).length by omega)]

/-- What one step does: end, fail, or read the object at the next position. -/
theorem failingReader_step (file : JournalFile) (header : Header) (host : Endian)
    (fails : Nat → Option Int) (t : Nat) (cells : Iteration Unit) :
    (header.tailObjectOffset < cells.advance header ∧
      exec (failingReader file fails) t (journalIterNextObject host header cells) =
        .ok (t, .dispatched { cells with iterOffset := 0 })) ∨
    (∃ code cells', exec (failingReader file fails) t (journalIterNextObject host header cells) =
        .ok (t + 1, .failed code cells')) ∨
    (¬ header.tailObjectOffset < cells.advance header ∧
      (cells.advance header).toNat + 16 ≤ file.size ∧
      exec (failingReader file fails) t (journalIterNextObject host header cells) =
        .ok (t + 1, .dispatched { cells with
          iterOffset := cells.advance header
          iterObjectHeader := file.objectHeader (cells.advance header).toNat })) := by
  by_cases past : header.tailObjectOffset < cells.advance header
  · refine .inl ⟨past, ?_⟩
    simp only [journalIterNextObject, gt_iff_lt, if_pos past, exec]
  right
  cases failed : fails t with
  | some code =>
    refine .inl ⟨code, { cells with iterOffset := cells.advance header }, ?_⟩
    simp only [journalIterNextObject, gt_iff_lt, if_neg past, exec, failingReader, failed]
  | none =>
    by_cases inside : (cells.advance header).toNat + 16 ≤ file.size
    · exact .inr ⟨past, inside, failingReader_reads host fails t failed past inside⟩
    · refine .inl ⟨-EINVAL, { cells with iterOffset := cells.advance header }, ?_⟩
      simp only [journalIterNextObject, gt_iff_lt, if_neg past, exec, failingReader, failed,
        plainRead, readable_header, if_neg inside]

end Steps

/-! ## Passes that end -/

section Passes

variable {file : JournalFile} {header : Header} {cells : Iteration Unit}

/-- The cells after a step that dispatched something other than the end. -/
theorem OnWalk.step (onWalk : OnWalk file header cells) (below : StaysBelowWrap file header)
    (straight : ¬ header.tailObjectOffset < cells.advance header)
    (inside : (cells.advance header).toNat + 16 ≤ file.size)
    (more : cells.advance header ≠ 0) :
    cells.iterOffset < cells.advance header ∧ OnWalk file header { cells with
      iterOffset := cells.advance header
      iterObjectHeader := file.objectHeader (cells.advance header).toNat } := by
  rcases onWalk.advance below with zero | past | ⟨walked, climbs⟩
  · exact absurd zero more
  · exact absurd past straight
  · exact ⟨climbs, .object walked inside rfl⟩

private theorem loop_climbs (below : StaysBelowWrap file header) (host : Endian)
    (fails : Nat → Option Int) {fuel t t' : Nat} {cells : Iteration Unit}
    {trace : List (Iteration Unit)} {ended : LoopEnd Int} (onWalk : OnWalk file header cells)
    (ran : loop (failingReader file fails) (journalIterNextObject host header) Iteration.ended
      fuel t cells = .ok (t', trace, ended)) :
    ((cells.iterOffset :: trace.map Iteration.iterOffset).filter (· ≠ 0)).Pairwise (· < ·) := by
  induction fuel generalizing t cells trace with
  | zero =>
    simp only [loop, Except.ok.injEq, Prod.mk.injEq] at ran
    obtain ⟨-, rfl, -⟩ := ran
    by_cases zero : cells.iterOffset = 0 <;> simp [zero]
  | succ fuel ih =>
    rcases failingReader_step file header host fails t cells with
      ⟨-, next⟩ | ⟨code, cells', next⟩ | ⟨straight, inside, next⟩
    · simp only [loop, next, Iteration.ended, decide_true, ↓reduceIte, Except.ok.injEq,
        Prod.mk.injEq] at ran
      obtain ⟨-, rfl, -⟩ := ran
      by_cases zero : cells.iterOffset = 0 <;> simp [zero]
    · simp only [loop, next, Except.ok.injEq, Prod.mk.injEq] at ran
      obtain ⟨-, rfl, -⟩ := ran
      by_cases zero : cells.iterOffset = 0 <;> simp [zero]
    · by_cases more : cells.advance header = 0
      · simp only [loop, next, Iteration.ended, more, decide_true, ↓reduceIte, Except.ok.injEq,
          Prod.mk.injEq] at ran
        obtain ⟨-, rfl, -⟩ := ran
        by_cases zero : cells.iterOffset = 0 <;> simp [zero]
      · obtain ⟨climbs, onWalk'⟩ := onWalk.step below straight inside more
        simp only [loop, next, Iteration.ended, more, decide_false, Bool.false_eq_true,
          ↓reduceIte] at ran
        split at ran
        · cases ran
        rename_i rest
        simp only [Except.ok.injEq, Prod.mk.injEq] at ran
        obtain ⟨rfl, rfl, rfl⟩ := ran
        have later := ih onWalk' rest
        rw [List.filter_cons_of_pos (by simpa using more), List.pairwise_cons] at later
        rw [List.map_cons, List.filter_cons]
        split
        · rw [List.filter_cons_of_pos (by simpa using more), List.pairwise_cons, List.pairwise_cons]
          refine ⟨fun offset member => ?_, later⟩
          rcases List.mem_cons.mp member with rfl | member
          · exact climbs
          · exact UInt64.lt_trans climbs (later.1 offset member)
        · rw [List.filter_cons_of_pos (by simpa using more), List.pairwise_cons]
          exact later

private theorem loop_ends (below : StaysBelowWrap file header) (host : Endian)
    (fails : Nat → Option Int) {fuel : Nat} {t : Nat} {cells : Iteration Unit}
    (onWalk : OnWalk file header cells) (enough : file.size - cells.iterOffset.toNat < fuel) :
    ∃ t' trace ended, loop (failingReader file fails) (journalIterNextObject host header)
      Iteration.ended fuel t cells = .ok (t', trace, ended) ∧ ended ≠ .running := by
  induction fuel generalizing t cells with
  | zero => omega
  | succ fuel ih =>
    rcases failingReader_step file header host fails t cells with
      ⟨-, next⟩ | ⟨code, cells', next⟩ | ⟨straight, inside, next⟩
    · refine ⟨t, [{ cells with iterOffset := 0 }], .finished, ?_, by simp⟩
      simp only [loop, next, Iteration.ended, decide_true, ↓reduceIte]
    · refine ⟨t + 1, [], .failed code, ?_, by simp⟩
      simp only [loop, next]
    · by_cases more : cells.advance header = 0
      · refine ⟨t + 1, [{ cells with
          iterOffset := 0, iterObjectHeader := file.objectHeader (cells.advance header).toNat }],
          .finished, ?_, by simp⟩
        simp only [loop, next, Iteration.ended, more, decide_true, ↓reduceIte]
      · obtain ⟨climbs, onWalk'⟩ := onWalk.step below straight inside more
        rw [UInt64.lt_iff_toNat_lt] at climbs
        obtain ⟨t', trace, ended, rest, stops⟩ :=
          ih (t := t + 1) onWalk' (show file.size - (cells.advance header).toNat < fuel by omega)
        refine ⟨t', { cells with
          iterOffset := cells.advance header
          iterObjectHeader := file.objectHeader (cells.advance header).toNat } :: trace, ended, ?_,
          stops⟩
        simp only [loop, next, Iteration.ended, more, decide_false, Bool.false_eq_true,
          ↓reduceIte, rest]

end Passes

/-! ## Passes that turn back -/

/-- The cells at the object at `p`. -/
def JournalFile.cellsAt (file : JournalFile) (p : Nat) : Iteration Unit :=
  ⟨UInt64.ofNat p, file.objectHeader p, ()⟩

section Reaching

variable {file : JournalFile} {header : Header} {p : Nat}

theorem Walked.toNat_ofNat (walked : Walked file header p) : (UInt64.ofNat p).toNat = p :=
  UInt64.toNat_ofNat_of_lt' (lt_of_le_of_lt walked.low header.tailObjectOffset.toNat_lt)

theorem Walked.ofNat_ne_zero (walked : Walked file header p) : UInt64.ofNat p ≠ 0 := by
  intro zero
  have same := walked.toNat_ofNat
  rw [zero, UInt64.toNat_zero] at same
  exact absurd walked.positive (by omega)

/-- From an object on the walk, the code goes on to its end modulo `2 ^ 64`. -/
theorem Walked.advance (walked : Walked file header p) (sized : (file.objectHeader p).size ≠ 0) :
    ((file.cellsAt p).advance header).toNat =
      (p + roundUp8 (file.objectHeader p).size.toNat) % 2 ^ 64 := by
  rw [Iteration.advance, JournalFile.cellsAt, if_neg walked.ofNat_ne_zero, if_pos sized,
    add_align64_toNat]
  dsimp only
  rw [walked.toNat_ofNat]

/-- When no read fails, the code comes to every object of the walk whose header
the file has. -/
theorem Walked.reached (walked : Walked file header p) (inside : p + 16 ≤ file.size)
    (host : Endian) (cells : Iteration Unit) (restarts : cells.iterOffset = 0) :
    ∃ (visits : List (Nat × Iteration Unit)) (t : Nat),
      List.IsChain (Dispatches (failingReader file fun _ => none)
        (journalIterNextObject host header)) ((0, cells) :: (visits ++ [(t, file.cellsAt p)])) ∧
      ∀ v ∈ visits ++ [(t, file.cellsAt p)], Iteration.ended v.2 = false := by
  have going : ∀ {p}, Walked file header p → (file.cellsAt p).ended = false := by
    intro p walked
    exact decide_eq_false_iff_not.mpr walked.ofNat_ne_zero
  induction walked with
  | first positive low =>
    have here : cells.advance header = header.headerSize := by
      rw [Iteration.advance, if_pos restarts]
    have next := failingReader_reads host (fun _ => none) 0 rfl
      (by rw [here, UInt64.lt_iff_toNat_lt]; omega) (by rw [here]; exact inside)
    refine ⟨[], 1, List.isChain_pair.mpr ?_, ?_⟩
    · rw [here] at next
      simpa [JournalFile.cellsAt] using next
    · simpa using going (.first positive low)
  | @next p walked inside' sized low ih =>
    obtain ⟨visits, t, chain, before⟩ := ih inside'
    have grown := walked.next inside' sized low
    have here : (file.cellsAt p).advance header =
        UInt64.ofNat (p + roundUp8 (file.objectHeader p).size.toNat) := by
      apply UInt64.toNat_inj.mp
      rw [walked.advance sized, grown.toNat_ofNat]
      exact Nat.mod_eq_of_lt (lt_of_le_of_lt low header.tailObjectOffset.toNat_lt)
    have next := failingReader_reads host (fun _ => none) t rfl
      (by rw [here, UInt64.lt_iff_toNat_lt, grown.toNat_ofNat]; omega)
      (by rw [here, grown.toNat_ofNat]; exact inside)
    rw [here, grown.toNat_ofNat] at next
    refine ⟨visits ++ [(t, file.cellsAt p)], t + 1, ?_, ?_⟩
    · rw [List.append_assoc, ← List.cons_append]
      exact List.isChain_split.mpr ⟨chain, List.isChain_pair.mpr next⟩
    · intro v member
      rw [List.mem_append, List.mem_singleton] at member
      rcases member with member | rfl
      · exact before v member
      · exact going grown

/-- An object that reaches past `2 ^ 64` is dispatched, and then one that does not
lie behind it. -/
private theorem turns_back (walked : Walked file header p) (inside : p + 16 ≤ file.size)
    (wraps : 2 ^ 64 < p + roundUp8 (file.objectHeader p).size.toNat) : ¬ PassEnds file header := by
  intro ends
  have limit := (file.objectHeader p).size.toNat_lt
  have low := walked.low
  have bound := header.tailObjectOffset.toNat_lt
  have rounded : roundUp8 (file.objectHeader p).size.toNat ≤ 2 ^ 64 := by unfold roundUp8; omega
  have sized : (file.objectHeader p).size ≠ 0 := by
    intro zero
    rw [zero] at wraps
    have : roundUp8 (0 : UInt64).toNat = 0 := rfl
    omega
  have back := walked.advance sized
  obtain ⟨visits, t, chain, going⟩ :=
    walked.reached inside .little ⟨0, file.objectHeader p, ()⟩ rfl
  have next : Dispatches (failingReader file fun _ => none) (journalIterNextObject .little header)
      (t, file.cellsAt p) _ := failingReader_reads .little (fun _ => none) t rfl
    (by rw [UInt64.lt_iff_toNat_lt, back]; omega) (by rw [back]; omega)
  generalize after : ({ file.cellsAt p with
    iterOffset := (file.cellsAt p).advance header
    iterObjectHeader := file.objectHeader ((file.cellsAt p).advance header).toNat } :
      Iteration Unit) = cells at next
  have offset : cells.iterOffset = (file.cellsAt p).advance header := by rw [← after]
  have positive : cells.iterOffset ≠ 0 := by
    intro zero
    rw [← offset, zero, UInt64.toNat_zero] at back
    omega
  rw [← List.cons_append] at chain
  have longer : List.IsChain (Dispatches (failingReader file fun _ => none)
      (journalIterNextObject .little header)) (((0 : Nat), (⟨0, file.objectHeader p, ()⟩ :
        Iteration Unit)) :: (visits ++ [(t, file.cellsAt p), (t + 1, cells)])) := by
    rw [← List.cons_append]
    exact List.isChain_split.mpr ⟨chain, List.isChain_pair.mpr next⟩
  have running : ∀ v ∈ visits ++ [(t, file.cellsAt p), (t + 1, cells)], v.2.ended = false := by
    intro v member
    simp only [List.mem_append, List.mem_cons, List.not_mem_nil, or_false] at member going
    rcases member with member | rfl | rfl
    · exact going v (.inl member)
    · exact going _ (.inr rfl)
    · simp [Iteration.ended, positive]
  obtain ⟨t', ran⟩ := loop_running Iteration.ended longer running
  have climbs := (ends .little (fun _ => none) ⟨0, file.objectHeader p, ()⟩ rfl).1 _ _ _ _ ran
  have last : [(file.cellsAt p).iterOffset, cells.iterOffset].Pairwise (· < ·) := by
    simp only [Climbs, List.map_append, List.map_cons, List.map_nil, List.filter_append] at climbs
    have both := (List.pairwise_append.mp climbs).2.1
    have object : (file.cellsAt p).iterOffset ≠ 0 := walked.ofNat_ne_zero
    rwa [List.filter_cons_of_pos (by simpa using object),
      List.filter_cons_of_pos (by simpa using positive), List.filter_nil] at both
  rw [List.pairwise_pair, UInt64.lt_iff_toNat_lt, offset, back] at last
  have same : (file.cellsAt p).iterOffset.toNat = p := walked.toNat_ofNat
  omega

end Reaching

/-- A pass ends, having visited no offset twice, exactly when no object it comes
to reaches past `2 ^ 64`. -/
theorem pass_ends_iff (file : JournalFile) (header : Header) :
    PassEnds file header ↔ StaysBelowWrap file header := by
  constructor
  · intro ends p walked inside
    by_contra wraps
    exact turns_back walked inside (by omega) ends
  · intro below host fails cells restarts
    refine ⟨fun fuel t trace ended ran => ?_, ?_⟩
    · have climbs := loop_climbs below host fails (.start restarts) ran
      rwa [List.filter_cons_of_neg (by simpa using restarts)] at climbs
    · exact ⟨_, loop_ends below host fails (.start restarts) (Nat.lt_succ_self _)⟩

/-- An object behind a header of 256 bytes whose size is the largest there is. -/
def hugeObject : JournalFile where
  size := 272
  byte := fun i => if 264 ≤ i then 0xff else 0
  size_lt := by decide

def hugeObjectHeader : Header :=
  { (default : Header) with headerSize := 256, tailObjectOffset := 256 }

/-- Its size rounds up to zero, so the walk never leaves it. -/
theorem huge_object_is_dispatched_again :
    ((loop (failingReader hugeObject fun _ => none) (journalIterNextObject .little hugeObjectHeader)
      Iteration.ended 3 0 ⟨0, hugeObject.objectHeader 0, ()⟩).map
        fun (_, trace, ended) => (trace.map Iteration.iterOffset, ended)) =
      .ok ([256, 256, 256], .running) ∧ ¬ PassEnds hugeObject hugeObjectHeader := by
  have walked : Walked hugeObject hugeObjectHeader 256 := .first (by decide) (by decide)
  exact ⟨by rfl, turns_back walked (by decide) (by decide)⟩

end Jio
