import Mathlib.Data.List.Basic

/-! Input that is taken in blocks. What does not fill a block is kept until more input
does, so that what comes out depends on the input as a whole and not on how it was
cut up. -/
namespace BlockStream

variable {σ α : Type*} {n : Nat}

/-- The state over the blocks so far, and the input behind them. -/
@[ext] structure Stream (σ α : Type*) (n : Nat) where
  state : σ
  kept : List α
  kept_lt : kept.length < n

/-- One more element of the input. -/
def push (absorb : σ → List α → σ) (stream : Stream σ α n) (a : α) : Stream σ α n :=
  if more : stream.kept.length + 1 < n then
    { stream with
      kept := stream.kept ++ [a]
      kept_lt := by simpa using more }
  else
    { state := absorb stream.state (stream.kept ++ [a])
      kept := []
      kept_lt := Nat.zero_lt_of_lt stream.kept_lt }

/-- More input. -/
def feed (absorb : σ → List α → σ) (stream : Stream σ α n) (input : List α) : Stream σ α n :=
  input.foldl (push absorb) stream

variable {absorb : σ → List α → σ} {stream : Stream σ α n}

theorem feed_append (input input' : List α) :
    feed absorb stream (input ++ input') = feed absorb (feed absorb stream input) input' :=
  List.foldl_append ..

/-- Input that does not fill a block is kept. -/
theorem feed_keeps {input : List α} (short : (stream.kept ++ input).length < n) :
    feed absorb stream input =
      { stream with
        kept := stream.kept ++ input
        kept_lt := short } := by
  induction input generalizing stream with
  | nil =>
    ext
    · rfl
    · simp [feed]
  | cons a input ih =>
    have more : stream.kept.length + 1 < n := by
      simp only [List.length_append, List.length_cons] at short
      omega
    have pushed : push absorb stream a =
        { stream with
          kept := stream.kept ++ [a]
          kept_lt := by simpa using more } := dif_pos more
    have rest : feed absorb stream (a :: input) = feed absorb (push absorb stream a) input := rfl
    rw [rest, pushed, ih (by simpa using short)]
    simp

/-- Input that fills a block has it absorbed. -/
theorem feed_fills {front : List α} (fills : (stream.kept ++ front).length = n) (rest : List α) :
    feed absorb stream (front ++ rest) =
      feed absorb ⟨absorb stream.state (stream.kept ++ front), [],
        Nat.zero_lt_of_lt stream.kept_lt⟩ rest := by
  rcases List.eq_nil_or_concat front with rfl | ⟨front, a, rfl⟩
  · have short := stream.kept_lt
    simp at fills
    omega
  · rw [List.concat_eq_append] at fills ⊢
    have length := fills
    simp only [List.length_append, List.length_singleton] at length
    have kept : (stream.kept ++ front).length < n := by
      rw [List.length_append]
      omega
    have full : ¬(stream.kept ++ front).length + 1 < n := by
      rw [List.length_append]
      omega
    rw [feed_append, feed_append, feed_keeps kept]
    refine congrArg (fun stream => feed absorb stream rest) ((dif_neg full).trans ?_)
    simp only [List.append_assoc]

/-- What is kept is what is behind the last whole block. -/
theorem feed_kept_length (input : List α) :
    (feed absorb stream input).kept.length = (stream.kept.length + input.length) % n := by
  induction input generalizing stream with
  | nil => exact (Nat.mod_eq_of_lt stream.kept_lt).symm
  | cons a input ih =>
    have pushed : (push absorb stream a).kept.length = (stream.kept.length + 1) % n := by
      have short := stream.kept_lt
      unfold push
      split
      · rename_i more
        simp [Nat.mod_eq_of_lt more]
      · rw [show stream.kept.length + 1 = n by omega, Nat.mod_self]
        rfl
    have rest : feed absorb stream (a :: input) = feed absorb (push absorb stream a) input := rfl
    rw [rest, ih, pushed, Nat.mod_add_mod, List.length_cons, Nat.add_assoc, Nat.add_comm 1]

end BlockStream
