import Mathlib.Algebra.Group.Nat.Defs
import Mathlib.Data.List.Basic
import Mathlib.Data.Option.Basic

/-! Text that can be read back. A scanner takes one item off the front of a text, and undoes a
writer if it finds what was written whatever comes next; then nothing else reads the same. -/
namespace ReadBack

variable {χ α : Type}

/-- Takes an item off a text. -/
abbrev Scanner (χ α : Type) := List χ → Option (α × List χ)

/-- What is written is read back, and what comes next is left. -/
def Undoes (scan : Scanner χ α) (write : α → List χ) (next : List χ → Prop) : Prop :=
  ∀ a rest, next rest → scan (write a ++ rest) = some (a, rest)

/-! ## Decimals -/

/-- Without leading zeros. -/
def decimal (n : Nat) : List Char := Nat.toDigits 10 n

/-- The longest number in front. -/
def scanDecimal : Scanner Char Nat := fun text =>
  if text.takeWhile Char.isDigit = [] then none
  else some (Nat.ofDigitChars 10 (text.takeWhile Char.isDigit) 0, text.dropWhile Char.isDigit)

/-- No digit comes next. -/
def NoDigit (rest : List Char) : Prop := ∀ c ∈ rest.head?, c.isDigit = false

theorem decimal_digits {n : Nat} : ∀ c ∈ decimal n, c.isDigit = true :=
  fun _ member => Nat.isDigit_of_mem_toDigits (by decide) (by decide) member

theorem decimal_cons (n : Nat) : ∃ c text, decimal n = c :: text ∧ c.isDigit = true := by
  obtain ⟨c, text, shape⟩ := List.exists_cons_of_ne_nil (Nat.toDigits_ne_nil (b := 10) (n := n))
  exact ⟨c, text, shape, decimal_digits c (by rw [decimal, shape]; simp)⟩

theorem length_decimal {n k : Nat} (positive : 0 < k) (bound : n < 10 ^ k) :
    (decimal n).length ≤ k :=
  (Nat.length_toDigits_le_iff (by decide) positive).mpr bound

/-- The digits in front are those before the first character that is none. -/
theorem span_digits {digits rest : List Char} (all : ∀ c ∈ digits, c.isDigit = true)
    (next : NoDigit rest) : (digits ++ rest).takeWhile Char.isDigit = digits ∧
      (digits ++ rest).dropWhile Char.isDigit = rest := by
  have stops : rest.takeWhile Char.isDigit = [] ∧ rest.dropWhile Char.isDigit = rest := by
    cases rest with
    | nil => exact ⟨rfl, rfl⟩
    | cons c rest =>
      have none : c.isDigit = false := next c rfl
      simp [none]
  rw [List.takeWhile_append_of_pos all, List.dropWhile_append_of_pos all, stops.1, stops.2,
    List.append_nil]
  exact ⟨rfl, rfl⟩

theorem scanDecimal_undoes : Undoes scanDecimal decimal NoDigit := by
  intro n rest next
  obtain ⟨digits, left⟩ := span_digits (decimal_digits (n := n)) next
  have some : decimal n ≠ [] := Nat.toDigits_ne_nil
  unfold scanDecimal
  rw [digits, left, if_neg some]
  unfold decimal
  rw [Nat.ofDigitChars_ten_toDigits]

theorem scanDecimal_none {rest : List Char} (next : NoDigit rest) : scanDecimal rest = none := by
  obtain ⟨digits, -⟩ := span_digits (List.forall_mem_nil _) next
  exact if_pos digits

/-! ## Fractions -/

/-- The last `k` digits. -/
def lastDigits : Nat → Nat → List Char
  | 0, _ => []
  | k + 1, n => lastDigits k (n / 10) ++ [Nat.digitChar (n % 10)]

/-- So many parts of `10 ^ k`. -/
def fixed (k n : Nat) : List Char := decimal (n / 10 ^ k) ++ '.' :: lastDigits k n

/-- A number with `k` digits behind the point. -/
def scanFixed (k : Nat) : Scanner Char Nat := fun text =>
  match scanDecimal text with
  | some (whole, '.' :: rest) =>
    if (rest.take k).length = k ∧ (rest.take k).all Char.isDigit then
      some (10 ^ k * whole + Nat.ofDigitChars 10 (rest.take k) 0, rest.drop k)
    else none
  | _ => none

theorem length_lastDigits (k n : Nat) : (lastDigits k n).length = k := by
  induction k generalizing n with
  | zero => rfl
  | succ k ih => rw [lastDigits, List.length_append, ih, List.length_singleton]

theorem lastDigits_digits (k n : Nat) : (lastDigits k n).all Char.isDigit := by
  induction k generalizing n with
  | zero => rfl
  | succ k ih => simp [lastDigits, ih, Nat.isDigit_digitChar, Nat.mod_lt]

theorem ofDigitChars_lastDigits (k n : Nat) :
    Nat.ofDigitChars 10 (lastDigits k n) 0 = n % 10 ^ k := by
  induction k generalizing n with
  | zero => rw [pow_zero, Nat.mod_one, lastDigits, Nat.ofDigitChars_nil]
  | succ k ih =>
    rw [lastDigits, Nat.ofDigitChars_append, ih,
      Nat.ofDigitChars_cons_digitChar_of_lt_ten (Nat.mod_lt _ (by decide)), Nat.ofDigitChars_nil,
      pow_succ', Nat.mod_mul, Nat.add_comm]

/-- Whatever comes next, since the digits behind the point are counted. -/
theorem scanFixed_undoes (k : Nat) : Undoes (scanFixed k) (fixed k) fun _ => True := by
  rintro n rest -
  have point : NoDigit ('.' :: (lastDigits k n ++ rest)) := by
    rintro _ ⟨⟩
    rfl
  have whole := scanDecimal_undoes (n / 10 ^ k) _ point
  have digits : (lastDigits k n ++ rest).take k = lastDigits k n :=
    List.take_left' (length_lastDigits k n)
  have left : (lastDigits k n ++ rest).drop k = rest :=
    List.drop_left' (length_lastDigits k n)
  have shape : fixed k n ++ rest = decimal (n / 10 ^ k) ++ '.' :: (lastDigits k n ++ rest) := by
    simp [fixed]
  unfold scanFixed
  simp only [shape, whole, digits, left]
  rw [if_pos ⟨length_lastDigits k n, lastDigits_digits k n⟩,
    ofDigitChars_lastDigits, Nat.div_add_mod]

/-! ## Sequences -/

section Sequences

variable [DecidableEq χ] {scan : Scanner χ α} {write : α → List χ} {stop : χ}

/-- Items up to a stop character. -/
def scanMany (scan : Scanner χ α) (stop : χ) : Nat → Scanner χ (List α)
  | 0, _ => none
  | _ + 1, [] => none
  | fuel + 1, c :: text =>
    if c = stop then some ([], text)
    else do
      let (a, rest) ← scan (c :: text)
      let (others, rest) ← scanMany scan stop fuel rest
      return (a :: others, rest)

/-- A whole text of items. -/
def scanAll (scan : Scanner χ α) (stop : χ) (text : List χ) : Option (List α) :=
  match scanMany scan stop text.length text with
  | some (items, []) => some items
  | _ => none

/-- Items, one after the other, and a stop character. -/
def writeAll (write : α → List χ) (stop : χ) (items : List α) : List χ :=
  items.flatMap write ++ [stop]

theorem scanMany_writeAll (undoes : Undoes scan write fun _ => True)
    (starts : ∀ a, ∃ c text, write a = c :: text ∧ c ≠ stop) (rest : List χ) {items : List α}
    {fuel : Nat} (enough : items.length < fuel) :
    scanMany scan stop fuel (writeAll write stop items ++ rest) = some (items, rest) := by
  induction items generalizing fuel with
  | nil =>
    obtain ⟨fuel, rfl⟩ : ∃ n, fuel = n + 1 := ⟨fuel - 1, by simp at enough; omega⟩
    exact if_pos rfl
  | cons a items ih =>
    obtain ⟨fuel, rfl⟩ : ∃ n, fuel = n + 1 := ⟨fuel - 1, by simp at enough; omega⟩
    have later := ih (show items.length < fuel by simpa using enough)
    have found := undoes a (writeAll write stop items ++ rest) trivial
    obtain ⟨c, text, shape, going⟩ := starts a
    have split : writeAll write stop (a :: items) ++ rest =
        c :: (text ++ (writeAll write stop items ++ rest)) := by
      simp [writeAll, shape]
    rw [shape, List.cons_append] at found
    rw [split, scanMany, if_neg going, found]
    simp only [Option.bind_eq_bind, Option.bind_some, later]
    rfl

omit [DecidableEq χ] in
theorem length_writeAll (starts : ∀ a, ∃ c text, write a = c :: text ∧ c ≠ stop)
    (items : List α) : items.length < (writeAll write stop items).length := by
  unfold writeAll
  induction items with
  | nil => simp
  | cons a items ih =>
    obtain ⟨c, text, shape, -⟩ := starts a
    simp only [List.flatMap_cons, List.append_assoc, List.length_cons, List.length_append, shape]
      at ih ⊢
    omega

/-- Items that can be read back one by one can all be read back. -/
theorem scanAll_writeAll (undoes : Undoes scan write fun _ => True)
    (starts : ∀ a, ∃ c text, write a = c :: text ∧ c ≠ stop) (items : List α) :
    scanAll scan stop (writeAll write stop items) = some items := by
  have found := scanMany_writeAll undoes starts [] (length_writeAll starts items)
  rw [List.append_nil] at found
  unfold scanAll
  rw [found]

/-- No other items are written the same. -/
theorem writeAll_injective (undoes : Undoes scan write fun _ => True)
    (starts : ∀ a, ∃ c text, write a = c :: text ∧ c ≠ stop) :
    Function.Injective (writeAll write stop) := by
  intro items others same
  have found := scanAll_writeAll undoes starts items
  rw [same, scanAll_writeAll undoes starts others] at found
  exact (Option.some.inj found).symm

end Sequences

end ReadBack
