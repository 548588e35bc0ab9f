import Mathlib.Data.Rat.Floor
import Jio.Library.Rounding
import Jio.LayoutReport

/-! `humane_bytes`: an amount in the unit that suits it, with two digits behind the point. It
always fits the buffer, reads back as an amount close by, and never as less for more. -/
namespace Jio
open ReadBack Rounding LayoutReport

/-! ## Printing an amount -/

/-- `units`. -/
def units : Vector String 7 := #v["B", "KiB", "MiB", "GiB", "TiB", "PiB", "EiB"]

/-- What is left of a number in a `double`. None here is too large, or too close to zero, for the
53 bits to be all there is to it. -/
def double (x : ℚ) : ℚ := roundBits 53 x

/-- The loop of `humane_bytes`: its `order` and `z`. -/
def humaneOrder : Nat → Nat → ℚ → Option (Nat × ℚ)
  | 0, _, _ => none
  | fuel + 1, order, z =>
    if 1024 ≤ z then humaneOrder fuel (order + 1) (double (z / 1024)) else some (order, z)

/-- `%.2f`. -/
def printDouble (z : ℚ) : List Char := fixed 2 (roundEven (z * 100)).toNat

/-- `humane_bytes`, and what it leaves in the buffer. -/
def humaneBytes (fuel : Nat) (bytes : UInt64) : Option (Except Fault (List Char)) :=
  (humaneOrder fuel 0 (double bytes.toNat)).map fun (order, z) =>
    if known : order < 7 then
      .ok (snprintf 12 (printDouble z ++ ' ' :: units[order].toList))
    else .error .outOfBounds

/-! ## Reading it back -/

/-- What is printed. -/
structure Humane where
  hundredths : Nat
  order : Fin 7
  deriving DecidableEq

def Humane.text (humane : Humane) : List Char :=
  fixed 2 humane.hundredths ++ ' ' :: units[humane.order].toList

/-- How many bytes that is. -/
def Humane.bytes (humane : Humane) : ℚ := humane.hundredths / 100 * 1024 ^ (humane.order : ℕ)

def scanHumane (text : List Char) : Option Humane :=
  match scanFixed 2 text with
  | some (hundredths, ' ' :: rest) =>
    ((List.finRange 7).find? fun order => units[order].toList = rest).map fun order =>
      ⟨hundredths, order⟩
  | _ => none

theorem scanHumane_text (humane : Humane) : scanHumane humane.text = some humane := by
  have number := scanFixed_undoes 2 humane.hundredths (' ' :: units[humane.order].toList) trivial
  have unit : ∀ order : Fin 7, (List.finRange 7).find?
      (fun other => units[other].toList = units[order].toList) = some order := by decide
  unfold scanHumane Humane.text
  simp only [number, unit, Option.map_some]

example : scanHumane ['1', '5', '.', '2', '5', ' ', 'M', 'i', 'B'] = some ⟨1525, 2⟩ := by decide

/-! ## Doubles -/

theorem double_mono {x y : ℚ} (nonneg : 0 ≤ x) (le : x ≤ y) : double x ≤ double y :=
  roundBits_mono (by decide) nonneg le

theorem double_nat {n : ℕ} (small : n < 2 ^ 53) : double n = n :=
  roundBits_of_hasBits (hasBits_natCast small)

theorem double_hasBits {x : ℚ} (nonneg : 0 ≤ x) : HasBits 53 (double x) := by
  rcases nonneg.eq_or_lt with rfl | positive
  · rw [double, roundBits_zero]
    exact hasBits_zero 53
  · exact hasBits_roundBits (by decide) positive

/-- Dividing by 1024 only moves the bits. -/
theorem double_div {z : ℚ} (bits : HasBits 53 z) (positive : 0 < z) :
    HasBits 53 (z / 1024) ∧ double (z / 1024) = z / 1024 := by
  have moved := bits.mul_zpow positive (-10)
  rw [show z * 2 ^ (-10 : ℤ) = z / 1024 by norm_num [div_eq_mul_inv]] at moved
  exact ⟨moved, roundBits_of_hasBits moved⟩

/-- A number of bytes is off by at most a kilobyte as a double, and by nothing below `2 ^ 53`. -/
theorem double_bytes (bytes : UInt64) :
    0 ≤ double bytes.toNat ∧ double bytes.toNat < 1024 ^ 7 ∧
      |double bytes.toNat - bytes.toNat| ≤ if bytes.toNat < 2 ^ 53 then 0 else 2 ^ 10 := by
  have bound : bytes.toNat < 2 ^ 64 := bytes.toNat_lt
  by_cases small : bytes.toNat < 2 ^ 53
  · have whole : (bytes.toNat : ℚ) < 1024 ^ 7 := by
      exact_mod_cast small.trans (by decide : (2 : ℕ) ^ 53 < 1024 ^ 7)
    rw [double_nat small, if_pos small, sub_self, abs_zero]
    exact ⟨Nat.cast_nonneg _, whole, le_rfl⟩
  · have positive : (0 : ℚ) < bytes.toNat := by
      exact_mod_cast (show 0 < bytes.toNat by omega)
    have log : Int.log 2 (bytes.toNat : ℚ) ≤ 63 := by
      have bits : Nat.log 2 bytes.toNat < 64 := Nat.log_lt_of_lt_pow (by omega) bound
      rw [Int.log_natCast]
      omega
    obtain ⟨below, above⟩ := roundBits_bounds (p := 53) (by decide) positive
    refine ⟨(zpow_pos two_pos _).le.trans below, ?_, ?_⟩
    · calc double bytes.toNat ≤ 2 ^ (Int.log 2 (bytes.toNat : ℚ) + 1) := above
        _ ≤ 2 ^ (64 : ℤ) := zpow_le_zpow_right₀ one_le_two (by omega)
        _ < 1024 ^ 7 := by norm_num
    · have last : ulp 53 (bytes.toNat : ℚ) ≤ 2 ^ (11 : ℤ) :=
        zpow_le_zpow_right₀ one_le_two (by push_cast; omega)
      rw [abs_sub_comm, if_neg small]
      calc |(bytes.toNat : ℚ) - double bytes.toNat| ≤ ulp 53 (bytes.toNat : ℚ) / 2 :=
            abs_sub_roundBits 53 _
        _ ≤ 2 ^ (11 : ℤ) / 2 := by linarith
        _ = 2 ^ 10 := by norm_num

/-! ## The order -/

/-- The unit suits the amount. -/
structure Suits (order : ℕ) (z : ℚ) : Prop where
  least : order = 0 ∨ 1024 ^ order ≤ z
  most : z < 1024 ^ (order + 1)

theorem Suits.mono {order order' : ℕ} {z z' : ℚ} (suits : Suits order z)
    (suits' : Suits order' z') (le : z ≤ z') : order ≤ order' := by
  rcases suits.least with rfl | least
  · exact Nat.zero_le _
  · have less : (1024 : ℚ) ^ order < 1024 ^ (order' + 1) := (least.trans le).trans_lt suits'.most
    have := (pow_lt_pow_iff_right₀ (by norm_num)).mp less
    omega

/-- The loop ends with the order that suits. -/
theorem humaneOrder_eq {k fuel : ℕ} (order : ℕ) {z : ℚ} (enough : k < fuel)
    (bits : HasBits 53 z) (nonneg : 0 ≤ z) (small : z < 1024 ^ (k + 1)) :
    ∃ j ≤ k, Suits j z ∧ humaneOrder fuel order z = some (order + j, z / 1024 ^ j) := by
  induction k generalizing fuel order z with
  | zero =>
    obtain ⟨fuel, rfl⟩ : ∃ n, fuel = n + 1 := ⟨fuel - 1, by omega⟩
    rw [zero_add, pow_one] at small
    refine ⟨0, le_rfl, ⟨.inl rfl, by simpa using small⟩, ?_⟩
    rw [humaneOrder, if_neg (not_le.mpr small), pow_zero, div_one, Nat.add_zero]
  | succ k ih =>
    obtain ⟨fuel, rfl⟩ : ∃ n, fuel = n + 1 := ⟨fuel - 1, by omega⟩
    by_cases large : 1024 ≤ z
    · have positive : 0 < z := lt_of_lt_of_le (by norm_num) large
      obtain ⟨bits', exact⟩ := double_div bits positive
      have small' : z / 1024 < 1024 ^ (k + 1) := by
        rw [div_lt_iff₀ (by norm_num)]
        exact small.trans_eq (pow_succ _ _)
      obtain ⟨j, le, suits, ran⟩ :=
        @ih fuel (order + 1) (z / 1024) (by omega) bits' (by positivity) small'
      refine ⟨j + 1, by omega, ⟨.inr ?_, ?_⟩, ?_⟩
      · rcases suits.least with rfl | least
        · simpa using large
        · rw [le_div_iff₀ (by norm_num)] at least
          exact (pow_succ _ _).trans_le least
      · have most := suits.most
        rw [div_lt_iff₀ (by norm_num)] at most
        exact most.trans_eq (pow_succ _ _).symm
      · rw [humaneOrder, if_pos large, exact, ran, div_div, ← pow_succ', Nat.add_assoc,
          Nat.add_comm 1]
    · refine ⟨0, Nat.zero_le _, ⟨.inl rfl, by simpa using not_le.mp large⟩, ?_⟩
      rw [humaneOrder, if_neg large, pow_zero, div_one, Nat.add_zero]

/-! ## What is printed -/

/-- The double of this many bytes, in the unit that suits it, to the nearest hundredth. -/
structure Prints (bytes : UInt64) (humane : Humane) : Prop where
  suits : Suits humane.order (double bytes.toNat)
  nearest : (humane.hundredths : ℤ) =
    roundEven (double bytes.toNat / 1024 ^ (humane.order : ℕ) * 100)

section Prints

variable {bytes bytes' : UInt64} {humane humane' : Humane}

theorem Prints.hundredths_le (prints : Prints bytes humane) : humane.hundredths ≤ 102400 := by
  have most := prints.suits.most
  have below : double bytes.toNat / 1024 ^ (humane.order : ℕ) * 100 ≤ (102400 : ℤ) := by
    rw [pow_succ', ← div_lt_iff₀ (by positivity)] at most
    push_cast
    linarith
  have rounded := roundEven_le below
  rw [← prints.nearest] at rounded
  exact_mod_cast rounded

theorem length_units : ∀ unit ∈ units, unit.toList.length ≤ 3 := by simp [units]

/-- The whole text fits the buffer, `1024.00 KiB` as well. -/
theorem Prints.fits (prints : Prints bytes humane) : humane.text.length < 12 := by
  have most := prints.hundredths_le
  have whole := length_decimal (n := humane.hundredths / 10 ^ 2) (show 0 < 4 by decide) (by omega)
  have unit := length_units _ (Vector.getElem_mem humane.order.isLt)
  simp only [Humane.text, fixed, List.length_append, List.length_cons, length_lastDigits,
    Fin.getElem_fin]
  omega

/-- It is off by half a hundredth of the unit, and by what the double is. -/
theorem Prints.near (prints : Prints bytes humane) :
    |humane.bytes - bytes.toNat| ≤
      1024 ^ (humane.order : ℕ) / 200 + if bytes.toNat < 2 ^ 53 then 0 else 2 ^ 10 := by
  obtain ⟨-, -, conversion⟩ := double_bytes bytes
  have unit : (0 : ℚ) < 1024 ^ (humane.order : ℕ) := by positivity
  have nearest : (humane.hundredths : ℚ) =
      roundEven (double bytes.toNat / 1024 ^ (humane.order : ℕ) * 100) := by
    exact_mod_cast congrArg (Int.cast (R := ℚ)) prints.nearest
  have half := abs_sub_roundEven (double bytes.toNat / 1024 ^ (humane.order : ℕ) * 100)
  rw [← nearest] at half
  have off : humane.bytes - double bytes.toNat =
      (humane.hundredths - double bytes.toNat / 1024 ^ (humane.order : ℕ) * 100) *
        (1024 ^ (humane.order : ℕ) / 100) := by
    rw [Humane.bytes, sub_mul]
    congr 1
    · ring
    · field_simp
  have printed : |humane.bytes - double bytes.toNat| ≤ 1024 ^ (humane.order : ℕ) / 200 := by
    rw [off, abs_mul, abs_sub_comm, abs_of_pos (show (0 : ℚ) < 1024 ^ (humane.order : ℕ) / 100 by
      positivity)]
    calc _ ≤ 1 / 2 * ((1024 : ℚ) ^ (humane.order : ℕ) / 100) :=
          mul_le_mul_of_nonneg_right half (by positivity)
      _ = 1024 ^ (humane.order : ℕ) / 200 := by ring
  calc |humane.bytes - bytes.toNat| ≤
        |humane.bytes - double bytes.toNat| + |double bytes.toNat - bytes.toNat| :=
        abs_sub_le _ _ _
    _ ≤ _ := add_le_add printed conversion

/-- More is never printed as less. -/
theorem Prints.mono (prints : Prints bytes humane) (prints' : Prints bytes' humane')
    (le : bytes ≤ bytes') : humane.bytes ≤ humane'.bytes := by
  have more : (bytes.toNat : ℚ) ≤ bytes'.toNat := by
    exact_mod_cast UInt64.le_iff_toNat_le.mp le
  have doubles := double_mono (Nat.cast_nonneg _) more
  have nearest := prints.nearest
  have nearest' := prints'.nearest
  rcases (prints.suits.mono prints'.suits doubles).lt_or_eq with before | same
  · have least := prints'.suits.least.resolve_left (by omega)
    have enough : (100 : ℤ) ≤ humane'.hundredths := by
      rw [nearest']
      apply le_roundEven
      rw [← one_mul (Int.cast 100)]
      push_cast
      exact mul_le_mul_of_nonneg_right ((one_le_div₀ (by positivity)).mpr least) (by norm_num)
    have most : (humane.hundredths : ℚ) ≤ 102400 := by exact_mod_cast prints.hundredths_le
    have enough' : (100 : ℚ) ≤ humane'.hundredths := by exact_mod_cast enough
    calc humane.bytes ≤ 102400 / 100 * 1024 ^ (humane.order : ℕ) :=
          mul_le_mul_of_nonneg_right (by linarith) (by positivity)
      _ = 1024 ^ ((humane.order : ℕ) + 1) := by ring
      _ ≤ 1024 ^ (humane'.order : ℕ) := pow_le_pow_right₀ (by norm_num) before
      _ ≤ humane'.bytes := le_mul_of_one_le_left (by positivity) (by linarith)
  · rw [← same] at nearest'
    have rounded : (humane.hundredths : ℤ) ≤ humane'.hundredths := by
      rw [nearest, nearest']
      apply roundEven_mono
      gcongr
    have hundredths : (humane.hundredths : ℚ) ≤ humane'.hundredths := by exact_mod_cast rounded
    rw [Humane.bytes, Humane.bytes, ← same]
    gcongr

/-- Up to a kilobyte, the number is printed as it is. -/
theorem Prints.exact (prints : Prints bytes humane) (small : bytes.toNat < 1024) :
    humane.bytes = bytes.toNat := by
  have whole := double_nat (show bytes.toNat < 2 ^ 53 by omega)
  have few : (bytes.toNat : ℚ) < 1024 := by exact_mod_cast small
  have none : (humane.order : ℕ) = 0 := by
    rcases prints.suits.least with none | least
    · exact none
    · rw [whole] at least
      have kilobyte := (pow_lt_pow_iff_right₀ (a := (1024 : ℚ)) (by norm_num)).mp
        (least.trans_lt (few.trans_eq (pow_one _).symm))
      omega
  have nearest := prints.nearest
  rw [whole, none, pow_zero, div_one] at nearest
  have hundredths : humane.hundredths = bytes.toNat * 100 := by
    have int := roundEven_intCast (K := ℚ) (bytes.toNat * 100)
    push_cast at int
    rw [int] at nearest
    exact_mod_cast nearest
  rw [Humane.bytes, none, hundredths]
  push_cast
  ring

end Prints

theorem humaneBytes_prints (bytes : UInt64) : ∃ humane, Prints bytes humane ∧
    ∀ fuel, 7 ≤ fuel → humaneBytes fuel bytes = some (.ok humane.text) := by
  obtain ⟨nonneg, small, -⟩ := double_bytes bytes
  have bits := double_hasBits (Nat.cast_nonneg bytes.toNat)
  obtain ⟨j, most, suits, -⟩ := @humaneOrder_eq 6 7 0 _ (by decide) bits nonneg small
  have positive : 0 ≤ double bytes.toNat / 1024 ^ j * 100 := by positivity
  have hundredths := Int.toNat_of_nonneg (roundEven_nonneg positive)
  let humane : Humane :=
    ⟨(roundEven (double bytes.toNat / 1024 ^ j * 100)).toNat, ⟨j, Nat.lt_succ_of_le most⟩⟩
  have prints : Prints bytes humane := ⟨suits, hundredths⟩
  refine ⟨humane, prints, ?_⟩
  intro fuel enough
  obtain ⟨j', -, suits', ran⟩ := @humaneOrder_eq 6 fuel 0 _ enough bits nonneg small
  obtain rfl : j = j' := (suits.mono suits' le_rfl).antisymm (suits'.mono suits le_rfl)
  have known : 0 + j < 7 := by omega
  have text : printDouble (double bytes.toNat / 1024 ^ j) ++ ' ' :: units[0 + j].toList =
      humane.text := by
    simp only [Nat.zero_add]
    rfl
  simp only [humaneBytes, ran, Option.map_some, known, ↓reduceDIte, text, snprintf_eq prints.fits]

/-- Whatever the number, the loop ends at a unit there is, and the text fits the buffer and can
be read back. It says about as much as there is, and never less for more. -/
theorem humane_is_near : ∃ humane : UInt64 → Humane,
    (∀ bytes fuel, 7 ≤ fuel → humaneBytes fuel bytes = some (.ok (humane bytes).text)) ∧
    (∀ bytes, (humane bytes).text.length < 12 ∧
      scanHumane (humane bytes).text = some (humane bytes)) ∧
    (∀ bytes, |(humane bytes).bytes - bytes.toNat| ≤
      1024 ^ ((humane bytes).order : ℕ) / 200 + if bytes.toNat < 2 ^ 53 then 0 else 2 ^ 10) ∧
    (∀ bytes bytes', bytes ≤ bytes' → (humane bytes).bytes ≤ (humane bytes').bytes) ∧
    ∀ bytes, bytes.toNat < 1024 → (humane bytes).bytes = bytes.toNat := by
  choose humane prints ran using humaneBytes_prints
  exact ⟨humane, ran, fun bytes => ⟨(prints bytes).fits, scanHumane_text _⟩,
    fun bytes => (prints bytes).near, fun bytes bytes' => (prints bytes).mono (prints bytes'),
    fun bytes => (prints bytes).exact⟩

end Jio
