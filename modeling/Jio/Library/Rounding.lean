import Mathlib.Algebra.Order.Floor.Ring
import Mathlib.Data.Int.Log
import Mathlib.Tactic.Linarith

/-! Rounding to the nearest: to an integer, and to so many significant bits. Where two are as
near, the even one is taken. -/
namespace Rounding

variable {K : Type*} [Field K] [LinearOrder K] [IsStrictOrderedRing K] [FloorRing K]

/-! ## Integers -/

/-- The nearest integer, the even one of two. -/
def roundEven (x : K) : ℤ :=
  if Int.fract x < 1 / 2 ∨ Int.fract x = 1 / 2 ∧ Even ⌊x⌋ then ⌊x⌋ else ⌊x⌋ + 1

theorem roundEven_intCast (n : ℤ) : roundEven (n : K) = n := by
  unfold roundEven
  rw [Int.fract_intCast, Int.floor_intCast, if_pos (.inl (by norm_num))]

omit [IsStrictOrderedRing K] in
theorem floor_le_roundEven (x : K) : ⌊x⌋ ≤ roundEven x := by
  unfold roundEven
  split <;> omega

/-- No integer is nearer by more than half. -/
theorem abs_sub_roundEven (x : K) : |x - roundEven x| ≤ 1 / 2 := by
  have split := Int.self_sub_floor x
  have fract := Int.fract_lt_one x
  have positive := Int.fract_nonneg x
  rw [abs_le]
  unfold roundEven
  by_cases down : Int.fract x < 1 / 2 ∨ Int.fract x = 1 / 2 ∧ Even ⌊x⌋
  · have half : Int.fract x ≤ 1 / 2 := down.elim le_of_lt fun tie => tie.1.le
    rw [if_pos down]
    constructor <;> linarith
  · have half : 1 / 2 ≤ Int.fract x := not_lt.mp fun less => down (.inl less)
    rw [if_neg down, Int.cast_add, Int.cast_one]
    constructor <;> linarith

theorem roundEven_mono {x y : K} (le : x ≤ y) : roundEven x ≤ roundEven y := by
  by_contra before
  have step : roundEven y + 1 ≤ roundEven x := not_le.mp before
  have apart : (roundEven y : K) + 1 ≤ roundEven x := by exact_mod_cast step
  have near := abs_le.mp (abs_sub_roundEven x)
  have near' := abs_le.mp (abs_sub_roundEven y)
  -- both are half off, so it is one number that is rounded
  obtain rfl : x = y := by linarith
  exact before le_rfl

omit [IsStrictOrderedRing K] in
theorem roundEven_nonneg {x : K} (nonneg : 0 ≤ x) : 0 ≤ roundEven x :=
  (Int.floor_nonneg.mpr nonneg).trans (floor_le_roundEven x)

theorem roundEven_le {x : K} {n : ℤ} (le : x ≤ n) : roundEven x ≤ n :=
  (roundEven_mono le).trans_eq (roundEven_intCast n)

theorem le_roundEven {x : K} {n : ℤ} (le : (n : K) ≤ x) : n ≤ roundEven x :=
  (roundEven_intCast n).symm.trans_le (roundEven_mono le)

/-! ## Significant bits -/

/-- What the last of `p` bits stands for. -/
def ulp (p : ℕ) (x : K) : K := 2 ^ (Int.log 2 x + 1 - p)

/-- The nearest number of `p` bits. -/
def roundBits (p : ℕ) (x : K) : K := roundEven (x / ulp p x) * ulp p x

/-- A number of `p` bits. -/
def HasBits (p : ℕ) (x : K) : Prop := ∃ n : ℤ, x = n * ulp p x

variable {p : ℕ} {x y : K}

theorem ulp_pos (p : ℕ) (x : K) : 0 < ulp p x := zpow_pos two_pos _

theorem abs_sub_roundBits (p : ℕ) (x : K) : |x - roundBits p x| ≤ ulp p x / 2 := by
  have positive := ulp_pos p x
  have near := abs_sub_roundEven (x / ulp p x)
  have split : x - roundBits p x = (x / ulp p x - roundEven (x / ulp p x)) * ulp p x := by
    rw [sub_mul, div_mul_cancel₀ _ positive.ne', roundBits]
  rw [split, abs_mul, abs_of_pos positive]
  calc |x / ulp p x - roundEven (x / ulp p x)| * ulp p x ≤ 1 / 2 * ulp p x :=
        mul_le_mul_of_nonneg_right near positive.le
    _ = ulp p x / 2 := by rw [one_div, inv_mul_eq_div]

theorem roundBits_of_hasBits (bits : HasBits p x) : roundBits p x = x := by
  obtain ⟨n, shape⟩ := bits
  have whole : x / ulp p x = n := by
    rw [div_eq_iff (ulp_pos p x).ne']
    exact shape
  rw [roundBits, whole, roundEven_intCast, ← shape]

theorem roundBits_zero (p : ℕ) : roundBits p (0 : K) = 0 := by
  have zero := roundEven_intCast (K := K) 0
  rw [Int.cast_zero] at zero
  rw [roundBits, zero_div, zero, Int.cast_zero, zero_mul]

/-- Where a number lies between powers of two. -/
theorem log_eq (positive : 0 < x) {k : ℤ} (le : 2 ^ k ≤ x) (less : x < 2 ^ (k + 1)) :
    Int.log 2 x = k := by
  have below := (Int.zpow_le_iff_le_log (b := 2) (by decide) positive).mp (by exact_mod_cast le)
  have above := (Int.lt_zpow_iff_log_lt (b := 2) (by decide) positive).mp (by exact_mod_cast less)
  omega

theorem log_bounds (positive : 0 < x) :
    (2 : K) ^ Int.log 2 x ≤ x ∧ x < (2 : K) ^ (Int.log 2 x + 1) := by
  have below := Int.zpow_log_le_self (b := 2) (by decide) positive
  have above := Int.lt_zpow_succ_log_self (b := 2) (by decide) x
  exact ⟨by exact_mod_cast below, by exact_mod_cast above⟩

/-- The last of `p` bits, `p` bits up. -/
theorem pow_mul_ulp (p : ℕ) (x : K) : 2 ^ p * ulp p x = 2 ^ (Int.log 2 x + 1) := by
  rw [ulp, ← zpow_natCast, ← zpow_add₀ two_pos.ne']
  congr 1
  omega

theorem pow_pred_mul_ulp (some : 0 < p) (x : K) : 2 ^ (p - 1) * ulp p x = 2 ^ Int.log 2 x := by
  rw [ulp, ← zpow_natCast, ← zpow_add₀ two_pos.ne']
  congr 1
  omega

/-- As many of the last bits as `p` bits hold. -/
theorem roundEven_bits (some : 0 < p) (positive : 0 < x) :
    2 ^ (p - 1) ≤ roundEven (x / ulp p x) ∧ roundEven (x / ulp p x) ≤ 2 ^ p := by
  obtain ⟨below, above⟩ := log_bounds positive
  have unit := ulp_pos p x
  constructor
  · apply le_roundEven
    rw [le_div_iff₀ unit]
    push_cast
    rwa [pow_pred_mul_ulp some]
  · apply roundEven_le
    rw [div_le_iff₀ unit]
    push_cast
    rw [pow_mul_ulp]
    exact above.le

/-- What a number is rounded to lies between the same powers of two. -/
theorem roundBits_bounds (some : 0 < p) (positive : 0 < x) :
    2 ^ Int.log 2 x ≤ roundBits p x ∧ roundBits p x ≤ 2 ^ (Int.log 2 x + 1) := by
  obtain ⟨below, above⟩ := roundEven_bits some positive
  have unit := ulp_pos p x
  rw [← pow_pred_mul_ulp some, ← pow_mul_ulp p]
  constructor
  · exact mul_le_mul_of_nonneg_right (by exact_mod_cast below) unit.le
  · exact mul_le_mul_of_nonneg_right (by exact_mod_cast above) unit.le

theorem roundBits_mono (some : 0 < p) (nonneg : 0 ≤ x) (le : x ≤ y) :
    roundBits p x ≤ roundBits p y := by
  rcases nonneg.eq_or_lt with rfl | positive
  · rw [roundBits_zero]
    exact mul_nonneg (by exact_mod_cast roundEven_nonneg (div_nonneg le (ulp_pos p y).le))
      (ulp_pos p y).le
  · have positive' := positive.trans_le le
    rcases (Int.log_mono_right (b := 2) positive le).lt_or_eq with before | same
    · calc roundBits p x ≤ 2 ^ (Int.log 2 x + 1) := (roundBits_bounds some positive).2
        _ ≤ 2 ^ Int.log 2 y := zpow_le_zpow_right₀ one_le_two before
        _ ≤ roundBits p y := (roundBits_bounds some positive').1
    · have unit : ulp p x = ulp p y := by rw [ulp, ulp, same]
      rw [roundBits, roundBits, unit]
      have rounded := roundEven_mono (div_le_div_of_nonneg_right le (ulp_pos p y).le)
      exact mul_le_mul_of_nonneg_right (by exact_mod_cast rounded) (ulp_pos p y).le

/-- A multiple of the last bit has `p` bits, also where the bits carry over. -/
theorem hasBits_roundBits (some : 0 < p) (positive : 0 < x) : HasBits p (roundBits p x) := by
  obtain ⟨below, above⟩ := roundBits_bounds some positive
  have rounded : 0 < roundBits p x := (zpow_pos two_pos _).trans_le below
  rcases above.lt_or_eq with inside | carried
  · have unit : ulp p (roundBits p x) = ulp p x := by rw [ulp, ulp, log_eq rounded below inside]
    exact ⟨_, by rw [unit]; rfl⟩
  · have next : Int.log 2 (roundBits p x) = Int.log 2 x + 1 := by
      rw [carried]
      exact log_eq (zpow_pos two_pos _) le_rfl (zpow_lt_zpow_right₀ one_lt_two (by omega))
    refine ⟨2 ^ (p - 1), ?_⟩
    push_cast
    rw [pow_pred_mul_ulp some, next, carried]

omit [IsStrictOrderedRing K] in
theorem hasBits_zero (p : ℕ) : HasBits p (0 : K) := ⟨0, by simp⟩

/-- Powers of two only move the bits. -/
theorem HasBits.mul_zpow (bits : HasBits p x) (positive : 0 < x) (k : ℤ) :
    HasBits p (x * 2 ^ k) := by
  obtain ⟨below, above⟩ := log_bounds positive
  have scale : (0 : K) < 2 ^ k := zpow_pos two_pos _
  have moved : Int.log 2 (x * 2 ^ k) = Int.log 2 x + k := by
    apply log_eq (mul_pos positive scale)
    · rw [zpow_add₀ two_ne_zero]
      exact mul_le_mul_of_nonneg_right below scale.le
    · rw [add_right_comm, zpow_add₀ two_ne_zero _ k]
      exact mul_lt_mul_of_pos_right above scale
  obtain ⟨n, shape⟩ := bits
  refine ⟨n, ?_⟩
  have unit : ulp p (x * 2 ^ k) = ulp p x * 2 ^ k := by
    rw [ulp, ulp, moved, ← zpow_add₀ two_ne_zero]
    congr 1
    omega
  rw [unit, ← mul_assoc, ← shape]

/-- Integers below `2 ^ p` have `p` bits. -/
theorem hasBits_natCast {n : ℕ} (small : n < 2 ^ p) : HasBits p (n : K) := by
  rcases Nat.eq_zero_or_pos n with rfl | positive
  · rw [Nat.cast_zero]
    exact hasBits_zero p
  · have log : Int.log 2 (n : K) = Nat.log 2 n := Int.log_natCast 2 n
    have bits : Nat.log 2 n < p := Nat.log_lt_of_lt_pow positive.ne' small
    refine ⟨n * 2 ^ (p - 1 - Nat.log 2 n), ?_⟩
    push_cast
    rw [mul_assoc, ulp, log, ← zpow_natCast, ← zpow_add₀ two_ne_zero]
    have none : ((p - 1 - Nat.log 2 n : ℕ) : ℤ) + ((Nat.log 2 n : ℤ) + 1 - p) = 0 := by omega
    rw [none, zpow_zero, mul_one]

end Rounding
