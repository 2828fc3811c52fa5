import Mathlib.Data.Int.Log
import Mathlib.Data.Rat.Floor
import Mathlib.Algebra.Order.Field.Power
import Mathlib.Tactic.Ring

/-!
# Rounding to binary64

`Binary64.round` takes a rational to the nearest number with a significand of 53 bits, ties to the
even one: scale by the power of two that makes the significand an integer, round that, and scale
back. The exponent is not bounded, so the function is the IEEE 754 rounding for the magnitudes that
neither overflow nor are subnormal. Integers up to `2 ^ 53` are represented exactly
(`round_natCast`). `Double` adds the values that are not numbers, and its arithmetic overflows.
-/

namespace Binary64

/-- The nearest integer, and of two the even one. -/
def roundEven (q : ℚ) : ℤ :=
  let below := ⌊q⌋
  if q - below < 1 / 2 then below
  else if 1 / 2 < q - below then below + 1
  else if below % 2 = 0 then below
  else below + 1

/-- The exponent of the last bit of the significand. -/
def lastExponent (q : ℚ) : ℤ := Int.log 2 |q| - 52

/-- The nearest number with a significand of 53 bits. -/
def round (q : ℚ) : ℚ := roundEven (q * 2 ^ (-lastExponent q)) * 2 ^ lastExponent q

/-- The quotient of two numbers in the format. -/
def div (a b : ℚ) : ℚ := round (a / b)

@[simp]
theorem roundEven_intCast (n : ℤ) : roundEven n = n := by
  simp [roundEven]

/-- A number is its own rounding when its significand is an integer. -/
theorem round_eq_self {q : ℚ} {n : ℤ} (h : q * 2 ^ (-lastExponent q) = n) : round q = q := by
  rw [round, h, roundEven_intCast, ← h, mul_assoc, ← zpow_add₀ two_ne_zero]
  simp

@[simp]
theorem round_zero : round 0 = 0 := round_eq_self (n := 0) (by simp)

/-- Integers up to `2 ^ 53` are in the format. -/
theorem round_natCast {n : ℕ} (h : n ≤ 2 ^ 53) : round n = n := by
  rcases h.lt_or_eq with hlt | rfl
  · -- The last bit of the significand is at or below the units.
    have hlog : Nat.log 2 n ≤ 52 := by
      by_cases hn : n = 0
      · simp [hn]
      · exact Nat.lt_succ_iff.mp (Nat.log_lt_of_lt_pow hn hlt)
    have hexp : lastExponent n = (Nat.log 2 n : ℤ) - 52 := by
      rw [lastExponent, Nat.abs_cast, Int.log_natCast]
    refine round_eq_self (n := n * 2 ^ (52 - Nat.log 2 n)) ?_
    rw [hexp]
    push_cast
    rw [← zpow_natCast (2 : ℚ) (52 - Nat.log 2 n), Nat.cast_sub hlog]
    congr 2
    push_cast
    ring
  · have hexp : lastExponent ((2 ^ 53 : ℕ) : ℚ) = 1 := by
      rw [lastExponent, Nat.abs_cast, Int.log_natCast, Nat.log_pow (by norm_num)]
      norm_num
    refine round_eq_self (n := 2 ^ 52) ?_
    rw [hexp]
    norm_num

/-- A quotient of integers is exact when it is an integer and both fit the format. -/
theorem div_of_mul {m n k : ℕ} (hn : n ≠ 0) (hm : m = k * n) (h : k ≤ 2 ^ 53) : div m n = k := by
  have hn' : (n : ℚ) ≠ 0 := Nat.cast_ne_zero.mpr hn
  rw [div, hm, Nat.cast_mul, mul_div_assoc, div_self hn', mul_one, round_natCast h]

/-! ## Doubles -/

/-- A double; the sign of zero is left out. -/
inductive Double where
  | finite (value : ℚ)
  | infinity (negative : Bool)
  | nan
  deriving DecidableEq

namespace Double

/-- The double of a result that is not rounded yet. -/
def ofRat (q : ℚ) : Double :=
  if 2 ^ 1024 ≤ |round q| then infinity (decide (q < 0)) else finite (round q)

/-- The product of an integer and a double. -/
def natMul (n : ℕ) : Double → Double
  | finite q => ofRat (round n * q)
  | infinity negative => if n = 0 then nan else infinity negative
  | nan => nan

/-- The predecessor, as `--` computes it. -/
def pred : Double → Double
  | finite q => ofRat (q - 1)
  | infinity negative => infinity negative
  | nan => nan

def isPos : Double → Bool
  | finite q => decide (0 < q)
  | infinity negative => !negative
  | nan => false

/-- `ceil` throws where there is no integer. -/
def ceil : Double → Option ℤ
  | finite q => some ⌈q⌉
  | infinity _ | nan => none

/-- Integers up to `2 ^ 53` have a double. -/
theorem ofRat_natCast {n : ℕ} (h : n ≤ 2 ^ 53) : ofRat n = finite n := by
  have hlt : ¬(2 : ℚ) ^ 1024 ≤ |round n| := by
    rw [round_natCast h, Nat.abs_cast, not_le]
    exact_mod_cast lt_of_le_of_lt h (Nat.pow_lt_pow_right (by norm_num) (by norm_num))
  rw [ofRat, if_neg hlt, round_natCast h]

theorem natMul_natCast {m n : ℕ} (hm : m ≤ 2 ^ 53) (h : m * n ≤ 2 ^ 53) :
    natMul m (finite n) = finite (m * n : ℕ) := by
  rw [natMul, round_natCast hm, ← Nat.cast_mul, ofRat_natCast h]

end Double

end Binary64
