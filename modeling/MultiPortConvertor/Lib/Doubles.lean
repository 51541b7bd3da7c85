import Mathlib.Algebra.Order.Field.Basic
import Mathlib.Data.Rat.Floor
import Mathlib.Data.Nat.Notation
import Mathlib.Tactic.Linarith
import Mathlib.Tactic.NormNum

/-! # Numbers of type `double`

A finite `double` is a rational number. `Arithmetic` is what computing with them rests on: the
rounding of an exact result, the powers of ten of `pow` and the conversion to `int`. `binary64`
rounds to the nearest number with 53 binary digits, ties to even; numbers too large for a `double`
are not told apart. -/

namespace MultiPortConvertor.Lib.Doubles

/-- The nearest integer, ties to even. -/
def roundEven (q : ℚ) : ℤ :=
  if q - ⌊q⌋ < 1 / 2 then ⌊q⌋
  else if 1 / 2 < q - ⌊q⌋ then ⌊q⌋ + 1
  else if ⌊q⌋ % 2 = 0 then ⌊q⌋ else ⌊q⌋ + 1

@[simp] theorem roundEven_intCast (z : ℤ) : roundEven z = z := by
  simp [roundEven]

/-- What the arithmetic on `double` gives, exact for integers of 53 digits. -/
structure Arithmetic where
  rnd : ℚ → ℚ
  pow10 : ℤ → ℚ
  toInt : ℚ → Int32
  rnd_intCast : ∀ z : ℤ, z.natAbs ≤ 2 ^ 53 → rnd z = z
  pow10_zero : pow10 0 = 1
  toInt_intCast : ∀ z : ℤ, -2 ^ 31 ≤ z → z < 2 ^ 31 → toInt z = Int32.ofInt z

/-! ### Binary64 -/

/-- The exponent of the first binary digit. -/
def exponent (q : ℚ) : ℤ :=
  let e : ℤ := Nat.log2 q.num.natAbs - Nat.log2 q.den
  if (2 : ℚ) ^ e ≤ |q| then e else e - 1

/-- The place of the last of 53 digits; no place is below `2 ^ (-1074)`. -/
def ulp (q : ℚ) : ℚ := 2 ^ max (exponent q - 52) (-1074)

def rnd (q : ℚ) : ℚ := if q = 0 then 0 else roundEven (q / ulp q) * ulp q

/-- Towards zero. -/
def truncate (q : ℚ) : ℤ := if 0 ≤ q then ⌊q⌋ else ⌈q⌉

theorem exponent_intCast {z : ℤ} (hz : z ≠ 0) : exponent z = Nat.log2 z.natAbs := by
  have hle : (2 : ℚ) ^ ((Nat.log2 z.natAbs : ℕ) : ℤ) ≤ |(z : ℚ)| := by
    have h := Nat.log2_self_le (Int.natAbs_ne_zero.mpr hz)
    rw [zpow_natCast, ← Int.cast_abs, Int.abs_eq_natAbs]
    exact_mod_cast h
  have hone : Nat.log2 1 = 0 := by decide
  simp only [exponent, Rat.num_intCast, Rat.den_intCast, hone, Nat.cast_zero, sub_zero, if_pos hle]

/-- An integer of 53 digits has nothing below its last place. -/
theorem div_ulp_intCast {z : ℤ} (h0 : z ≠ 0) (hz : z.natAbs ≤ 2 ^ 53) :
    ∃ m : ℤ, (z : ℚ) / ulp z = m := by
  have hne : z.natAbs ≠ 0 := Int.natAbs_ne_zero.mpr h0
  have hlog := Nat.log2_self_le hne
  rw [ulp, exponent_intCast h0]
  rcases Nat.lt_or_ge z.natAbs.log2 53 with hlt | hge
  · obtain ⟨k, hk⟩ : ∃ k : ℕ, 52 = z.natAbs.log2 + k := ⟨52 - z.natAbs.log2, by omega⟩
    have hmax : max ((z.natAbs.log2 : ℤ) - 52) (-1074) = -(k : ℤ) := by omega
    refine ⟨z * 2 ^ k, ?_⟩
    rw [hmax, zpow_neg, div_inv_eq_mul, zpow_natCast]
    push_cast
    rfl
  · have habs : z.natAbs = 2 ^ 53 :=
      le_antisymm hz ((Nat.pow_le_pow_right (by decide) hge).trans hlog)
    have hmax : max ((z.natAbs.log2 : ℤ) - 52) (-1074) = 1 := by
      rw [habs, Nat.log2_two_pow]
      decide
    rw [hmax, zpow_one]
    rcases Int.natAbs_eq z with h | h
    · exact ⟨2 ^ 52, by rw [h, habs]; norm_num⟩
    · exact ⟨-2 ^ 52, by rw [h, habs]; norm_num⟩

theorem rnd_intCast {z : ℤ} (hz : z.natAbs ≤ 2 ^ 53) : rnd z = z := by
  by_cases h0 : z = 0
  · simp [rnd, h0]
  have hulp : ulp z ≠ 0 := zpow_ne_zero _ two_ne_zero
  obtain ⟨m, hm⟩ := div_ulp_intCast h0 hz
  rw [rnd, if_neg (Int.cast_ne_zero.mpr h0), hm, roundEven_intCast, ← hm, div_mul_cancel₀ _ hulp]

theorem truncate_intCast (z : ℤ) : truncate z = z := by
  simp [truncate]

def binary64 : Arithmetic where
  rnd := rnd
  pow10 k := rnd (10 ^ k)
  toInt q := Int32.ofInt (truncate q)
  rnd_intCast _ := rnd_intCast
  pow10_zero := by simpa using rnd_intCast (z := 1) (by decide)
  toInt_intCast z _ _ := by rw [truncate_intCast]

end MultiPortConvertor.Lib.Doubles
