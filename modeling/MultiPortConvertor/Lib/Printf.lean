import MultiPortConvertor.Lib.Doubles
import MultiPortConvertor.Lib.Scanf
import Mathlib.Data.Int.Log

/-! # Numbers as `sprintf` writes them

The conversions `%d`, `%.0f`, `%f` and `%e`; the decimals are rounded to the nearest, ties to even.
What they write is the text of a `Numeral`. -/

namespace MultiPortConvertor.Lib.Printf

open MultiPortConvertor.Lib.CString MultiPortConvertor.Lib.Scanf MultiPortConvertor.Lib.Doubles

/-- A numeral with its parts: the sign, the digits before and behind the point, the exponent. -/
structure Numeral where
  neg : Bool
  whole : List UInt8
  frac : List UInt8
  exp : Option (Bool × List UInt8)
  isDigit_whole : ∀ b ∈ whole, isDigit b = true
  canonical : whole = [0x30] ∨ ∃ d ds, whole = d :: ds ∧ d ≠ 0x30
  isDigit_frac : ∀ b ∈ frac, isDigit b = true
  isDigit_exp : ∀ e ∈ exp, ∀ b ∈ e.2, isDigit b = true

def sign (neg : Bool) : List UInt8 := if neg then [0x2D] else []

/-- The point and the digits behind it. -/
def point (frac : List UInt8) : List UInt8 := if frac = [] then [] else 0x2E :: frac

def exponentText : Option (Bool × List UInt8) → List UInt8
  | none => []
  | some (neg, ds) => 0x65 :: (if neg then 0x2D else 0x2B) :: ds

def Numeral.text (n : Numeral) : List UInt8 :=
  sign n.neg ++ (n.whole ++ (point n.frac ++ exponentText n.exp))

/-- `%d`. -/
def fmtD (z : ℤ) : List UInt8 := sign (z < 0) ++ ascii (toString z.natAbs)

/-- `%.0f`. -/
def fmtF0 (q : ℚ) : List UInt8 := sign (q < 0) ++ ascii (toString (roundEven |q|).natAbs)

/-- `%f`. -/
def fmtF (q : ℚ) : List UInt8 :=
  let m := (roundEven (|q| * 10 ^ 6)).natAbs
  sign (q < 0) ++ (ascii (toString (m / 10 ^ 6)) ++ 0x2E :: digits 6 m)

/-- The seven digits of `%e` and the exponent; a rounding up to eight digits moves the point. -/
def scientific (q : ℚ) : ℕ × ℤ :=
  let e := Int.log 10 |q|
  let m := (roundEven (|q| / 10 ^ e * 10 ^ 6)).natAbs
  if m < 10 ^ 7 then (m, e) else (10 ^ 6, e + 1)

/-- `%e`. -/
def fmtE (q : ℚ) : List UInt8 :=
  let (m, e) := scientific q
  sign (q < 0) ++ digit (m / 10 ^ 6) :: 0x2E ::
  (digits 6 m ++ 0x65 :: (if e < 0 then 0x2D else 0x2B) ::
    (if e.natAbs < 10 then digits 2 e.natAbs else ascii (toString e.natAbs)))

/-! ### They are numerals -/

theorem digit_inj_zero {d : ℕ} (h : d < 10) : digit d = 0x30 ↔ d = 0 := by
  revert h
  revert d
  decide

/-- A number other than 0 does not begin with a 0. -/
theorem exists_toString_cons : ∀ {n : ℕ}, n ≠ 0 → ∃ d ds, ascii (toString n) = d :: ds ∧
    d ≠ 0x30 := by
  intro n
  induction n using Nat.strongRecOn with
  | ind n ih =>
    intro hn
    by_cases h : n < 10
    · exact ⟨digit n, [], ascii_repr_of_lt h, fun he => hn ((digit_inj_zero h).mp he)⟩
    · obtain ⟨d, ds, hds, hd⟩ := ih (n / 10) (by omega) (by omega)
      exact ⟨d, ds ++ [digit (n % 10)], by rw [ascii_repr_of_ge (by omega), hds]; rfl, hd⟩

theorem toString_canonical (n : ℕ) :
    ascii (toString n) = [0x30] ∨ ∃ d ds, ascii (toString n) = d :: ds ∧ d ≠ 0x30 := by
  by_cases hn : n = 0
  · subst hn
    exact .inl (by decide)
  · exact .inr (exists_toString_cons hn)

/-- The numeral of an integer. -/
def ofInt (z : ℤ) : Numeral where
  neg := z < 0
  whole := ascii (toString z.natAbs)
  frac := []
  exp := none
  isDigit_whole := (value_repr z.natAbs).1
  canonical := toString_canonical z.natAbs
  isDigit_frac := by simp
  isDigit_exp := by simp

theorem text_ofInt (z : ℤ) : (ofInt z).text = fmtD z := by
  simp [Numeral.text, ofInt, fmtD, point, exponentText]

theorem fmtF0_numeral (q : ℚ) : ∃ n : Numeral, n.text = fmtF0 q :=
  ⟨{ neg := q < 0
     whole := ascii (toString (roundEven |q|).natAbs)
     frac := []
     exp := none
     isDigit_whole := (value_repr _).1
     canonical := toString_canonical _
     isDigit_frac := by simp
     isDigit_exp := by simp }, by simp [Numeral.text, fmtF0, point, exponentText]⟩

theorem fmtF_numeral (q : ℚ) : ∃ n : Numeral, n.text = fmtF q :=
  ⟨{ neg := q < 0
     whole := ascii (toString ((roundEven (|q| * 10 ^ 6)).natAbs / 10 ^ 6))
     frac := digits 6 (roundEven (|q| * 10 ^ 6)).natAbs
     exp := none
     isDigit_whole := (value_repr _).1
     canonical := toString_canonical _
     isDigit_frac := isDigit_of_mem
     isDigit_exp := by simp }, by
    have hne : digits 6 (roundEven (|q| * 10 ^ 6)).natAbs ≠ [] := fun h => by
      simpa using congrArg List.length h
    simp [Numeral.text, fmtF, point, hne, exponentText]⟩

theorem scientific_lt (q : ℚ) : (scientific q).1 < 10 ^ 7 := by
  unfold scientific
  dsimp only
  split_ifs with h
  · exact h
  · norm_num

theorem fmtE_numeral (q : ℚ) : ∃ n : Numeral, n.text = fmtE q := by
  have hlt : (scientific q).1 / 10 ^ 6 < 10 := by
    have := scientific_lt q
    omega
  have hne : digits 6 (scientific q).1 ≠ [] := fun h => by simpa using congrArg List.length h
  refine ⟨{ neg := q < 0
            whole := [digit ((scientific q).1 / 10 ^ 6)]
            frac := digits 6 (scientific q).1
            exp := some ((scientific q).2 < 0, if (scientific q).2.natAbs < 10 then
              digits 2 (scientific q).2.natAbs else ascii (toString (scientific q).2.natAbs))
            isDigit_whole := by simpa using isDigit_digit hlt
            canonical := ?_
            isDigit_frac := isDigit_of_mem
            isDigit_exp := ?_ }, ?_⟩
  · by_cases h : digit ((scientific q).1 / 10 ^ 6) = 0x30
    · exact .inl (by rw [h])
    · exact .inr ⟨_, [], rfl, h⟩
  · rintro e he
    obtain rfl := Option.mem_some_iff.mp he
    dsimp only
    split_ifs
    · exact isDigit_of_mem
    · exact (value_repr _).1
  · simp [Numeral.text, fmtE, point, hne, exponentText]

/-! ### Their lengths -/

theorem length_toString_le : ∀ {k n : ℕ}, n < 10 ^ (k + 1) → (ascii (toString n)).length ≤ k + 1
  | 0, n, h => by
    rw [ascii_repr_of_lt (by simpa using h)]
    exact le_rfl
  | k + 1, n, h => by
    by_cases h10 : n < 10
    · rw [ascii_repr_of_lt h10]
      simp
    · have hdiv : n / 10 < 10 ^ (k + 1) := by
        rw [Nat.pow_succ] at h
        omega
      rw [ascii_repr_of_ge (by omega), List.length_append, List.length_singleton]
      exact Nat.succ_le_succ (length_toString_le hdiv)

theorem length_sign_le (neg : Bool) : (sign neg).length ≤ 1 := by
  cases neg <;> simp [sign]

theorem length_fmtD_le {z : ℤ} {k : ℕ} (h : z.natAbs < 10 ^ (k + 1)) : (fmtD z).length ≤ k + 2 := by
  have hs := length_sign_le (z < 0)
  have hd := length_toString_le h
  rw [fmtD, List.length_append]
  omega

theorem roundEven_le {q : ℚ} {m : ℤ} (h : q ≤ m) : roundEven q ≤ m := by
  have hfloor : ⌊q⌋ ≤ m := by exact_mod_cast (Int.floor_le q).trans h
  have hhalf : 1 / 2 ≤ q - ⌊q⌋ → ⌊q⌋ + 1 ≤ m := by
    intro hq
    have hlt : (⌊q⌋ : ℚ) < m := by linarith
    exact_mod_cast hlt
  unfold roundEven
  split_ifs with h1 h2 h3
  · exact hfloor
  · exact hhalf h2.le
  · exact hfloor
  · exact hhalf (not_lt.mp h1)

theorem roundEven_nonneg {q : ℚ} (h : 0 ≤ q) : 0 ≤ roundEven q := by
  have hfloor : 0 ≤ ⌊q⌋ := Int.floor_nonneg.mpr h
  unfold roundEven
  split_ifs <;> omega

theorem natAbs_roundEven_le {q : ℚ} {m : ℕ} (h0 : 0 ≤ q) (h : q ≤ m) :
    (roundEven q).natAbs ≤ m := by
  have hle : roundEven q ≤ (m : ℤ) := roundEven_le (by exact_mod_cast h)
  have hnonneg := roundEven_nonneg h0
  omega

theorem length_fmtF0_le {q : ℚ} {k : ℕ} (h : |q| ≤ 10 ^ k) : (fmtF0 q).length ≤ k + 2 := by
  have hm : (roundEven |q|).natAbs ≤ 10 ^ k :=
    natAbs_roundEven_le (abs_nonneg q) (by exact_mod_cast h)
  have hlt : (roundEven |q|).natAbs < 10 ^ (k + 1) :=
    lt_of_le_of_lt hm (Nat.pow_lt_pow_right (by norm_num) (Nat.lt_succ_self k))
  have hs := length_sign_le (q < 0)
  have hd := length_toString_le hlt
  rw [fmtF0, List.length_append]
  omega

theorem length_fmtF_le {q : ℚ} {k : ℕ} (h : |q| ≤ 10 ^ k) : (fmtF q).length ≤ k + 9 := by
  have hm : (roundEven (|q| * 10 ^ 6)).natAbs ≤ 10 ^ k * 10 ^ 6 := by
    refine natAbs_roundEven_le (by positivity) ?_
    push_cast
    exact mul_le_mul_of_nonneg_right h (by norm_num)
  have hdiv : (roundEven (|q| * 10 ^ 6)).natAbs / 10 ^ 6 ≤ 10 ^ k :=
    Nat.div_le_of_le_mul (by rwa [Nat.mul_comm])
  have hlt := lt_of_le_of_lt hdiv (Nat.pow_lt_pow_right (by norm_num) (Nat.lt_succ_self k))
  have hs := length_sign_le (q < 0)
  have hd := length_toString_le hlt
  simp only [fmtF, List.length_append, List.length_cons, length_digits]
  omega

/-- The exponent of a number between two powers of ten. -/
theorem natAbs_log_le {q : ℚ} {k : ℕ} (hlow : 1 ≤ |q| * 10 ^ k) (hhigh : |q| < 10 ^ k) :
    (Int.log 10 |q|).natAbs ≤ k := by
  have hpos : 0 < |q| := by
    by_contra hq
    have hzero : |q| = 0 := le_antisymm (not_lt.mp hq) (abs_nonneg q)
    rw [hzero, zero_mul] at hlow
    exact absurd hlow (by norm_num)
  have h1 : Int.log 10 |q| < k := by
    refine (Int.lt_zpow_iff_log_lt (by norm_num) hpos).mp ?_
    exact_mod_cast hhigh
  have h2 : -(k : ℤ) ≤ Int.log 10 |q| := by
    refine (Int.zpow_le_iff_le_log (by norm_num) hpos).mp ?_
    rw [zpow_neg, zpow_natCast]
    exact (inv_le_iff_one_le_mul₀ (by positivity)).mpr (by exact_mod_cast hlow)
  omega

theorem length_fmtE_le {q : ℚ} {k j : ℕ} (hlow : 1 ≤ |q| * 10 ^ k) (hhigh : |q| < 10 ^ k)
    (hk : k + 1 < 10 ^ (j + 2)) : (fmtE q).length ≤ j + 13 := by
  have hlog := natAbs_log_le hlow hhigh
  have he : (scientific q).2.natAbs < 10 ^ (j + 2) := by
    refine lt_of_le_of_lt ?_ hk
    unfold scientific
    dsimp only
    split_ifs <;> dsimp only <;> omega
  have hs := length_sign_le (q < 0)
  have hd := length_toString_le he
  unfold fmtE
  rcases hme : scientific q with ⟨m, e⟩
  rw [hme] at he hd
  dsimp only at hd ⊢
  split_ifs <;> simp only [List.length_append, List.length_cons, length_digits] <;> omega

end MultiPortConvertor.Lib.Printf
