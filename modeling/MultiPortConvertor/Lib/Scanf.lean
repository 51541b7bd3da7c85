import MultiPortConvertor.Lib.CString
import Mathlib.Data.List.TakeWhile

/-! # Numbers in texts

`sscanf` for formats made of characters, blanks and `%d` with a width, and `atoi`; the text of a
number, and what reading it back gives (`scanInt_digits`). -/

namespace MultiPortConvertor.Lib.Scanf

open MultiPortConvertor.Lib.CString

def isSpace (b : UInt8) : Bool := b == 0x20 || (0x09 ≤ b && b ≤ 0x0D)

def isDigit (b : UInt8) : Bool := 0x30 ≤ b && b ≤ 0x39

/-- The number that some digits stand for. -/
def value (ds : List UInt8) : ℕ := ds.foldl (fun n d => n * 10 + (d.toNat - 0x30)) 0

/-- The digits at the start of `s`, at most `width` of them, as a number with the sign `sign`. -/
def scanDigits (sign : ℤ) (width : ℕ) (s : List UInt8) : Option (ℤ × List UInt8) :=
  let ds := (s.take width).takeWhile isDigit
  if ds = [] then none else some (sign * value ds, s.drop ds.length)

/-- `%d` with a width: blanks are skipped, a sign counts. -/
def scanInt (width : ℕ) (s : List UInt8) : Option (ℤ × List UInt8) :=
  match s.dropWhile isSpace with
  | [] => none
  | b :: s =>
    if b = 0x2D then scanDigits (-1) (width - 1) s
    else if b = 0x2B then scanDigits 1 (width - 1) s
    else scanDigits 1 width (b :: s)

/-- What a format consists of. -/
inductive Directive where
  | char (b : UInt8)
  | space
  | int (width : ℕ)

/-- `sscanf`: the numbers assigned before the text no longer matches. -/
def sscanf : List Directive → List UInt8 → List ℤ
  | [], _ => []
  | .char _ :: _, [] => []
  | .char b :: fmt, c :: s => if c = b then sscanf fmt s else []
  | .space :: fmt, s => sscanf fmt (s.dropWhile isSpace)
  | .int width :: fmt, s =>
    match scanInt width s with
    | none => []
    | some (n, s) => n :: sscanf fmt s

def atoi (s : List UInt8) : ℤ :=
  match scanInt s.length s with
  | none => 0
  | some (n, _) => n

example : atoi (ascii "-0330") = -330 := by decide

/-! ### The text of a number -/

/-- The digit `d`. -/
def digit (d : ℕ) : UInt8 := UInt8.ofNat (0x30 + d)

theorem isDigit_digit {d : ℕ} (h : d < 10) : isDigit (digit d) = true := by
  revert h
  revert d
  decide

theorem ascii_append (s t : String) : ascii (s ++ t) = ascii s ++ ascii t := by
  simp [ascii]

theorem ascii_digitChar : ∀ d < 10, UInt8.ofNat (Nat.digitChar d).toNat = digit d := by decide

theorem ascii_repr_of_lt {n : ℕ} (h : n < 10) : ascii (toString n) = [digit n] := by
  rw [Nat.toString_eq_repr, Nat.repr_of_lt h, ← ascii_digitChar n h]
  simp [ascii]

theorem ascii_repr_of_ge {n : ℕ} (h : 10 ≤ n) :
    ascii (toString n) = ascii (toString (n / 10)) ++ [digit (n % 10)] := by
  rw [Nat.toString_eq_repr, Nat.repr_of_ge h, ascii_append, Nat.toString_eq_repr,
    ← ascii_digitChar _ (Nat.mod_lt n (by omega))]
  simp [ascii]

theorem value_concat (ds : List UInt8) {d : ℕ} (h : d < 10) :
    value (ds ++ [digit d]) = value ds * 10 + d := by
  have hd : (digit d).toNat = 0x30 + d := by
    rw [digit, UInt8.toNat_ofNat']
    omega
  rw [value, List.foldl_append, List.foldl_cons, List.foldl_nil, hd, Nat.add_sub_cancel_left]
  rfl

theorem isDigit_iff {b : UInt8} : isDigit b = true ↔ 0x30 ≤ b.toNat ∧ b.toNat ≤ 0x39 := by
  simp [isDigit, UInt8.le_iff_toNat_le]

/-- A digit is no blank and no sign. -/
theorem digit_ne {b : UInt8} (h : isDigit b = true) :
    isSpace b = false ∧ b ≠ 0x2D ∧ b ≠ 0x2B := by
  obtain ⟨h1, h2⟩ := isDigit_iff.mp h
  refine ⟨?_, ?_, ?_⟩
  · have h20 : b ≠ 0x20 := fun he => by rw [he] at h1; simp at h1
    have h0D : ¬ b ≤ 0x0D := by
      rw [UInt8.le_iff_toNat_le]
      show ¬ b.toNat ≤ 13
      omega
    simp [isSpace, h20, h0D]
  · rintro rfl
    simp at h1
  · rintro rfl
    simp at h1

/-- **Digits are read back**, as many as the width says. -/
theorem scanInt_digits {ds : List UInt8} (hds : ∀ b ∈ ds, isDigit b = true) (hne : ds ≠ [])
    (rest : List UInt8) :
    scanInt ds.length (ds ++ rest) = some ((value ds : ℤ), rest) := by
  obtain ⟨d, ds', hd⟩ := List.exists_cons_of_ne_nil hne
  obtain ⟨hspace, hminus, hplus⟩ := digit_ne (hds d (by simp [hd]))
  have hdrop : (ds ++ rest).dropWhile isSpace = d :: (ds' ++ rest) := by
    rw [hd, List.cons_append, List.dropWhile_cons_of_neg (by simp [hspace])]
  have htake : ((ds ++ rest).take ds.length).takeWhile isDigit = ds := by
    rw [List.take_left]
    exact List.takeWhile_eq_self_iff.mpr hds
  unfold scanInt
  rw [hdrop]
  dsimp only
  rw [if_neg hminus, if_neg hplus, ← List.cons_append, ← hd, scanDigits, htake, if_neg hne,
    List.drop_left, Int.one_mul]

theorem sscanf_char (b : UInt8) (fmt : List Directive) (s : List UInt8) :
    sscanf (.char b :: fmt) (b :: s) = sscanf fmt s := by
  rw [sscanf, if_pos rfl]

theorem sscanf_int (fmt : List Directive) {ds : List UInt8} (hds : ∀ b ∈ ds, isDigit b = true)
    (hne : ds ≠ []) (rest : List UInt8) :
    sscanf (.int ds.length :: fmt) (ds ++ rest) = (value ds : ℤ) :: sscanf fmt rest := by
  rw [sscanf, scanInt_digits hds hne]

/-- A blank in the format takes one in the text, if no other follows. -/
theorem sscanf_space (fmt : List Directive) {b : UInt8} (hb : isSpace b = false) (s : List UInt8) :
    sscanf (.space :: fmt) (0x20 :: b :: s) = sscanf fmt (b :: s) := by
  rw [sscanf, List.dropWhile_cons_of_pos (by decide), List.dropWhile_cons_of_neg (by simp [hb])]

/-- **The text of a number** is made of digits and stands for it. -/
theorem value_repr (n : ℕ) :
    (∀ b ∈ ascii (toString n), isDigit b = true) ∧ value (ascii (toString n)) = n := by
  induction n using Nat.strongRecOn with
  | ind n ih =>
    by_cases h : n < 10
    · rw [ascii_repr_of_lt h]
      exact ⟨by simpa using isDigit_digit h, by simpa [value] using value_concat [] h⟩
    · obtain ⟨hdigits, hvalue⟩ := ih (n / 10) (by omega)
      have hlt : n % 10 < 10 := Nat.mod_lt n (by omega)
      rw [ascii_repr_of_ge (by omega)]
      constructor
      · intro b hb
        rcases List.mem_append.mp hb with hb | hb
        · exact hdigits b hb
        · rw [List.mem_singleton.mp hb]
          exact isDigit_digit hlt
      · rw [value_concat _ hlt, hvalue]
        omega

/-! ### Numbers of a fixed width -/

/-- The last `k` digits of `n`. -/
def digits : ℕ → ℕ → List UInt8
  | 0, _ => []
  | k + 1, n => digits k (n / 10) ++ [digit (n % 10)]

@[simp] theorem length_digits : ∀ (k n : ℕ), (digits k n).length = k
  | 0, _ => rfl
  | k + 1, n => by rw [digits, List.length_append, length_digits k]; rfl

theorem isDigit_of_mem : ∀ {k n : ℕ}, ∀ b ∈ digits k n, isDigit b = true
  | 0, _, b, hb => by cases hb
  | k + 1, n, b, hb => by
    rcases List.mem_append.mp hb with hb | hb
    · exact isDigit_of_mem b hb
    · rw [List.mem_singleton.mp hb]
      exact isDigit_digit (Nat.mod_lt n (by omega))

theorem value_digits : ∀ {k n : ℕ}, n < 10 ^ k → value (digits k n) = n
  | 0, n, h => by
    obtain rfl : n = 0 := by simpa using h
    rfl
  | k + 1, n, h => by
    rw [Nat.pow_succ] at h
    rw [digits, value_concat _ (Nat.mod_lt n (by omega)), value_digits (by omega)]
    omega

/-- **A number of `k` digits is read back.** -/
theorem sscanf_digits (fmt : List Directive) {k n : ℕ} (hk : k ≠ 0) (hn : n < 10 ^ k)
    (rest : List UInt8) :
    sscanf (.int k :: fmt) (digits k n ++ rest) = (n : ℤ) :: sscanf fmt rest := by
  have hne : digits k n ≠ [] := fun h => hk (by rw [← length_digits k n, h]; rfl)
  have h := sscanf_int fmt isDigit_of_mem hne rest
  rw [length_digits, value_digits hn] at h
  exact h

/-- The text of a number of `k + 1` digits. -/
theorem ascii_toString : ∀ {k n : ℕ}, 10 ^ k ≤ n ∨ k = 0 → n < 10 ^ (k + 1) →
    ascii (toString n) = digits (k + 1) n
  | 0, n, _, h => by
    have h : n < 10 := by simpa using h
    rw [ascii_repr_of_lt h]
    simp [digits, Nat.mod_eq_of_lt h]
  | k + 1, n, hk, h => by
    have hk : 10 ^ k * 10 ≤ n := by
      rw [← Nat.pow_succ]
      exact hk.resolve_right (by omega)
    have h10 : 10 ≤ n := by
      have : 0 < 10 ^ k := Nat.pow_pos (by omega)
      omega
    have h : n < 10 ^ (k + 1) * 10 := by
      rw [← Nat.pow_succ]
      exact h
    rw [ascii_repr_of_ge h10, ascii_toString (k := k) (.inl (by omega)) (by omega)]
    rfl

end MultiPortConvertor.Lib.Scanf
