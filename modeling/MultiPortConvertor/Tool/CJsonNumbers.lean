import MultiPortConvertor.Lib.Printf
import MultiPortConvertor.Tool.CJsonParse

/-! # Numerals read

`parse_number` takes a numeral whole, whatever ends it (`parseNumber_text`), and the text of an
integer gives the integer (`read_ofInt`). -/

namespace MultiPortConvertor.Tool.CJsonNumbers

open MultiPortConvertor.Lib.CString MultiPortConvertor.Lib.Doubles MultiPortConvertor.Lib.Parsers
open MultiPortConvertor.Lib.Scanf MultiPortConvertor.Lib.Printf
open MultiPortConvertor.Tool.CJson MultiPortConvertor.Tool.CJsonParse

/-- A text that does not go on with a digit. -/
def NoDigit (r : List UInt8) : Prop := ∀ b ∈ r.head?, isDigit b = false

/-- A text that does not go on with what could belong to a numeral. -/
def Ends (r : List UInt8) : Prop :=
  ∀ b ∈ r.head?, isDigit b = false ∧ b ≠ 0x2E ∧ b ≠ 0x65 ∧ b ≠ 0x45

theorem Ends.noDigit {r : List UInt8} (h : Ends r) : NoDigit r := fun b hb => (h b hb).1

theorem ends_cons {b : UInt8} {r : List UInt8}
    (h : isDigit b = false ∧ b ≠ 0x2E ∧ b ≠ 0x65 ∧ b ≠ 0x45) :
    Ends (b :: r) := fun _ hc => Option.mem_some_iff.mp hc ▸ h

/-- What a numeral is read as. -/
def read (fpu : Arithmetic) (n : Numeral) : CJSON :=
  let m := (digitsLoop fpu (wholePart fpu n.whole).1 n.frac).1
  let e : Int32 := (n.exp.map fun e => (subscaleLoop 0 e.2).1 * if e.1 then -1 else 1).getD 0
  let q := fpu.rnd ((if n.neg then -1 else 1) * m * fpu.pow10 (-n.frac.length + e.toInt))
  .number (fpu.toInt q) q

variable {fpu : Arithmetic} {ds r : List UInt8}

/-! ### The parts of a numeral -/

theorem digitsLoop_append (hr : NoDigit r) : ∀ {ds : List UInt8} {n : ℚ},
    (∀ b ∈ ds, isDigit b = true) → digitsLoop fpu n (ds ++ r) = ((digitsLoop fpu n ds).1, r)
  | [], n, _ => by
    cases r with
    | nil => rfl
    | cons b r => simp [digitsLoop, hr b rfl]
  | d :: ds, n, hds => by
    obtain ⟨hd, hds⟩ := List.forall_mem_cons.mp hds
    simp only [List.cons_append, digitsLoop, hd, if_true]
    exact digitsLoop_append hr hds

theorem subscaleLoop_append (hr : NoDigit r) : ∀ {ds : List UInt8} {n : Int32},
    (∀ b ∈ ds, isDigit b = true) → subscaleLoop n (ds ++ r) = ((subscaleLoop n ds).1, r)
  | [], n, _ => by
    cases r with
    | nil => rfl
    | cons b r => simp [subscaleLoop, hr b rfl]
  | d :: ds, n, hds => by
    obtain ⟨hd, hds⟩ := List.forall_mem_cons.mp hds
    simp only [List.cons_append, subscaleLoop, hd, if_true]
    exact subscaleLoop_append hr hds

/-- The digits that begin a number are those from 1 to 9. -/
theorem first_digit {d : UInt8} (hd : isDigit d = true) (h0 : d ≠ 0x30) : 0x31 ≤ d ∧ d ≤ 0x39 := by
  obtain ⟨h1, h2⟩ := isDigit_iff.mp hd
  have hne : d.toNat ≠ 0x30 := fun he => h0 (UInt8.toNat_inj.mp he)
  rw [UInt8.le_iff_toNat_le, UInt8.le_iff_toNat_le]
  exact ⟨show 0x31 ≤ d.toNat by omega, h2⟩

theorem wholePart_cons {d : UInt8} (hd : isDigit d = true) (h0 : d ≠ 0x30) (s : List UInt8) :
    wholePart fpu (d :: s) = digitsLoop fpu 0 (d :: s) := by
  simp [wholePart, nonzeroPart, h0, first_digit hd h0]

theorem wholePart_append (n : Numeral) (hr : NoDigit r) :
    wholePart fpu (n.whole ++ r) = ((wholePart fpu n.whole).1, r) := by
  rcases n.canonical with h | ⟨d, ds, h, h0⟩
  · rw [h]
    cases r with
    | nil => rfl
    | cons b r =>
      have hb : ¬ (0x31 ≤ b ∧ b ≤ 0x39) := by
        rintro ⟨h1, h2⟩
        have hlt := UInt8.le_iff_toNat_le.mp h1
        have hdigit : isDigit b = true := isDigit_iff.mpr ⟨le_trans (by decide) hlt,
          UInt8.le_iff_toNat_le.mp h2⟩
        rw [hr b rfl] at hdigit
        exact Bool.false_ne_true hdigit
      simp [wholePart, nonzeroPart, hb]
  · have hd : isDigit d = true := n.isDigit_whole d (by simp [h])
    rw [h, List.cons_append, wholePart_cons hd h0, wholePart_cons hd h0, ← List.cons_append]
    exact digitsLoop_append hr fun b hb => n.isDigit_whole b (h ▸ hb)

theorem fracPart_append (n : Numeral) (q : ℚ) (hr : ∀ b ∈ r.head?, isDigit b = false ∧ b ≠ 0x2E) :
    fracPart fpu q (point n.frac ++ r) = ((digitsLoop fpu q n.frac).1,
      -(n.frac.length : ℤ), r) := by
  have hdigits := n.isDigit_frac
  cases hf : n.frac with
  | nil =>
    rcases r with _ | ⟨b, _ | ⟨c, r⟩⟩
    · rfl
    · rfl
    · simp [point, fracPart, digitsLoop, (hr b rfl).2]
  | cons d ds =>
    rw [hf] at hdigits
    have hd := hdigits d (by simp)
    have hloop : digitsLoop fpu q (d :: (ds ++ r)) = _ :=
      digitsLoop_append (fun b hb => (hr b hb).1) hdigits
    simp [point, fracPart, hd, hloop]
    omega

theorem exponentPart_append (n : Numeral) (hr : Ends r) : exponentPart (exponentText n.exp ++ r) =
    ((n.exp.map fun e => (subscaleLoop 0 e.2).1 * if e.1 then -1 else 1).getD 0, r) := by
  have hdigits := n.isDigit_exp
  rcases he : n.exp with _ | ⟨neg, ds⟩
  · cases r with
    | nil => rfl
    | cons b r => simp [exponentText, exponentPart, hr b rfl]
  · have hloop := subscaleLoop_append (n := 0) hr.noDigit (hdigits (neg, ds) he)
    dsimp only at hloop
    cases neg <;> simp [exponentText, exponentPart, signsubscale, hloop]

/-! ### A numeral -/

theorem head_exponentText {e : Option (Bool × List UInt8)} (hr : Ends r) :
    ∀ b ∈ (exponentText e ++ r).head?, isDigit b = false ∧ b ≠ 0x2E := by
  rcases e with _ | ⟨neg, ds⟩
  · exact fun b hb => ⟨(hr b hb).1, (hr b hb).2.1⟩
  · intro b hb
    obtain rfl : 0x65 = b := Option.mem_some_iff.mp hb
    decide

theorem head_point {frac s : List UInt8} (hs : NoDigit s) : NoDigit (point frac ++ s) := by
  unfold point
  split_ifs
  · exact hs
  · intro b hb
    obtain rfl : 0x2E = b := Option.mem_some_iff.mp hb
    decide

theorem exists_whole_cons (n : Numeral) : ∃ d w, n.whole = d :: w ∧ isDigit d = true := by
  have hdigits := n.isDigit_whole
  rcases n.canonical with h | ⟨d, w, h, _⟩
  all_goals
    rw [h] at hdigits
    exact ⟨_, _, h, hdigits _ (by simp)⟩

/-- A numeral begins with a sign or a digit. -/
theorem exists_text_cons (n : Numeral) : ∃ b t, n.text = b :: t ∧
    (b = 0x2D ∨ isDigit b = true) := by
  obtain ⟨d, w, hw, hd⟩ := exists_whole_cons n
  cases hneg : n.neg with
  | false => exact ⟨d, w ++ (point n.frac ++ exponentText n.exp), by
      simp [Numeral.text, sign, hneg, hw], .inr hd⟩
  | true => exact ⟨0x2D, n.whole ++ (point n.frac ++ exponentText n.exp),
      by simp [Numeral.text, sign, hneg], .inl rfl⟩

/-- **A numeral is read whole**, if what follows ends it. -/
theorem parseNumber_text (n : Numeral) (hr : Ends r) : parseNumber fpu (n.text ++ r) =
    .ok (read fpu n) r := by
  have hexp := head_exponentText (e := n.exp) hr
  have hpoint : NoDigit (point n.frac ++ (exponentText n.exp ++ r)) :=
    head_point fun b hb => (hexp b hb).1
  obtain ⟨d, w, hw, hdigit⟩ := exists_whole_cons n
  have hd : d ≠ 0x2D := by
    rintro rfl
    exact absurd hdigit (by decide)
  have hsign : signPart (n.text ++ r) = (if n.neg then -1 else 1,
      n.whole ++ (point n.frac ++ (exponentText n.exp ++ r))) := by
    cases hneg : n.neg <;> simp [signPart, Numeral.text, sign, hneg, hw, hd]
  unfold parseNumber
  dsimp only
  rw [hsign, wholePart_append n hpoint, fracPart_append n _ hexp, exponentPart_append n hr]
  rfl

/-! ### Integers -/

theorem le_foldl_value : ∀ (ds : List UInt8) (k : ℕ),
    k ≤ ds.foldl (fun n d => n * 10 + (d.toNat - 0x30)) k
  | [], k => Nat.le_refl k
  | d :: ds, k => by
    have h := le_foldl_value ds (k * 10 + (d.toNat - 0x30))
    rw [List.foldl_cons]
    omega

theorem rnd_natCast {n : ℕ} (h : n ≤ 2 ^ 53) : fpu.rnd n = n := by
  have hz := fpu.rnd_intCast n (by simpa using h)
  exact_mod_cast hz

/-- **The loop over digits computes their value**, as long as it has 53 binary digits. -/
theorem digitsLoop_eq : ∀ {ds : List UInt8} {k : ℕ}, (∀ b ∈ ds, isDigit b = true) →
    ds.foldl (fun n d => n * 10 + (d.toNat - 0x30)) k ≤ 2 ^ 53 →
    (digitsLoop fpu k ds).1 = (ds.foldl (fun n d => n * 10 + (d.toNat - 0x30)) k : ℕ)
  | [], k, _, _ => rfl
  | d :: ds, k, hds, hle => by
    obtain ⟨hd, hds⟩ := List.forall_mem_cons.mp hds
    rw [List.foldl_cons] at hle ⊢
    have hk := (le_foldl_value ds _).trans hle
    have hrnd : fpu.rnd ((k * 10 : ℕ) : ℚ) = ((k * 10 : ℕ) : ℚ) := rnd_natCast (by omega)
    have h10 : fpu.rnd ((k : ℚ) * 10) = ((k * 10 : ℕ) : ℚ) := by
      rw [← hrnd, Nat.cast_mul]
      rfl
    have hstep : fpu.rnd (((k * 10 : ℕ) : ℚ) + ((d.toNat - 0x30 : ℕ) : ℚ)) =
        ((k * 10 + (d.toNat - 0x30) : ℕ) : ℚ) := by
      rw [← Nat.cast_add, rnd_natCast hk]
    rw [digitsLoop, if_pos hd, h10, hstep]
    exact digitsLoop_eq hds hle

/-- The digits before the point stand for their value. -/
theorem wholePart_eq (n : Numeral) (h : value n.whole ≤ 2 ^ 53) :
    (wholePart fpu n.whole).1 = value n.whole := by
  rcases n.canonical with hw | ⟨d, ds, hw, h0⟩
  · rw [hw]
    rfl
  · have hd : isDigit d = true := n.isDigit_whole d (by simp [hw])
    have hloop : (digitsLoop fpu (0 : ℕ) n.whole).1 = _ := digitsLoop_eq n.isDigit_whole h
    rw [Nat.cast_zero] at hloop
    rw [hw, wholePart_cons hd h0, ← hw]
    exact hloop

/-- **The text of an integer** is read as the integer. -/
theorem read_ofInt (z : Int32) : read fpu (ofInt z.toInt) = .number z z.toInt := by
  have hlo := z.le_toInt
  have hhi := z.toInt_lt
  have hvalue : value (ofInt z.toInt).whole = z.toInt.natAbs := (value_repr _).2
  have hwhole : (wholePart fpu (ofInt z.toInt).whole).1 = _ :=
    wholePart_eq _ (by rw [hvalue]; omega)
  rw [hvalue] at hwhole
  have hsign : (if (ofInt z.toInt).neg then -1 else 1) * (z.toInt.natAbs : ℚ) = z.toInt := by
    show (if decide (z.toInt < 0) then -1 else 1) * (z.toInt.natAbs : ℚ) = z.toInt
    rcases lt_or_ge z.toInt 0 with h | h
    · simp [h, abs_of_neg]
    · simp [not_lt.mpr h, h]
  have hrnd : fpu.rnd z.toInt = z.toInt := fpu.rnd_intCast _ (by omega)
  have hint : fpu.toInt z.toInt = z := by
    rw [fpu.toInt_intCast _ hlo hhi, Int32.ofInt_toInt]
  have hfrac : (ofInt z.toInt).frac = [] := rfl
  have hexp : (ofInt z.toInt).exp = none := rfl
  simp only [read, hfrac, hexp, digitsLoop, hwhole, hsign]
  simp [fpu.pow10_zero, hrnd, hint]

end MultiPortConvertor.Tool.CJsonNumbers
