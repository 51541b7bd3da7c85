import MultiPortConvertor.Tool.CJsonParse

/-! # Strings written and read back

`print_string_ptr` writes every string so that both passes of `parse_string` end at the closing
quote and the second stores the string again. -/

namespace MultiPortConvertor.Tool.CJsonStrings

open MultiPortConvertor.Lib.CString MultiPortConvertor.Lib.Parsers
open MultiPortConvertor.Tool.CJson MultiPortConvertor.Tool.CJsonParse

variable {b : UInt8} {s t : List UInt8}

/-- A C string. -/
def CStr (s : List UInt8) : Prop := 0 ∉ s

instance : DecidablePred CStr := fun _ => inferInstanceAs (Decidable (¬ _))

/-! ### The passes, one step at a time -/

theorem unescape_quote : unescape 0 (0x22 :: t) = .ok [] t := by cases t <;> simp [unescape]

theorem unescape_plain (h1 : b ≠ 0x22) (h2 : b ≠ 0x5C) :
    unescape 0 (b :: t) = (unescape 0 t).map (b :: ·) := by
  cases t <;> simp [unescape, h1, h2]

theorem unescape_escape (c : UInt8) :
    unescape 0 (0x5C :: c :: t) = (unescape (escape c t).2 t).map ((escape c t).1 ++ ·) := by
  simp [unescape]

theorem lenPass_quote : lenPass (0x22 :: t) = .ok 0 t := by cases t <;> simp [lenPass]

theorem lenPass_plain (h1 : b ≠ 0x22) (h2 : b ≠ 0x5C) :
    lenPass (b :: t) = (lenPass t).map (· + 1) := by
  cases t <;> simp [lenPass, h1, h2]

theorem lenPass_escape (c : UInt8) : lenPass (0x5C :: c :: t) = (lenPass t).map (· + 1) := by
  simp [lenPass]

/-! ### One character -/

theorem hexValue_hexDigit : ∀ n < 16, hexValue (hexDigit n) = some n := by decide

theorem hexDigit_plain : ∀ n < 16, hexDigit n ≠ 0x22 ∧ hexDigit n ≠ 0x5C := by decide

/-- A control character is read back from its four digits. -/
theorem unicode_control (h0 : b ≠ 0) (h : b < 32) :
    unicode (0x30 :: 0x30 :: hexDigit (b.toNat / 16) :: hexDigit (b.toNat % 16) :: t) =
    ([b], 4) := by
  have hb : b.toNat < 32 := UInt8.lt_iff_toNat_lt.mp h
  have hne : b.toNat ≠ 0 := fun he => h0 (UInt8.toNat_inj.mp he)
  have h30 : hexValue 0x30 = some 0 := by decide
  have huc : parseHex4 (0x30 :: 0x30 :: hexDigit (b.toNat / 16) :: hexDigit (b.toNat % 16) :: t) =
      b.toNat := by
    simp only [parseHex4, h30, hexValue_hexDigit _ (show b.toNat / 16 < 16 by omega),
      hexValue_hexDigit _ (show b.toNat % 16 < 16 by omega)]
    omega
  have hutf : utf8 b.toNat = [b] := by
    simp [utf8, show b.toNat < 128 by omega, continuation, firstByteMark]
  unfold unicode
  simp only [huc]
  rw [if_neg (by omega), if_neg (by omega), hutf]

/-- **A character that was written is stored again**, and the first pass counts it. -/
theorem read_printChar (hb : b ≠ 0) (t : List UInt8) :
    unescape 0 (printChar b ++ t) = (unescape 0 t).map (b :: ·) ∧
      ∃ k, lenPass (printChar b ++ t) = (lenPass t).map (· + (k + 1)) := by
  have hletter : ∀ c, (∀ s, escape c s = ([b], 0)) →
      unescape 0 ([0x5C, c] ++ t) = (unescape 0 t).map (b :: ·) ∧
        ∃ k, lenPass ([0x5C, c] ++ t) = (lenPass t).map (· + (k + 1)) := by
    intro c hc
    refine ⟨?_, 0, lenPass_escape c⟩
    rw [List.cons_append, List.singleton_append, unescape_escape, hc]
    rfl
  unfold printChar
  split_ifs with h1 h2 h3 h4 h5 h6 h7 h8
  · exact ⟨unescape_plain h1.2.1 h1.2.2, 0, lenPass_plain h1.2.1 h1.2.2⟩
  · exact hletter 0x5C fun s => by rw [h2]; rfl
  · exact hletter 0x22 fun s => by rw [h3]; rfl
  · exact hletter 0x62 fun s => by rw [h4]; rfl
  · exact hletter 0x66 fun s => by rw [h5]; rfl
  · exact hletter 0x6E fun s => by rw [h6]; rfl
  · exact hletter 0x72 fun s => by rw [h7]; rfl
  · exact hletter 0x74 fun s => by rw [h8]; rfl
  · have hlt : b < 32 := by
      have hle : ¬ 31 < b := fun h => h1 ⟨h, h3, h2⟩
      rw [UInt8.lt_iff_toNat_lt] at hle ⊢
      simp only [UInt8.reduceToNat] at hle ⊢
      omega
    have hn : b.toNat < 32 := UInt8.lt_iff_toNat_lt.mp hlt
    obtain ⟨hx1, hx2⟩ := hexDigit_plain (b.toNat / 16) (by omega)
    obtain ⟨hy1, hy2⟩ := hexDigit_plain (b.toNat % 16) (by omega)
    have htext : 0x5C :: (ascii "u00" ++ [hexDigit (b.toNat / 16), hexDigit (b.toNat % 16)]) ++ t =
        0x5C :: 0x75 :: (0x30 :: 0x30 :: hexDigit (b.toNat / 16) :: hexDigit (b.toNat % 16) :: t) :=
        rfl
    have hescape := unicode_control (t := t) hb hlt
    rw [htext]
    constructor
    · rw [unescape_escape]
      simp [escape, hescape, unescape]
    · refine ⟨4, ?_⟩
      rw [lenPass_escape, lenPass_plain (by decide) (by decide),
        lenPass_plain (by decide) (by decide),
        lenPass_plain hx1 hx2, lenPass_plain hy1 hy2]
      cases lenPass t <;> rfl

/-! ### A string -/

theorem read_printString : ∀ {s : List UInt8}, CStr s →
    unescape 0 (s.flatMap printChar ++ 0x22 :: t) = .ok s t ∧
      ∃ len, s.length ≤ len ∧ lenPass (s.flatMap printChar ++ 0x22 :: t) = .ok len t
  | [], _ => ⟨unescape_quote, 0, Nat.le_refl 0, lenPass_quote⟩
  | b :: s, hs => by
    obtain ⟨hb, hs⟩ := List.ne_and_not_mem_of_not_mem_cons hs
    obtain ⟨hout, len, hlen, hlength⟩ := read_printString hs
    obtain ⟨hu, k, hm⟩ := read_printChar hb.symm (s.flatMap printChar ++ 0x22 :: t)
    rw [List.flatMap_cons, List.append_assoc, hu, hm, hout, hlength]
    exact ⟨rfl, len + (k + 1), by rw [List.length_cons]; omega, rfl⟩

/-- **A string is read back.** -/
theorem parseString_printString (hs : CStr s) (t : List UInt8) :
    parseString (printString s ++ t) = .ok s t := by
  obtain ⟨hout, len, hlen, hlength⟩ := read_printString (t := t) hs
  simp [printString, parseString, hout, hlength, hlen]

end MultiPortConvertor.Tool.CJsonStrings
