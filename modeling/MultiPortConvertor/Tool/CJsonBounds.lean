import MultiPortConvertor.Tool.CJsonNumbers
import MultiPortConvertor.Tool.CJsonStrings

/-! # Where the parser reads and writes

The first pass of `parse_string` takes one character behind a backslash, the second one four or ten
more behind a `u`. On texts in which four hexadecimal digits follow every `\u` both end at the same
quote, and the parser stays in the text and in its blocks (`parse_inside`); on others the second
pass may run past the quote and the block (`overrun`). -/

namespace MultiPortConvertor.Tool.CJsonBounds

open MultiPortConvertor.Lib.CString MultiPortConvertor.Lib.Doubles MultiPortConvertor.Lib.Parsers
open MultiPortConvertor.Lib.Scanf (isDigit)
open MultiPortConvertor.Tool.CJson MultiPortConvertor.Tool.CJsonParse
open MultiPortConvertor.Tool.CJsonStrings
open MultiPortConvertor.Tool.CJsonNumbers

def isHex (b : UInt8) : Bool := (hexValue b).isSome

/-- Every escape is complete: a character behind each backslash, four hexadecimal digits behind
`\u`. -/
def escaped : List UInt8 → Bool
  | [] => true
  | b :: s =>
    if b = 0x5C then
      match s with
      | [] => false
      | c :: s => (c != 0x75 || (decide (4 ≤ s.length) && (s.take 4).all isHex)) && escaped s
    else escaped s

variable {b c : UInt8} {s t r : List UInt8}

theorem escaped_cons (hb : b ≠ 0x5C) : escaped (b :: s) = escaped s := by
  cases s <;> simp [escaped, hb]

theorem escaped_escape (hc : c ≠ 0x75) : escaped (0x5C :: c :: s) = escaped s := by
  simp [escaped, hc]

theorem escaped_unicode : escaped (0x5C :: 0x75 :: s) = true ↔
    4 ≤ s.length ∧ (∀ h ∈ s.take 4, isHex h = true) ∧ escaped s = true := by
  simp [escaped, and_assoc]

theorem escaped_append {w : List UInt8} (hw : 0x5C ∉ w) : escaped (w ++ s) = escaped s := by
  induction w with
  | nil => rfl
  | cons b w ih =>
    obtain ⟨hb, hw⟩ := List.ne_and_not_mem_of_not_mem_cons hw
    rw [List.cons_append, escaped_cons hb.symm, ih hw]

theorem isHex_ne (h : isHex b = true) : b ≠ 0x5C ∧ b ≠ 0x22 := by
  constructor <;> rintro rfl <;> exact absurd h (by decide)

/-- Behind `\u` there are four digits. -/
theorem exists_digits (h : escaped (0x5C :: 0x75 :: s) = true) : ∃ d₁ d₂ d₃ d₄ t,
    s = d₁ :: d₂ :: d₃ :: d₄ :: t ∧ (isHex d₁ = true ∧ isHex d₂ = true ∧ isHex d₃ = true ∧
      isHex d₄ = true) ∧
      escaped t = true := by
  obtain ⟨hlen, hhex, hs⟩ := escaped_unicode.mp h
  rcases s with _ | ⟨d₁, _ | ⟨d₂, _ | ⟨d₃, _ | ⟨d₄, t⟩⟩⟩⟩
  iterate 4 exact absurd hlen (by simp)
  simp only [List.take_succ_cons, List.take_zero, List.forall_mem_cons] at hhex
  obtain ⟨h₁, h₂, h₃, h₄, -⟩ := hhex
  refine ⟨d₁, d₂, d₃, d₄, t, rfl, ⟨h₁, h₂, h₃, h₄⟩, ?_⟩
  rwa [escaped_cons (isHex_ne h₁).1, escaped_cons (isHex_ne h₂).1, escaped_cons (isHex_ne h₃).1,
    escaped_cons (isHex_ne h₄).1] at hs

/-! ### The two passes -/

theorem hexValue_lt {n : ℕ} (h : hexValue b = some n) : n < 16 := by
  unfold hexValue at h
  split_ifs at h with h1 h2 h3
  all_goals
    obtain rfl := Option.some.inj h
  · have := (MultiPortConvertor.Lib.Scanf.isDigit_iff.mp h1).2
    omega
  · have := UInt8.le_iff_toNat_le.mp h2.2
    simp only [UInt8.reduceToNat] at this
    omega
  · have := UInt8.le_iff_toNat_le.mp h3.2
    simp only [UInt8.reduceToNat] at this
    omega

theorem parseHex4_lt (s : List UInt8) : parseHex4 s < 0x10000 := by
  unfold parseHex4
  split
  · split
    · next ha hb hc hd =>
      have := hexValue_lt ha
      have := hexValue_lt hb
      have := hexValue_lt hc
      have := hexValue_lt hd
      omega
    · decide
  · decide

theorem length_continuation : ∀ (k uc : ℕ) (bs : List UInt8),
    (continuation k uc bs).2.length = bs.length + k
  | 0, _, _ => rfl
  | k + 1, uc, bs => by
    rw [continuation, length_continuation k, List.length_cons]
    omega

theorem length_utf8 (uc : ℕ) :
    (utf8 uc).length = if uc < 0x80 then 1 else if uc < 0x800 then 2 else if uc < 0x10000 then
    3 else 4 := by
  unfold utf8
  dsimp only
  rw [List.length_cons, length_continuation]
  split_ifs <;> rfl

/-- What `\u` stores and passes over. -/
theorem unicode_cases (s : List UInt8) : ((unicode s).2 = 4 ∧ (unicode s).1.length ≤ 3) ∨
    ((unicode s).2 = 10 ∧ (unicode s).1.length ≤ 4 ∧ s[4]? = some 0x5C ∧ s[5]? = some 0x75) := by
  have hlt := parseHex4_lt s
  unfold unicode
  dsimp only
  split_ifs with h1 h2 h3 h4
  · exact .inl ⟨rfl, by simp⟩
  · exact .inl ⟨rfl, by simp⟩
  · rw [not_or, not_not, not_not] at h3
    exact .inr ⟨rfl, by simp, h3⟩
  · rw [not_or, not_not, not_not] at h3
    refine .inr ⟨rfl, ?_, h3⟩
    rw [length_utf8]
    split_ifs <;> omega
  · refine .inl ⟨rfl, ?_⟩
    rw [length_utf8]
    split_ifs <;> omega

theorem escape_letter (hc : c ≠ 0x75) : (escape c s).2 = 0 ∧ (escape c s).1.length = 1 := by
  unfold escape
  split_ifs <;> exact ⟨rfl, rfl⟩

theorem escape_u : escape 0x75 s = unicode s := rfl

theorem lenPass_hex {d₁ d₂ d₃ d₄ : UInt8}
    (h : isHex d₁ = true ∧ isHex d₂ = true ∧ isHex d₃ = true ∧ isHex d₄ = true) :
    lenPass (d₁ :: d₂ :: d₃ :: d₄ :: t) = (lenPass t).map (· + 4) := by
  obtain ⟨h₁, h₂, h₃, h₄⟩ := h
  rw [lenPass_plain (isHex_ne h₁).2 (isHex_ne h₁).1, lenPass_plain (isHex_ne h₂).2 (isHex_ne h₂).1,
    lenPass_plain (isHex_ne h₃).2 (isHex_ne h₃).1, lenPass_plain (isHex_ne h₄).2 (isHex_ne h₄).1]
  cases lenPass t <;> rfl

/-- Both passes over a string: where they end, and what they find. -/
structure Passes (s : List UInt8) (out r : List UInt8) (len : ℕ) : Prop where
  first : lenPass s = .ok len r
  second : unescape 0 s = .ok out r
  fits : out.length ≤ len
  escaped : escaped r = true
  suffix : r <:+ s

/-- **The two passes end at the same quote**, and what the second stores fits the block. -/
theorem exists_passes : ∀ {s : List UInt8}, escaped s = true → ∃ out r len, Passes s out r len := by
  intro s
  induction hn : s.length using Nat.strongRecOn generalizing s with
  | ind n ih =>
    intro hs
    subst hn
    rcases s with _ | ⟨b, s⟩
    · exact ⟨[], [], 0, rfl, rfl, Nat.le_refl 0, rfl, List.suffix_rfl⟩
    by_cases hq : b = 0x22
    · subst hq
      rw [escaped_cons (by decide)] at hs
      exact ⟨[], s, 0, lenPass_quote, unescape_quote, Nat.le_refl 0, hs, List.suffix_cons _ s⟩
    by_cases hb : b = 0x5C
    · subst hb
      rcases s with _ | ⟨c, s⟩
      · exact absurd hs (by decide)
      by_cases hc : c = 0x75
      · subst hc
        obtain ⟨d₁, d₂, d₃, d₄, t, rfl, hhex, ht⟩ := exists_digits hs
        rcases unicode_cases (d₁ :: d₂ :: d₃ :: d₄ :: t)
          with ⟨hpassed, hstored⟩ | ⟨hpassed, hstored, hb, hu⟩
        · obtain ⟨out, r, len, h⟩ := ih t.length (by simp only [List.length_cons]; omega) rfl ht
          refine ⟨(unicode (d₁ :: d₂ :: d₃ :: d₄ :: t)).1 ++ out, r, len + 4 + 1, ?_, ?_, ?_,
            h.escaped, ?_⟩
          · rw [lenPass_escape, lenPass_hex hhex, h.first]; rfl
          · rw [unescape_escape, escape_u, hpassed]
            exact congrArg (Parsed.map _) h.second
          · have := h.fits
            rw [List.length_append]
            omega
          · exact h.suffix.trans ⟨[0x5C, 0x75, d₁, d₂, d₃, d₄], rfl⟩
        · -- a pair of surrogates: the second one is complete as well
          obtain ⟨t, rfl⟩ : ∃ t', t = 0x5C :: 0x75 :: t' := by
            rcases t with _ | ⟨x, _ | ⟨y, t⟩⟩
            · simp at hb
            · simp at hu
            · simp only [List.getElem?_cons_succ, List.getElem?_cons_zero,
                Option.some.injEq] at hb hu
              exact ⟨t, by rw [hb, hu]⟩
          obtain ⟨e₁, e₂, e₃, e₄, t, rfl, hhex', ht⟩ := exists_digits ht
          obtain ⟨out, r, len, h⟩ := ih t.length (by simp only [List.length_cons]; omega) rfl ht
          refine ⟨(unicode (d₁ :: d₂ :: d₃ :: d₄ :: 0x5C :: 0x75 :: e₁ :: e₂ :: e₃ :: e₄ :: t)).1 ++
            out, r,
            len + 4 + 1 + 4 + 1, ?_, ?_, ?_, h.escaped, ?_⟩
          · rw [lenPass_escape, lenPass_hex hhex, lenPass_escape, lenPass_hex hhex', h.first]; rfl
          · rw [unescape_escape, escape_u, hpassed]
            exact congrArg (Parsed.map _) h.second
          · have := h.fits
            rw [List.length_append]
            omega
          · exact h.suffix.trans ⟨[0x5C, 0x75, d₁, d₂, d₃, d₄, 0x5C, 0x75, e₁, e₂, e₃, e₄], rfl⟩
      · rw [escaped_escape hc] at hs
        obtain ⟨out, r, len, h⟩ := ih s.length (by simp only [List.length_cons]; omega) rfl hs
        obtain ⟨hpassed, hstored⟩ := escape_letter (s := s) hc
        refine ⟨(escape c s).1 ++ out, r, len + 1, ?_, ?_, ?_, h.escaped, ?_⟩
        · rw [lenPass_escape, h.first]; rfl
        · rw [unescape_escape, hpassed, h.second]; rfl
        · rw [List.length_append, hstored]
          have := h.fits
          omega
        · exact h.suffix.trans ((List.suffix_cons c s).trans (List.suffix_cons _ _))
    · rw [escaped_cons hb] at hs
      obtain ⟨out, r, len, h⟩ := ih s.length (by simp) rfl hs
      refine ⟨b :: out, r, len + 1, ?_, ?_, ?_, h.escaped, h.suffix.trans (List.suffix_cons b s)⟩
      · rw [lenPass_plain hq hb, h.first]; rfl
      · rw [unescape_plain hq hb, h.second]; rfl
      · have := h.fits
        rw [List.length_cons]
        omega

/-! ### What is passed over without a backslash -/

/-- The text up to `r` has no backslash. -/
def Passed (s r : List UInt8) : Prop := ∃ w, s = w ++ r ∧ 0x5C ∉ w

theorem Passed.refl (s : List UInt8) : Passed s s := ⟨[], rfl, by simp⟩

theorem Passed.cons (hb : b ≠ 0x5C) (h : Passed s r) : Passed (b :: s) r := by
  obtain ⟨w, rfl, hw⟩ := h
  exact ⟨b :: w, rfl, List.not_mem_cons_of_ne_of_not_mem hb.symm hw⟩

theorem Passed.trans (h : Passed s t) (h' : Passed t r) : Passed s r := by
  obtain ⟨w, rfl, hw⟩ := h
  obtain ⟨w', rfl, hw'⟩ := h'
  refine ⟨w ++ w', (List.append_assoc _ _ _).symm, ?_⟩
  rw [List.mem_append]
  exact not_or.mpr ⟨hw, hw'⟩

theorem Passed.escaped (h : Passed s r) (hs : escaped s = true) : escaped r = true := by
  obtain ⟨w, rfl, hw⟩ := h
  rwa [escaped_append hw] at hs

theorem Passed.suffix (h : Passed s r) : r <:+ s := by
  obtain ⟨w, rfl, _⟩ := h
  exact List.suffix_append w r

theorem passed_skip : ∀ s : List UInt8, Passed s (skip s)
  | [] => .refl []
  | b :: s => by
    by_cases hb : b ≤ 32
    · have hne : b ≠ 0x5C := fun he => absurd (he ▸ hb) (by decide)
      have hskip : skip (b :: s) = skip s := List.dropWhile_cons_of_pos (by simpa using hb)
      rw [hskip]
      exact (passed_skip s).cons hne
    · have hskip : skip (b :: s) = b :: s := List.dropWhile_cons_of_neg (by simpa using hb)
      rw [hskip]
      exact .refl _

theorem ne_of_isDigit (h : isDigit b = true) : b ≠ 0x5C := by
  rintro rfl
  exact absurd h (by decide)

section Numbers

variable {fpu : Arithmetic}

theorem passed_digitsLoop : ∀ (n : ℚ) (s : List UInt8), Passed s (digitsLoop fpu n s).2
  | _, [] => .refl []
  | n, b :: s => by
    rw [digitsLoop]
    split_ifs with h
    · exact (passed_digitsLoop _ s).cons (ne_of_isDigit h)
    · exact .refl _

theorem passed_subscaleLoop : ∀ (n : Int32) (s : List UInt8), Passed s (subscaleLoop n s).2
  | _, [] => .refl []
  | n, b :: s => by
    rw [subscaleLoop]
    split_ifs with h
    · exact (passed_subscaleLoop _ s).cons (ne_of_isDigit h)
    · exact .refl _

theorem passed_ite_tail (hb : b ≠ 0x5C) (s : List UInt8) :
    Passed s (if s.head? = some b then s.tail else s) := by
  split_ifs with h
  · obtain ⟨t, rfl⟩ : ∃ t, s = b :: t := by
      cases s with
      | nil => simp at h
      | cons c t => exact ⟨t, by rw [Option.some.inj h]⟩
    exact (Passed.refl t).cons hb
  · exact .refl s

theorem passed_nonzeroPart : ∀ s : List UInt8, Passed s (nonzeroPart fpu s).2
  | [] => .refl []
  | b :: s => by
    rw [nonzeroPart]
    split_ifs
    · exact passed_digitsLoop 0 (b :: s)
    · exact .refl _

theorem passed_wholePart (s : List UInt8) : Passed s (wholePart fpu s).2 :=
  (passed_ite_tail (b := 0x30) (by decide) s).trans (passed_nonzeroPart _)

theorem passed_fracPart (n : ℚ) (s : List UInt8) : Passed s (fracPart fpu n s).2.2 := by
  rcases s with _ | ⟨b, _ | ⟨c, s⟩⟩
  · exact .refl []
  · exact .refl [b]
  · rw [fracPart]
    split_ifs with h
    · obtain ⟨rfl, -⟩ := h
      exact (passed_digitsLoop n (c :: s)).cons (by decide)
    · exact .refl _

theorem passed_signsubscale (s : List UInt8) : Passed s (signsubscale s).2 := by
  have hplus := passed_ite_tail (b := 0x2B) (by decide) s
  have hminus := passed_ite_tail (b := 0x2D) (by decide) s
  unfold signsubscale
  split_ifs at hplus hminus ⊢
  · exact hplus
  · exact hplus
  · exact hminus
  · exact .refl s

theorem passed_exponentPart (s : List UInt8) : Passed s (exponentPart s).2 := by
  rcases s with _ | ⟨b, s⟩
  · exact .refl []
  · rw [exponentPart]
    split_ifs with h
    · have hb : b ≠ 0x5C := by rcases h with rfl | rfl <;> decide
      exact ((passed_signsubscale s).trans (passed_subscaleLoop 0 _)).cons hb
    · exact .refl _

/-- A sign or a digit is taken off the text. -/
theorem passed_first (hb : b = 0x2D ∨ isDigit b = true) :
    Passed t (wholePart fpu (signPart (b :: t)).2).2 := by
  by_cases h : b = 0x2D
  · subst h
    exact passed_wholePart t
  · have hdigit := hb.resolve_left h
    have hsign : signPart (b :: t) = (1, b :: t) := by simp [signPart, h]
    rw [hsign]
    by_cases h0 : b = 0x30
    · subst h0
      exact passed_nonzeroPart t
    · rw [wholePart_cons hdigit h0, digitsLoop, if_pos hdigit]
      exact passed_digitsLoop _ t

theorem parseNumber_passed (hb : b = 0x2D ∨ isDigit b = true) {v : CJSON}
    (h : parseNumber fpu (b :: t) = .ok v r) : Passed t r := by
  rw [parseNumber, Parsed.ok.injEq] at h
  obtain ⟨-, rfl⟩ := h
  exact (passed_first hb).trans ((passed_fracPart _ _).trans (passed_exponentPart _))

end Numbers

/-! ### The parser stays in the text -/

/-- The brackets that open an array or an object, also those in strings. -/
def brackets (s : List UInt8) : ℕ := s.countP fun b => b = 0x5B ∨ b = 0x7B

/-- A text with complete escapes and, unless `deep`, with fewer brackets than the stack has room
for. -/
structure Fit (deep : Prop) (stack : ℕ) (s : List UInt8) : Prop where
  escaped : escaped s = true
  room : deep ∨ brackets s < stack

section Fit

variable {deep : Prop} {stack : ℕ} {fpu : Arithmetic}

theorem brackets_le (h : r <:+ s) : brackets r ≤ brackets s := h.sublist.countP_le

theorem Fit.of_suffix (h : Fit deep stack s) (hs : r <:+ s)
    (he : Tool.CJsonBounds.escaped r = true) :
    Fit deep stack r := ⟨he, h.room.imp_right fun hlt => (brackets_le hs).trans_lt hlt⟩

theorem Fit.of_passed (h : Fit deep stack s) (hs : Passed s r) : Fit deep stack r :=
  h.of_suffix hs.suffix (hs.escaped h.escaped)

theorem Fit.of_cons (h : Fit deep stack (b :: s)) (hb : b ≠ 0x5C) : Fit deep stack s :=
  h.of_passed ((Passed.refl s).cons hb)

theorem Fit.mono (h : Fit deep stack s) : Fit deep (stack + 1) s :=
  ⟨h.escaped, h.room.imp_right Nat.lt_succ_of_lt⟩

/-- A bracket takes a frame of the stack. -/
theorem Fit.of_bracket (h : Fit deep (stack + 1) (b :: s)) (hb : b = 0x5B ∨ b = 0x7B) :
    Fit deep stack s := by
  have hne : b ≠ 0x5C := by rcases hb with rfl | rfl <;> decide
  refine ⟨(h.of_cons hne).escaped, h.room.imp_right fun hlt => ?_⟩
  have hcount : brackets (b :: s) = brackets s + 1 := List.countP_cons_of_pos (by simpa using hb)
  omega

theorem parseString_takes (h : Fit deep stack s) : Takes (Fit deep stack) deep s
    (parseString s) := by
  rcases s with _ | ⟨b, s⟩
  · exact List.suffix_rfl
  rw [parseString]
  split_ifs with hb
  · subst hb
    have hs := h.of_cons (by decide)
    obtain ⟨out, r, len, p⟩ := exists_passes hs.escaped
    have hr : Fit deep stack r := hs.of_suffix p.suffix p.escaped
    simp only [p.first, p.second, Parsed.ok_bind, p.fits, if_true]
    exact Stays.takes (x := .ok out r) ⟨hr, p.suffix⟩ (List.suffix_cons _ s) List.ne_cons_self
  · exact List.suffix_rfl

/-- The value is read without leaving the text. -/
def Careful (deep : Prop) (stack : ℕ) (value : Parser UInt8 CJSON) : Prop :=
  ∀ s, Fit deep stack s → Takes (Fit deep stack) deep s (value s)

variable {value : Parser UInt8 CJSON}

theorem entry_takes (hv : Careful deep stack value) (h : Fit deep stack s) :
    Takes (Fit deep stack) deep s (entry value s) := by
  have htakes := hv (skip s) (h.of_passed (passed_skip s))
  refine (htakes.bind fun v r _ hr => ?_).of_suffix (passed_skip s).suffix
  exact ⟨hr.of_passed (passed_skip r), (passed_skip r).suffix⟩

theorem member_takes (hv : Careful deep stack value) (h : Fit deep stack s) :
    Takes (Fit deep stack) deep s (member value s) := by
  have htakes := parseString_takes (h.of_passed (passed_skip s))
  refine (htakes.bind fun name r _ hr => ?_).of_suffix (passed_skip s).suffix
  have hskip := hr.of_passed (passed_skip r)
  have hsuffix := (passed_skip r).suffix
  cases hr' : skip r with
  | nil => exact List.nil_suffix
  | cons b t =>
    rw [hr'] at hskip hsuffix
    dsimp only
    split_ifs with hb
    · have hentry := entry_takes hv (hskip.of_cons (hb ▸ by decide))
      exact (hentry.map _).stays.of_suffix ((List.suffix_cons b t).trans hsuffix)
    · exact hsuffix

/-- The list of an array or of an object, behind the bracket. -/
theorem list_takes {α : Type} {item : Parser UInt8 α} (close : UInt8) (hclose : close ≠ 0x5C)
    (hitem : ∀ s, Fit deep stack s → Takes (Fit deep stack) deep s (item s))
    (h : Fit deep stack s) :
    Stays (Fit deep stack) deep s (if (skip s).head? = some close then .ok [] (skip s).tail
      else items item 0x2C close ((skip s).length + 1) (skip s)) := by
  have hskip := h.of_passed (passed_skip s)
  have hsuffix := (passed_skip s).suffix
  split_ifs with hhead
  · cases hr : skip s with
    | nil => simp [hr] at hhead
    | cons b t =>
      rw [hr] at hskip hsuffix hhead
      obtain rfl : b = close := Option.some.inj hhead
      exact ⟨hskip.of_cons hclose, (List.suffix_cons b t).trans hsuffix⟩
  · have hends : ∀ (c : UInt8) s, c = 0x2C ∨ c = close → Fit deep stack (c :: s) →
        Fit deep stack s := by
      rintro c s (rfl | rfl) hs
      · exact hs.of_cons (by decide)
      · exact hs.of_cons hclose
    exact (items_takes hitem hends (Nat.lt_succ_self _) hskip).stays.of_suffix hsuffix

theorem parseNumber_takes (hb : b = 0x2D ∨ isDigit b = true) (h : Fit deep stack (b :: t)) :
    Takes (Fit deep stack) deep (b :: t) (parseNumber fpu (b :: t)) := by
  obtain ⟨v, r, hr⟩ : ∃ v r, parseNumber fpu (b :: t) = .ok v r := ⟨_, _, rfl⟩
  have hpassed := parseNumber_passed hb hr
  have hne : b ≠ 0x5C := by
    rcases hb with rfl | hb
    · decide
    · exact ne_of_isDigit hb
  rw [hr]
  exact Stays.takes (x := .ok v r) ⟨(h.of_cons hne).of_passed hpassed, hpassed.suffix⟩
    (List.suffix_cons b t) List.ne_cons_self

/-- A word is taken off the text. -/
theorem word_takes {w : List UInt8} (hw : w <+: s) (hne : w ≠ []) (hb : 0x5C ∉ w)
    (h : Fit deep stack s) (v : CJSON) : Takes (Fit deep stack) deep s
    (.ok v (s.drop w.length)) := by
  obtain ⟨r, rfl⟩ := hw
  rw [List.drop_left]
  refine ⟨h.of_passed ⟨w, rfl, hb⟩, List.suffix_append w r, fun he => hne ?_⟩
  exact List.append_left_eq_self.mp he.symm

/-- **`parse_value` stays in the text** and in the blocks of its strings. -/
theorem parseValue_takes : ∀ {stack : ℕ}, Careful deep stack (parseValue fpu stack)
  | 0, s, h => h.room.resolve_right (Nat.not_lt_zero _)
  | stack + 1, [], h => List.suffix_rfl
  | stack + 1, b :: t, h => by
    have hcareful : Careful deep stack (parseValue fpu stack) := parseValue_takes
    rw [parseValue]
    split_ifs with hnull hfalse htrue hq hnum harr hobj
    · exact word_takes hnull (by decide) (by decide) h _
    · exact word_takes hfalse (by decide) (by decide) h _
    · exact word_takes htrue (by decide) (by decide) h _
    · exact (parseString_takes h).map _
    · exact parseNumber_takes hnum h
    · subst harr
      rw [parseArray, if_pos rfl]
      have hlist := list_takes 0x5D (by decide) (fun s hs => entry_takes hcareful hs)
        (h.of_bracket (.inl rfl))
      exact (hlist.takes (List.suffix_cons _ t) List.ne_cons_self).map _ |>.mono fun _ hr => hr.mono
    · subst hobj
      rw [parseObject, if_pos rfl]
      have hlist := list_takes 0x7D (by decide) (fun s hs => member_takes hcareful hs)
        (h.of_bracket (.inr rfl))
      exact (hlist.takes (List.suffix_cons _ t) List.ne_cons_self).map _ |>.mono fun _ hr => hr.mono
    · exact List.suffix_rfl

end Fit

/-! ### Results -/

theorem parseWithOpts_stays (fpu : Arithmetic) (requireNullTerminated : Bool)
    {deep : Prop} {stack : ℕ} {s : List UInt8} (h : Fit deep stack s) :
    Stays (Fit deep stack) deep s (cjsonParseWithOpts fpu stack requireNullTerminated s) := by
  have hcareful : Careful deep stack (parseValue fpu stack) := parseValue_takes
  have htakes := hcareful (skip s) (h.of_passed (passed_skip s))
  refine (htakes.bind fun v r _ hr => ?_).stays.of_suffix (passed_skip s).suffix
  split_ifs with _ hend
  · exact ⟨hr.of_suffix List.nil_suffix rfl, List.nil_suffix⟩
  · exact (passed_skip r).suffix
  · exact ⟨hr, List.suffix_rfl⟩

/-- **The parser reads the text and nothing else**: if the escapes are complete and the stack has
room for the brackets, it ends with a value and the rest of the text, or with an error at a place of
the text, and every string fits the block that the first pass has measured. -/
theorem parse_inside (fpu : Arithmetic) (requireNullTerminated : Bool) {stack : ℕ} {s : List UInt8}
    (hs : escaped s = true) (hroom : brackets s < stack) :
    (∃ v r, cjsonParseWithOpts fpu stack requireNullTerminated s = .ok v r ∧ r <:+ s) ∨
      ∃ ep, cjsonParseWithOpts fpu stack requireNullTerminated s = .fail ep ∧ ep <:+ s := by
  have h := parseWithOpts_stays fpu requireNullTerminated (⟨hs, .inr hroom⟩ : Fit False stack s)
  cases hx : cjsonParseWithOpts fpu stack requireNullTerminated s with
  | ok v r =>
    rw [hx] at h
    exact .inl ⟨v, r, rfl, h.2⟩
  | fail ep =>
    rw [hx] at h
    exact .inr ⟨ep, rfl, h⟩
  | outside => rw [hx] at h; exact h.elim
  | overflow => rw [hx] at h; exact h.elim

/-- A reply with an escape and an error in it. -/
theorem parse_inside_reply :
    (∃ v r, cjsonParseWithOpts binary64 4 true (ascii "[\"\\u00e9\", 1 2]") = .ok v r ∧
      r <:+ ascii "[\"\\u00e9\", 1 2]") ∨
    ∃ ep, cjsonParseWithOpts binary64 4 true (ascii "[\"\\u00e9\", 1 2]") = .fail ep ∧
      ep <:+ ascii "[\"\\u00e9\", 1 2]" :=
  parse_inside binary64 true (by decide +kernel) (by decide +kernel)

/-- Behind `\u`, a quote among the characters that are passed over. -/
def jumped (n : ℕ) : List UInt8 := 0x5C :: 0x75 :: 0x22 :: 0x61 :: 0x61 :: 0x61 ::
      List.replicate n 0x61

theorem unescape_replicate : ∀ n : ℕ, unescape 0 (List.replicate n 0x61) =
    .ok (List.replicate n 0x61) []
  | 0 => rfl
  | n + 1 => by
    rw [List.replicate_succ, unescape_plain (by decide) (by decide), unescape_replicate n]
    rfl

theorem lenPass_jumped (n : ℕ) : lenPass (jumped n) = .ok 1
    (0x61 :: 0x61 :: 0x61 :: List.replicate n 0x61) := by
  rw [jumped, lenPass_escape, lenPass_quote]
  rfl

theorem unescape_jumped (n : ℕ) : unescape 0 (jumped n) = .ok (List.replicate n 0x61) [] := by
  have hnone : hexValue 0x22 = none := by decide
  have hunicode : ∀ s : List UInt8, unicode (0x22 :: 0x61 :: 0x61 :: 0x61 :: s) = ([], 4) := by
    intro s
    simp [unicode, parseHex4, hnone]
  rw [jumped, unescape_escape, escape_u, hunicode]
  exact congrArg (Parsed.map _) (unescape_replicate n)

/-- **A string may overrun its block by any length**: on `jumped n` the first pass asks for a block
of two bytes, and the second one stores `n` bytes and the terminating zero. -/
theorem overrun (n : ℕ) : CStr (0x22 :: jumped n) ∧ (∃ r, lenPass (jumped n) = .ok 1 r) ∧
    unescape 0 (jumped n) = .ok (List.replicate n 0x61) [] ∧
      (1 < n → ∀ (fpu : Arithmetic) (stack : ℕ), cjsonParse fpu (stack + 1) (0x22 :: jumped n) =
        .outside) := by
  refine ⟨by simp [CStr, jumped], ⟨_, lenPass_jumped n⟩, unescape_jumped n, fun hn fpu stack => ?_⟩
  have hstring : parseString (0x22 :: jumped n) = .outside := by
    simp only [parseString, lenPass_jumped, unescape_jumped, Parsed.ok_bind,
      List.length_replicate, if_true]
    exact if_neg (by omega)
  have hskip : skip (0x22 :: jumped n) = 0x22 :: jumped n := List.dropWhile_cons_of_neg (by decide)
  rw [cjsonParse, cjsonParseWithOpts, hskip, parseValue_cons fpu stack (by decide),
    if_pos rfl, hstring]
  rfl

theorem parseValue_nested (fpu : Arithmetic) {r : List UInt8} (hr : (skip r).head? ≠ some 0x5D) :
    ∀ stack : ℕ, parseValue fpu stack (List.replicate stack 0x5B ++ r) = .overflow
  | 0 => rfl
  | stack + 1 => by
    have ih := parseValue_nested fpu hr stack
    obtain ⟨s, hs⟩ : ∃ s, List.replicate stack 0x5B ++ r = s := ⟨_, rfl⟩
    have hskip : (skip s).head? ≠ some 0x5D ∧ parseValue fpu stack (skip (skip s)) = .overflow := by
      cases stack with
      | zero => exact ⟨hs ▸ hr, rfl⟩
      | succ stack =>
        rw [List.replicate_succ, List.cons_append] at hs ih
        have hself : skip s = s := by
          rw [← hs]
          exact List.dropWhile_cons_of_neg (by decide)
        rw [hself, hself, ← hs]
        exact ⟨by simp, ih⟩
    rw [List.replicate_succ, List.cons_append, hs, parseValue_cons fpu stack (by decide),
      if_neg (by decide), if_neg (by decide), if_pos rfl, parseArray, if_pos rfl]
    dsimp only
    rw [if_neg hskip.1, items, entry, hskip.2]
    rfl

/-- **Every stack is used up by nested arrays**, one for each call that it has room for. -/
theorem nested_overflow (fpu : Arithmetic) (stack : ℕ) {r : List UInt8}
    (hr : (skip r).head? ≠ some 0x5D) :
    cjsonParse fpu stack (List.replicate stack 0x5B ++ r) = .overflow := by
  have hnested := parseValue_nested fpu hr stack
  cases stack with
  | zero => rfl
  | succ stack =>
    have hself : skip (List.replicate (stack + 1) 0x5B ++ r) =
        List.replicate (stack + 1) 0x5B ++ r :=
      List.dropWhile_cons_of_neg (by decide)
    rw [cjsonParse, cjsonParseWithOpts, hself, hnested]
    rfl

theorem nested_overflow_thousand : cjsonParse binary64 1000
    (List.replicate 1000 0x5B ++ []) = .overflow :=
  nested_overflow binary64 1000 (by decide)

end MultiPortConvertor.Tool.CJsonBounds
