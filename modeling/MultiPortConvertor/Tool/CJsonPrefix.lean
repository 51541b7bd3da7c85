import MultiPortConvertor.Tool.CJsonBounds
import MultiPortConvertor.Tool.CJsonRoundTrip

/-! # Texts cut off and texts with more behind them

The parser looks at nothing behind the bracket that closes an array or an object, so no proper
prefix of an array's or an object's text is accepted (`self_delimiting`). -/

namespace MultiPortConvertor.Tool.CJsonPrefix

open MultiPortConvertor.Lib.CString MultiPortConvertor.Lib.Doubles MultiPortConvertor.Lib.Parsers
open MultiPortConvertor.Lib.Scanf (isDigit)
open MultiPortConvertor.Tool.CJson MultiPortConvertor.Tool.CJsonParse
open MultiPortConvertor.Tool.CJsonStrings
open MultiPortConvertor.Tool.CJsonBounds MultiPortConvertor.Tool.CJsonPrint
open MultiPortConvertor.Tool.CJsonPieces MultiPortConvertor.Tool.CJsonRoundTrip

variable {b c : UInt8} {s t r q out : List UInt8} {k : ℕ}

/-! ### Strings -/

theorem lenPass_append : ∀ {s : List UInt8} {len : ℕ}, lenPass s = .ok len r → r ≠ [] →
    lenPass (s ++ q) = .ok len (r ++ q) := by
  intro s
  induction hn : s.length using Nat.strongRecOn generalizing s with
  | ind n ih =>
    intro len h hr
    subst hn
    rcases s with _ | ⟨b, s⟩
    · simp only [lenPass, Parsed.ok.injEq] at h
      exact absurd h.2.symm hr
    by_cases hq : b = 0x22
    · subst hq
      rw [lenPass_quote, Parsed.ok.injEq] at h
      obtain ⟨rfl, rfl⟩ := h
      exact lenPass_quote
    by_cases hb : b = 0x5C
    · subst hb
      rcases s with _ | ⟨c, s⟩
      · simp [lenPass] at h
      · rw [lenPass_escape] at h
        obtain ⟨len, hlen, rfl⟩ := Parsed.map_eq_ok.mp h
        have hs := ih s.length (by simp only [List.length_cons]; omega) rfl hlen hr
        rw [List.cons_append, List.cons_append, lenPass_escape, hs]
        rfl
    · rw [lenPass_plain hq hb] at h
      obtain ⟨len, hlen, rfl⟩ := Parsed.map_eq_ok.mp h
      have hs := ih s.length (by simp) rfl hlen hr
      rw [List.cons_append, lenPass_plain hq hb, hs]
      rfl

theorem unescape_drop : ∀ {k : ℕ} {s : List UInt8}, k ≤ s.length → unescape k s =
    unescape 0 (s.drop k)
  | 0, _, _ => rfl
  | k + 1, [], h => absurd h (by simp)
  | k + 1, b :: s, h => unescape_drop (k := k) (s := s) (by simpa using h)

theorem unescape_outside : ∀ {k : ℕ} {s : List UInt8}, s.length < k → unescape k s = .outside
  | k + 1, [], _ => rfl
  | k + 1, b :: s, h => unescape_outside (k := k) (s := s) (by simpa using h)

theorem le_of_unescape (h : unescape k s = .ok out r) : k ≤ s.length := by
  by_contra hlt
  rw [unescape_outside (not_le.mp hlt)] at h
  cases h

theorem parseHex4_append (h : 4 ≤ s.length) : parseHex4 (s ++ q) = parseHex4 s := by
  rcases s with _ | ⟨a, _ | ⟨b, _ | ⟨c, _ | ⟨d, s⟩⟩⟩⟩
  iterate 4 exact absurd h (by simp)
  rfl

/-- A text of one character has no string that ends before its end. -/
theorem unescape_singleton (h : unescape 0 [b] = .ok out r) : r = [] := by
  unfold unescape at h
  split_ifs at h with h1 h2
  · simp only [Parsed.ok.injEq] at h
    exact h.2.symm
  · obtain ⟨_, h, _⟩ := Parsed.map_eq_ok.mp h
    simp only [unescape, Parsed.ok.injEq] at h
    exact h.2.symm

/-- `\\u` is read from what is in front of the end of the string. -/
theorem unicode_append (h : unescape (unicode s).2 s = .ok out r) (hr : r ≠ []) :
    unicode (s ++ q) = unicode s := by
  have hk := le_of_unescape h
  rw [unescape_drop hk] at h
  have h4 : 4 ≤ s.length := by
    rcases unicode_cases s with ⟨h, _⟩ | ⟨h, _⟩ <;> omega
  have hlen : 6 ≤ s.length := by
    by_contra hlt
    have hpassed : (unicode s).2 = 4 := by
      rcases unicode_cases s with ⟨h, _⟩ | ⟨h, _⟩ <;> omega
    rw [hpassed] at h
    have hdrop : s.drop 4 = [] ∨ ∃ b, s.drop 4 = [b] := by
      have hl : (s.drop 4).length = s.length - 4 := List.length_drop
      rcases hd : s.drop 4 with _ | ⟨x, _ | ⟨y, t⟩⟩
      · exact .inl rfl
      · exact .inr ⟨x, rfl⟩
      · rw [hd] at hl
        simp only [List.length_cons] at hl
        omega
    rcases hdrop with hd | ⟨x, hd⟩
    · rw [hd] at h
      simp only [unescape, Parsed.ok.injEq] at h
      exact hr h.2.symm
    · rw [hd] at h
      exact hr (unescape_singleton h)
  have hhex : parseHex4 (s ++ q) = parseHex4 s := parseHex4_append h4
  have hb : (s ++ q)[4]? = s[4]? := List.getElem?_append_left (by omega)
  have hu : (s ++ q)[5]? = s[5]? := List.getElem?_append_left (by omega)
  have hdrop : (s ++ q).drop 6 = s.drop 6 ++ q := List.drop_append_of_le_length hlen
  by_cases h10 : 10 ≤ s.length
  · have hhex' : parseHex4 (s.drop 6 ++ q) = parseHex4 (s.drop 6) :=
      parseHex4_append (by rw [List.length_drop]; omega)
    unfold unicode
    rw [hhex, hb, hu, hdrop, hhex']
  · -- the second half of a pair is not looked at
    have h1 : ¬ (unicode s).2 = 10 := by omega
    unfold unicode at h1 ⊢
    dsimp only at h1 ⊢
    rw [hhex, hb, hu]
    split_ifs at h1 ⊢
    all_goals first | rfl | exact absurd rfl h1

/-- **A string that ends is read alike**, whatever follows the text. -/
theorem unescape_append : ∀ {s out : List UInt8}, unescape 0 s = .ok out r → r ≠ [] →
    unescape 0 (s ++ q) = .ok out (r ++ q) := by
  intro s
  induction hn : s.length using Nat.strongRecOn generalizing s with
  | ind n ih =>
    intro out h hr
    subst hn
    rcases s with _ | ⟨b, s⟩
    · simp only [unescape, Parsed.ok.injEq] at h
      exact absurd h.2.symm hr
    by_cases hq : b = 0x22
    · subst hq
      rw [unescape_quote, Parsed.ok.injEq] at h
      obtain ⟨rfl, rfl⟩ := h
      exact unescape_quote
    by_cases hb : b = 0x5C
    · subst hb
      rcases s with _ | ⟨c, s⟩
      · simp [unescape] at h
      · rw [unescape_escape] at h
        obtain ⟨out, hout, rfl⟩ := Parsed.map_eq_ok.mp h
        have hescape : escape c (s ++ q) = escape c s := by
          by_cases hc : c = 0x75
          · subst hc
            exact unicode_append hout hr
          · simp [escape, hc]
        have hk := le_of_unescape hout
        have hk' : (escape c s).2 ≤ (s ++ q).length := by
          rw [List.length_append]
          omega
        rw [unescape_drop hk] at hout
        have hs := ih (s.drop (escape c s).2).length (by
          simp only [List.length_drop, List.length_cons]
          omega) rfl hout hr
        rw [List.cons_append, List.cons_append, unescape_escape, hescape, unescape_drop hk',
          List.drop_append_of_le_length hk, hs]
        rfl
    · rw [unescape_plain hq hb] at h
      obtain ⟨out, hout, rfl⟩ := Parsed.map_eq_ok.mp h
      have hs := ih s.length (by simp) rfl hout hr
      rw [List.cons_append, unescape_plain hq hb, hs]
      rfl

/-- The escapes of `s` are complete, if need be in what follows it. -/
def Sealed (q s : List UInt8) : Prop := ∃ q', q' <+: q ∧ escaped (s ++ q') = true

theorem parseString_append (hs : Sealed q s) (h : parseString s = .ok out r) (hr : r ≠ []) :
    parseString (s ++ q) = .ok out (r ++ q) := by
  rcases s with _ | ⟨b, s⟩
  · cases h
  rw [parseString] at h
  split_ifs at h with hb
  subst hb
  obtain ⟨len₀, r₀, -, h⟩ := Parsed.bind_eq_ok.mp h
  obtain ⟨out', r', hout, h⟩ := Parsed.bind_eq_ok.mp h
  split_ifs at h
  simp only [Parsed.ok.injEq] at h
  obtain ⟨rfl, rfl⟩ := h
  obtain ⟨q', ⟨q'', rfl⟩, hs⟩ := hs
  rw [List.cons_append, escaped_cons (by decide)] at hs
  obtain ⟨out₁, r₁, len, p⟩ := exists_passes hs
  have hsecond := unescape_append (q := q') hout hr
  rw [p.second, Parsed.ok.injEq] at hsecond
  obtain ⟨rfl, rfl⟩ := hsecond
  have hlen := lenPass_append (q := q'') p.first (by simp [hr])
  have hout' := unescape_append (q := q' ++ q'') hout hr
  rw [List.append_assoc, List.append_assoc] at hlen
  rw [List.cons_append, parseString, if_pos rfl, hlen, hout']
  simp [p.fits]

/-! ### Numbers -/

/-- Something follows, and not the point of a fraction. -/
def Live (r : List UInt8) : Prop := ∃ b t, r = b :: t ∧ b ≠ 0x2E

theorem Live.ne_nil (h : Live r) : r ≠ [] := by
  obtain ⟨b, t, rfl, -⟩ := h
  exact List.cons_ne_nil b t

section Numbers

variable {fpu : Arithmetic}

theorem digitsLoop_append' : ∀ {s : List UInt8} {n : ℚ}, (digitsLoop fpu n s).2 ≠ [] →
    digitsLoop fpu n (s ++ q) = ((digitsLoop fpu n s).1, (digitsLoop fpu n s).2 ++ q)
  | [], n, h => absurd rfl h
  | b :: s, n, h => by
    rw [List.cons_append, digitsLoop, digitsLoop]
    rw [digitsLoop] at h
    split_ifs at h ⊢
    · exact digitsLoop_append' h
    · rfl

theorem subscaleLoop_append' : ∀ {s : List UInt8} {n : Int32}, (subscaleLoop n s).2 ≠ [] →
    subscaleLoop n (s ++ q) = ((subscaleLoop n s).1, (subscaleLoop n s).2 ++ q)
  | [], n, h => absurd rfl h
  | b :: s, n, h => by
    rw [List.cons_append, subscaleLoop, subscaleLoop]
    rw [subscaleLoop] at h
    split_ifs at h ⊢
    · exact subscaleLoop_append' h
    · rfl

theorem ite_tail_append (b : UInt8) (h : (if s.head? = some b then s.tail else s) ≠ []) :
    (if (s ++ q).head? = some b then (s ++ q).tail else s ++ q) =
      (if s.head? = some b then s.tail else s) ++ q := by
  cases s with
  | nil => exact absurd rfl h
  | cons c s =>
    by_cases hc : c = b
    · simp [hc]
    · simp [hc]

theorem nonzeroPart_append (h : (nonzeroPart fpu s).2 ≠ []) :
    nonzeroPart fpu (s ++ q) = ((nonzeroPart fpu s).1, (nonzeroPart fpu s).2 ++ q) := by
  cases s with
  | nil => exact absurd rfl h
  | cons b s =>
    rw [List.cons_append, nonzeroPart, nonzeroPart]
    rw [nonzeroPart] at h
    split_ifs at h ⊢
    · exact digitsLoop_append' h
    · rfl

theorem wholePart_append' (h : (wholePart fpu s).2 ≠ []) :
    wholePart fpu (s ++ q) = ((wholePart fpu s).1, (wholePart fpu s).2 ++ q) := by
  have hne : (if s.head? = some 0x30 then s.tail else s) ≠ [] :=
    fun he => h (by rw [wholePart, he]; rfl)
  rw [wholePart, ite_tail_append 0x30 hne]
  exact nonzeroPart_append h

theorem signPart_append (h : s ≠ []) :
    signPart (s ++ q) = ((signPart s).1, (signPart s).2 ++ q) := by
  cases s with
  | nil => exact absurd rfl h
  | cons b s =>
    by_cases hb : b = 0x2D
    · simp [signPart, hb]
    · simp [signPart, hb]

theorem signsubscale_append (h : s ≠ []) :
    signsubscale (s ++ q) = ((signsubscale s).1, (signsubscale s).2 ++ q) := by
  cases s with
  | nil => exact absurd rfl h
  | cons b s =>
    by_cases hplus : b = 0x2B
    · simp [signsubscale, hplus]
    · by_cases hminus : b = 0x2D
      · simp [signsubscale, hminus]
      · simp [signsubscale, hplus, hminus]

theorem exponentPart_append' (h : (exponentPart s).2 ≠ []) :
    exponentPart (s ++ q) = ((exponentPart s).1, (exponentPart s).2 ++ q) := by
  cases s with
  | nil => exact absurd rfl h
  | cons b s =>
    rw [List.cons_append, exponentPart, exponentPart]
    rw [exponentPart] at h
    split_ifs at h ⊢
    · have hs : s ≠ [] := by
        rintro rfl
        exact h rfl
      rw [signsubscale_append hs]
      dsimp only
      rw [subscaleLoop_append' h]
    · rfl

/-- The point alone is no fraction and no exponent. -/
theorem fracPart_append' {n : ℚ} (h : Live (exponentPart (fracPart fpu n s).2.2).2) :
    fracPart fpu n (s ++ q) =
      ((fracPart fpu n s).1, (fracPart fpu n s).2.1, (fracPart fpu n s).2.2 ++ q) := by
  rcases s with _ | ⟨b, _ | ⟨c, s⟩⟩
  · exact absurd rfl h.ne_nil
  · have hb : b ≠ 0x2E := by
      rintro rfl
      obtain ⟨c, t, hc, hne⟩ := h
      have hpoint : (exponentPart (fracPart fpu n [0x2E]).2.2).2 = [0x2E] := rfl
      rw [hpoint, List.cons.injEq] at hc
      exact hne hc.1.symm
    cases q <;> simp [fracPart, hb]
  · rw [List.cons_append, List.cons_append, fracPart, fracPart]
    rw [fracPart] at h
    split_ifs at h ⊢
    · have hne : (digitsLoop fpu n (c :: s)).2 ≠ [] := by
        intro he
        dsimp only at h
        rw [he] at h
        exact h.ne_nil rfl
      have hloop := digitsLoop_append' (q := q) hne
      rw [List.cons_append] at hloop
      dsimp only
      rw [hloop]
      simp only [List.length_append, List.length_cons, Prod.mk.injEq, and_true, true_and]
      omega
    · rfl

/-- **A number inside an array or an object is read alike**, whatever follows the text. -/
theorem parseNumber_append {v : CJSON} (h : parseNumber fpu s = .ok v r) (hr : Live r) :
    parseNumber fpu (s ++ q) = .ok v (r ++ q) := by
  rw [parseNumber, Parsed.ok.injEq] at h
  obtain ⟨rfl, rfl⟩ := h
  have hs : s ≠ [] := by
    rintro rfl
    exact hr.ne_nil rfl
  have hfrac : (fracPart fpu (wholePart fpu (signPart s).2).1
      (wholePart fpu (signPart s).2).2).2.2 ≠ [] :=
    fun he => hr.ne_nil (by rw [he]; rfl)
  have hwhole : (wholePart fpu (signPart s).2).2 ≠ [] := fun he => hfrac (by rw [he]; rfl)
  rw [parseNumber, signPart_append hs, wholePart_append' hwhole, fracPart_append' hr,
    exponentPart_append' hr.ne_nil]

end Numbers

/-! ### Values -/

theorem skip_append_of_ne (h : skip s ≠ []) : skip (s ++ q) = skip s ++ q := by
  have hne : (s.dropWhile fun b => decide (b ≤ 32)).isEmpty = false :=
    List.isEmpty_eq_false_iff.mpr h
  rw [skip, List.dropWhile_append, hne]
  rfl

/-- The space in front of a separator is no point. -/
theorem live_of_skip (h : skip r = c :: t) (hc : c ≠ 0x2E) : Live r := by
  cases r with
  | nil => cases h
  | cons b r =>
    refine ⟨b, r, rfl, ?_⟩
    rintro rfl
    have hself : skip (0x2E :: r) = 0x2E :: r := List.dropWhile_cons_of_neg (by decide)
    rw [hself, List.cons.injEq] at h
    exact hc h.1.symm

theorem Sealed.of_passed (h : Sealed q s) (hp : Passed s r) : Sealed q r := by
  obtain ⟨q', hq, hs⟩ := h
  obtain ⟨w, rfl, hw⟩ := hp
  rw [List.append_assoc, escaped_append hw] at hs
  exact ⟨q', hq, hs⟩

theorem Sealed.of_cons (h : Sealed q (b :: s)) (hb : b ≠ 0x5C) : Sealed q s :=
  h.of_passed ((Passed.refl s).cons hb)

/-- What follows a value is not looked at, but for the character that ends a number. -/
def Extends (value : Parser UInt8 CJSON) : Prop :=
  ∀ q s v r, Sealed q s → Live r → value s = .ok v r → value (s ++ q) = .ok v (r ++ q)

section Extends

variable {value : Parser UInt8 CJSON} {stack : ℕ} {v : CJSON}

/-- A parser that takes no more than it did in front of `q` leaves complete escapes there. -/
theorem Sealed.of_takes {α : Type} {item : Parser UInt8 α} {a : α} (h : Sealed q s)
    (hi : ∀ s, Fit True stack s → Takes (Fit True stack) True s (item s))
    (ha : ∀ q', Sealed q' s → item (s ++ q') = .ok a (r ++ q')) : Sealed q r := by
  obtain ⟨q', hq, hs⟩ := h
  have htakes := hi (s ++ q') ⟨hs, .inl trivial⟩
  rw [ha q' ⟨q', List.prefix_rfl, hs⟩] at htakes
  exact ⟨q', hq, htakes.1.escaped⟩

theorem entry_append (hv : Extends value) (hnil : ∀ v r, value [] ≠ .ok v r) (hs : Sealed q s)
    (hc : c ≠ 0x2E) (h : entry value s = .ok v (c :: r)) : entry value (s ++ q) = .ok v
    (c :: (r ++ q)) := by
  obtain ⟨v', r', hv', h⟩ := Parsed.bind_eq_ok.mp h
  simp only [Parsed.ok.injEq] at h
  obtain ⟨rfl, hr⟩ := h
  have hne : skip s ≠ [] := fun he => hnil v' r' (he ▸ hv')
  have hvalue := hv q _ _ _ (hs.of_passed (passed_skip s)) (live_of_skip hr hc) hv'
  rw [entry, skip_append_of_ne hne, hvalue, Parsed.ok_bind,
    skip_append_of_ne (hr ▸ List.cons_ne_nil c r), hr]
  rfl

theorem member_append (hv : Extends value) (hnil : ∀ v r, value [] ≠ .ok v r) (hs : Sealed q s)
    (hc : c ≠ 0x2E) {m : List UInt8 × CJSON} (h : member value s = .ok m (c :: r)) :
    member value (s ++ q) = .ok m (c :: (r ++ q)) := by
  obtain ⟨name, r', hname, h⟩ := Parsed.bind_eq_ok.mp h
  have hs' := hs.of_passed (passed_skip s)
  have hne : skip s ≠ [] := fun he => by rw [he] at hname; cases hname
  cases hr' : skip r' with
  | nil => simp [hr'] at h
  | cons b t =>
    simp only [hr'] at h
    split_ifs at h with hb
    subst hb
    obtain ⟨v, hv', rfl⟩ := Parsed.map_eq_ok.mp h
    have hr : r' ≠ [] := fun he => by rw [he] at hr'; cases hr'
    have hstring : ∀ q', Sealed q' (skip s) → parseString (skip s ++ q') = .ok name (r' ++ q') :=
      fun q' hq' => parseString_append hq' hname hr
    have hrest : Sealed q t := by
      have htakes : ∀ s, Fit True 0 s → Takes (Fit True 0) True s (parseString s) :=
        fun _ => parseString_takes
      have hsealed := (hs'.of_takes htakes hstring).of_passed (passed_skip r')
      rw [hr'] at hsealed
      exact hsealed.of_cons (by decide)
    have hentry := entry_append hv hnil hrest hc hv'
    rw [member, skip_append_of_ne hne, hstring q hs', Parsed.ok_bind,
      skip_append_of_ne (hr' ▸ List.cons_ne_nil _ t), hr']
    simp [hentry]

/-- **The list of an array or of an object is read alike**, behind the bracket. -/
theorem list_append {α : Type} {item : Parser UInt8 α} {close : UInt8} {as : List α}
    (hclose : close ≠ 0x2E ∧ close ≠ 0x5C) (hnil : ∀ a r, item [] ≠ .ok a r)
    (htakes : ∀ s, Fit True stack s → Takes (Fit True stack) True s (item s))
    (hitem : ∀ q s a c r, Sealed q s → c ≠ 0x2E → item s = .ok a (c :: r) →
      item (s ++ q) = .ok a (c :: (r ++ q)))
    (hs : Sealed q s) (h : (if (skip s).head? = some close then .ok [] (skip s).tail
      else items item 0x2C close ((skip s).length + 1) (skip s)) = Parsed.ok as r) :
    (if (skip (s ++ q)).head? = some close then .ok [] (skip (s ++ q)).tail
      else items item 0x2C close ((skip (s ++ q)).length + 1) (skip (s ++ q))) = Parsed.ok as
        (r ++ q) := by
  have hs' := hs.of_passed (passed_skip s)
  obtain ⟨b, t, hbt⟩ : ∃ b t, skip s = b :: t := by
    cases hskip : skip s with
    | nil =>
      rw [hskip, if_neg (by simp)] at h
      obtain ⟨-, a, -, ⟨_, _, hi, _⟩ | ⟨_, hi, _⟩⟩ := items_eq_ok h
      all_goals exact absurd hi (hnil _ _)
    | cons b t => exact ⟨b, t, rfl⟩
  rw [skip_append_of_ne (hbt ▸ List.cons_ne_nil b t), hbt]
  rw [hbt] at h hs'
  rw [List.cons_append]
  by_cases hb : b = close
  · have hhead : ∀ t' : List UInt8, (b :: t').head? = some close := fun _ => congrArg some hb
    rw [if_pos (hhead t), Parsed.ok.injEq] at h
    obtain ⟨rfl, rfl⟩ := h
    exact if_pos (hhead _)
  · have hb' : ∀ t' : List UInt8, (b :: t').head? ≠ some close :=
      fun t' he => hb (Option.some.inj he)
    rw [if_neg (hb' t)] at h
    rw [if_neg (hb' (t ++ q))]
    refine items_append (I := Sealed q) (fun s a c r hs hc ha => ?_) (by simp) hs' h
    have hpoint : c ≠ 0x2E ∧ c ≠ 0x5C := by
      rcases hc with rfl | rfl
      · decide
      · exact hclose
    have happend : ∀ q', Sealed q' s → item (s ++ q') = .ok a (c :: r ++ q') :=
      fun q' hq' => hitem q' s a c r hq' hpoint.1 ha
    exact ⟨happend q hs, (hs.of_takes htakes happend).of_cons hpoint.2⟩

theorem array_append {child : List CJSON} (hv : Extends value) (hnil : ∀ v r, value [] ≠ .ok v r)
    (hcareful : Careful True stack value) (hs : Sealed q s) (h : parseArray value s = .ok child r) :
    parseArray value (s ++ q) = .ok child (r ++ q) := by
  cases s with
  | nil => cases h
  | cons b s =>
    rw [parseArray] at h
    rw [List.cons_append, parseArray]
    split_ifs at h ⊢ with hb
    have hnil' : ∀ a r, entry value [] ≠ .ok a r := by
      intro a r he
      obtain ⟨_, _, hx, -⟩ := Parsed.bind_eq_ok.mp he
      exact hnil _ _ hx
    exact list_append (by decide) hnil' (fun _ => entry_takes hcareful)
      (fun _ _ _ _ _ => entry_append hv hnil) (hs.of_cons (hb ▸ by decide)) h

theorem object_append {child : List (List UInt8 × CJSON)} (hv : Extends value)
    (hnil : ∀ v r, value [] ≠ .ok v r) (hcareful : Careful True stack value) (hs : Sealed q s)
    (h : parseObject value s = .ok child r) : parseObject value (s ++ q) = .ok child (r ++ q) := by
  cases s with
  | nil => cases h
  | cons b s =>
    rw [parseObject] at h
    rw [List.cons_append, parseObject]
    split_ifs at h ⊢ with hb
    have hnil' : ∀ a r, member value [] ≠ .ok a r := by
      intro a r he
      obtain ⟨_, _, hx, -⟩ := Parsed.bind_eq_ok.mp he
      cases hx
    exact list_append (by decide) hnil' (fun _ => member_takes hcareful)
      (fun _ _ _ _ _ hs hc hm => member_append hv hnil hs hc hm) (hs.of_cons (hb ▸ by decide)) h

end Extends

section Parser

variable {fpu : Arithmetic} {stack : ℕ} {v : CJSON}

theorem parseValue_nil (stack : ℕ) (v : CJSON) (r : List UInt8) :
    parseValue fpu stack [] ≠ .ok v r := by
  cases stack with
  | zero => exact nofun
  | succ stack => exact nofun

theorem letter (hb : b ∈ [0x6E, 0x66, 0x74]) :
    b ≠ 0x22 ∧ ¬ (b = 0x2D ∨ isDigit b = true) ∧ b ≠ 0x5B ∧ b ≠ 0x7B := by
  simp only [List.mem_cons, List.not_mem_nil, or_false] at hb
  rcases hb with rfl | rfl | rfl <;> decide

/-- An array or an object. -/
def Container (v : CJSON) : Prop := (∃ child, v = .array child) ∨ ∃ child, v = .object child

/-- A word stands in front of what follows, too. -/
theorem word_append {w : List UInt8} (hw : w <+: s) :
    (s ++ q).drop w.length = s.drop w.length ++ q :=
  List.drop_append_of_le_length hw.length_le

/-- **`parse_value` does not look at what follows**, but for the character that ends a number. -/
theorem parseValue_append : ∀ {stack : ℕ} {q s r : List UInt8} {v : CJSON}, Sealed q s →
    Live r ∨ Container v → parseValue fpu stack s = .ok v r → parseValue fpu stack (s ++ q) =
    .ok v (r ++ q)
  | 0, _, _, _, _, _, _, h => nomatch h
  | stack + 1, q, [], r, v, _, _, h => absurd h (parseValue_nil (stack + 1) v r)
  | stack + 1, q, b :: t, r, v, hs, hr, h => by
    have ih : Extends (parseValue fpu stack) :=
      fun q s v r hs hr h => parseValue_append hs (.inl hr) h
    have hnil : ∀ v r, parseValue fpu stack [] ≠ .ok v r := parseValue_nil stack
    have hcareful : Careful True stack (parseValue fpu stack) := parseValue_takes
    by_cases hb : b ∉ [0x6E, 0x66, 0x74]
    · rw [parseValue_cons fpu stack hb] at h
      rw [List.cons_append, parseValue_cons fpu stack hb, ← List.cons_append]
      split_ifs at h ⊢ with hq hn harr hobj
      · obtain ⟨out, hout, rfl⟩ := Parsed.map_eq_ok.mp h
        have hlive : Live r := hr.resolve_right (by simp [Container])
        rw [parseString_append hs hout hlive.ne_nil]
        rfl
      · have hlive : Live r := hr.resolve_right (by
          rw [parseNumber, Parsed.ok.injEq] at h
          simp [Container, ← h.1])
        exact parseNumber_append h hlive
      · obtain ⟨child, hchild, rfl⟩ := Parsed.map_eq_ok.mp h
        rw [array_append ih hnil hcareful hs hchild]
        rfl
      · obtain ⟨child, hchild, rfl⟩ := Parsed.map_eq_ok.mp h
        rw [object_append ih hnil hcareful hs hchild]
        rfl
    · rw [not_not] at hb
      obtain ⟨hq, hn, harr, hobj⟩ := letter hb
      rw [parseValue] at h
      rw [List.cons_append, parseValue, ← List.cons_append]
      split_ifs at h with hnull hfalse htrue
      · rw [if_pos (hnull.trans (List.prefix_append _ q)), ← (Parsed.ok.inj h).1,
          ← (Parsed.ok.inj h).2]
        exact congrArg (Parsed.ok _) (word_append hnull)
      · have hf : 0x66 = b := (List.cons_prefix_cons.mp hfalse).1
        subst hf
        have hnot : ¬ ascii "null" <+: 0x66 :: t ++ q := not_cons_prefix (by decide)
        rw [if_neg hnot, if_pos (hfalse.trans (List.prefix_append _ q)), ← (Parsed.ok.inj h).1,
          ← (Parsed.ok.inj h).2]
        exact congrArg (Parsed.ok _) (word_append hfalse)
      · have ht : 0x74 = b := (List.cons_prefix_cons.mp htrue).1
        subst ht
        have hnot : ¬ ascii "null" <+: 0x74 :: t ++ q := not_cons_prefix (by decide)
        have hnot' : ¬ ascii "false" <+: 0x74 :: t ++ q := not_cons_prefix (by decide)
        rw [if_neg hnot, if_neg hnot', if_pos (htrue.trans (List.prefix_append _ q)),
          ← (Parsed.ok.inj h).1,
          ← (Parsed.ok.inj h).2]
        exact congrArg (Parsed.ok _) (word_append htrue)

theorem parseValue_of_cjsonParse (h : cjsonParse fpu stack s = .ok v r) :
    parseValue fpu stack (skip s) = .ok v r := by
  obtain ⟨v', r', hv', h⟩ := Parsed.bind_eq_ok.mp h
  rw [if_neg (by simp), Parsed.ok.injEq] at h
  rw [hv', h.1, h.2]

theorem cjsonParse_append (hs : Sealed q s) (hv : Container v)
    (h : cjsonParse fpu stack s = .ok v r) : cjsonParse fpu stack (s ++ q) = .ok v (r ++ q) := by
  have hv' := parseValue_of_cjsonParse h
  have hne : skip s ≠ [] := fun he => parseValue_nil stack v r (he ▸ hv')
  have happend := parseValue_append (hs.of_passed (passed_skip s)) (.inr hv) hv'
  rw [cjsonParse, cjsonParseWithOpts, skip_append_of_ne hne, happend]
  rfl

/-- The first character tells whether a container is read. -/
theorem container_iff (h : parseValue fpu (stack + 1) (b :: t) = .ok v r) :
    Container v ↔ b = 0x5B ∨ b = 0x7B := by
  by_cases hb : b ∉ [0x6E, 0x66, 0x74]
  · rw [parseValue_cons fpu stack hb] at h
    split_ifs at h with hq hn harr hobj
    · obtain ⟨out, -, rfl⟩ := Parsed.map_eq_ok.mp h
      simp [Container, hq]
    · rw [parseNumber, Parsed.ok.injEq] at h
      have hbracket : ¬ (b = 0x5B ∨ b = 0x7B) := by
        rintro (rfl | rfl)
        all_goals exact absurd hn (by decide)
      simp [Container, ← h.1, hbracket]
    · obtain ⟨child, -, rfl⟩ := Parsed.map_eq_ok.mp h
      simp [Container, harr]
    · obtain ⟨child, -, rfl⟩ := Parsed.map_eq_ok.mp h
      simp [Container, hobj]
  · have hbracket : ¬ (b = 0x5B ∨ b = 0x7B) := by
      rintro (rfl | rfl)
      all_goals exact hb (by decide)
    rw [not_not] at hb
    obtain ⟨hq, hn, harr, hobj⟩ := letter hb
    rw [parseValue] at h
    split_ifs at h
    all_goals simp [Container, ← (Parsed.ok.inj h).1, hbracket]

/-- A text that is cut off is not accepted, if its escapes are complete in what is cut off. -/
theorem prefix_refused {w : CJSON} {r' : List UInt8} (hs : escaped (s ++ q) = true)
    (hv : Container v) (h : cjsonParse fpu stack (s ++ q) = .ok v r) (hq : r.length < q.length) :
    cjsonParse fpu stack s ≠ .ok w r' := by
  intro hw
  have hsw := parseValue_of_cjsonParse hw
  have hsv := parseValue_of_cjsonParse h
  have hne : skip s ≠ [] := fun he => parseValue_nil stack w r' (he ▸ hsw)
  obtain ⟨b, t, hb⟩ := List.exists_cons_of_ne_nil hne
  rw [skip_append_of_ne hne, hb, List.cons_append] at hsv
  rw [hb] at hsw
  obtain ⟨stack, rfl⟩ : ∃ k, stack = k + 1 := by
    rcases stack with _ | k
    · cases hsw
    · exact ⟨k, rfl⟩
  have hcontainer := (container_iff hsw).mpr ((container_iff hsv).mp hv)
  have happend := cjsonParse_append ⟨q, List.prefix_rfl, hs⟩ hcontainer hw
  rw [h, Parsed.ok.injEq] at happend
  rw [happend.2, List.length_append] at hq
  omega

/-- **The text of an array or an object says where it ends**: if the escapes of a text are complete
and an array or an object is read from it, then it is read alike whatever stands behind the text,
and nothing is read from a part of the text that ends before the closing bracket. -/
theorem self_delimiting (fpu : Arithmetic) {stack : ℕ} {s r : List UInt8} {v : CJSON}
    (hs : escaped s = true) (hv : Container v) (h : cjsonParse fpu stack s = .ok v r) :
    (∀ q, cjsonParse fpu stack (s ++ q) = .ok v (r ++ q)) ∧
      ∀ p q, s = p ++ q → r.length < q.length → ∀ w r', cjsonParse fpu stack p ≠ .ok w r' := by
  refine ⟨fun q => ?_, ?_⟩
  · exact cjsonParse_append ⟨[], List.nil_prefix, by rwa [List.append_nil]⟩ hv h
  · rintro p q rfl hq w r'
    exact prefix_refused hs hv h hq

/-- `{"a":[true]}`. -/
def flags : List UInt8 := [0x7B, 0x22, 0x61, 0x22, 0x3A, 0x5B, 0x74, 0x72, 0x75, 0x65, 0x5D, 0x7D]

theorem self_delimiting_flags :
    (∀ q, cjsonParse binary64 4 (flags ++ q) =
      .ok (.object [([0x61], .array [.bool true])]) ([] ++ q)) ∧
      ∀ p q, flags = p ++ q → ([] : List UInt8).length < q.length → ∀ w r',
      cjsonParse binary64 4 p ≠ .ok w r' :=
  self_delimiting binary64 (by decide +kernel) (.inr ⟨_, rfl⟩) rfl

/-! ### The texts of values -/

/-- The escapes of the text are complete, so they do not matter for those of what follows. -/
def Complete (s : List UInt8) : Prop := ∀ t, escaped (s ++ t) = escaped t

theorem Complete.append (hs : Complete s) (ht : Complete t) : Complete (s ++ t) := fun u => by
  rw [List.append_assoc, hs, ht]

theorem complete_singleton (hb : b ≠ 0x5C) : Complete [b] := fun _ => escaped_cons hb

theorem isHex_hexDigit : ∀ n < 16, isHex (hexDigit n) = true := by decide

theorem complete_printChar (b : UInt8) : Complete (printChar b) := by
  intro t
  have hlt := b.toNat_lt
  have hletter : ∀ c, c ≠ 0x75 → escaped ([0x5C, c] ++ t) = escaped t :=
    fun c hc => escaped_escape hc
  unfold printChar
  split_ifs with h1
  · exact escaped_cons h1.2.2
  iterate 7 exact hletter _ (by decide)
  have hhi := isHex_hexDigit _ (show b.toNat / 16 < 16 by omega)
  have hlo := isHex_hexDigit _ (show b.toNat % 16 < 16 by omega)
  have hrest : escaped (0x30 :: 0x30 :: hexDigit (b.toNat / 16) :: hexDigit (b.toNat % 16) :: t) =
      escaped t := by
    rw [escaped_cons (by decide), escaped_cons (by decide), escaped_cons (isHex_ne hhi).1,
      escaped_cons (isHex_ne hlo).1]
  have hunicode : escaped (0x5C :: 0x75 :: 0x30 :: 0x30 :: hexDigit (b.toNat / 16) ::
      hexDigit (b.toNat % 16) :: t) = escaped t := by
    rw [Bool.eq_iff_iff, escaped_unicode, hrest]
    have hzero : isHex 0x30 = true := by decide
    simp [hhi, hlo, hzero]
  exact hunicode

theorem complete_printString (s : List UInt8) : Complete (printString s) := by
  have hchars : ∀ s : List UInt8, Complete (s.flatMap printChar) := by
    intro s
    induction s with
    | nil => exact fun _ => rfl
    | cons b s ih =>
      rw [List.flatMap_cons]
      exact (complete_printChar b).append ih
  exact (complete_singleton (by decide)).append ((hchars s).append (complete_singleton (by decide)))

theorem complete_pieces (fmt : Bool) : Pieces fmt fun s _ => Complete s where
  nil _ := rfl
  append hs ht := hs.append ht
  mark hb := complete_singleton hb.2.2.2
  space _ b hb := complete_singleton (by rcases hb with rfl | rfl | rfl <;> decide)
  string := complete_printString

/-- **A text of an array or an object is read whole or not at all**: with anything behind it the
value is read, and nothing is read from a part of it. -/
theorem cjsonText_pieces {fmt : Bool} {N : Int32 → ℚ → Prop} (hall : All CStr N v)
    (hv : Container v) (hd : depth v ≤ stack) :
    (∀ q, cjsonParse fpu stack (cjsonText fpu fmt v ++ q) = .ok (reread fpu v) q) ∧
      ∀ p q, cjsonText fpu fmt v = p ++ q → q ≠ [] → ∀ w r', cjsonParse fpu stack p ≠ .ok w r' := by
  have hfollows : ∀ q, Follows q v := by
    rcases hv with ⟨child, rfl⟩ | ⟨child, rfl⟩
    · exact fun _ => trivial
    · exact fun _ => trivial
  have hreread : Container (reread fpu v) := by
    rcases hv with ⟨child, rfl⟩ | ⟨child, rfl⟩
    · exact .inl ⟨_, rfl⟩
    · exact .inr ⟨_, rfl⟩
  refine ⟨fun q => cjsonParse_cjsonText hall hd (hfollows q), ?_⟩
  intro p q hpq hq w r'
  have hcomplete : Complete (cjsonText fpu fmt v) := (complete_pieces fmt).printValue v 0 0
  have hescaped := hcomplete []
  rw [List.append_nil, hpq] at hescaped
  have hparse : cjsonParse fpu stack (cjsonText fpu fmt v ++ []) = _ :=
    cjsonParse_cjsonText hall hd (hfollows [])
  rw [List.append_nil, hpq] at hparse
  exact prefix_refused hescaped hreread hparse (List.length_pos_iff.mpr hq)

end Parser

end MultiPortConvertor.Tool.CJsonPrefix
