import MultiPortConvertor.Tool.CJsonPrint

/-! # What a text is made of

The text of a value consists of strings, of marks that are no space, and, if it is formatted, of
space in between. Whatever holds of these and of what is composed of them holds of the texts
(`Pieces.printValue`); the second text is the one without the space. -/

namespace MultiPortConvertor.Tool.CJsonPieces

open MultiPortConvertor.Lib.CString MultiPortConvertor.Lib.Doubles MultiPortConvertor.Lib.Printf
open MultiPortConvertor.Lib.Scanf
open MultiPortConvertor.Tool.CJson MultiPortConvertor.Tool.CJsonPrint

/-- What `print_number` writes is a numeral. -/
theorem printNumber_numeral (fpu : Arithmetic) (valueint : Int32) (d : ℚ) :
    ∃ n : Numeral, n.text = printNumber fpu valueint d := by
  unfold printNumber
  split_ifs
  · exact ⟨ofInt 0, by rw [text_ofInt]; decide⟩
  · exact ⟨ofInt valueint.toInt, text_ofInt _⟩
  · exact fmtF0_numeral d
  · exact fmtE_numeral d
  · exact fmtF_numeral d

/-- A character that stands by itself: no space, and none that opens a string, an escape or a
comment. -/
def Mark (b : UInt8) : Prop := 0x20 < b ∧ b ≠ 0x22 ∧ b ≠ 0x2F ∧ b ≠ 0x5C

instance : DecidablePred Mark := fun _ => inferInstanceAs (Decidable (_ ∧ _))

/-- The space that the formatted texts have. -/
def Space (b : UInt8) : Prop := b = 0x09 ∨ b = 0x0A ∨ b = 0x20

/-- A relation between texts and the same texts without the space. -/
structure Pieces (fmt : Bool) (R : List UInt8 → List UInt8 → Prop) : Prop where
  nil : R [] []
  append : ∀ {s s' t t' : List UInt8}, R s s' → R t t' → R (s ++ t) (s' ++ t')
  mark : ∀ {b : UInt8}, Mark b → R [b] [b]
  space : fmt = true → ∀ {b : UInt8}, Space b → R [b] []
  string : ∀ s : List UInt8, R (printString s) (printString s)

theorem mark_of_isDigit {b : UInt8} (h : isDigit b = true) : Mark b := by
  obtain ⟨h1, h2⟩ := isDigit_iff.mp h
  refine ⟨UInt8.lt_iff_toNat_lt.mpr (lt_of_lt_of_le (by decide) h1), ?_, ?_, ?_⟩
  all_goals
    rintro rfl
    revert h1 h2
    decide

/-- All characters of a numeral are marks. -/
theorem mark_of_mem_text (n : Numeral) {b : UInt8} (hb : b ∈ n.text) : Mark b := by
  rcases List.mem_append.mp hb with hb | hb
  · rcases hneg : n.neg with _ | _
    · rw [hneg] at hb
      cases hb
    · rw [hneg] at hb
      rw [List.mem_singleton.mp hb]
      decide
  rcases List.mem_append.mp hb with hb | hb
  · exact mark_of_isDigit (n.isDigit_whole b hb)
  rcases List.mem_append.mp hb with hb | hb
  · unfold point at hb
    split_ifs at hb
    · cases hb
    · rcases List.mem_cons.mp hb with rfl | hb
      · decide
      · exact mark_of_isDigit (n.isDigit_frac b hb)
  · rcases he : n.exp with _ | ⟨neg, ds⟩
    · rw [he] at hb
      cases hb
    · rw [he, exponentText] at hb
      rcases List.mem_cons.mp hb with rfl | hb
      · decide
      rcases List.mem_cons.mp hb with rfl | hb
      · split_ifs <;> decide
      · exact mark_of_isDigit (n.isDigit_exp (neg, ds) he b hb)

namespace Pieces

variable {fpu : Arithmetic} {fmt : Bool} {R : List UInt8 → List UInt8 → Prop}

theorem cons (h : Pieces fmt R) {b : UInt8} {s s' : List UInt8} (hb : Mark b) (hs : R s s') :
    R (b :: s) (b :: s') :=
  h.append (h.mark hb) hs

theorem marks (h : Pieces fmt R) : ∀ {s : List UInt8}, (∀ b ∈ s, Mark b) → R s s
  | [], _ => h.nil
  | b :: s, hs => h.cons (hs b (by simp)) (h.marks fun c hc => hs c (List.mem_cons_of_mem b hc))

/-- A word. -/
theorem word (h : Pieces fmt R) (s : List UInt8) (hs : (s.all fun b => decide (Mark b)) = true) :
    R s s :=
  h.marks fun b hb => of_decide_eq_true (List.all_eq_true.mp hs b hb)

/-- Space, where there is some. -/
theorem gap (h : Pieces fmt R) : ∀ {s : List UInt8}, (∀ b ∈ s, Space b) →
    R (if fmt then s else []) []
  | [], _ => by simpa using h.nil
  | b :: s, hs => by
    have ih := h.gap fun c hc => hs c (List.mem_cons_of_mem b hc)
    split_ifs at ih ⊢ with hfmt
    · exact h.append (h.space hfmt (hs b (by simp))) ih
    · exact h.nil

theorem tabs (h : Pieces fmt R) (n : ℕ) : R (if fmt then CJsonPrint.tabs n else []) [] :=
  h.gap fun _ hb => .inl (List.mem_replicate.mp hb).2

theorem composeEntries (h : Pieces fmt R) {es es' : List (List UInt8)}
    (hes : List.Forall₂ R es es') : R (CJsonPrint.composeEntries fmt es)
    (CJsonPrint.composeEntries false es') := by
  induction hes with
  | nil => exact h.nil
  | @cons e e' es es' he hes ih =>
    rcases hes with _ | ⟨hf, hfs⟩
    · exact he
    · have hgap : R (0x2C :: if fmt then [0x20] else []) [0x2C] :=
        h.cons (by decide) (h.gap (by simp [Space]))
      exact h.append (h.append he hgap) ih

theorem printArray (h : Pieces fmt R) {es es' : List (List UInt8)} (hes : List.Forall₂ R es es') :
    R (CJsonPrint.printArray fmt es) (CJsonPrint.printArray false es') := by
  have hcompose := h.composeEntries hes
  rcases hes with _ | ⟨he, hes⟩
  · exact h.word (ascii "[]") (by decide)
  · exact h.cons (by decide) (h.append hcompose (h.mark (by decide)))

/-- The lines of an object. -/
theorem composeMembers (h : Pieces fmt R) (depth depth' : ℕ)
    {ms ms' : List (List UInt8 × List UInt8)}
    (hms : List.Forall₂ (fun m m' => R m.1 m'.1 ∧ R m.2 m'.2) ms ms') :
    R (CJsonPrint.composeMembers fmt depth ms) (CJsonPrint.composeMembers false depth' ms') := by
  induction hms with
  | nil => exact h.nil
  | @cons m m' ms ms' hm hms ih =>
    have hcolon : R (0x3A :: if fmt then [0x09] else []) [0x3A] :=
      h.cons (by decide) (h.gap (by simp [Space]))
    have hcomma : R (if ms = [] then [] else [0x2C]) (if ms' = [] then [] else [0x2C]) := by
      rcases hms with _ | _
      · exact h.nil
      · exact h.mark (by decide)
    have hnl : R (if fmt then [0x0A] else []) [] := h.gap (by simp [Space])
    exact h.append (h.append (h.append (h.append (h.append (h.append (h.tabs depth) hm.1) hcolon)
      hm.2) hcomma) hnl) ih

theorem printObject (h : Pieces fmt R) (depth depth' : ℕ) {ms ms' : List (List UInt8 × List UInt8)}
    (hms : List.Forall₂ (fun m m' => R m.1 m'.1 ∧ R m.2 m'.2) ms ms') :
    R (CJsonPrint.printObject fmt depth ms) (CJsonPrint.printObject false depth' ms') := by
  have hcompose := h.composeMembers (depth + 1) (depth' + 1) hms
  have hclose : R [0x7D] [0x7D] := h.mark (by decide)
  have hnl : R (if fmt then [0x0A] else []) [] := h.gap (by simp [Space])
  rcases hms with _ | ⟨hm, hms⟩
  · have hspace : R (if fmt then 0x0A :: CJsonPrint.tabs (depth - 1) else []) [] :=
      h.gap (List.forall_mem_cons.mpr ⟨.inr (.inl rfl), fun _ hb =>
        .inl (List.mem_replicate.mp hb).2⟩)
    exact h.cons (by decide) (h.append hspace hclose)
  · exact h.cons (by decide) (h.append (h.append (h.append hnl hcompose) (h.tabs depth)) hclose)

/-- **What holds of the pieces holds of the texts.** -/
theorem printValue (h : Pieces fmt R) (v : CJSON) : ∀ depth depth' : ℕ,
    R (CJsonPrint.printValue fpu fmt depth v) (CJsonPrint.printValue fpu false depth' v) := by
  induction v using value_induct with
  | null => exact fun _ _ => h.word (ascii "null") (by decide)
  | bool b =>
    rcases b with _ | _
    · exact fun _ _ => h.word (ascii "false") (by decide)
    · exact fun _ _ => h.word (ascii "true") (by decide)
  | number i q =>
    intro _ _
    obtain ⟨n, hn⟩ := printNumber_numeral fpu i q
    rw [CJsonPrint.printValue, CJsonPrint.printValue, ← hn]
    exact h.marks fun b => mark_of_mem_text n
  | string s => exact fun _ _ => h.string s
  | array child ih =>
    intro depth depth'
    rw [CJsonPrint.printValue, CJsonPrint.printValue, printEntries_eq, printEntries_eq]
    refine h.printArray ?_
    rw [List.forall₂_map_left_iff, List.forall₂_map_right_iff, List.forall₂_same]
    exact fun v hv => ih v hv (depth + 1) (depth' + 1)
  | object child ih =>
    intro depth depth'
    rw [CJsonPrint.printValue, CJsonPrint.printValue, printMembers_eq, printMembers_eq]
    refine h.printObject depth depth' ?_
    rw [List.forall₂_map_left_iff, List.forall₂_map_right_iff, List.forall₂_same]
    exact fun m hm => ⟨h.string m.1, ih m hm (depth + 1) (depth' + 1)⟩

end Pieces

end MultiPortConvertor.Tool.CJsonPieces
