import MultiPortConvertor.Tool.CJsonNumbers
import MultiPortConvertor.Tool.CJsonPieces
import MultiPortConvertor.Tool.CJsonStrings

/-! # Values written and read back

`cJSON_Parse` reads what `cJSON_Print` and `cJSON_PrintUnformatted` write, at every depth of the
value and whatever follows the text. Strings come back as they were, and numbers as their decimals
say; those that are integers are the same (`print_read_back`). -/

namespace MultiPortConvertor.Tool.CJsonRoundTrip

open MultiPortConvertor.Lib.CString MultiPortConvertor.Lib.Doubles MultiPortConvertor.Lib.Parsers
open MultiPortConvertor.Lib.Scanf MultiPortConvertor.Lib.Printf
open MultiPortConvertor.Tool.CJson MultiPortConvertor.Tool.CJsonParse
open MultiPortConvertor.Tool.CJsonPrint
open MultiPortConvertor.Tool.CJsonNumbers MultiPortConvertor.Tool.CJsonStrings
open MultiPortConvertor.Tool.CJsonPieces

/-! ### Values -/

/-- All strings and names of the value meet `S`, all numbers `N`. -/
inductive All (S : List UInt8 → Prop) (N : Int32 → ℚ → Prop) : CJSON → Prop where
  | null : All S N .null
  | bool (b : Bool) : All S N (.bool b)
  | number {valueint : Int32} {valuedouble : ℚ} (h : N valueint valuedouble) :
      All S N (.number valueint valuedouble)
  | string {valuestring : List UInt8} (h : S valuestring) : All S N (.string valuestring)
  | array {child : List CJSON} (h : ∀ v ∈ child, All S N v) : All S N (.array child)
  | object {child : List (List UInt8 × CJSON)} (hn : ∀ m ∈ child, S m.1)
      (h : ∀ m ∈ child, All S N m.2) : All S N (.object child)

/-- The two fields of a number agree. -/
def Whole (valueint : Int32) (valuedouble : ℚ) : Prop := valuedouble = valueint.toInt

mutual

/-- The calls of `parse_value` inside one another that the value takes. -/
def depth : CJSON → ℕ
  | .array child => depthEntries child + 1
  | .object child => depthMembers child + 1
  | _ => 1

def depthEntries : List CJSON → ℕ
  | [] => 0
  | v :: vs => max (depth v) (depthEntries vs)

def depthMembers : List (List UInt8 × CJSON) → ℕ
  | [] => 0
  | (_, v) :: ms => max (depth v) (depthMembers ms)

end

mutual

/-- The value with its numbers as `parse_number` reads their texts. -/
def reread (fpu : Arithmetic) : CJSON → CJSON
  | .null => .null
  | .bool b => .bool b
  | .number valueint valuedouble =>
    match parseNumber fpu (printNumber fpu valueint valuedouble) with
    | .ok v _ => v
    | _ => .null
  | .string valuestring => .string valuestring
  | .array child => .array (rereadEntries fpu child)
  | .object child => .object (rereadMembers fpu child)

def rereadEntries (fpu : Arithmetic) : List CJSON → List CJSON
  | [] => []
  | v :: vs => reread fpu v :: rereadEntries fpu vs

def rereadMembers (fpu : Arithmetic) : List (List UInt8 × CJSON) → List (List UInt8 × CJSON)
  | [] => []
  | (name, v) :: ms => (name, reread fpu v) :: rereadMembers fpu ms

end

theorem depth_le_depthEntries {v : CJSON} : ∀ {child : List CJSON}, v ∈ child →
    depth v ≤ depthEntries child
  | u :: vs, hv => by
    rw [depthEntries]
    rcases List.mem_cons.mp hv with rfl | hv
    · exact le_max_left _ _
    · exact (depth_le_depthEntries hv).trans (le_max_right _ _)

theorem depth_le_depthMembers {m : List UInt8 × CJSON} : ∀ {child : List (List UInt8 × CJSON)},
    m ∈ child → depth m.2 ≤ depthMembers child
  | (name, u) :: ms, hm => by
    rw [depthMembers]
    rcases List.mem_cons.mp hm with rfl | hm
    · exact le_max_left _ _
    · exact (depth_le_depthMembers hm).trans (le_max_right _ _)

variable {fpu : Arithmetic} {fmt : Bool} {v : CJSON} {r : List UInt8}

theorem rereadEntries_eq : ∀ child : List CJSON, rereadEntries fpu child = child.map (reread fpu)
  | [] => rfl
  | v :: vs => by rw [rereadEntries, rereadEntries_eq vs, List.map_cons]

theorem rereadMembers_eq : ∀ child : List (List UInt8 × CJSON),
    rereadMembers fpu child = child.map fun m => (m.1, reread fpu m.2)
  | [] => rfl
  | (name, v) :: ms => by rw [rereadMembers, rereadMembers_eq ms, List.map_cons]

/-! ### Numbers -/

theorem reread_number {n : Numeral} {valueint : Int32} {d : ℚ}
    (h : n.text = printNumber fpu valueint d) : reread fpu (.number valueint d) = read fpu n := by
  have hread : parseNumber fpu (n.text ++ []) = .ok (read fpu n) [] :=
    parseNumber_text n (by simp [Ends])
  rw [List.append_nil, h] at hread
  rw [reread, hread]

theorem parseNumber_printNumber (valueint : Int32) (d : ℚ) (hr : Ends r) :
    parseNumber fpu (printNumber fpu valueint d ++ r) =
    .ok (reread fpu (.number valueint d)) r := by
  obtain ⟨n, hn⟩ := printNumber_numeral fpu valueint d
  rw [reread_number hn, ← hn, parseNumber_text n hr]

/-- **A whole number is read as it was.** -/
theorem reread_whole {z : Int32} {d : ℚ} (h : Whole z d) :
    reread fpu (.number z d) = .number z d := by
  have hlo := z.le_toInt
  have hhi := z.toInt_lt
  have htext : (ofInt z.toInt).text = printNumber fpu z d := by
    rw [text_ofInt, printNumber, h]
    by_cases h0 : (z.toInt : ℚ) = 0
    · rw [if_pos h0, Int.cast_eq_zero.mp h0]
      decide
    · have hmax : (z.toInt : ℚ) ≤ 2 ^ 31 - 1 := by exact_mod_cast Int.le_sub_one_of_lt hhi
      have hmin : (-2 ^ 31 : ℚ) ≤ z.toInt := by exact_mod_cast hlo
      rw [if_neg h0, if_pos ⟨by simp [dblEpsilon], hmax, hmin⟩]
  rw [reread_number htext, read_ofInt, h]

/-! ### Space -/

def Blank (s : List UInt8) : Prop := ∀ b ∈ s, b ≤ 32

theorem blank_tabs (n : ℕ) : Blank (tabs n) := fun b hb => by
  rw [(List.mem_replicate.mp hb).2]
  decide

theorem blank_nil : Blank [] := by simp [Blank]

theorem skip_cons {b : UInt8} (hb : ¬ b ≤ 32) (t : List UInt8) : skip (b :: t) = b :: t :=
  List.dropWhile_cons_of_neg (by simpa using hb)

theorem skip_append {lead : List UInt8} {b : UInt8} (hlead : Blank lead) (hb : ¬ b ≤ 32)
    (t : List UInt8) : skip (lead ++ b :: t) = b :: t := by
  have hdrop : ∀ c ∈ lead, decide (c ≤ 32) = true := fun c hc => decide_eq_true (hlead c hc)
  rw [skip, List.dropWhile_append_of_pos hdrop, List.dropWhile_cons_of_neg (by simpa using hb)]

/-- What follows a value inside another: space, and a separator or the end. -/
structure Closing (trail : List UInt8) (c : UInt8) : Prop where
  blank : Blank trail
  ends : c = 0x2C ∨ c = 0x5D ∨ c = 0x7D

theorem Closing.notBlank {trail : List UInt8} {c : UInt8} (h : Closing trail c) : ¬ c ≤ 32 := by
  rcases h.ends with rfl | rfl | rfl <;> decide

theorem Closing.toEnds {trail : List UInt8} {c : UInt8} (h : Closing trail c) (r : List UInt8) :
    Ends (trail ++ c :: r) := by
  cases trail with
  | nil =>
    refine ends_cons ?_
    rcases h.ends with rfl | rfl | rfl <;> decide
  | cons b trail =>
    refine ends_cons ?_
    have hb : ∀ b : UInt8, b ≤ 32 → isDigit b = false ∧ b ≠ 0x2E ∧ b ≠ 0x65 ∧ b ≠ 0x45 := by
      intro b hb
      have hn := UInt8.le_iff_toNat_le.mp hb
      refine ⟨Bool.eq_false_iff.mpr fun hd => ?_, ?_, ?_, ?_⟩
      · exact absurd ((isDigit_iff.mp hd).1.trans hn) (by decide)
      all_goals
        rintro rfl
        exact absurd hb (by decide)
    exact hb b (h.blank b (by simp))

/-! ### What is written begins with no space -/

theorem sign_or_digit {b : UInt8} (hb : b = 0x2D ∨ isDigit b = true) :
    ¬ b ≤ 32 ∧ b ∉ [0x5D, 0x22, 0x6E, 0x66, 0x74] := by
  rcases hb with rfl | hb
  · decide
  · obtain ⟨h1, h2⟩ := isDigit_iff.mp hb
    refine ⟨fun hle => absurd (h1.trans (UInt8.le_iff_toNat_le.mp hle)) (by decide), ?_⟩
    simp only [List.mem_cons, List.not_mem_nil, or_false]
    rintro (rfl | rfl | rfl | rfl | rfl) <;> revert h1 h2 <;> decide

theorem exists_printValue_cons (depth : ℕ) (v : CJSON) :
    ∃ b t, printValue fpu fmt depth v = b :: t ∧
    ¬ b ≤ 32 ∧ b ≠ 0x5D := by
  cases v with
  | null => exact ⟨0x6E, _, rfl, by decide, by decide⟩
  | bool b =>
    cases b
    · exact ⟨0x66, _, rfl, by decide, by decide⟩
    · exact ⟨0x74, _, rfl, by decide, by decide⟩
  | number valueint d =>
    obtain ⟨n, hn⟩ := printNumber_numeral fpu valueint d
    obtain ⟨b, t, ht, hb⟩ := exists_text_cons n
    obtain ⟨hspace, hb⟩ := sign_or_digit hb
    exact ⟨b, t, by rw [printValue, ← hn, ht], hspace, fun he => hb (by simp [he])⟩
  | string s => exact ⟨0x22, _, rfl, by decide, by decide⟩
  | array child =>
    rw [printValue, printArray]
    split_ifs
    · exact ⟨0x5B, _, rfl, by decide, by decide⟩
    · exact ⟨0x5B, _, rfl, by decide, by decide⟩
  | object child =>
    rw [printValue, printObject]
    split_ifs
    all_goals exact ⟨0x7B, _, rfl, by decide, by decide⟩

/-! ### Entries and members -/

section Entries

variable {value : Parser UInt8 CJSON} {a : CJSON} {lead trail t name : List UInt8} {c : UInt8}

/-- An entry is read if its value is, with space around it. -/
theorem entry_text (hlead : Blank lead) (ht : ∃ b u, t = b :: u ∧ ¬ b ≤ 32 ∧ b ≠ 0x5D)
    (hv : ∀ r, Ends r → value (t ++ r) = .ok a r) (hc : Closing trail c) (r : List UInt8) :
    entry value (lead ++ t ++ (trail ++ c :: r)) = .ok a (c :: r) := by
  obtain ⟨b, u, rfl, hb, _⟩ := ht
  have hread := hv (trail ++ c :: r) (hc.toEnds r)
  rw [List.append_assoc, entry, List.cons_append, skip_append hlead hb, ← List.cons_append, hread,
    Parsed.ok_bind, skip_append hc.blank hc.notBlank]

theorem member_text (hlead : Blank lead) (hname : CStr name) {tab : List UInt8} (htab : Blank tab)
    (ht : ∃ b u, t = b :: u ∧ ¬ b ≤ 32 ∧ b ≠ 0x5D) (hv : ∀ r, Ends r → value (t ++ r) = .ok a r)
    (hc : Closing trail c) (r : List UInt8) :
    member value (lead ++ (printString name ++ 0x3A :: (tab ++ t)) ++ (trail ++ c :: r)) =
      .ok (name, a) (c :: r) := by
  have hskip : skip (lead ++ (printString name ++ 0x3A :: (tab ++ t)) ++ (trail ++ c :: r)) =
      printString name ++ 0x3A :: (tab ++ t ++ (trail ++ c :: r)) := by
    have h := skip_append (b := 0x22) hlead (by decide)
      (name.flatMap printChar ++ [0x22] ++ 0x3A :: (tab ++ t ++ (trail ++ c :: r)))
    simpa [printString] using h
  have hcolon : skip (0x3A :: (tab ++ t ++ (trail ++ c :: r))) = 0x3A ::
      (tab ++ t ++ (trail ++ c :: r)) :=
    skip_cons (by decide) _
  rw [member, hskip, parseString_printString hname, Parsed.ok_bind, hcolon]
  dsimp only
  rw [if_pos rfl, entry_text htab ht hv hc]
  rfl

end Entries

/-! ### Arrays and objects -/

/-- The space behind a comma of an array, and between the lines of an object. -/
def gap (fmt : Bool) (space : List UInt8) : List UInt8 := if fmt then space else []

theorem blank_gap {space : List UInt8} (h : Blank space) : Blank (gap fmt space) := by
  cases fmt
  · simp [gap, Blank]
  · exact h

theorem composeEntries_eq (last : List UInt8) : ∀ (e : List UInt8) (es : List (List UInt8)),
    composeEntries fmt (e :: es) ++ last =
      delimited 0x2C last (e :: es.map fun e => gap fmt [0x20] ++ e)
  | e, [] => rfl
  | e, e' :: es => by
    have ih := composeEntries_eq last e' es
    rw [composeEntries, List.map_cons, delimited, delimited_append, ← ih]
    simp [gap]

/-- A member of an object as it stands in its line. -/
def line (fmt : Bool) (depth : ℕ) (m : List UInt8 × List UInt8) : List UInt8 :=
  gap fmt (tabs depth) ++ (m.1 ++ 0x3A :: (gap fmt [0x09] ++ m.2))

theorem composeMembers_eq (depth : ℕ) (last : List UInt8) :
    ∀ (m : List UInt8 × List UInt8) (ms : List (List UInt8 × List UInt8)),
    composeMembers fmt depth (m :: ms) ++ last = delimited 0x2C (gap fmt [0x0A] ++ last)
      (line fmt depth m :: ms.map fun m => gap fmt [0x0A] ++ line fmt depth m)
  | m, [] => by simp [composeMembers, delimited, line, gap]
  | m, m' :: ms => by
    have ih := composeMembers_eq depth last m' ms
    rw [composeMembers, List.map_cons, delimited, delimited_append, ← ih]
    simp [line, gap]

section Containers

variable {value : Parser UInt8 CJSON}

/-- A text that `value` reads as `a`, whatever ends it. -/
structure ReadAs (value : Parser UInt8 CJSON) (t : List UInt8) (a : CJSON) : Prop where
  cons : ∃ b u, t = b :: u ∧ ¬ b ≤ 32 ∧ b ≠ 0x5D
  read : ∀ r, Ends r → value (t ++ r) = .ok a r

/-- **The texts of the children, composed, are read as an array.** -/
theorem parseArray_text {ts : List (List UInt8 × CJSON)} (hts : ∀ t ∈ ts, ReadAs value t.1 t.2)
    (r : List UInt8) :
    parseArray value (printArray fmt (ts.map Prod.fst) ++ r) = .ok (ts.map Prod.snd) r := by
  rcases ts with _ | ⟨t, ts⟩
  · rfl
  obtain ⟨pairs, hpairs⟩ : ∃ pairs : List (List UInt8 × CJSON),
      pairs = t :: ts.map fun t => (gap fmt [0x20] ++ t.1, t.2) := ⟨_, rfl⟩
  have htext : printArray fmt ((t :: ts).map Prod.fst) ++ r =
      0x5B :: (delimited 0x2C [0x5D] (pairs.map Prod.fst) ++ r) := by
    have h : composeEntries fmt (t.1 :: ts.map Prod.fst) ++ [0x5D] = _ := composeEntries_eq _ _ _
    rw [List.map_map] at h
    simp only [printArray, List.map_cons, reduceCtorEq, if_false, List.cons_append, h,
      hpairs, List.map_map]
    rfl
  have hsnd : (t :: ts).map Prod.snd = pairs.map Prod.snd := by simp [hpairs, Function.comp_def]
  have hentry : ∀ p ∈ pairs, ∀ {trail : List UInt8} {c : UInt8}, Closing trail c → ∀ r,
      entry value (p.1 ++ (trail ++ c :: r)) = .ok p.2 (c :: r) := by
    intro p hp trail c hc r
    rw [hpairs] at hp
    rcases List.mem_cons.mp hp with rfl | hp
    · have hp := hts p (by simp)
      exact entry_text blank_nil hp.cons hp.read hc r
    · obtain ⟨u, hu, rfl⟩ := List.mem_map.mp hp
      have hu := hts u (List.mem_cons_of_mem t hu)
      exact entry_text (blank_gap (by simp [Blank])) hu.cons hu.read hc r
  have hitems : items (entry value) 0x2C 0x5D
    ((delimited 0x2C [0x5D] (pairs.map Prod.fst) ++ r).length + 1)
      (delimited 0x2C [0x5D] (pairs.map Prod.fst) ++ r) = .ok (pairs.map Prod.snd) r := by
    refine items_delimited (by decide) (by simp [hpairs]) ?_ fun p hp => ⟨fun r' => ?_, ?_⟩
    · have h := length_le_delimited 0x2C [0x5D] (pairs.map Prod.fst)
      rw [List.length_map] at h
      rw [List.length_append]
      omega
    · exact hentry p hp ⟨blank_nil, .inl rfl⟩ r'
    · exact hentry p hp ⟨blank_nil, .inr (.inl rfl)⟩ r
  obtain ⟨b, u, hb, hspace, hclose⟩ := (hts t (by simp)).cons
  obtain ⟨w, hw⟩ : ∃ w, delimited 0x2C [0x5D] (pairs.map Prod.fst) ++ r = b :: w := by
    have h := delimited_append 0x2C [0x5D] (b :: u) []
      ((ts.map fun t => (gap fmt [0x20] ++ t.1, t.2)).map Prod.fst)
    rw [List.append_nil, ← hb] at h
    rw [hpairs, List.map_cons, h, hb]
    exact ⟨_, rfl⟩
  have hskip : skip (b :: w) = b :: w := skip_cons hspace w
  rw [hw] at hitems
  rw [htext, hsnd, hw, parseArray, if_pos rfl, hskip]
  simpa [hclose] using hitems

/-- A name, a text and a value, as the text of a member. -/
def memberText (fmt : Bool) (t : List UInt8 × List UInt8 × CJSON) : List UInt8 :=
  printString t.1 ++ 0x3A :: (gap fmt [0x09] ++ t.2.1)

/-- **The names and the texts of the children, composed, are read as an object.** -/
theorem parseObject_text {ts : List (List UInt8 × List UInt8 × CJSON)}
    (hname : ∀ t ∈ ts, CStr t.1) (hts : ∀ t ∈ ts, ReadAs value t.2.1 t.2.2) (depth : ℕ)
    (r : List UInt8) :
    parseObject value (printObject fmt depth (ts.map fun t => (printString t.1, t.2.1)) ++ r) =
      .ok (ts.map fun t => (t.1, t.2.2)) r := by
  have hgap : Blank (gap fmt (0x0A :: tabs (depth - 1))) :=
    blank_gap (List.forall_mem_cons.mpr ⟨by decide, blank_tabs _⟩)
  rcases ts with _ | ⟨t, ts⟩
  · have hskip := skip_append (b := 0x7D) hgap (by decide) r
    simp only [gap] at hskip
    simp [printObject, parseObject, hskip]
  have hnl : Blank (gap fmt [0x0A]) := blank_gap (by simp [Blank])
  have hlead : Blank (gap fmt (tabs (depth + 1))) := blank_gap (blank_tabs _)
  have htab : Blank (gap fmt [0x09]) := blank_gap (by simp [Blank])
  have htrail : Blank (gap fmt [0x0A] ++ gap fmt (tabs depth)) :=
    List.forall_mem_append.mpr ⟨hnl, blank_gap (blank_tabs _)⟩
  obtain ⟨last, hlast⟩ : ∃ last, last = gap fmt [0x0A] ++ gap fmt (tabs depth) ++ [0x7D] := ⟨_, rfl⟩
  obtain ⟨pairs, hpairs⟩ : ∃ pairs : List (List UInt8 × List UInt8 × CJSON),
      pairs = (memberText fmt t, t.1, t.2.2) :: ts.map fun t =>
        (gap fmt [0x0A] ++ gap fmt (tabs (depth + 1)) ++ memberText fmt t, t.1, t.2.2) := ⟨_, rfl⟩
  have htext : printObject fmt depth ((t :: ts).map fun t => (printString t.1, t.2.1)) ++ r =
      0x7B :: (gap fmt [0x0A] ++ (gap fmt (tabs (depth + 1)) ++
        (delimited 0x2C last (pairs.map Prod.fst) ++ r))) := by
    have h : composeMembers fmt (depth + 1) ((printString t.1, t.2.1) ::
        ts.map fun t => (printString t.1, t.2.1)) ++ (gap fmt (tabs depth) ++ [0x7D]) = _ :=
      composeMembers_eq _ _ _ _
    have hline : ∀ t : List UInt8 × List UInt8 × CJSON,
      line fmt (depth + 1) (printString t.1, t.2.1) =
        gap fmt (tabs (depth + 1)) ++ memberText fmt t := fun _ => rfl
    have hobj : printObject fmt depth ((t :: ts).map fun t => (printString t.1, t.2.1)) =
        0x7B :: (gap fmt [0x0A] ++ (composeMembers fmt (depth + 1) ((printString t.1, t.2.1) ::
          ts.map fun t => (printString t.1, t.2.1)) ++ (gap fmt (tabs depth) ++ [0x7D]))) := by
      simp [printObject, gap]
    rw [List.map_map, hline, delimited_append] at h
    rw [hobj, h, hpairs, hlast]
    simp [Function.comp_def, hline]
  have hmember : ∀ p ∈ pairs, ∀ {trail : List UInt8} {c : UInt8}, Closing trail c → ∀ r,
      member value (p.1 ++ (trail ++ c :: r)) = .ok p.2 (c :: r) := by
    intro p hp trail c hc r
    rw [hpairs] at hp
    rcases List.mem_cons.mp hp with rfl | hp
    · have ht := hts t (by simp)
      exact member_text blank_nil (hname t (by simp)) htab ht.cons ht.read hc r
    · obtain ⟨u, hu, rfl⟩ := List.mem_map.mp hp
      have hread := hts u (List.mem_cons_of_mem t hu)
      exact member_text (List.forall_mem_append.mpr ⟨hnl, hlead⟩)
        (hname u (List.mem_cons_of_mem t hu)) htab hread.cons hread.read hc r
  have hitems : items (member value) 0x2C 0x7D
    ((delimited 0x2C last (pairs.map Prod.fst) ++ r).length + 1)
      (delimited 0x2C last (pairs.map Prod.fst) ++ r) = .ok (pairs.map Prod.snd) r := by
    refine items_delimited (by decide) (by simp [hpairs]) ?_ fun p hp => ⟨fun r' => ?_, ?_⟩
    · have h := length_le_delimited 0x2C last (pairs.map Prod.fst)
      rw [List.length_map] at h
      rw [List.length_append]
      omega
    · exact hmember p hp ⟨blank_nil, .inl rfl⟩ r'
    · rw [hlast, List.append_assoc, List.singleton_append]
      exact hmember p hp ⟨htrail, .inr (.inr rfl)⟩ r
  obtain ⟨w, hw⟩ : ∃ w, delimited 0x2C last (pairs.map Prod.fst) ++ r = 0x22 :: w := by
    have h := delimited_append 0x2C last (memberText fmt t) []
      ((ts.map fun t => (gap fmt [0x0A] ++ gap fmt (tabs (depth + 1)) ++ memberText fmt t,
        t.1, t.2.2)).map Prod.fst)
    rw [List.append_nil] at h
    rw [hpairs, List.map_cons, h]
    exact ⟨_, rfl⟩
  have hskip : skip (gap fmt [0x0A] ++ (gap fmt (tabs (depth + 1)) ++ 0x22 :: w)) = 0x22 :: w := by
    rw [← List.append_assoc]
    exact skip_append (List.forall_mem_append.mpr ⟨hnl, hlead⟩) (by decide) w
  have hsnd : ((t :: ts).map fun t => (t.1, t.2.2)) = pairs.map Prod.snd := by
    simp [hpairs, Function.comp_def]
  rw [hw] at hitems
  rw [htext, hsnd, hw, parseObject, if_pos rfl, hskip]
  simpa using hitems

end Containers

/-! ### Values -/

/-- What may follow a value: anything, unless it is a number. -/
def Follows (r : List UInt8) : CJSON → Prop
  | .number _ _ => Ends r
  | _ => True

theorem follows_of_ends (h : Ends r) (v : CJSON) : Follows r v := by
  cases v <;> first | exact h | trivial

theorem one_le_depth (v : CJSON) : 1 ≤ depth v := by
  cases v <;> simp [depth]

theorem parseValue_bool (stack : ℕ) (b : Bool) (r : List UInt8) :
    parseValue fpu (stack + 1) ((if b then ascii "true" else ascii "false") ++ r) =
    .ok (.bool b) r := by
  cases b with
  | false =>
    have hnull : ¬ ascii "null" <+: ascii "false" ++ r := not_cons_prefix (b := 0x66) (by decide)
    exact (if_neg hnull).trans (if_pos (List.prefix_append _ r))
  | true =>
    have hnull : ¬ ascii "null" <+: ascii "true" ++ r := not_cons_prefix (b := 0x74) (by decide)
    have hfalse : ¬ ascii "false" <+: ascii "true" ++ r := not_cons_prefix (b := 0x74) (by decide)
    exact (if_neg hnull).trans ((if_neg hfalse).trans (if_pos (List.prefix_append _ r)))

/-- **A value that was written is read**, with the stack for its depth. -/
theorem parseValue_printValue {N : Int32 → ℚ → Prop} : ∀ (v : CJSON), All CStr N v →
    ∀ {stack d : ℕ},
    depth v ≤ stack → ∀ {r : List UInt8}, Follows r v →
    parseValue fpu stack (printValue fpu fmt d v ++ r) = .ok (reread fpu v) r := by
  intro v h stack d hd
  obtain ⟨stack, rfl⟩ := Nat.exists_eq_add_of_le' ((one_le_depth v).trans hd)
  induction v using value_induct generalizing stack d with
  | null =>
    intro r _
    exact if_pos (List.prefix_append (ascii "null") r)
  | bool b =>
    intro r _
    exact parseValue_bool stack b r
  | number i q =>
    intro r hr
    have hread : parseNumber fpu (printNumber fpu i q ++ r) = _ := parseNumber_printNumber i q hr
    obtain ⟨n, hn⟩ := printNumber_numeral fpu i q
    obtain ⟨b, t, ht, hb⟩ := exists_text_cons n
    obtain ⟨-, hletter⟩ := sign_or_digit hb
    simp only [List.mem_cons, List.not_mem_nil, or_false, not_or] at hletter
    rw [← hn, ht] at hread
    rw [printValue, ← hn, ht, List.cons_append, parseValue_cons fpu stack (by simp [hletter]),
      if_neg hletter.2.1, if_pos hb]
    exact hread
  | string s =>
    intro r _
    cases h with
    | string hs =>
      have hread := parseString_printString hs r
      rw [printValue, printString, List.cons_append, parseValue_cons fpu stack (by decide),
        if_pos rfl,
        ← List.cons_append, ← printString, hread]
      rfl
  | array child ih =>
    intro r _
    cases h with
    | array hall =>
      have hchild : ∀ t ∈ child.map fun v => (printValue fpu fmt (d + 1) v, reread fpu v),
          ReadAs (parseValue fpu stack) t.1 t.2 := by
        intro t ht
        obtain ⟨v, hv, rfl⟩ := List.mem_map.mp ht
        have hle : depth v ≤ stack := (depth_le_depthEntries hv).trans (Nat.le_of_succ_le_succ hd)
        obtain ⟨k, rfl⟩ := Nat.exists_eq_add_of_le' ((one_le_depth v).trans hle)
        exact ⟨exists_printValue_cons (d + 1) v,
          fun r hr => ih v hv (hall v hv) k hle (follows_of_ends hr v)⟩
      have hread : parseArray (parseValue fpu stack) (printArray fmt _ ++ r) = _ :=
        parseArray_text hchild r
      rw [List.map_map, List.map_map] at hread
      obtain ⟨w, hw⟩ : ∃ w, printArray fmt (child.map (printValue fpu fmt (d + 1))) =
        0x5B :: w := by
        unfold printArray
        split_ifs <;> exact ⟨_, rfl⟩
      have hread : parseArray (parseValue fpu stack) (0x5B :: (w ++ r)) =
          .ok (child.map (reread fpu)) r := by
        rw [← List.cons_append, ← hw]
        exact hread
      rw [printValue, printEntries_eq, hw, List.cons_append, parseValue_cons fpu stack (by decide),
        if_neg (by decide), if_neg (by decide), if_pos rfl, hread, reread, rereadEntries_eq]
      rfl
  | object child ih =>
    intro r _
    cases h with
    | object hnames hall =>
      have hchild : ∀ t ∈ child.map fun m => (m.1, printValue fpu fmt (d + 1) m.2, reread fpu m.2),
          CStr t.1 ∧ ReadAs (parseValue fpu stack) t.2.1 t.2.2 := by
        intro t ht
        obtain ⟨m, hm, rfl⟩ := List.mem_map.mp ht
        have hle : depth m.2 ≤ stack := (depth_le_depthMembers hm).trans (Nat.le_of_succ_le_succ hd)
        obtain ⟨k, rfl⟩ := Nat.exists_eq_add_of_le' ((one_le_depth m.2).trans hle)
        exact ⟨hnames m hm, exists_printValue_cons (d + 1) m.2,
          fun r hr => ih m hm (hall m hm) k hle (follows_of_ends hr m.2)⟩
      have hread : parseObject (parseValue fpu stack) (printObject fmt d _ ++ r) = _ :=
        parseObject_text (fun t ht => (hchild t ht).1) (fun t ht => (hchild t ht).2) d r
      rw [List.map_map, List.map_map] at hread
      obtain ⟨w, hw⟩ : ∃ w, printObject fmt d
          (child.map fun m => (printString m.1, printValue fpu fmt (d + 1) m.2)) = 0x7B :: w := by
        unfold printObject
        split_ifs <;> exact ⟨_, rfl⟩
      have hread : parseObject (parseValue fpu stack) (0x7B :: (w ++ r)) =
          .ok (child.map fun m => (m.1, reread fpu m.2)) r := by
        rw [← List.cons_append, ← hw]
        exact hread
      rw [printValue, printMembers_eq, hw, List.cons_append, parseValue_cons fpu stack (by decide),
        if_neg (by decide), if_neg (by decide), if_neg (by decide), if_pos rfl, hread, reread,
        rereadMembers_eq]
      rfl

/-- A value of whole numbers is read as it was. -/
theorem reread_eq_self : ∀ {v : CJSON}, All CStr Whole v → reread fpu v = v := by
  intro v
  induction v using value_induct with
  | null => exact fun _ => rfl
  | bool b => exact fun _ => rfl
  | number i q =>
    rintro (_ | _ | hn)
    exact reread_whole hn
  | string s => exact fun _ => rfl
  | array child ih =>
    rintro (_ | _ | _ | _ | hall)
    rw [reread, rereadEntries_eq, List.map_congr_left fun v hv => ih v hv (hall v hv), List.map_id']
  | object child ih =>
    rintro (_ | _ | _ | _ | _ | ⟨_, hall⟩)
    have hmap : ∀ m ∈ child, (m.1, reread fpu m.2) = m := fun m hm => by rw [ih m hm (hall m hm)]
    rw [reread, rereadMembers_eq, List.map_congr_left hmap, List.map_id']

/-! ### The bytes of the text -/

/-- No control character, but for the line ends and tabs of the format. -/
def Shown (fmt : Bool) (s : List UInt8) : Prop :=
  ∀ b ∈ s, 31 < b ∨ fmt = true ∧ (b = 0x09 ∨ b = 0x0A)

theorem lt_of_mem_printChar (c : UInt8) : ∀ b ∈ printChar c, 31 < b := by
  have hhex : ∀ n < 16, 31 < hexDigit n := by decide
  have hc := c.toNat_lt
  unfold printChar
  split_ifs with h
  · simpa using h.1
  all_goals try decide +kernel
  intro b hb
  have hb : b = 0x5C ∨ b = 0x75 ∨ b = 0x30 ∨ b = 0x30 ∨ b = hexDigit (c.toNat / 16) ∨
      b = hexDigit (c.toNat % 16) := by simpa [ascii] using hb
  rcases hb with rfl | rfl | rfl | rfl | rfl | rfl
  all_goals first | decide | exact hhex _ (by omega)

theorem shown_printString (s : List UInt8) : Shown fmt (printString s) := by
  intro b hb
  rcases List.mem_cons.mp hb with rfl | hb
  · exact .inl (by decide)
  rcases List.mem_append.mp hb with hb | hb
  · obtain ⟨c, -, hb⟩ := List.mem_flatMap.mp hb
    exact .inl (lt_of_mem_printChar c b hb)
  · rw [List.mem_singleton.mp hb]
    exact .inl (by decide)

/-- **A text has no control characters**, but for the line ends and tabs of the format. -/
theorem shown_pieces : Pieces fmt fun s _ => Shown fmt s where
  nil := by simp [Shown]
  append hs ht := List.forall_mem_append.mpr ⟨hs, ht⟩
  mark {b} hb c hc := by
    rw [List.mem_singleton.mp hc]
    have h32 : 32 < b.toNat := UInt8.lt_iff_toNat_lt.mp hb.1
    exact .inl (UInt8.lt_iff_toNat_lt.mpr (show 31 < b.toNat by omega))
  space hfmt b hb c hc := by
    rw [List.mem_singleton.mp hc]
    rcases hb with rfl | rfl | rfl
    · exact .inr ⟨hfmt, .inl rfl⟩
    · exact .inr ⟨hfmt, .inr rfl⟩
    · exact .inl (by decide)
  string := shown_printString

/-! ### The round trip -/

theorem cstr_cjsonText (v : CJSON) : CStr (cjsonText fpu fmt v) := fun h => by
  have hshown : Shown fmt (printValue fpu fmt 0 v) := shown_pieces.printValue v 0 0
  rcases hshown 0 h with h | ⟨-, h | h⟩ <;>
    exact absurd h (by decide)

theorem skip_printValue (d : ℕ) (v : CJSON) (r : List UInt8) :
    skip (printValue fpu fmt d v ++ r) = printValue fpu fmt d v ++ r := by
  obtain ⟨b, t, ht, hb, -⟩ : ∃ b t, printValue fpu fmt d v = b :: t ∧ ¬ b ≤ 32 ∧ b ≠ 0x5D :=
    exists_printValue_cons d v
  rw [ht]
  exact skip_cons hb (t ++ r)

theorem cjsonParse_cjsonText {N : Int32 → ℚ → Prop} (hv : All CStr N v) {stack : ℕ}
    (hd : depth v ≤ stack)
    (hr : Follows r v) : cjsonParse fpu stack (cjsonText fpu fmt v ++ r) =
    .ok (reread fpu v) r := by
  rw [cjsonParse, cjsonParseWithOpts, cjsonText, skip_printValue, parseValue_printValue v hv hd hr]
  rfl

/-- **What is written is read back**: the text of a value, formatted or not, is a C string; whatever
follows it, `cJSON_Parse` stops at its end and gives the value, with each number as its decimals
say; a number that is an integer is the same. -/
theorem print_read_back (fpu : Arithmetic) (fmt : Bool) {v : CJSON}
    (hv : All CStr (fun _ _ => True) v) {stack : ℕ} (hd : depth v ≤ stack) {r : List UInt8}
    (hr : Follows r v) : CStr (cjsonText fpu fmt v) ∧
      cjsonParse fpu stack (cjsonText fpu fmt v ++ r) = .ok (reread fpu v) r ∧
      (All CStr Whole v → reread fpu v = v) :=
  ⟨cstr_cjsonText v, cjsonParse_cjsonText hv hd hr, reread_eq_self⟩

/-- An object with a control character in a string and an array of numbers. -/
def written : CJSON := .object [(ascii "a\"", .string [0x01, 0xFF]),
    (ascii "b", .array [.number (-7) (-7)])]

theorem print_read_back_written : CStr (cjsonText binary64 true written) ∧
    cjsonParse binary64 3 (cjsonText binary64 true written ++ ascii ", x") =
      .ok (reread binary64 written) (ascii ", x") ∧
    (All CStr Whole written → reread binary64 written = written) :=
  print_read_back binary64 true (.object (by simp [CStr, ascii]) (by
    simp only [List.forall_mem_cons, List.not_mem_nil, false_implies, implies_true, and_true]
    exact ⟨.string (by simp [CStr]), .array (by
      simp only [List.forall_mem_cons, List.not_mem_nil, false_implies, implies_true, and_true]
      exact .number trivial)⟩)) (by decide) trivial

end MultiPortConvertor.Tool.CJsonRoundTrip
