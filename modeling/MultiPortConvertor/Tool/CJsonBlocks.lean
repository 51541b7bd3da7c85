import MultiPortConvertor.Tool.CJsonRoundTrip

/-! # The memory of the texts

Without a `printbuffer` every text is written to a block of its own, whose size is computed
beforehand: that of a number is fixed, the others are bounds on what will be written. The sizes are
summed in an `int` of 32 bits, which wraps. As long as none of them reaches `2 ^ 31`, no text is
longer than its block, and the text of the whole is the one of `print_value` (`blocks_hold`). -/

namespace MultiPortConvertor.Tool.CJsonBlocks

open MultiPortConvertor.Lib.CString MultiPortConvertor.Lib.Doubles MultiPortConvertor.Lib.Printf
open MultiPortConvertor.Tool.CJson MultiPortConvertor.Tool.CJsonPrint
open MultiPortConvertor.Tool.CJsonStrings
open MultiPortConvertor.Tool.CJsonRoundTrip

/-- A block that `cJSON_malloc` gave: the length computed for it, and the text in it without the
final zero. -/
structure Block where
  len : ℕ
  text : List UInt8

/-- The size that `cJSON_malloc` is called with: `len` in 32 bits. -/
def Block.size (b : Block) : ℕ := b.len % 2 ^ 32

/-- The text and its zero are inside. -/
def Block.Holds (b : Block) : Prop := b.text.length < b.size

/-- The length computed is that of an `int`. -/
def Block.InInt (b : Block) : Prop := b.len < 2 ^ 31

instance : DecidablePred Block.InInt := fun b => inferInstanceAs (Decidable (b.len < 2 ^ 31))

theorem Block.holds_of_lt {b : Block} (hb : b.InInt) (h : b.text.length < b.len) : b.Holds := by
  unfold Block.InInt at hb
  unfold Block.Holds Block.size
  omega

/-- `cJSON_strdup`. -/
def strdup (str : List UInt8) : Block := ⟨str.length + 1, str⟩

/-- The block of `print_number`. -/
def numberBlock (fpu : Arithmetic) (valueint : Int32) (d : ℚ) : Block :=
  if d = 0 then ⟨2, ascii "0"⟩
  else if |(valueint.toInt : ℚ) - d| ≤ dblEpsilon ∧ d ≤ 2 ^ 31 - 1 ∧ -2 ^ 31 ≤ d then
    ⟨21, fmtD valueint.toInt⟩
  else
    ⟨64, if |(⌊d⌋ : ℚ) - d| ≤ dblEpsilon ∧ |d| < fpu.rnd (10 ^ 60) then fmtF0 d
      else if |d| < fpu.rnd (1 / 10 ^ 6) ∨ 10 ^ 9 < |d| then fmtE d
      else fmtF d⟩

/-- A character that sets `flag`. -/
def flagged (c : UInt8) : Bool := (0 < c && c < 32) || c = 0x22 || c = 0x5C

/-- What a character adds to `len`. -/
def escapedLen (token : UInt8) : ℕ :=
  if token ∈ [0x22, 0x5C, 0x08, 0x0C, 0x0A, 0x0D, 0x09] then 2 else if token < 32 then 6 else 1

/-- The block of `print_string_ptr`: a string without special characters is copied. -/
def stringBlock (str : List UInt8) : Block :=
  if str.any flagged = false then ⟨str.length + 3, 0x22 :: (str ++ [0x22])⟩
  else ⟨(str.map escapedLen).sum + 3, printString str⟩

/-- The block of `print_array`. -/
def arrayBlock (fmt : Bool) (entries : List (List UInt8)) : Block :=
  if entries = [] then ⟨3, ascii "[]"⟩
  else ⟨5 + (entries.map fun ret => ret.length + 2 + if fmt then 1 else 0).sum,
    printArray fmt entries⟩

/-- The block of `print_object`. -/
def objectBlock (fmt : Bool) (depth : ℕ) (members : List (List UInt8 × List UInt8)) : Block :=
  if members = [] then ⟨if fmt then depth + 4 else 3, printObject fmt depth members⟩
  else ⟨7 + (if fmt then depth + 1 else 0) +
      (members.map fun m => m.2.length + m.1.length + 2 + if fmt then 2 + (depth + 1) else 0).sum,
    printObject fmt depth members⟩

mutual

/-- The block of the text of a value, and those of its parts. -/
def valueBlocks (fpu : Arithmetic) (fmt : Bool) (depth : ℕ) : CJSON → Block × List Block
  | .null => (strdup (ascii "null"), [])
  | .bool b => (strdup (if b then ascii "true" else ascii "false"), [])
  | .number valueint valuedouble => (numberBlock fpu valueint valuedouble, [])
  | .string valuestring => (stringBlock valuestring, [])
  | .array child =>
    let entries := entryBlocks fpu fmt (depth + 1) child
    (arrayBlock fmt (entries.map fun e => e.1.text), entries.flatMap fun e => e.1 :: e.2)
  | .object child =>
    let members := memberBlocks fpu fmt (depth + 1) child
    (objectBlock fmt depth (members.map fun m => (m.1.text, m.2.1.text)),
      members.flatMap fun m => m.1 :: m.2.1 :: m.2.2)

def entryBlocks (fpu : Arithmetic) (fmt : Bool) (depth : ℕ) : List CJSON → List (Block × List Block)
  | [] => []
  | v :: vs => valueBlocks fpu fmt depth v :: entryBlocks fpu fmt depth vs

def memberBlocks (fpu : Arithmetic) (fmt : Bool) (depth : ℕ) :
    List (List UInt8 × CJSON) → List (Block × Block × List Block)
  | [] => []
  | (name, v) :: ms => (stringBlock name, valueBlocks fpu fmt depth v) ::
      memberBlocks fpu fmt depth ms

end

variable {fpu : Arithmetic} {fmt : Bool}

theorem entryBlocks_eq (depth : ℕ) : ∀ child : List CJSON,
    entryBlocks fpu fmt depth child = child.map (valueBlocks fpu fmt depth)
  | [] => rfl
  | v :: vs => by rw [entryBlocks, entryBlocks_eq depth vs, List.map_cons]

theorem memberBlocks_eq (depth : ℕ) : ∀ child : List (List UInt8 × CJSON),
    memberBlocks fpu fmt depth child = child.map fun m =>
    (stringBlock m.1, valueBlocks fpu fmt depth m.2)
  | [] => rfl
  | (name, v) :: ms => by rw [memberBlocks, memberBlocks_eq depth ms, List.map_cons]

/-! ### Numbers -/

/-- A finite `double`. -/
def Finite (d : ℚ) : Prop := |d| < 2 ^ 1024 ∧ (d ≠ 0 → 1 ≤ |d| * 2 ^ 1074)

theorem numberBlock_text (valueint : Int32) (d : ℚ) :
    (numberBlock fpu valueint d).text = printNumber fpu valueint d := by
  unfold numberBlock printNumber
  split_ifs <;> rfl

/-- **64 characters are enough**, and so are 21 for an `int`. -/
theorem numberBlock_lt (hrnd : fpu.rnd (10 ^ 60) ≤ 10 ^ 61) (valueint : Int32) {d : ℚ}
    (hd : Finite d) : (numberBlock fpu valueint d).text.length <
    (numberBlock fpu valueint d).len := by
  unfold numberBlock
  split_ifs with h0 hint hwhole hlarge
  · show (ascii "0").length < 2
    decide
  · have hlow := valueint.le_toInt
    have hhigh := valueint.toInt_lt
    have habs : valueint.toInt.natAbs < 10 ^ 10 := by omega
    have hlen := length_fmtD_le habs
    show (fmtD valueint.toInt).length < 21
    omega
  · have hlen := length_fmtF0_le (hwhole.2.le.trans hrnd)
    show (fmtF0 d).length < 64
    omega
  · have htwo : ∀ n : ℕ, (2 : ℚ) ^ n ≤ 10 ^ n :=
      fun n => pow_le_pow_left₀ (by norm_num) (by norm_num) n
    have hhigh : |d| < 10 ^ 1074 :=
      hd.1.trans_le ((htwo 1024).trans (pow_le_pow_right₀ (by norm_num) (by norm_num)))
    have hlow : 1 ≤ |d| * 10 ^ 1074 :=
      (hd.2 h0).trans (mul_le_mul_of_nonneg_left (htwo 1074) (abs_nonneg d))
    have hlen := length_fmtE_le (j := 2) hlow hhigh (by norm_num)
    show (fmtE d).length < 64
    omega
  · have hlen := length_fmtF_le (not_lt.mp fun h => hlarge (.inr h))
    show (fmtF d).length < 64
    omega

/-! ### Strings -/

theorem printChar_of_not_flagged {c : UInt8} (h0 : c ≠ 0) (h : flagged c = false) :
    printChar c = [c] := by
  have hall : ∀ n < 256, UInt8.ofNat n ≠ 0 → flagged (UInt8.ofNat n) = false →
      printChar (UInt8.ofNat n) = [UInt8.ofNat n] := by
    decide +kernel
  have hc := hall c.toNat c.toNat_lt
  rw [UInt8.ofNat_toNat] at hc
  exact hc h0 h

theorem length_printChar (c : UInt8) : (printChar c).length = escapedLen c := by
  have hall : ∀ n < 256, (printChar (UInt8.ofNat n)).length = escapedLen (UInt8.ofNat n) := by
    decide +kernel
  have hc := hall c.toNat c.toNat_lt
  rwa [UInt8.ofNat_toNat] at hc

/-- **The copy of a string without special characters is its text.** -/
theorem stringBlock_text {str : List UInt8} (h : CStr str) :
    (stringBlock str).text = printString str := by
  unfold stringBlock
  split_ifs with hflag
  · have hchars : str.flatMap printChar = str := by
      have hsingle : ∀ c ∈ str, printChar c = [c] := by
        intro c hc
        refine printChar_of_not_flagged (fun h0 => h (h0 ▸ hc)) ?_
        rw [List.any_eq_false] at hflag
        simpa using hflag c hc
      rw [List.flatMap_congr hsingle]
      simp
    show 0x22 :: (str ++ [0x22]) = printString str
    rw [printString, hchars]
  · rfl

theorem stringBlock_lt (str : List UInt8) : (stringBlock str).text.length <
    (stringBlock str).len := by
  unfold stringBlock
  split_ifs
  · show (0x22 :: (str ++ [0x22])).length < str.length + 3
    simp
  · show (printString str).length < (str.map escapedLen).sum + 3
    have hlen : (str.flatMap printChar).length = (str.map escapedLen).sum := by
      rw [List.length_flatMap]
      congr 1
      exact List.map_congr_left fun c _ => length_printChar c
    simp [printString, hlen]

/-! ### Arrays and objects -/

theorem arrayBlock_text (entries : List (List UInt8)) :
    (arrayBlock fmt entries).text = printArray fmt entries := by
  unfold arrayBlock printArray
  split_ifs <;> rfl

theorem objectBlock_text (depth : ℕ) (members : List (List UInt8 × List UInt8)) :
    (objectBlock fmt depth members).text = printObject fmt depth members := by
  unfold objectBlock
  split_ifs <;> rfl

theorem length_composeEntries_le : ∀ entries :
    List (List UInt8), (composeEntries fmt entries).length ≤
    (entries.map fun ret => ret.length + 2 + if fmt then 1 else 0).sum
  | [] => le_rfl
  | [e] => by
    simp only [composeEntries, List.map_cons, List.map_nil, List.sum_cons, List.sum_nil]
    omega
  | e :: e' :: es => by
    have ih := length_composeEntries_le (e' :: es)
    rw [composeEntries, List.map_cons, List.sum_cons, List.length_append, List.length_append]
    have hcomma : (0x2C :: if fmt then [(0x20 : UInt8)] else []).length ≤ 2 + if fmt then
        1 else 0 := by
      cases fmt <;> decide
    omega

theorem arrayBlock_lt (entries : List (List UInt8)) :
    (arrayBlock fmt entries).text.length < (arrayBlock fmt entries).len := by
  by_cases h : entries = []
  · rw [arrayBlock, if_pos h]
    show (ascii "[]").length < 3
    decide
  · have hlen : (composeEntries fmt entries).length ≤ _ := length_composeEntries_le entries
    rw [arrayBlock, if_neg h]
    show (printArray fmt entries).length <
      5 + (entries.map fun ret => ret.length + 2 + if fmt then 1 else 0).sum
    rw [printArray, if_neg h, List.length_cons, List.length_append, List.length_singleton]
    omega

theorem length_composeMembers_le (depth : ℕ) : ∀ members : List (List UInt8 × List UInt8),
    (composeMembers fmt depth members).length ≤
      (members.map fun m => m.2.length + m.1.length + 2 + if fmt then 2 + depth else 0).sum
  | [] => le_rfl
  | m :: ms => by
    have ih := length_composeMembers_le depth ms
    have hcomma : (if ms = [] then [] else [(0x2C : UInt8)]).length ≤ 1 := by
      split_ifs <;> decide
    rw [composeMembers, List.map_cons, List.sum_cons]
    simp only [List.length_append, List.length_cons]
    cases fmt
    · simp only [Bool.false_eq_true, if_false, List.length_nil] at ih ⊢
      omega
    · simp only [if_true, List.length_singleton, tabs, List.length_replicate] at ih ⊢
      omega

theorem objectBlock_lt (depth : ℕ) (members : List (List UInt8 × List UInt8)) :
    (objectBlock fmt depth members).text.length < (objectBlock fmt depth members).len := by
  by_cases h : members = []
  · rw [objectBlock, if_pos h]
    show (printObject fmt depth members).length < if fmt then depth + 4 else 3
    rw [printObject, if_pos h]
    cases fmt
    · simp
    · simp only [if_true, List.length_cons, List.length_append, tabs, List.length_replicate,
        List.length_nil]
      omega
  · have hlen : (composeMembers fmt (depth + 1) members).length ≤ _ :=
      length_composeMembers_le (depth + 1) members
    rw [objectBlock, if_neg h]
    show (printObject fmt depth members).length < 7 + (if fmt then depth + 1 else 0) +
      (members.map fun m => m.2.length + m.1.length + 2 + if fmt then 2 + (depth + 1) else 0).sum
    rw [printObject, if_neg h]
    simp only [List.length_cons, List.length_append]
    cases fmt
    · simp only [Bool.false_eq_true, if_false, List.length_nil] at hlen ⊢
      omega
    · simp only [if_true, List.length_cons, List.length_nil, tabs, List.length_replicate] at hlen ⊢
      omega

/-! ### Values -/

theorem valueBlocks_text {N : Int32 → ℚ → Prop} {v : CJSON} (h : All CStr N v) :
    ∀ depth, (valueBlocks fpu fmt depth v).1.text = printValue fpu fmt depth v := by
  induction h with
  | null => exact fun _ => rfl
  | bool b => exact fun _ => rfl
  | number => exact fun _ => numberBlock_text _ _
  | string h => exact fun _ => stringBlock_text h
  | array h ih =>
    intro depth
    rw [valueBlocks, printValue, entryBlocks_eq, printEntries_eq, List.map_map, arrayBlock_text]
    congr 1
    exact List.map_congr_left fun v hv => ih v hv (depth + 1)
  | object hn h ih =>
    intro depth
    rw [valueBlocks, printValue, memberBlocks_eq, printMembers_eq, List.map_map, objectBlock_text]
    congr 1
    exact List.map_congr_left fun m hm => Prod.ext (stringBlock_text (hn m hm))
      (ih m hm (depth + 1))

/-- The block of the text of a value is longer than the text, and so are those of its parts. -/
theorem valueBlocks_lt (hrnd : fpu.rnd (10 ^ 60) ≤ 10 ^ 61) {v : CJSON}
    (h : All CStr (fun _ => Finite) v) : ∀ depth,
    ∀ b ∈ (valueBlocks fpu fmt depth v).1 :: (valueBlocks fpu fmt depth v).2,
      b.text.length < b.len := by
  have hword : ∀ str, (strdup str).text.length < (strdup str).len := fun str =>
    Nat.lt_succ_self str.length
  induction h with
  | null => exact fun _ => List.forall_mem_singleton.mpr (hword _)
  | bool b => exact fun _ => List.forall_mem_singleton.mpr (hword _)
  | number h => exact fun _ => List.forall_mem_singleton.mpr (numberBlock_lt hrnd _ h)
  | string h => exact fun _ => List.forall_mem_singleton.mpr (stringBlock_lt _)
  | array h ih =>
    intro depth
    refine List.forall_mem_cons.mpr ⟨arrayBlock_lt _, fun b hb => ?_⟩
    rw [valueBlocks, entryBlocks_eq] at hb
    obtain ⟨e, he, hb⟩ := List.mem_flatMap.mp hb
    obtain ⟨v, hv, rfl⟩ := List.mem_map.mp he
    exact ih v hv (depth + 1) b hb
  | object hn h ih =>
    intro depth
    refine List.forall_mem_cons.mpr ⟨objectBlock_lt _ _, fun b hb => ?_⟩
    rw [valueBlocks, memberBlocks_eq] at hb
    obtain ⟨e, he, hb⟩ := List.mem_flatMap.mp hb
    obtain ⟨m, hm, rfl⟩ := List.mem_map.mp he
    rcases List.mem_cons.mp hb with rfl | hb
    · exact stringBlock_lt _
    · exact ih m hm (depth + 1) b hb

/-- All the blocks of the text of a value, that of the whole first. -/
def blocks (fpu : Arithmetic) (fmt : Bool) (v : CJSON) : List Block :=
  (valueBlocks fpu fmt 0 v).1 :: (valueBlocks fpu fmt 0 v).2

/-- **No text is longer than its block.** For a value with finite numbers, formatted or not, whose
lengths are all those of an `int`, the text of every part and its zero stay inside the block that
was measured for it, and the text of the whole is that of `print_value`. -/
theorem blocks_hold (hrnd : fpu.rnd (10 ^ 60) ≤ 10 ^ 61) {v : CJSON}
    (h : All CStr (fun _ => Finite) v) (hint : ∀ b ∈ blocks fpu fmt v, b.InInt) :
    (blocks fpu fmt v).head?.map Block.text = some (cjsonText fpu fmt v) ∧
      ∀ b ∈ blocks fpu fmt v, b.Holds :=
  ⟨congrArg some (valueBlocks_text h 0), fun b hb =>
    Block.holds_of_lt (hint b hb) (valueBlocks_lt hrnd h 0 b hb)⟩

/-- An empty object, the smallest `int` and a string with two escapes. -/
def smallest : CJSON := .array [.object [], .number (-2147483648) (-2147483648),
    .string [0x22, 0x01]]

/-- The theorem applied to them, formatted. -/
theorem blocks_hold_smallest :
    (blocks binary64 true smallest).head?.map Block.text = some (cjsonText binary64 true smallest) ∧
      ∀ b ∈ blocks binary64 true smallest, b.Holds := by
  have hrnd : binary64.rnd (10 ^ 60) ≤ 10 ^ 61 := by decide +kernel
  have habs : |(-2147483648 : ℚ)| = 2 ^ 31 := by norm_num
  have hfinite : Finite (-2147483648) := by
    constructor
    · rw [habs]
      exact pow_lt_pow_right₀ (by norm_num) (by norm_num)
    · intro _
      rw [habs]
      exact one_le_mul_of_one_le_of_one_le (one_le_pow₀ (by norm_num)) (one_le_pow₀ (by norm_num))
  refine blocks_hold hrnd (.array ?_) (by decide +kernel)
  simp only [List.forall_mem_cons, List.not_mem_nil, false_implies, implies_true, and_true]
  refine ⟨.object (by simp) (by simp), .number hfinite, .string (by decide)⟩

end MultiPortConvertor.Tool.CJsonBlocks
