import MultiPortConvertor.Lib.Doubles
import MultiPortConvertor.Lib.Parsers
import MultiPortConvertor.Lib.Scanf
import MultiPortConvertor.Tool.CJson

/-! # The parser of `cJSON`

A pointer into the text is given by what it points at: the bytes up to the terminating zero, which
is not in the list. A pointer moved over the terminator, and a string that does not fit the block of
`parse_string`, end in `outside`. `stack` is the number of calls of `parse_value` that the stack has
room for. Allocations succeed. -/

namespace MultiPortConvertor.Tool.CJsonParse

open MultiPortConvertor.Lib.CString MultiPortConvertor.Lib.Doubles MultiPortConvertor.Lib.Parsers
open MultiPortConvertor.Lib.Scanf (isDigit)
open MultiPortConvertor.Tool.CJson

/-- `skip`. -/
def skip (s : List UInt8) : List UInt8 := s.dropWhile fun b => b ≤ 32

/-! ### Numbers -/

/-- A loop over digits: `n=(n*10.0)+(*num++ -'0')`. -/
def digitsLoop (fpu : Arithmetic) : ℚ → List UInt8 → ℚ × List UInt8
  | n, [] => (n, [])
  | n, b :: s =>
    if isDigit b then digitsLoop fpu (fpu.rnd (fpu.rnd (n * 10) + (b.toNat - 0x30 : ℕ))) s
      else (n, b :: s)

/-- A number that does not begin with 0. -/
def nonzeroPart (fpu : Arithmetic) : List UInt8 → ℚ × List UInt8
  | [] => (0, [])
  | b :: s => if 0x31 ≤ b ∧ b ≤ 0x39 then digitsLoop fpu 0 (b :: s) else (0, b :: s)

/-- The number before the point; one 0 before it is passed over. -/
def wholePart (fpu : Arithmetic) (s : List UInt8) : ℚ × List UInt8 :=
  nonzeroPart fpu (if s.head? = some 0x30 then s.tail else s)

/-- The digits behind the point are put behind `n`; besides, `scale`. -/
def fracPart (fpu : Arithmetic) (n : ℚ) (s : List UInt8) : ℚ × ℤ × List UInt8 :=
  match s with
  | [] => (n, 0, [])
  | [b] => (n, 0, [b])
  | b :: c :: s =>
    if b = 0x2E ∧ isDigit c then
      let (n, rest) := digitsLoop fpu n (c :: s)
      (n, (rest.length : ℤ) - (c :: s).length, rest)
    else (n, 0, b :: c :: s)

/-- `subscale=(subscale*10)+(*num++ - '0')`. -/
def subscaleLoop : Int32 → List UInt8 → Int32 × List UInt8
  | n, [] => (n, [])
  | n, b :: s => if isDigit b then subscaleLoop (n * 10 + Int32.ofNat (b.toNat - 0x30)) s
      else (n, b :: s)

def signsubscale (s : List UInt8) : Int32 × List UInt8 :=
  if s.head? = some 0x2B then (1, s.tail) else if s.head? = some 0x2D then (-1, s.tail) else (1, s)

/-- The exponent: `subscale` times `signsubscale`. -/
def exponentPart (s : List UInt8) : Int32 × List UInt8 :=
  match s with
  | [] => (0, [])
  | b :: s =>
    if b = 0x65 ∨ b = 0x45 then
      let sign := signsubscale s
      let subscale := subscaleLoop 0 sign.2
      (subscale.1 * sign.1, subscale.2)
    else (0, b :: s)

def signPart (num : List UInt8) : ℚ × List UInt8 :=
  if num.head? = some 0x2D then (-1, num.tail) else (1, num)

/-- `parse_number`. -/
def parseNumber (fpu : Arithmetic) (num : List UInt8) : Parsed UInt8 CJSON :=
  let sign := signPart num
  let whole := wholePart fpu sign.2
  let frac := fracPart fpu whole.1 whole.2
  let exp := exponentPart frac.2.2
  let n := fpu.rnd (sign.1 * frac.1 * fpu.pow10 (frac.2.1 + exp.1.toInt))
  .ok (.number (fpu.toInt n) n) exp.2

/-! ### Strings -/

/-- The value of a digit of `parse_hex4`. -/
def hexValue (b : UInt8) : Option ℕ :=
  if isDigit b then some (b.toNat - 0x30)
  else if 0x41 ≤ b ∧ b ≤ 0x46 then some (10 + b.toNat - 0x41)
  else if 0x61 ≤ b ∧ b ≤ 0x66 then some (10 + b.toNat - 0x61)
  else none

/-- `parse_hex4`: 0 unless there are four digits. -/
def parseHex4 : List UInt8 → ℕ
  | a :: b :: c :: d :: _ =>
    match hexValue a, hexValue b, hexValue c, hexValue d with
    | some a, some b, some c, some d => (((a * 16 + b) * 16 + c) * 16) + d
    | _, _, _, _ => 0
  | _ => 0

def firstByteMark : ℕ → ℕ
  | 2 => 0xC0
  | 3 => 0xE0
  | 4 => 0xF0
  | _ => 0

/-- The stores before the first byte, from the last one on. -/
def continuation : ℕ → ℕ → List UInt8 → ℕ × List UInt8
  | 0, uc, bs => (uc, bs)
  | k + 1, uc, bs => continuation k (uc >>> 6) (UInt8.ofNat ((uc ||| 0x80) &&& 0xBF) :: bs)

/-- `uc` in UTF-8. -/
def utf8 (uc : ℕ) : List UInt8 :=
  let len := if uc < 0x80 then 1 else if uc < 0x800 then 2 else if uc < 0x10000 then 3 else 4
  let (uc, bs) := continuation (len - 1) uc []
  UInt8.ofNat (uc ||| firstByteMark len) :: bs

/-- `\u`, with `s` behind it: what is stored, and the number of bytes passed over. -/
def unicode (s : List UInt8) : List UInt8 × ℕ :=
  let uc := parseHex4 s
  if (0xDC00 ≤ uc ∧ uc ≤ 0xDFFF) ∨ uc = 0 then ([], 4)
  else if 0xD800 ≤ uc ∧ uc ≤ 0xDBFF then
    if s[4]? ≠ some 0x5C ∨ s[5]? ≠ some 0x75 then ([], 4)
    else
      let uc2 := parseHex4 (s.drop 6)
      if uc2 < 0xDC00 ∨ 0xDFFF < uc2 then ([], 10)
      else (utf8 (0x10000 + (((uc &&& 0x3FF) <<< 10) ||| (uc2 &&& 0x3FF))), 10)
  else (utf8 uc, 4)

/-- The character `c` behind a backslash, with `s` behind it. -/
def escape (c : UInt8) (s : List UInt8) : List UInt8 × ℕ :=
  if c = 0x62 then ([0x08], 0)
  else if c = 0x66 then ([0x0C], 0)
  else if c = 0x6E then ([0x0A], 0)
  else if c = 0x72 then ([0x0D], 0)
  else if c = 0x74 then ([0x09], 0)
  else if c = 0x75 then unicode s
  else ([c], 0)

/-- The second pass of `parse_string`: what is stored in `out`. The number is that of bytes still to
be passed over. -/
def unescape : ℕ → Parser UInt8 (List UInt8)
  | 0, [] => .ok [] []
  | _ + 1, [] => .outside
  | k + 1, _ :: s => unescape k s
  | 0, b :: s =>
    if b = 0x22 then .ok [] s
    else if b ≠ 0x5C then (unescape 0 s).map (b :: ·)
    else
      match s with
      | [] => .outside
      | c :: s => (unescape (escape c s).2 s).map ((escape c s).1 ++ ·)

/-- The first pass: `len`. -/
def lenPass : Parser UInt8 ℕ
  | [] => .ok 0 []
  | b :: s =>
    if b = 0x22 then .ok 0 s
    else if b ≠ 0x5C then (lenPass s).map (· + 1)
    else
      match s with
      | [] => .outside
      | _ :: s => (lenPass s).map (· + 1)

/-- `parse_string`. -/
def parseString : Parser UInt8 (List UInt8)
  | [] => .fail []
  | b :: s =>
    if b = 0x22 then
      (lenPass s).bind fun len _ => (unescape 0 s).bind fun out rest =>
        if out.length ≤ len then .ok out rest else .outside
    else .fail (b :: s)

/-! ### Values -/

section Values

variable (value : Parser UInt8 CJSON)

/-- An entry of an array, up to what follows the space behind it. -/
def entry (s : List UInt8) : Parsed UInt8 CJSON :=
  (value (skip s)).bind fun v s => .ok v (skip s)

/-- `parse_array`; `value` is the call of `parse_value`. -/
def parseArray : Parser UInt8 (List CJSON)
  | [] => .fail []
  | b :: s =>
    if b = 0x5B then
      let s := skip s
      if s.head? = some 0x5D then .ok [] s.tail else items (entry value) 0x2C 0x5D (s.length + 1) s
    else .fail (b :: s)

/-- A name and a value of an object, up to what follows the space behind them. -/
def member (s : List UInt8) : Parsed UInt8 (List UInt8 × CJSON) :=
  (parseString (skip s)).bind fun name s =>
    match skip s with
    | [] => .fail []
    | b :: s => if b = 0x3A then (entry value s).map fun v => (name, v) else .fail (b :: s)

/-- `parse_object`. -/
def parseObject : Parser UInt8 (List (List UInt8 × CJSON))
  | [] => .fail []
  | b :: s =>
    if b = 0x7B then
      let s := skip s
      if s.head? = some 0x7D then .ok [] s.tail else items (member value) 0x2C 0x7D (s.length + 1) s
    else .fail (b :: s)

end Values

/-- `parse_value`. -/
def parseValue (fpu : Arithmetic) : ℕ → Parser UInt8 CJSON
  | 0, _ => .overflow
  | stack + 1, s =>
    if ascii "null" <+: s then .ok .null (s.drop 4)
    else if ascii "false" <+: s then .ok (.bool false) (s.drop 5)
    else if ascii "true" <+: s then .ok (.bool true) (s.drop 4)
    else
      match s with
      | [] => .fail []
      | b :: t =>
        if b = 0x22 then (parseString (b :: t)).map .string
        else if b = 0x2D ∨ isDigit b then parseNumber fpu (b :: t)
        else if b = 0x5B then (parseArray (parseValue fpu stack) (b :: t)).map .array
        else if b = 0x7B then (parseObject (parseValue fpu stack) (b :: t)).map .object
        else .fail (b :: t)

/-- `cJSON_ParseWithOpts`; the rest is `return_parse_end`. -/
def cjsonParseWithOpts (fpu : Arithmetic) (stack : ℕ) (requireNullTerminated : Bool) :
    Parser UInt8 CJSON := fun s =>
  (parseValue fpu stack (skip s)).bind fun c s =>
    if requireNullTerminated then
      if skip s = [] then .ok c [] else .fail (skip s)
    else .ok c s

/-- `cJSON_Parse`. -/
def cjsonParse (fpu : Arithmetic) (stack : ℕ) : Parser UInt8 CJSON :=
  cjsonParseWithOpts fpu stack false

theorem not_cons_prefix {b c : UInt8} {l t : List UInt8} (h : b ≠ c) : ¬ c :: l <+: b :: t :=
  fun hp => h (List.cons_prefix_cons.mp hp).1.symm

/-- What does not begin with a letter is told apart by its first character. -/
theorem parseValue_cons (fpu : Arithmetic) (stack : ℕ) {b : UInt8} {t : List UInt8}
    (hb : b ∉ [0x6E, 0x66, 0x74]) : parseValue fpu (stack + 1) (b :: t) =
      if b = 0x22 then (parseString (b :: t)).map .string
      else if b = 0x2D ∨ isDigit b then parseNumber fpu (b :: t)
      else if b = 0x5B then (parseArray (parseValue fpu stack) (b :: t)).map .array
      else if b = 0x7B then (parseObject (parseValue fpu stack) (b :: t)).map .object
      else .fail (b :: t) := by
  simp only [List.mem_cons, List.not_mem_nil, or_false, not_or] at hb
  have hnull : ¬ ascii "null" <+: b :: t := not_cons_prefix hb.1
  have hfalse : ¬ ascii "false" <+: b :: t := not_cons_prefix hb.2.1
  have htrue : ¬ ascii "true" <+: b :: t := not_cons_prefix hb.2.2
  rw [parseValue, if_neg hnull, if_neg hfalse, if_neg htrue]

end MultiPortConvertor.Tool.CJsonParse
