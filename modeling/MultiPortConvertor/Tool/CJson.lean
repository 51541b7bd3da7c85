import MultiPortConvertor.Lib.CString
import Mathlib.Data.Rat.Defs

/-! # `tool/cJSON.c`

The values of `cJSON`, and what the program reads off them. A value has the fields that its type
gives a meaning; strings and names are C strings. The parser and the rendering of values other than
strings are parameters of the functions that call them. -/

namespace MultiPortConvertor.Tool.CJson

open MultiPortConvertor.Lib.CString

/-- `cJSON`, with `valueint` and `valuedouble` of a number, and the names of the children of an
object. -/
inductive CJSON where
  | null
  | bool (b : Bool)
  | number (valueint : Int32) (valuedouble : ℚ)
  | string (valuestring : List UInt8)
  | array (child : List CJSON)
  | object (child : List (List UInt8 × CJSON))

/-- `tolower`. -/
def toLower (b : UInt8) : UInt8 := if 0x41 ≤ b ∧ b ≤ 0x5A then b + 0x20 else b

/-- `cJSON_strcasecmp` gives 0. -/
def sameName (s t : List UInt8) : Bool := s.map toLower == t.map toLower

/-- `cJSON_GetObjectItem`: the first child with the name; the children of an array have none. -/
def getObjectItem (object : CJSON) (name : String) : Option CJSON :=
  match object with
  | .object child => (child.find? fun c => sameName c.1 (ascii name)).map Prod.snd
  | _ => none

/-- A digit of `%04x`. -/
def hexDigit (n : ℕ) : UInt8 := UInt8.ofNat (Nat.digitChar n).toNat

/-- A character of a string as `print_string_ptr` writes it. -/
def printChar (b : UInt8) : List UInt8 :=
  if 31 < b ∧ b ≠ 0x22 ∧ b ≠ 0x5C then [b]
  else 0x5C ::
    if b = 0x5C then [0x5C]
    else if b = 0x22 then [0x22]
    else if b = 0x08 then ascii "b"
    else if b = 0x0C then ascii "f"
    else if b = 0x0A then ascii "n"
    else if b = 0x0D then ascii "r"
    else if b = 0x09 then ascii "t"
    else ascii "u00" ++ [hexDigit (b.toNat / 16), hexDigit (b.toNat % 16)]

/-- `print_string_ptr`. -/
def printString (s : List UInt8) : List UInt8 := 0x22 :: (s.flatMap printChar ++ [0x22])

/-- `cJSON_Print`; `render` writes what is no string. -/
def cjsonPrint (render : CJSON → List UInt8) : CJSON → List UInt8
  | .string s => printString s
  | item => render item

/-- Characters other than control characters, quotes and backslashes are printed as they are. -/
theorem flatMap_printChar {s : List UInt8} (h : ∀ b ∈ s, 31 < b ∧ b ≠ 0x22 ∧ b ≠ 0x5C) :
    s.flatMap printChar = s := by
  have hs : s.flatMap printChar = s.flatMap fun b => [b] :=
    congrArg List.flatten (List.map_congr_left fun b hb => by rw [printChar, if_pos (h b hb)])
  rw [hs, List.flatMap_singleton']

end MultiPortConvertor.Tool.CJson
