import MultiPortConvertor.Lib.Parsers
import MultiPortConvertor.Lib.Printf
import MultiPortConvertor.Tool.CJson

/-! # The rendering of `cJSON`

`print_value` and the functions it calls, without a `printbuffer`: every text is a block of its own,
and the texts of the children are composed afterwards. Allocations succeed. -/

namespace MultiPortConvertor.Tool.CJsonPrint

open MultiPortConvertor.Lib.CString MultiPortConvertor.Lib.Doubles MultiPortConvertor.Lib.Printf
open MultiPortConvertor.Lib.Parsers MultiPortConvertor.Tool.CJson

/-- **Induction over a value**, with the children of an array and of an object. -/
theorem value_induct {P : CJSON → Prop} (null : P .null) (bool : ∀ b, P (.bool b))
    (number : ∀ valueint valuedouble, P (.number valueint valuedouble))
    (string : ∀ valuestring, P (.string valuestring))
    (array : ∀ child, (∀ v ∈ child, P v) → P (.array child))
    (object : ∀ child, (∀ m ∈ child, P (Prod.snd m)) → P (.object child)) (v : CJSON) : P v :=
  @CJSON.rec P (fun child => ∀ v ∈ child, P v) (fun child => ∀ m ∈ child, P m.2) (fun m => P m.2)
    null bool number string array object (by simp)
      (fun _ _ hv hvs => List.forall_mem_cons.mpr ⟨hv, hvs⟩) (by simp)
    (fun _ _ hm hms => List.forall_mem_cons.mpr ⟨hm, hms⟩) (fun _ _ h => h) v

/-- `DBL_EPSILON`. -/
def dblEpsilon : ℚ := 1 / 2 ^ 52

/-- `print_number`. -/
def printNumber (fpu : Arithmetic) (valueint : Int32) (d : ℚ) : List UInt8 :=
  if d = 0 then ascii "0"
  else if |(valueint.toInt : ℚ) - d| ≤ dblEpsilon ∧ d ≤ 2 ^ 31 - 1 ∧ -2 ^ 31 ≤ d then
    fmtD valueint.toInt
  else if |(⌊d⌋ : ℚ) - d| ≤ dblEpsilon ∧ |d| < fpu.rnd (10 ^ 60) then fmtF0 d
  else if |d| < fpu.rnd (1 / 10 ^ 6) ∨ 10 ^ 9 < |d| then fmtE d
  else fmtF d

def tabs (n : ℕ) : List UInt8 := List.replicate n 0x09

/-- The texts between `[` and `]`. -/
def composeEntries (fmt : Bool) : List (List UInt8) → List UInt8
  | [] => []
  | [e] => e
  | e :: e' :: es => e ++ (0x2C :: if fmt then [0x20] else []) ++ composeEntries fmt (e' :: es)

/-- The names and texts between `{` and `}`. -/
def composeMembers (fmt : Bool) (depth : ℕ) : List (List UInt8 × List UInt8) → List UInt8
  | [] => []
  | m :: ms =>
    (if fmt then tabs depth else []) ++ m.1 ++ (0x3A :: if fmt then [0x09] else []) ++ m.2 ++
      (if ms = [] then [] else [0x2C]) ++ (if fmt then [0x0A] else []) ++
        composeMembers fmt depth ms

/-- `print_array`, from the texts of the children. -/
def printArray (fmt : Bool) (entries : List (List UInt8)) : List UInt8 :=
  if entries = [] then ascii "[]" else 0x5B :: (composeEntries fmt entries ++ [0x5D])

/-- `print_object`, from the names and the texts of the children; `depth` is that of the object. -/
def printObject (fmt : Bool) (depth : ℕ) (members : List (List UInt8 × List UInt8)) : List UInt8 :=
  if members = [] then 0x7B :: ((if fmt then 0x0A :: tabs (depth - 1) else []) ++ [0x7D])
  else 0x7B :: ((if fmt then [0x0A] else []) ++ composeMembers fmt (depth + 1) members ++
    (if fmt then tabs depth else []) ++ [0x7D])

mutual

/-- `print_value`. -/
def printValue (fpu : Arithmetic) (fmt : Bool) (depth : ℕ) : CJSON → List UInt8
  | .null => ascii "null"
  | .bool b => if b then ascii "true" else ascii "false"
  | .number valueint valuedouble => printNumber fpu valueint valuedouble
  | .string valuestring => printString valuestring
  | .array child => printArray fmt (printEntries fpu fmt (depth + 1) child)
  | .object child => printObject fmt depth (printMembers fpu fmt (depth + 1) child)

def printEntries (fpu : Arithmetic) (fmt : Bool) (depth : ℕ) : List CJSON → List (List UInt8)
  | [] => []
  | v :: vs => printValue fpu fmt depth v :: printEntries fpu fmt depth vs

def printMembers (fpu : Arithmetic) (fmt : Bool) (depth : ℕ) :
    List (List UInt8 × CJSON) → List (List UInt8 × List UInt8)
  | [] => []
  | (name, v) :: ms => (printString name, printValue fpu fmt depth v) ::
      printMembers fpu fmt depth ms

end

example : printValue binary64 true 0 (.object [(ascii "a", .array [.null, .number 7 7])]) =
    ascii "\x7b\n\t\"a\":\t[null, 7]\n\x7d" := by decide +kernel

variable {fpu : Arithmetic} {fmt : Bool}

theorem printEntries_eq (depth : ℕ) : ∀ child : List CJSON,
    printEntries fpu fmt depth child = child.map (printValue fpu fmt depth)
  | [] => rfl
  | v :: vs => by rw [printEntries, printEntries_eq depth vs, List.map_cons]

theorem printMembers_eq (depth : ℕ) : ∀ child : List (List UInt8 × CJSON),
    printMembers fpu fmt depth child =
      child.map fun m => (printString m.1, printValue fpu fmt depth m.2)
  | [] => rfl
  | (name, v) :: ms => by rw [printMembers, printMembers_eq depth ms, List.map_cons]

/-- `cJSON_Print` and `cJSON_PrintUnformatted`. -/
def cjsonText (fpu : Arithmetic) (fmt : Bool) (item : CJSON) : List UInt8 :=
  printValue fpu fmt 0 item

end MultiPortConvertor.Tool.CJsonPrint
