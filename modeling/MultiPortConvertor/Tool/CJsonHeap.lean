import MultiPortConvertor.Lib.Heaps
import MultiPortConvertor.Tool.CJson

/-! # The items of `cJSON` in memory

Items are created, put behind the other children of an array or an object, and deleted with all that
is below them. A pointer is an address or `NULL`; a block holds an item, a string, or pointers.
Loops along the items go on for `fuel` turns at most. -/

namespace MultiPortConvertor.Tool.CJsonHeap

open MultiPortConvertor.Lib.CString MultiPortConvertor.Lib.Heaps MultiPortConvertor.Lib.Outcomes

/-- `struct cJSON`. -/
structure Item where
  next : Option ℕ
  prev : Option ℕ
  child : Option ℕ
  type : UInt32
  valuestring : Option ℕ
  valueint : Int32
  valuedouble : ℚ
  string : Option ℕ

/-- What a block holds. -/
inductive Block where
  | item (i : Item)
  | text (str : List UInt8)
  | pointers (ps : List (Option ℕ))

/-- `cJSON_IsReference`. -/
def isReference (type : UInt32) : Bool := type &&& 256 ≠ 0

/-- `cJSON_StringIsConst`. -/
def stringIsConst (type : UInt32) : Bool := type &&& 512 ≠ 0

/-- The item that `p` points to. -/
def loadItem (p : Option ℕ) : Mem Block Item := do
  match ← load p with
  | .item i => return i
  | _ => fun _ => .fault

/-- Fields of the item that `p` points to are written. -/
def setItem (p : Option ℕ) (f : Item → Item) : Mem Block Unit := do
  let i ← loadItem p
  store p (.item (f i))

/-- The item after `memset`. -/
def zeroItem : Item := ⟨none, none, none, 0, none, 0, 0, none⟩

/-- `cJSON_New_Item`. -/
def cjsonNewItem : Mem Block (Option ℕ) := malloc (.item zeroItem)

/-- `cJSON_strdup`. -/
def cjsonStrdup (str : List UInt8) : Mem Block (Option ℕ) := malloc (.text str)

/-- `cJSON_CreateArray`, `cJSON_CreateObject`: a new item of the type. -/
def createType (type : UInt32) : Mem Block (Option ℕ) := do
  let item ← cjsonNewItem
  guarded item.isSome (setItem item fun i => { i with type := type })
  return item

def cjsonCreateArray : Mem Block (Option ℕ) := createType 5

def cjsonCreateObject : Mem Block (Option ℕ) := createType 6

/-- `cJSON_CreateNumber`; `valueint` is `(int)num`. -/
def cjsonCreateNumber (valueint : Int32) (num : ℚ) : Mem Block (Option ℕ) := do
  let item ← cjsonNewItem
  guarded item.isSome (setItem item fun i =>
    { i with type := 3, valuedouble := num, valueint := valueint })
  return item

/-- `cJSON_CreateString`. -/
def cjsonCreateString (string : List UInt8) : Mem Block (Option ℕ) := do
  let item ← cjsonNewItem
  guarded item.isSome do
    setItem item fun i => { i with type := 4 }
    let valuestring ← cjsonStrdup string
    setItem item fun i => { i with valuestring := valuestring }
  return item

/-- `while (c && c->next) c=c->next;` -/
def lastItem : ℕ → ℕ → Mem Block ℕ
  | 0, _ => fun _ => .blocked
  | fuel + 1, c => do
    let i ← loadItem (some c)
    match i.next with
    | some d => lastItem fuel d
    | none => return c

/-- `suffix_object`. -/
def suffixObject (prev : ℕ) (item : ℕ) : Mem Block Unit := do
  setItem (some prev) fun i => { i with next := some item }
  setItem (some item) fun i => { i with prev := some prev }

/-- The item is put behind the children; the last argument points to the first of them. -/
def behindChild (fuel : ℕ) (array : Option ℕ) (item : ℕ) : Option ℕ → Mem Block Unit
  | none => setItem array fun i => { i with child := some item }
  | some c => do
    let last ← lastItem fuel c
    suffixObject last item

/-- `cJSON_AddItemToArray`. -/
def cjsonAddItemToArray (fuel : ℕ) (array item : Option ℕ) : Mem Block Unit := do
  let a ← loadItem array
  match item with
  | none => return
  | some item => behindChild fuel array item a.child

/-- `cJSON_AddItemToObject`. -/
def cjsonAddItemToObject (fuel : ℕ) (object : Option ℕ) (string : List UInt8) (item : Option ℕ) :
    Mem Block Unit := do
  match item with
  | none => return
  | some item =>
    let i ← loadItem (some item)
    free i.string
    let name ← cjsonStrdup string
    setItem (some item) fun i => { i with string := name }
    cjsonAddItemToArray fuel object (some item)

/-- `cJSON_Delete`. -/
def cjsonDelete : ℕ → Option ℕ → Mem Block Unit
  | _, none => return
  | 0, some _ => fun _ => .blocked
  | fuel + 1, some c => do
    let i ← loadItem (some c)
    guarded (!isReference i.type && i.child.isSome) (cjsonDelete fuel i.child)
    guarded (!isReference i.type && i.valuestring.isSome) (free i.valuestring)
    guarded (!stringIsConst i.type && i.string.isSome) (free i.string)
    free (some c)
    cjsonDelete fuel i.next

end MultiPortConvertor.Tool.CJsonHeap
