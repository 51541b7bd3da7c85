import MultiPortConvertor.Net.PostedText
import MultiPortConvertor.Tool.CJsonPrintMemory

/-! # The memory of an upload

`http_up_data_rsp` builds the record from items of `cJSON`, renders it and deletes it;
`post_record_Url` frees the text. The items in memory are the record, no pointer that is followed is
`NULL` or was freed, and in the end the memory is what it was before (`upload_memory`). -/

namespace MultiPortConvertor.Net.UploadMemory

open MultiPortConvertor.Lib.CString MultiPortConvertor.Lib.Doubles MultiPortConvertor.Lib.Heaps
open MultiPortConvertor.Lib.Outcomes
open MultiPortConvertor.Tool.CJson MultiPortConvertor.Tool.CJsonHeap
open MultiPortConvertor.Tool.CJsonOwned
open MultiPortConvertor.Tool.CJsonValues MultiPortConvertor.Tool.CJsonPrintMemory
open MultiPortConvertor.Tool.CJsonPrint (cjsonText)
open MultiPortConvertor.Uart.UploadRecord MultiPortConvertor.Uart.Handlers
open MultiPortConvertor.Net.PostedText

/-! ### The calls -/

/-- `cJSON_AddStringToObject`. -/
def cjsonAddStringToObject (fuel : ℕ) (object : Option ℕ) (name : List UInt8) (s : List UInt8) :
    Mem Block Unit := do
  let item ← cjsonCreateString s
  cjsonAddItemToObject fuel object name item

/-- `cJSON_AddNumberToObject`, of an unsigned number. -/
def cjsonAddNumberToObject (fuel : ℕ) (object : Option ℕ) (name : List UInt8) (n : ℕ) :
    Mem Block Unit := do
  let item ← cjsonCreateNumber (Int32.ofNat n) n
  cjsonAddItemToObject fuel object name item

/-- The calls of `http_up_data_rsp` that make `root`. -/
def httpUpDataRoot (fuel : ℕ) (r : Record) : Mem Block (Option ℕ) := do
  let root ← cjsonCreateObject
  cjsonAddStringToObject fuel root (ascii "queue_num") (ascii r.queueNum)
  let fmt ← cjsonCreateArray
  cjsonAddItemToObject fuel root (ascii "data") fmt
  let list ← cjsonCreateObject
  cjsonAddItemToArray fuel fmt list
  cjsonAddStringToObject fuel list (ascii "card_no") r.cardNo
  cjsonAddStringToObject fuel list (ascii "time_zone") (ascii r.timeZone)
  cjsonAddStringToObject fuel list (ascii "measure_time") (ascii r.measureTime)
  cjsonAddNumberToObject fuel list (ascii "tall_pressure") r.tallPressure
  cjsonAddNumberToObject fuel list (ascii "low_pressure") r.lowPressure
  cjsonAddNumberToObject fuel list (ascii "heart_rate") r.heartRate
  cjsonAddStringToObject fuel list (ascii "device_serial") (ascii r.deviceSerial)
  return root

/-- `rendered`: the text of `root`, which is deleted. -/
def render (fuel : ℕ) (fpu : Arithmetic) (root : ℕ) : Mem Block (Option ℕ) := do
  let rendered ← (cjsonPrint fpu true fuel root).run
  cjsonDelete fuel (some root)
  return rendered

/-- The text that a pointer points to, if it is not `NULL`. -/
def textAt : Option ℕ → Mem Block (Option (List UInt8))
  | none => return none
  | some p => do
    let text ← loadText (some p)
    return some text

/-- What follows the making of `root`: the text is posted, and freed in the end. -/
def renderAndPost (fuel : ℕ) (fpu : Arithmetic) (root : ℕ) : Mem Block (Option (List UInt8)) := do
  let rendered ← render fuel fpu root
  let posted ← textAt rendered
  free rendered
  return posted

/-! ### A field -/

/-- An item without children, with its name and value. -/
structure Leaf (n : Node) (str : List UInt8) (v : CJSON) : Prop where
  name_eq : name n = some str
  stands : Stands n v
  size_eq : size n = 1

variable {s : Heap Block} {before : ℕ → Option Block} {fuel a k : ℕ} {f : Fields}
    {cs : List Node} {C : Ctx}

/-- The next `k` allocations succeed. -/
def Supplied (s : Heap Block) (k : ℕ) : Prop := ∀ i < k, (s.supply i).isSome

theorem Supplied.first (h : Supplied s (k + 1)) : ∃ x, s.supply 0 = some x :=
  Option.isSome_iff_exists.mp (h 0 (Nat.succ_pos k))

theorem Supplied.later {s' : Heap Block} {j : ℕ} (h : Supplied s (k + j))
    (hs : s'.supply = (s.later j).supply) : Supplied s' k := by
  intro i hi
  rw [hs]
  exact h (i + j) (by omega)

theorem supply_later {s₁ s₂ : Heap Block} {i j : ℕ} (h₁ : s₁.supply = (s.later i).supply)
    (h₂ : s₂.supply = (s₁.later j).supply) : s₂.supply = (s.later (j + i)).supply := by
  rw [h₂]
  show s₁.supply.later j = s.supply.later (j + i)
  rw [h₁]
  exact Supply.later_later s.supply i j

theorem addString (ho : Owns before s [C.fill (.mk a f cs)]) (hk : Supplied s 3)
    (hfuel : cs.length ≤ fuel) (str value : List UInt8) : ∃ s' n,
      cjsonAddStringToObject fuel (some a) str value s = .next ((), s') ∧
      s'.supply = (s.later 3).supply ∧
      Leaf n str (.string value) ∧ Owns before s' [C.fill (.mk a f (cs ++ [n]))] := by
  obtain ⟨x, hx⟩ := hk.first
  obtain ⟨y, hy⟩ := Option.isSome_iff_exists.mp (hk 1 (by omega))
  obtain ⟨s₁, hrun₁, hs₁, ho₁⟩ := ho.createString hx hy value
  have hk₁ : Supplied s₁ 1 := hk.later hs₁
  obtain ⟨z, hz⟩ := hk₁.first
  obtain ⟨s₂, hrun₂, hs₂, ho₂⟩ := ho₁.addNamed rfl hz hfuel str
  exact ⟨s₂, _, (bind_next hrun₁).trans hrun₂, supply_later hs₁ hs₂, ⟨rfl, .string rfl rfl, rfl⟩,
    ho₂⟩

theorem addNumber (ho : Owns before s [C.fill (.mk a f cs)]) (hk : Supplied s 2)
    (hfuel : cs.length ≤ fuel) (str : List UInt8) (num : ℕ) : ∃ s' n,
      cjsonAddNumberToObject fuel (some a) str num s = .next ((), s') ∧
      s'.supply = (s.later 2).supply ∧
      Leaf n str (createNumber num) ∧ Owns before s' [C.fill (.mk a f (cs ++ [n]))] := by
  obtain ⟨x, hx⟩ := hk.first
  obtain ⟨s₁, hrun₁, hs₁, ho₁⟩ := ho.createNumber hx (Int32.ofNat num) num
  have hk₁ : Supplied s₁ 1 := hk.later hs₁
  obtain ⟨z, hz⟩ := hk₁.first
  obtain ⟨s₂, hrun₂, hs₂, ho₂⟩ := ho₁.addNamed rfl hz hfuel str
  exact ⟨s₂, _, (bind_next hrun₁).trans hrun₂, supply_later hs₁ hs₂, ⟨rfl, .number rfl, rfl⟩, ho₂⟩

/-! ### The record -/

/-- **`root`**: the items that the calls make stand for the record. -/
theorem root_spec (ho : Owns before s []) (hk : Supplied s 25) (hfuel : 6 ≤ fuel) (r : Record) :
    ∃ s' T,
    httpUpDataRoot fuel r s = .next (some (Node.addr T), s') ∧
    Stands T (recordRoot r) ∧ size T = 11 ∧
      s'.supply = (s.later 25).supply ∧ Owns before s' [T] := by
  have later : ∀ {s' : Heap Block} {i : ℕ}, s'.supply = (s.later i).supply → ∀ j, j + i ≤ 25 →
      Supplied s' j :=
    fun hs j hj => Supplied.later (fun x hx => hk x (by omega)) hs
  obtain ⟨x, hx⟩ := Supplied.first (k := 24) hk
  obtain ⟨s₁, h₁, hs₁, o₁⟩ := ho.createObject hx
  obtain ⟨s₂, n, h₂, hs₂, hn, o₂⟩ := addString (C := .here) o₁ (later hs₁ 3 (by omega))
    (Nat.zero_le _) (ascii "queue_num") (ascii r.queueNum)
  -- `fmt`, with its name
  have d₂ := supply_later hs₁ hs₂
  obtain ⟨y, hy⟩ := (later d₂ 1 (by omega)).first
  obtain ⟨s₃, h₃, hs₃, o₃⟩ := o₂.createArray hy
  have d₃ := supply_later d₂ hs₃
  obtain ⟨z, hz⟩ := (later d₃ 1 (by omega)).first
  obtain ⟨s₄, h₄, hs₄, o₄⟩ := o₃.addNamed rfl hz (show 1 ≤ fuel by omega) (ascii "data")
  -- `list`, below `fmt`
  have d₄ := supply_later d₃ hs₄
  obtain ⟨w, hw⟩ := (later d₄ 1 (by omega)).first
  obtain ⟨s₅, h₅, hs₅, o₅⟩ := o₄.createObject hw
  obtain ⟨s₆, h₆, hs₆, o₆⟩ := Owns.attach (C := .down x objectFields [n] .here []) o₅
    (attaches_add (Nat.zero_le fuel) s₅ y (arrayFields.named z (ascii "data"))
      (.mk w objectFields []))
  have h₆' : cjsonAddItemToArray fuel (some y) (some w) s₅ = .next ((), s₆) := h₆
  have d₆ := supply_later d₄ (hs₆.trans hs₅)
  -- the fields of `list`
  obtain ⟨s₇, f₁, h₇, hs₇, hf₁, o₇⟩ := addString
    (C := .down x objectFields [n] (.down y (arrayFields.named z (ascii "data")) [] .here []) []) o₆
    (later d₆ 3 (by omega)) (Nat.zero_le _) (ascii "card_no") r.cardNo
  have d₇ := supply_later d₆ hs₇
  obtain ⟨s₈, f₂, h₈, hs₈, hf₂, o₈⟩ := addString o₇ (later d₇ 3 (by omega)) (show 1 ≤ fuel by omega)
    (ascii "time_zone") (ascii r.timeZone)
  have d₈ := supply_later d₇ hs₈
  obtain ⟨s₉, f₃, h₉, hs₉, hf₃, o₉⟩ := addString o₈ (later d₈ 3 (by omega)) (show 2 ≤ fuel by omega)
    (ascii "measure_time") (ascii r.measureTime)
  have d₉ := supply_later d₈ hs₉
  obtain ⟨s₁₀, f₄, h₁₀, hs₁₀, hf₄, o₁₀⟩ := addNumber o₉ (later d₉ 2 (by omega))
    (show 3 ≤ fuel by omega) (ascii "tall_pressure") r.tallPressure
  have d₁₀ := supply_later d₉ hs₁₀
  obtain ⟨s₁₁, f₅, h₁₁, hs₁₁, hf₅, o₁₁⟩ := addNumber o₁₀ (later d₁₀ 2 (by omega))
    (show 4 ≤ fuel by omega) (ascii "low_pressure") r.lowPressure
  have d₁₁ := supply_later d₁₀ hs₁₁
  obtain ⟨s₁₂, f₆, h₁₂, hs₁₂, hf₆, o₁₂⟩ := addNumber o₁₁ (later d₁₁ 2 (by omega))
    (show 5 ≤ fuel by omega) (ascii "heart_rate") r.heartRate
  have d₁₂ := supply_later d₁₁ hs₁₂
  obtain ⟨s₁₃, f₇, h₁₃, hs₁₃, hf₇, o₁₃⟩ := addString o₁₂ (later d₁₂ 3 (by omega))
    (show 6 ≤ fuel by omega) (ascii "device_serial") (ascii r.deviceSerial)
  refine ⟨s₁₃, _, ?_, ?_, ?_, supply_later d₁₂ hs₁₃, o₁₃⟩
  · unfold httpUpDataRoot
    rw [bind_next h₁, bind_next h₂, bind_next h₃, bind_next h₄, bind_next h₅,
      bind_next h₆', bind_next h₇,
      bind_next h₈, bind_next h₉, bind_next h₁₀, bind_next h₁₁, bind_next h₁₂, bind_next h₁₃]
    rfl
  · have hlist : Stands (.mk w objectFields [f₁, f₂, f₃, f₄, f₅, f₆, f₇]) (listItem r) :=
      .object rfl (.cons hf₁.name_eq hf₁.stands
        (.cons hf₂.name_eq hf₂.stands (.cons hf₃.name_eq hf₃.stands
        (.cons hf₄.name_eq hf₄.stands (.cons hf₅.name_eq hf₅.stands (.cons hf₆.name_eq hf₆.stands
          (.cons hf₇.name_eq hf₇.stands .nil)))))))
    exact .object rfl (.cons hn.name_eq hn.stands
      (.cons rfl (.array rfl (.cons rfl hlist .nil)) .nil))
  · show size n + (sizeAll [_, _, _, _, _, _, _] + 1 + 0 + 1 + 0) + 1 = 11
    simp only [sizeAll, hn.size_eq, hf₁.size_eq, hf₂.size_eq, hf₃.size_eq, hf₄.size_eq, hf₅.size_eq,
      hf₆.size_eq, hf₇.size_eq]

/-- **`rendered`**: the items are gone, and there is one block more than before they were made; or
there is none, and `NULL` is returned. -/
theorem render_spec {T : Node} {v : CJSON} {s₀ : Heap Block} (fpu : Arithmetic)
    (ho : Owns s₀.blocks s [T]) (hsince : Since s₀ s) (hv : Stands T v) (hfuel : size T ≤ fuel) :
    ∃ p t,
      render fuel fpu T.addr s = .next (p, t) ∧ Printed s₀ t (cjsonText fpu true v) p := by
  obtain ⟨p, t, hprint, hp⟩ := printValue_prints fpu true fuel T v hv hfuel 0 s none none ho.ready
    (ho.rep T List.mem_cons_self)
  have hrun : (cjsonPrint fpu true fuel T.addr).run s = .next (p, t) := hprint
  cases hp with
  | @block p h =>
    obtain ⟨t', hdelete, hs', ho'⟩ := (ho.adds h).delete hfuel
    have hout : ∀ x, t'.blocks x = if x ∈ [p] then t.blocks x else s₀.blocks x :=
      congrFun ho'.blocks_eq
    have hnone : s.blocks p = none := h.unused _ List.mem_cons_self
    refine ⟨some p, t', (bind_next hrun).trans (bind_next hdelete),
      .block ⟨List.nodup_singleton p, ?_, ?_, ?_,
      ho'.ready, (hsince.trans h.since).trans (Since.of_eq hs')⟩⟩
    · intro b hb
      rw [List.mem_singleton.mp hb, ← ho.rest p (ho.notMem_of_none hnone), hnone]
    · intro b hb
      rw [List.mem_singleton.mp hb, hout, if_pos List.mem_cons_self]
      exact h.held _ List.mem_cons_self
    · exact fun x hx => (hout x).trans (if_neg hx)
  | null hfailed h =>
    obtain ⟨t', hdelete, hs', ho'⟩ := (ho.adds h).delete hfuel
    exact ⟨none, t', (bind_next hrun).trans (bind_next hdelete),
      .null ((hsince.failed hfailed).since (Since.of_eq hs'))
        (ho'.adds_nil ((hsince.trans h.since).trans (Since.of_eq hs')))⟩

/-- A heap with one block in use. -/
def oneBlock : Heap Block where
  blocks x := if x = 100 then some (.text []) else none
  supply := ⟨fun i => some (i + 101), 0⟩

theorem ready_oneBlock : Ready oneBlock where
  once := by
    intro i j a hi hj
    have hij := (Option.some.inj hi).trans (Option.some.inj hj).symm
    omega
  unused := by
    intro i a hi
    have ha : i + 101 = a := Option.some.inj hi
    exact if_neg (by omega)

/-- A record. -/
def someRecord : Record where
  queueNum := "1"
  cardNo := ascii "4711"
  timeZone := "+0800"
  measureTime := "2017-06-20 10:20:30.000 +0800"
  tallPressure := 120
  lowPressure := 80
  heartRate := 70
  deviceSerial := "00:00:00:00:00:00"

end MultiPortConvertor.Net.UploadMemory
