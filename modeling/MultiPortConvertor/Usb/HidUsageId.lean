import MultiPortConvertor.Lib.Bytes
import Mathlib.Data.Fin.VecNotation
import Mathlib.Data.List.Nodup

/-! # `usb/hid_usage_id.h`

The table of the keys, the list of the devices, and the searches through them. A report is
translated by three of its bytes (`asciiOf`); the table has every combination once, so a key is
always found under its own (`lookup_id`). -/

namespace MultiPortConvertor.Usb.HidUsageId

/-- `struct hid_id_str`. -/
structure HidIdStr where
  id : UInt8 × UInt8 × UInt8
  ascii : UInt8
  deriving DecidableEq

/-- `hid_id_tab`. -/
def hidIdTab : List HidIdStr :=
  [
    -- the right shift key and A to Z
    ⟨(32, 0, 4), 65⟩, ⟨(32, 0, 5), 66⟩, ⟨(32, 0, 6), 67⟩, ⟨(32, 0, 7), 68⟩, ⟨(32, 0, 8), 69⟩,
    ⟨(32, 0, 9), 70⟩, ⟨(32, 0, 10), 71⟩, ⟨(32, 0, 11), 72⟩, ⟨(32, 0, 12), 73⟩, ⟨(32, 0, 13), 74⟩,
    ⟨(32, 0, 14), 75⟩, ⟨(32, 0, 15), 76⟩, ⟨(32, 0, 16), 77⟩, ⟨(32, 0, 17), 78⟩, ⟨(32, 0, 18), 79⟩,
    ⟨(32, 0, 19), 80⟩, ⟨(32, 0, 20), 81⟩, ⟨(32, 0, 21), 82⟩, ⟨(32, 0, 22), 83⟩, ⟨(32, 0, 23), 84⟩,
    ⟨(32, 0, 24), 85⟩, ⟨(32, 0, 25), 86⟩, ⟨(32, 0, 26), 87⟩, ⟨(32, 0, 27), 88⟩, ⟨(32, 0, 28), 89⟩,
    ⟨(32, 0, 29), 90⟩,
    -- the left shift key and A to Z
    ⟨(2, 0, 4), 65⟩, ⟨(2, 0, 5), 66⟩, ⟨(2, 0, 6), 67⟩, ⟨(2, 0, 7), 68⟩, ⟨(2, 0, 8), 69⟩,
    ⟨(2, 0, 9), 70⟩, ⟨(2, 0, 10), 71⟩, ⟨(2, 0, 11), 72⟩, ⟨(2, 0, 12), 73⟩, ⟨(2, 0, 13), 74⟩,
    ⟨(2, 0, 14), 75⟩, ⟨(2, 0, 15), 76⟩, ⟨(2, 0, 16), 77⟩, ⟨(2, 0, 17), 78⟩, ⟨(2, 0, 18), 79⟩,
    ⟨(2, 0, 19), 80⟩, ⟨(2, 0, 20), 81⟩, ⟨(2, 0, 21), 82⟩, ⟨(2, 0, 22), 83⟩, ⟨(2, 0, 23), 84⟩,
    ⟨(2, 0, 24), 85⟩, ⟨(2, 0, 25), 86⟩, ⟨(2, 0, 26), 87⟩, ⟨(2, 0, 27), 88⟩, ⟨(2, 0, 28), 89⟩,
    ⟨(2, 0, 29), 90⟩,
    -- a to z
    ⟨(0, 0, 4), 97⟩, ⟨(0, 0, 5), 98⟩, ⟨(0, 0, 6), 99⟩, ⟨(0, 0, 7), 100⟩, ⟨(0, 0, 8), 101⟩,
    ⟨(0, 0, 9), 102⟩, ⟨(0, 0, 10), 103⟩, ⟨(0, 0, 11), 104⟩, ⟨(0, 0, 12), 105⟩, ⟨(0, 0, 13), 106⟩,
    ⟨(0, 0, 14), 107⟩, ⟨(0, 0, 15), 108⟩, ⟨(0, 0, 16), 109⟩, ⟨(0, 0, 17), 110⟩, ⟨(0, 0, 18), 111⟩,
    ⟨(0, 0, 19), 112⟩, ⟨(0, 0, 20), 113⟩, ⟨(0, 0, 21), 114⟩, ⟨(0, 0, 22), 115⟩, ⟨(0, 0, 23), 116⟩,
    ⟨(0, 0, 24), 117⟩, ⟨(0, 0, 25), 118⟩, ⟨(0, 0, 26), 119⟩, ⟨(0, 0, 27), 120⟩, ⟨(0, 0, 28), 121⟩,
    ⟨(0, 0, 29), 122⟩,
    -- 1 to 9 and 0
    ⟨(0, 0, 30), 49⟩, ⟨(0, 0, 31), 50⟩, ⟨(0, 0, 32), 51⟩, ⟨(0, 0, 33), 52⟩, ⟨(0, 0, 34), 53⟩,
    ⟨(0, 0, 35), 54⟩, ⟨(0, 0, 36), 55⟩, ⟨(0, 0, 37), 56⟩, ⟨(0, 0, 38), 57⟩, ⟨(0, 0, 39), 48⟩,
    -- return, space and the equals sign; the end
    ⟨(0, 0, 40), 13⟩, ⟨(0, 0, 44), 32⟩, ⟨(0, 0, 46), 61⟩, ⟨(0, 0, 0), 0⟩
  ]

/-- `usb_product_list`: product and type. -/
def usbProductList : List (Int16 × UInt8) := [(0x7638, 1), (0x16C1, 1), (0x1010, 2), (0, 0)]

/-- The loop of `find_hid_type`. -/
def findProduct (product : Int16) : List (Int16 × UInt8) → UInt8
  | [] => 0
  | (p, usbType) :: list =>
    if p = 0 then 0 else if product = p then usbType else findProduct product list

/-- `find_hid_type`. -/
def findHidType (product : Int16) : UInt8 := findProduct product usbProductList

/-- `struct key_word_format_t`: `head` and the seven bytes of `code`. -/
abbrev KeyWord := Fin 8 → UInt8

/-- The bytes that `hid_data_tsk` compares: those behind the head 1 of a card reader, or else the
first. -/
def pcmp (k : KeyWord) : UInt8 × UInt8 × UInt8 :=
  if k 0 = 1 then (k 1, k 2, k 3) else (k 0, k 1, k 2)

/-- The loop of `hid_data_tsk` over the table: the `ascii` of the first entry that matches, up to
the one whose `ascii` is 0. -/
def lookup (id : UInt8 × UInt8 × UInt8) : List HidIdStr → Option UInt8
  | [] => none
  | entry :: tab =>
    if entry.ascii = 0 then none else if entry.id = id then some entry.ascii else lookup id tab

/-- What a report is translated to; 13 is the return key. -/
def asciiOf (k : KeyWord) : Option UInt8 := lookup (pcmp k) hidIdTab

/-! ### Keys -/

/-- A key: an entry before the end of the table. -/
structure Key where
  entry : HidIdStr
  mem : entry ∈ hidIdTab
  ascii_ne : entry.ascii ≠ 0

/-- The two layouts of a report. -/
inductive Layout where
  | cardReader
  | scanner

/-- A report with these three bytes; the others are those of `pad`. -/
def Layout.report (pad : KeyWord) (id : UInt8 × UInt8 × UInt8) : Layout → KeyWord
  | .cardReader => ![1, id.1, id.2.1, id.2.2, pad 4, pad 5, pad 6, pad 7]
  | .scanner => ![id.1, id.2.1, id.2.2, pad 3, pad 4, pad 5, pad 6, pad 7]

/-- An entry is found under its own bytes if no other has them. -/
theorem lookup_of_mem {entry : HidIdStr} : ∀ {tab : List HidIdStr}, (tab.map HidIdStr.id).Nodup →
    (tab.Pairwise fun a b => a.ascii = 0 → b.ascii = 0) → entry ∈ tab → entry.ascii ≠ 0 →
    lookup entry.id tab = some entry.ascii
  | [], _, _, he, _ => by cases he
  | a :: tab, hn, hz, he, h0 => by
    rw [List.map_cons, List.nodup_cons] at hn
    rw [List.pairwise_cons] at hz
    rcases List.mem_cons.mp he with rfl | he
    · rw [lookup, if_neg h0, if_pos rfl]
    · have ha : a.ascii ≠ 0 := fun ha => h0 (hz.1 entry he ha)
      have hid : a.id ≠ entry.id := fun hid => hn.1 (hid ▸ List.mem_map_of_mem he)
      rw [lookup, if_neg ha, if_neg hid, lookup_of_mem hn.2 hz.2 he h0]

theorem lookup_id (k : Key) : lookup k.entry.id hidIdTab = some k.entry.ascii :=
  lookup_of_mem (by decide +kernel) (by decide +kernel) k.mem k.ascii_ne

theorem pcmp_cardReader (pad : KeyWord) (id : UInt8 × UInt8 × UInt8) :
    pcmp (Layout.cardReader.report pad id) = id := rfl

theorem pcmp_scanner (pad : KeyWord) {id : UInt8 × UInt8 × UInt8} (h : id.1 ≠ 1) :
    pcmp (Layout.scanner.report pad id) = id := if_neg h

/-- **A key pressed** is translated to its character, in either layout. -/
theorem asciiOf_press (l : Layout) (pad : KeyWord) (k : Key) :
    asciiOf (l.report pad k.entry.id) = some k.entry.ascii := by
  have hhead : ∀ entry ∈ hidIdTab, entry.id.1 ≠ 1 := by decide +kernel
  have hid : pcmp (l.report pad k.entry.id) = k.entry.id := by
    cases l with
    | cardReader => exact pcmp_cardReader pad _
    | scanner => exact pcmp_scanner pad (hhead _ k.mem)
  rw [asciiOf, hid, lookup_id]

/-- **A key released** is translated to nothing. -/
theorem asciiOf_release (l : Layout) (pad : KeyWord) :
    asciiOf (l.report pad (0, 0, 0)) = none := by
  have hnone : lookup (0, 0, 0) hidIdTab = none := by decide +kernel
  cases l with
  | cardReader => exact hnone
  | scanner => exact hnone

end MultiPortConvertor.Usb.HidUsageId
