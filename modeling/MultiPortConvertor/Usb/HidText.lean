import MultiPortConvertor.Usb.HidData

/-! # The text typed

What has been handed on and what is still in `hid_key_buf` make up the characters typed so far, as
long as no more than 127 are pending (`hid_text`). -/

namespace MultiPortConvertor.Usb.HidText

open MultiPortConvertor.Lib.Bytes MultiPortConvertor.Lib.Histories
open MultiPortConvertor.Uart.Dispose MultiPortConvertor.Usb.HidUsageId
open MultiPortConvertor.Usb.HidData

/-- The characters of an `NTF_HID_DATA` notification, behind the type of the device. -/
def ntfChars (info : UartSendInfo) : List UInt8 := slice info.data 1 (info.len - 1)

/-- The characters of all notifications, one after another. -/
def texts (out : List Effect) : List UInt8 := out.flatMap fun
  | .keyBuf _ => []
  | .dataNtf _ info => ntfChars info

/-- There are never more than 127 characters between two ends. -/
def Within (es : List Turn) : Prop := ∀ before, before <+: es → (pending before).length ≤ 127

theorem texts_append (out out' : List Effect) : texts (out ++ out') = texts out ++ texts out' :=
  List.flatMap_append

theorem ntfChars_hidDataNtf (data : Memory) (length : ℕ) (devType : UInt8) :
    ntfChars (hidDataNtf data length devType) = slice data 0 length := by
  refine List.map_congr_left fun i hi => ?_
  have hlt : i < length := List.mem_range.mp hi
  show copy (filled devType) 1 data length (1 + i) = data (0 + i)
  rw [copy_apply, if_pos (by omega), Nat.add_sub_cancel_left, Nat.zero_add]

theorem devType_hidDataNtf (data : Memory) (length : ℕ) (devType : UInt8) :
    (hidDataNtf data length devType).data 0 = devType := by
  show copy (filled devType) 1 data length 0 = devType
  rw [copy_apply, if_neg (by omega)]
  rfl

section

variable {wild : KeyBuf → KeyBuf} {s : KeyBuf} {es : List Turn}

/-- A text handed on is what the buffer holds. -/
theorem texts_flush (h : s.hidKeyLength < 128) (hidDevType : UInt8) :
    texts (flush wild hidDevType s).2 = slice s.hidKeyBuf 0 s.hidKeyLength := by
  unfold flush
  rw [put_of_lt h]
  show [] ++ (ntfChars _ ++ []) = _
  rw [List.nil_append, List.append_nil, ntfChars_hidDataNtf]
  exact slice_store_of_ge 0 (Nat.zero_add _).le

/-- **A turn loses nothing**: what it hands on and what is pending after it are what was pending
before and the character it adds. -/
theorem texts_turn (h : Holds es s) (hlt : (pending es).length < 128) (e : Turn) :
    texts (turn wild s e).2 ++ pending (es ++ [e]) = pending es ++ e.char.toList := by
  have hlen := h.length
  rw [pending_concat]
  rcases turn_cases wild s e with ⟨c, hc, ht⟩ | ⟨hc, he, ht, -⟩ | ⟨hc, ht, h0⟩
  · rw [ht, not_ends_of_char hc]
    rfl
  · rw [ht, he, hc, texts_flush (by omega)]
    show _ ++ [] = pending es ++ []
    rw [h]
  · rw [ht, hc]
    split_ifs with he
    · have hnil : pending es = [] := List.length_eq_zero_iff.mp (by rw [← hlen, h0 he])
      rw [hnil]
      rfl
    · rfl

theorem texts_pending (h : Within es) :
    texts (hidDataTsk wild .start es).2 ++ pending es = chars es := by
  induction es using List.reverseRecOn with
  | nil => rfl
  | append_singleton es e ih =>
    obtain ⟨hes, -⟩ := forall_prefix_concat.mp h
    have hle := hes es (List.prefix_refl _)
    rw [hidDataTsk_concat, texts_append, List.append_assoc, texts_turn (holds_turns hes) (by omega),
      ← List.append_assoc, ih hes, chars_concat]

end

/-! ### Texts -/

/-- A key pressed and released, in a layout; what a report has besides the key is open. -/
structure Stroke where
  layout : Layout
  key : Key
  press : KeyWord
  release : KeyWord

def Stroke.ascii (x : Stroke) : UInt8 := x.key.entry.ascii

/-- The reports of a stroke. -/
def Stroke.reports (x : Stroke) : List KeyWord :=
  [x.layout.report x.press x.key.entry.id, x.layout.report x.release (0, 0, 0)]

/-- A text: keys other than return, and the return key. -/
structure Typed where
  strokes : List Stroke
  plain : ∀ x ∈ strokes, x.ascii ≠ 13
  last : Stroke
  isReturn : last.ascii = 13

namespace Typed

variable (t : Typed)

def text : List UInt8 := t.strokes.map Stroke.ascii

def reports : List KeyWord := t.strokes.flatMap Stroke.reports ++ t.last.reports

end Typed

/-- The reports among the turns. -/
def reports (es : List Turn) : List KeyWord := es.filterMap fun e =>
  match e.input with
  | .report k => some k
  | .silence _ => none

/-- The character of a report. -/
def charOf (k : KeyWord) : Option UInt8 := (asciiOf k).filter (· ≠ 13)

theorem chars_eq (es : List Turn) : chars es = (reports es).filterMap charOf := by
  unfold chars reports
  rw [List.filterMap_filterMap]
  refine List.filterMap_congr fun e _ => ?_
  obtain ⟨hidDevType, k | timer⟩ := e
  · rfl
  · rfl

theorem charOf_release (l : Layout) (pad : KeyWord) : charOf (l.report pad (0, 0, 0)) = none := by
  rw [charOf, asciiOf_release]
  rfl

theorem charOf_press (l : Layout) (pad : KeyWord) (k : Key) :
    charOf (l.report pad k.entry.id) = if k.entry.ascii = 13 then none else some k.entry.ascii := by
  rw [charOf, asciiOf_press]
  split_ifs with h
  · simp [h]
  · simp [h]

theorem filterMap_strokes {xs : List Stroke} (h : ∀ x ∈ xs, x.ascii ≠ 13) :
    (xs.flatMap Stroke.reports).filterMap charOf = xs.map Stroke.ascii := by
  induction xs with
  | nil => rfl
  | cons x xs ih =>
    have hx : x.key.entry.ascii ≠ 13 := h x (by simp)
    rw [List.flatMap_cons, List.filterMap_append, ih fun y hy => h y (List.mem_cons_of_mem _ hy)]
    simp [Stroke.reports, charOf_press, charOf_release, hx, Stroke.ascii]

theorem filterMap_reports (t : Typed) : t.reports.filterMap charOf = t.text := by
  have hlast : t.last.key.entry.ascii = 13 := t.isReturn
  rw [Typed.reports, List.filterMap_append, filterMap_strokes t.plain]
  simp [Stroke.reports, charOf_press, charOf_release, hlast, Typed.text]

/-- Nothing is pending after an end and turns without a character. -/
theorem pending_quiet {es es' : List Turn} (h : pending es = []) (h' : chars es' = []) :
    pending (es ++ es') = [] := by
  induction es' using List.reverseRecOn with
  | nil => rw [List.append_nil, h]
  | append_singleton es' e ih =>
    rw [chars_concat, List.append_eq_nil_iff] at h'
    rw [← List.append_assoc, pending_concat, ih h'.1, h'.2]
    simp

/-- **After the return key** nothing is pending. -/
theorem pending_typed {t : Typed} {es : List Turn} (h : reports es = t.reports) :
    pending es = [] := by
  obtain ⟨es₁, es₂, rfl, -, h₂⟩ := List.filterMap_eq_append_iff.mp h
  obtain ⟨es₃, e, es₄, rfl, -, he, h₄⟩ := List.filterMap_eq_cons_iff.mp h₂
  have hends : e.ends = true := by
    obtain ⟨hidDevType, k | timer⟩ := e
    · obtain rfl := Option.some.inj he
      have hlast : t.last.key.entry.ascii = 13 := t.isReturn
      simp only [Turn.ends, asciiOf_press, hlast, decide_true]
    · cases he
  have hquiet : chars es₄ = [] := by
    rw [chars_eq]
    show (List.filterMap _ es₄).filterMap charOf = []
    rw [h₄, List.filterMap_cons, charOf_release]
    rfl
  have hnil : pending (es₁ ++ es₃ ++ [e]) = [] := by rw [pending_concat, if_pos hends]
  have hpart := pending_quiet hnil hquiet
  rw [List.append_assoc, List.append_assoc] at hpart
  exact hpart

/-- **Nothing is lost, doubled or reordered.** What has been handed on, followed by what
`hid_key_buf` holds, is what has been typed, whatever `hid_dev_type` is in between; so a text that
ends with the return key is handed on as it is, wherever silences fall. -/
theorem hid_text (wild : KeyBuf → KeyBuf) (es : List Turn) (h : Within es) :
    texts (hidDataTsk wild .start es).2 ++ slice (hidDataTsk wild .start es).1.hidKeyBuf 0
        (hidDataTsk wild .start es).1.hidKeyLength = chars es ∧
      ∀ t : Typed, reports es = t.reports → texts (hidDataTsk wild .start es).2 = t.text := by
  have hpending : texts (hidDataTsk wild .start es).2 ++ pending es = chars es := texts_pending h
  constructor
  · have hholds : Holds es (hidDataTsk wild .start es).1 := holds_turns h
    rw [hholds, hpending]
  · intro t ht
    rw [pending_typed ht, List.append_nil, chars_eq, ht, filterMap_reports] at hpending
    exact hpending

/-- Fewer turns than the buffer has room for. -/
theorem within_of_length {es : List Turn} (h : es.length ≤ 127) : Within es := by
  intro before hb
  have hpending := length_pending_le before
  have hbefore := hb.length_le
  omega

/-- An upper-case letter on a scanner, a digit on a card reader, and the return key. -/
def typedSample : Typed where
  strokes := [⟨.scanner, ⟨⟨(2, 0, 4), 65⟩, by decide, by decide⟩, fun _ => 0, fun _ => 0⟩,
    ⟨.cardReader, ⟨⟨(0, 0, 30), 49⟩, by decide +kernel, by decide⟩, fun _ => 0, fun _ => 0⟩]
  plain := by decide
  last := ⟨.scanner, ⟨⟨(0, 0, 40), 13⟩, by decide +kernel, by decide⟩, fun _ => 0, fun _ => 0⟩
  isReturn := rfl

/-- The theorem applied to it, with a silence behind the first report. -/
theorem hid_text_sample : texts (hidDataTsk id .start
    (⟨1, .report ![2, 0, 4, 0, 0, 0, 0, 0]⟩ :: ⟨1, .silence 12⟩ ::
      (typedSample.reports.drop 1).map fun k => ⟨1, .report k⟩)).2 = [65, 49] :=
  (hid_text id _ (within_of_length (by decide))).2 typedSample rfl

end MultiPortConvertor.Usb.HidText
