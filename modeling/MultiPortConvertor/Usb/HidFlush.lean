import MultiPortConvertor.Usb.HidText

/-! # The two ends of a text

`hid_data_tsk` hands a text on in two places. After a silence it asks first whether there is one;
with the return key it does not, so a return key that comes after the silence hands on a text
without characters (`obeys_iff`). -/

namespace MultiPortConvertor.Usb.HidFlush

open MultiPortConvertor.Lib.Bytes MultiPortConvertor.Lib.Histories
open MultiPortConvertor.Uart.Dispose MultiPortConvertor.Usb.HidUsageId
open MultiPortConvertor.Usb.HidData
open MultiPortConvertor.Usb.HidText

/-- The notifications among the effects. -/
def ntfs (out : List Effect) : List UartSendInfo := out.filterMap fun
  | .keyBuf _ => none
  | .dataNtf _ info => some info

/-- The data of a notification. -/
def payload (info : UartSendInfo) : List UInt8 := slice info.data 0 info.len

/-- The characters in `hid_key_buf`. -/
def bufText (s : KeyBuf) : List UInt8 := slice s.hidKeyBuf 0 s.hidKeyLength

/-- A turn that hands a text on: a notification only if there is one, its data are the type of the
device and the characters, and nothing is left. -/
structure Flushes (hidDevType : UInt8) (s t : KeyBuf) (out : List Effect) : Prop where
  queued : (ntfs out).map payload = if bufText s = [] then [] else [hidDevType :: bufText s]
  cmdId : ∀ info ∈ ntfs out, info.cmdId = 0x22
  emptied : bufText t = []

/-- The return key. -/
def isReturn (e : Turn) : Bool :=
  match e.input with
  | .report k => asciiOf k = some 13
  | .silence _ => false

section

variable (wild : KeyBuf → KeyBuf)

/-- What a turn has to do, whichever way it ends a text. -/
def Obeys (s : KeyBuf) (e : Turn) : Prop :=
  if e.ends then Flushes e.hidDevType s (turn wild s e).1 (turn wild s e).2
  else ntfs (turn wild s e).2 = []

end

section

variable {wild : KeyBuf → KeyBuf} {s : KeyBuf} {e : Turn} {es : List Turn}

theorem bufText_eq_nil : bufText s = [] ↔ s.hidKeyLength = 0 := by
  rw [← List.length_eq_zero_iff, bufText, length_slice]

/-- The data handed on. -/
theorem payload_hidDataNtf (data : Memory) (length : ℕ) (devType : UInt8) :
    payload (hidDataNtf data length devType) = devType :: slice data 0 length := by
  have hchars : ntfChars (hidDataNtf data length devType) = slice data 0 length :=
    ntfChars_hidDataNtf data length devType
  show slice _ 0 (length + 1) = _
  rw [slice_succ_left, devType_hidDataNtf]
  exact congrArg (devType :: ·) hchars

theorem ntfs_flush (wild : KeyBuf → KeyBuf) (h : s.hidKeyLength < 128) (hidDevType : UInt8) :
    ∃ info, ntfs (flush wild hidDevType s).2 = [info] ∧ info.cmdId = 0x22 ∧
      payload info = hidDevType :: bufText s := by
  refine ⟨hidDataNtf (store s.hidKeyBuf s.hidKeyLength 0) s.hidKeyLength hidDevType, ?_, rfl, ?_⟩
  · unfold flush
    rw [put_of_lt h]
    rfl
  · rw [payload_hidDataNtf, slice_store_of_ge 0 (Nat.zero_add _).le]
    rfl

/-- **A text handed on** obeys exactly if there is one. -/
theorem flushes_flush (h : s.hidKeyLength < 128) (hidDevType : UInt8) :
    Flushes hidDevType s (flush wild hidDevType s).1 (flush wild hidDevType s).2 ↔
    bufText s ≠ [] := by
  obtain ⟨info, hout, hcmd, hdata⟩ := ntfs_flush wild h hidDevType
  constructor
  · intro hf hnil
    have hqueued := hf.queued
    rw [hout, if_pos hnil] at hqueued
    cases hqueued
  · intro hne
    refine ⟨?_, ?_, rfl⟩
    · rw [hout, if_neg hne, List.map_singleton, hdata]
    · rw [hout]
      simp [hcmd]

/-- The return key ends a text; so does nothing else but a silence. -/
theorem turn_return (wild : KeyBuf → KeyBuf) (s : KeyBuf) (h : isReturn e = true) :
    e.ends = true ∧ turn wild s e = flush wild e.hidDevType s := by
  obtain ⟨hidDevType, k | timer⟩ := e
  · have hk : asciiOf k = some 13 := of_decide_eq_true h
    refine ⟨h, ?_⟩
    unfold turn
    simp [hk]
  · cases h

/-- **A turn obeys** unless it is a return key behind no character. -/
theorem obeys_turn (h : s.hidKeyLength < 128) :
    Obeys wild s e ↔ (isReturn e = true → bufText s ≠ []) := by
  by_cases hr : isReturn e = true
  · obtain ⟨he, ht⟩ := turn_return wild s hr
    rw [Obeys, if_pos he, ht, flushes_flush h]
    exact ⟨fun hne _ => hne, fun hne => hne hr⟩
  · refine iff_of_true ?_ fun hr' => absurd hr' hr
    unfold Obeys
    rcases turn_cases wild s e with ⟨c, hc, ht⟩ | ⟨-, he, ht, h0⟩ | ⟨-, ht, h0⟩
    · rw [not_ends_of_char hc, ht]
      rfl
    · rw [if_pos he, ht, flushes_flush h, Ne, bufText_eq_nil]
      intro hzero
      obtain ⟨k, hk, hascii⟩ := h0 hzero
      exact hr (by rw [isReturn, hk]; exact decide_eq_true hascii)
    · rw [ht]
      split_ifs with he
      · have hnil : bufText s = [] := bufText_eq_nil.mpr (h0 he)
        exact ⟨by rw [if_pos hnil]; rfl, fun _ hmem => (by cases hmem), hnil⟩
      · rfl

/-- **When the two ends agree**: every turn of a run obeys exactly if no return key comes behind no
character; a silence always does. -/
theorem obeys_iff (wild : KeyBuf → KeyBuf) (es : List Turn) (h : Within es) :
    ((∀ before e, before ++ [e] <+: es → Obeys wild (hidDataTsk wild .start before).1 e) ↔
      ∀ before e, before ++ [e] <+: es → isReturn e = true → pending before ≠ []) ∧
    ∀ before e, before ++ [e] <+: es → isReturn e = false →
      Obeys wild (hidDataTsk wild .start before).1 e := by
  have hturn : ∀ before e, before ++ [e] <+: es →
      (Obeys wild (hidDataTsk wild .start before).1 e ↔
        (isReturn e = true → pending before ≠ [])) := by
    intro before e hb
    have hbefore : before <+: es := (List.prefix_append _ _).trans hb
    have hholds : Holds before (hidDataTsk wild .start before).1 :=
      holds_turns fun before' hb' => h before' (hb'.trans hbefore)
    have hle := h before hbefore
    rw [obeys_turn (by rw [hholds.length]; omega)]
    show (_ → slice _ 0 _ ≠ []) ↔ _
    rw [hholds]
  constructor
  · exact forall_congr' fun before => forall_congr' fun e => forall_congr' fun hb =>
      hturn before e hb
  · intro before e hb hr
    exact (hturn before e hb).mpr fun hr' => by rw [hr] at hr'; cases hr'

end

/-- A digit on a scanner, a silence that hands it on, and the return key. -/
def lateReturn : List Turn :=
  [⟨1, .report ![0, 0, 30, 0, 0, 0, 0, 0]⟩, ⟨1, .silence 10⟩,
    ⟨1, .report ![0, 0, 40, 0, 0, 0, 0, 0]⟩]

theorem obeys_iff_lateReturn :
    (∀ before e, before ++ [e] <+: lateReturn.take 2 → Obeys id (hidDataTsk id .start before).1 e) ↔
      ∀ before e, before ++ [e] <+: lateReturn.take 2 → isReturn e = true → pending before ≠ [] :=
  (obeys_iff id _ (within_of_length (by decide))).1

/-- The return key hands on a second notification, without characters. -/
theorem lateReturn_flush : Within lateReturn ∧
    (ntfs (hidDataTsk id .start lateReturn).2).map payload = [[1, 49], [1]] ∧
    ¬ ∀ before e, before ++ [e] <+: lateReturn → Obeys id (hidDataTsk id .start before).1 e := by
  refine ⟨within_of_length (by decide), by decide +kernel, fun h => ?_⟩
  have hobeys := h (lateReturn.take 2) ⟨1, .report ![0, 0, 40, 0, 0, 0, 0, 0]⟩ (List.prefix_refl _)
  rw [obeys_turn (by decide +kernel)] at hobeys
  exact hobeys (by decide +kernel) (by decide +kernel)

end MultiPortConvertor.Usb.HidFlush
