import MultiPortConvertor.Usb.HidData

/-! # The room for a text

`hid_key_length` is compared with nothing. So the writes stay inside `hid_key_buf`, and the frames
inside the limit of the protocol, only if the texts are short enough (`bounded_iff`); the limit of
the protocol is the tightest of the three. -/

namespace MultiPortConvertor.Usb.HidBounds

open MultiPortConvertor.Lib.Bytes MultiPortConvertor.Lib.Histories MultiPortConvertor.Uart.Format
open MultiPortConvertor.Uart.Dispose MultiPortConvertor.Usb.HidUsageId
open MultiPortConvertor.Usb.HidData

/-- A write inside `hid_key_buf`, or a copy that fits `info.data` and gives frames that the protocol
allows. -/
def Bounded : Effect → Prop
  | .keyBuf index => index < 128
  | .dataNtf length info =>
    length ≤ 127 ∧ ∀ sn respdata, (disposeFrame info sn respdata).len ≤ 128

/-- **The condition**: at most 123 characters are pending when a text ends, and fewer than 128 when
another one comes. -/
def Short (es : List Turn) : Prop := ∀ before e, before ++ [e] <+: es →
  (e.ends = true → (pending before).length ≤ 123) ∧
    (e.char.isSome = true → (pending before).length < 128)

/-- The condition of the last turn. -/
theorem short_concat {es : List Turn} {e : Turn} : Short (es ++ [e]) ↔ Short es ∧
    (e.ends = true → (pending es).length ≤ 123) ∧
    (e.char.isSome = true → (pending es).length < 128) := by
  constructor
  · intro h
    exact ⟨fun before a hb => h before a (hb.trans (List.prefix_append _ _)),
      h es e (List.prefix_refl _)⟩
  · rintro ⟨hes, he⟩ before a hb
    rcases List.prefix_concat_iff.mp hb with hb | hb
    · obtain ⟨rfl, ha⟩ := List.append_inj' hb rfl
      obtain rfl := List.singleton_inj.mp ha
      exact he
    · exact hes before a hb

section

variable {wild : KeyBuf → KeyBuf} {s : KeyBuf}

theorem bounded_flush (hidDevType : UInt8) :
    (∀ f ∈ (flush wild hidDevType s).2, Bounded f) ↔ s.hidKeyLength ≤ 123 := by
  unfold flush
  simp only [List.forall_mem_cons, List.not_mem_nil, false_implies, implies_true, and_true]
  by_cases hlt : s.hidKeyLength < 128
  · rw [put_of_lt hlt]
    have hframe : ∀ sn respdata, (disposeFrame (hidDataNtf (store s.hidKeyBuf s.hidKeyLength 0)
        s.hidKeyLength hidDevType) sn respdata).len = s.hidKeyLength + 5 := fun sn respdata =>
      disposeFrame_len (by show s.hidKeyLength + 1 + 4 < 65536; omega)
    unfold Bounded
    dsimp only
    simp only [hframe]
    constructor
    · rintro ⟨-, -, h⟩
      have h128 := h 0 (filled 0)
      omega
    · intro h
      exact ⟨hlt, by omega, fun _ _ => by omega⟩
  · constructor
    · rintro ⟨h, -⟩
      exact absurd h hlt
    · intro h
      omega

/-- **A turn stays within the limits** exactly if the texts stay short. -/
theorem bounded_turn {es : List Turn} (h : Holds es s) (e : Turn) :
    (∀ f ∈ (turn wild s e).2, Bounded f) ↔ (e.ends = true → (pending es).length ≤ 123) ∧
      (e.char.isSome = true → (pending es).length < 128) := by
  have hlen := h.length
  rcases turn_cases wild s e with ⟨c, hc, ht⟩ | ⟨hc, he, ht, -⟩ | ⟨hc, ht, h0⟩
  · rw [ht, hc, not_ends_of_char hc]
    simp [Bounded, hlen]
  · rw [ht, hc, he, bounded_flush, hlen]
    simp
  · rw [ht, hc]
    constructor
    · intro _
      exact ⟨fun he => by rw [← hlen, h0 he]; omega, fun hs => by cases hs⟩
    · intro _ f hf
      cases hf

end

/-- What the buffer holds as long as the texts are short. -/
theorem holds_of_short {wild : KeyBuf → KeyBuf} {es : List Turn} (h : Short es) :
    Holds es (hidDataTsk wild .start es).1 := by
  induction es using List.reverseRecOn with
  | nil => exact holds_start
  | append_singleton es e ih =>
    obtain ⟨hes, -, hchar⟩ := short_concat.mp h
    rw [hidDataTsk_concat]
    exact (ih hes).turn hchar

/-- **When the limits are kept**: exactly if no text has more than 123 characters when it ends, and
none more than 128 at all. -/
theorem bounded_iff (wild : KeyBuf → KeyBuf) (es : List Turn) :
    (∀ f ∈ (hidDataTsk wild .start es).2, Bounded f) ↔ Short es := by
  induction es using List.reverseRecOn with
  | nil => exact iff_of_true (by simp [hidDataTsk]) (by rintro before e hb; simp at hb)
  | append_singleton es e ih =>
    rw [hidDataTsk_concat, short_concat, List.forall_mem_append, ih]
    exact and_congr_right fun hes => bounded_turn (holds_of_short hes) e

/-- A text of 124 equals signs. -/
def longText : List Turn := List.replicate 124 ⟨1, .report ![0, 0, 46, 0, 0, 0, 0, 0]⟩

def returnTurn : Turn := ⟨1, .report ![0, 0, 40, 0, 0, 0, 0, 0]⟩

/-- Its frame is longer than the protocol allows. -/
theorem longText_unbounded :
    ¬ ∀ f ∈ (hidDataTsk id .start (longText ++ [returnTurn])).2, Bounded f := by
  have hholds : Holds longText (hidDataTsk id .start longText).1 := by
    refine holds_turns fun before hb => ?_
    have hpending := length_pending_le before
    have hbefore := hb.length_le
    rw [longText, List.length_replicate] at hbefore
    omega
  rw [hidDataTsk_concat, List.forall_mem_append, bounded_turn hholds]
  rintro ⟨-, hends, -⟩
  exact absurd (hends (by decide +kernel)) (by decide +kernel)

end MultiPortConvertor.Usb.HidBounds
