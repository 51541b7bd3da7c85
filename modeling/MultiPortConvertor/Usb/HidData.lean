import MultiPortConvertor.Lib.Histories
import MultiPortConvertor.Uart.Dispose
import MultiPortConvertor.Usb.HidUsageId

/-! # `hid_data_tsk`

The task that gathers the characters of the reports in `hid_key_buf` and hands them on, with the
return key or after a silence. What a write behind the end of `hid_key_buf` leaves behind is the
parameter `wild`. The characters since the last report or silence that ends a text are `pending`; as
long as they fit, they are what the buffer holds (`holds_turns`). -/

namespace MultiPortConvertor.Usb.HidData

open MultiPortConvertor.Lib.Bytes MultiPortConvertor.Lib.Histories
open MultiPortConvertor.Uart.Dispose MultiPortConvertor.Usb.HidUsageId

/-- `hid_key_buf` and `hid_key_length`. -/
structure KeyBuf where
  hidKeyBuf : Memory
  hidKeyLength : ℕ

/-- At the start of the task. -/
def KeyBuf.start : KeyBuf := ⟨filled 0, 0⟩

/-- `HID_TIME_OUT`. -/
def hidTimeOut : UInt32 := 10

/-- What the task does, for the record: a write to `hid_key_buf`, or a call of `hid_data_ntf` that
copies `length` characters. -/
inductive Effect where
  | keyBuf (index : ℕ)
  | dataNtf (length : ℕ) (info : UartSendInfo)

/-- What `mailbox_timedpend` gives: a report, or nothing, with `timer` as it is then. -/
inductive Input where
  | report (k : KeyWord)
  | silence (timer : UInt32)

/-- A turn of the loop, with the value of `hid_dev_type` in it. -/
structure Turn where
  hidDevType : UInt8
  input : Input

section

variable (wild : KeyBuf → KeyBuf)

/-- `hid_key_buf[hid_key_length] = b`. -/
def KeyBuf.put (s : KeyBuf) (b : UInt8) : KeyBuf :=
  if s.hidKeyLength < 128 then { s with hidKeyBuf := store s.hidKeyBuf s.hidKeyLength b }
    else wild s

/-- The statements that both ends of a text share. -/
def flush (hidDevType : UInt8) (s : KeyBuf) : KeyBuf × List Effect :=
  let t := s.put wild 0
  (⟨t.hidKeyBuf, 0⟩, [.keyBuf s.hidKeyLength,
    .dataNtf t.hidKeyLength (hidDataNtf t.hidKeyBuf t.hidKeyLength hidDevType)])

/-- One turn of the loop. -/
def turn (s : KeyBuf) (e : Turn) : KeyBuf × List Effect :=
  match e.input with
  | .report k =>
    match asciiOf k with
    | none => (s, [])
    | some ascii =>
      if ascii ≠ 13 then
        let t := s.put wild ascii
        (⟨t.hidKeyBuf, t.hidKeyLength + 1⟩, [.keyBuf s.hidKeyLength])
      else flush wild e.hidDevType s
  | .silence timer =>
    if timer ≥ hidTimeOut then
      if s.hidKeyLength ≠ 0 then flush wild e.hidDevType s else (s, [])
    else (s, [])

/-- `hid_data_tsk`. -/
def hidDataTsk (s : KeyBuf) : List Turn → KeyBuf × List Effect
  | [] => (s, [])
  | e :: es =>
    let (s, out) := turn wild s e
    let (s, outs) := hidDataTsk s es
    (s, out ++ outs)

theorem hidDataTsk_concat : ∀ (s : KeyBuf) (es : List Turn) (e : Turn),
    hidDataTsk wild s (es ++ [e]) = ((turn wild (hidDataTsk wild s es).1 e).1,
      (hidDataTsk wild s es).2 ++ (turn wild (hidDataTsk wild s es).1 e).2)
  | s, [], e => by simp [hidDataTsk]
  | s, a :: es, e => by
    rw [List.cons_append, hidDataTsk]
    dsimp only
    rw [hidDataTsk_concat _ es e]
    simp [hidDataTsk]

end

/-! ### What a turn does -/

/-- The character of a report. -/
def Turn.char (e : Turn) : Option UInt8 :=
  match e.input with
  | .report k => (asciiOf k).filter (· ≠ 13)
  | .silence _ => none

/-- The return key, or a silence that is long enough. -/
def Turn.ends (e : Turn) : Bool :=
  match e.input with
  | .report k => asciiOf k = some 13
  | .silence timer => timer ≥ hidTimeOut

/-- The characters of the turns. -/
def chars (es : List Turn) : List UInt8 := es.filterMap Turn.char

/-- The characters after the last turn that ends a text. -/
def pending (es : List Turn) : List UInt8 := chars (since Turn.ends es)

theorem not_ends_of_char {e : Turn} {c : UInt8} (h : e.char = some c) : e.ends = false := by
  obtain ⟨hidDevType, k | timer⟩ := e
  · obtain ⟨-, hne⟩ := Option.filter_eq_some_iff.mp h
    have hk : asciiOf k = some c := (Option.filter_eq_some_iff.mp h).1
    simp only [Turn.ends, hk]
    simpa using hne
  · cases h

theorem chars_concat (es : List Turn) (e : Turn) :
    chars (es ++ [e]) = chars es ++ e.char.toList := by
  unfold chars
  rw [List.filterMap_append]
  cases h : e.char <;> simp [h]

theorem pending_concat (es : List Turn) (e : Turn) :
    pending (es ++ [e]) = if e.ends then [] else pending es ++ e.char.toList := by
  unfold pending
  rw [since_concat]
  split_ifs
  · rfl
  · exact chars_concat _ e

theorem length_pending_le (es : List Turn) : (pending es).length ≤ es.length := by
  have hchars : (pending es).length ≤ (since Turn.ends es).length := List.length_filterMap_le _ _
  have hsince : (since Turn.ends es).length ≤ es.length := by
    rw [since, List.length_reverse]
    exact (List.takeWhile_sublist _).length_le.trans_eq List.length_reverse
  omega

section

variable {wild : KeyBuf → KeyBuf} {s : KeyBuf} {e : Turn}

theorem put_of_lt (h : s.hidKeyLength < 128) (b : UInt8) :
    s.put wild b = ⟨store s.hidKeyBuf s.hidKeyLength b, s.hidKeyLength⟩ := if_pos h

/-- **A turn** adds a character, ends a text, or does nothing. -/
theorem turn_cases (wild : KeyBuf → KeyBuf) (s : KeyBuf) (e : Turn) :
    (∃ c, e.char = some c ∧ turn wild s e =
      (⟨(s.put wild c).hidKeyBuf, (s.put wild c).hidKeyLength + 1⟩, [.keyBuf s.hidKeyLength])) ∨
    (e.char = none ∧ e.ends = true ∧ turn wild s e = flush wild e.hidDevType s ∧
      (s.hidKeyLength = 0 → ∃ k, e.input = .report k ∧ asciiOf k = some 13)) ∨
    (e.char = none ∧ turn wild s e = (s, []) ∧ (e.ends = true → s.hidKeyLength = 0)) := by
  obtain ⟨hidDevType, k | timer⟩ := e
  · unfold turn Turn.char Turn.ends
    dsimp only
    rcases hk : asciiOf k with _ | c
    · exact .inr (.inr ⟨rfl, rfl, by simp⟩)
    · by_cases hc : c = 13
      · subst hc
        exact .inr (.inl ⟨rfl, rfl, rfl, fun _ => ⟨k, rfl, hk⟩⟩)
      · exact .inl ⟨c, by simp [hc], by simp [hc]⟩
  · unfold turn Turn.char Turn.ends
    dsimp only
    by_cases ht : timer ≥ hidTimeOut
    · by_cases h0 : s.hidKeyLength = 0
      · exact .inr (.inr ⟨rfl, by simp [h0], fun _ => h0⟩)
      · exact .inr (.inl ⟨rfl, by simpa using ht, by rw [if_pos ht, if_pos h0],
          fun h => absurd h h0⟩)
    · exact .inr (.inr ⟨rfl, if_neg ht, fun h => absurd (of_decide_eq_true h) ht⟩)

/-- The buffer holds the pending characters. -/
def Holds (es : List Turn) (s : KeyBuf) : Prop := slice s.hidKeyBuf 0 s.hidKeyLength = pending es

theorem Holds.length {es : List Turn} (h : Holds es s) : s.hidKeyLength = (pending es).length := by
  rw [← h, length_slice]

/-- **The text in the buffer** after a turn, if there is room for another character. -/
theorem turn_text {text : List UInt8} (h : slice s.hidKeyBuf 0 s.hidKeyLength = text)
    (hroom : e.char.isSome = true → text.length < 128) :
    slice (turn wild s e).1.hidKeyBuf 0 (turn wild s e).1.hidKeyLength =
      if e.ends then [] else text ++ e.char.toList := by
  have hlen : s.hidKeyLength = text.length := by rw [← h, length_slice]
  rcases turn_cases wild s e with ⟨c, hc, ht⟩ | ⟨hc, he, ht, -⟩ | ⟨hc, ht, h0⟩
  · have hlt := hroom (by rw [hc]; rfl)
    rw [ht, put_of_lt (by omega), not_ends_of_char hc, hc]
    show slice (store s.hidKeyBuf s.hidKeyLength c) 0 (s.hidKeyLength + 1) = text ++ [c]
    rw [slice_succ, slice_store_of_ge c (by omega), h, Nat.zero_add, store_self]
  · rw [ht, he]
    rfl
  · rw [ht, hc]
    split_ifs with he
    · rw [h0 he]
      rfl
    · rw [h]
      exact (List.append_nil _).symm

/-- **The buffer holds them still** after a turn. -/
theorem Holds.turn {es : List Turn} (h : Holds es s)
    (hroom : e.char.isSome = true → (pending es).length < 128) :
    Holds (es ++ [e]) (turn wild s e).1 := by
  unfold Holds
  rw [pending_concat]
  exact turn_text h hroom

theorem holds_start : Holds [] KeyBuf.start := rfl

/-- **The buffer holds the pending characters** as long as there have never been more than 127. -/
theorem holds_turns {es : List Turn}
    (h : ∀ before, before <+: es → (pending before).length ≤ 127) :
    Holds es (hidDataTsk wild .start es).1 := by
  induction es using List.reverseRecOn with
  | nil => exact holds_start
  | append_singleton es e ih =>
    obtain ⟨hes, -⟩ := forall_prefix_concat.mp h
    have hle := hes es (List.prefix_refl _)
    rw [hidDataTsk_concat]
    exact (ih hes).turn fun _ => by omega

end

end MultiPortConvertor.Usb.HidData
