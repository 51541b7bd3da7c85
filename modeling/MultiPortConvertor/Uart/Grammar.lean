import MultiPortConvertor.Uart.GetData
import Mathlib.Data.List.GetD

/-! # The framer and the grammar of the byte stream

`frames` is the grammar of the received stream, read off the bytes alone. The state of the framer is
determined by the bytes of the unfinished frame (`Holds`); a byte takes the unfinished frame `p` to
`advance p ch`, in the framer (`onByte_advance`) as in the grammar (`frames_advance`). So the frames
delivered are those of the grammar, wherever reads fail (`uartRecvTsk_frames`). -/

namespace MultiPortConvertor.Uart.Grammar

open MultiPortConvertor.Lib.Bytes MultiPortConvertor.Uart.Format MultiPortConvertor.Uart.GetData

/-- **The grammar**: bytes up to the next `0xC0` are skipped; a big-endian length above 128 discards
the three bytes read; otherwise the next `length + 1` bytes complete the frame. -/
def frames : List UInt8 → List (List UInt8)
  | [] => []
  | b :: bs =>
    if b ≠ 0xC0 then frames bs
    else match bs with
      | m :: l :: rest =>
        if be16 m l > 128 then frames rest
        else if rest.length < be16 m l + 1 then []
        else (b :: m :: l :: rest.take (be16 m l + 1)) :: frames (rest.drop (be16 m l + 1))
      | _ => []
termination_by bs => bs.length
decreasing_by all_goals simp only [List.length_cons, List.length_drop]; omega

/-- The bytes the reads gave. -/
def bytesOf (es : List (Option UInt8)) : List UInt8 := es.filterMap id

@[simp] theorem bytesOf_nil : bytesOf [] = [] := rfl
@[simp] theorem bytesOf_none (es : List (Option UInt8)) : bytesOf (none :: es) = bytesOf es := rfl
@[simp] theorem bytesOf_some (ch : UInt8) (es : List (Option UInt8)) :
    bytesOf (some ch :: es) = ch :: bytesOf es := rfl

/-! ### Unfinished frames -/

/-- The length in a frame's bytes. -/
def lenOf (p : List UInt8) : ℕ := be16 (p.getD 1 0) (p.getD 2 0)

/-- The bytes of an unfinished frame. -/
inductive Unfinished : List UInt8 → Prop
  | idle : Unfinished []
  | head : Unfinished [0xC0]
  | msb (m : UInt8) : Unfinished [0xC0, m]
  | body {m l : UInt8} {d : List UInt8} (hL : be16 m l ≤ 128) (hd : d.length ≤ be16 m l) :
      Unfinished (0xC0 :: m :: l :: d)

theorem Unfinished.length_lt {p : List UInt8} (hp : Unfinished p) : p.length < 132 := by
  cases hp with
  | idle => simp
  | head => simp
  | msb m => simp
  | body hL hd => simp; omega

/-- The unfinished frame after one more byte, and what the framer returns then, if it does. -/
def advance (p : List UInt8) (ch : UInt8) : List UInt8 × Option Bool :=
  if p = [] ∧ ch ≠ 0xC0 then ([], none)
  else if p.length = 2 ∧ lenOf (p ++ [ch]) > 128 then ([], some false)
  else if p.length ≥ 3 ∧ p.length = lenOf p + 3 then ([], some true)
  else (p ++ [ch], none)

theorem unfinished_advance {p : List UInt8} (hp : Unfinished p) (ch : UInt8) :
    Unfinished (advance p ch).1 := by
  cases hp with
  | idle =>
    by_cases h : ch = 0xC0
    · subst h; exact .head
    · simp [advance, h, Unfinished.idle]
  | head => exact .msb ch
  | msb m =>
    by_cases h : be16 m ch > 128
    · simp [advance, lenOf, h, Unfinished.idle]
    · have h' : ¬ 128 < be16 m ch := h
      simp only [advance, lenOf]
      simpa [h'] using Unfinished.body (d := []) (by omega) (by simp)
  | @body m l d hL hd =>
    by_cases h : d.length = be16 m l
    · simp [advance, lenOf, h, Unfinished.idle]
    · simp only [advance, lenOf]
      simpa [h] using Unfinished.body (m := m) (l := l) (d := d ++ [ch]) hL (by simp; omega)

/-! ### The grammar, byte by byte -/

theorem frames_nil : frames [] = [] := by rw [frames]

theorem frames_skip {b : UInt8} (hb : b ≠ 0xC0) (bs : List UInt8) :
    frames (b :: bs) = frames bs := by
  rw [frames.eq_def]; simp [hb]

theorem frames_head (m l : UInt8) (rest : List UInt8) :
    frames (0xC0 :: m :: l :: rest) =
      if be16 m l > 128 then frames rest
      else if rest.length < be16 m l + 1 then []
      else (0xC0 :: m :: l :: rest.take (be16 m l + 1)) :: frames (rest.drop (be16 m l + 1)) := by
  rw [frames.eq_def]; simp

/-- An unfinished frame is no frame. -/
theorem frames_unfinished {p : List UInt8} (hp : Unfinished p) : frames p = [] := by
  cases hp with
  | idle => exact frames_nil
  | head => rw [frames.eq_def]; simp
  | msb m => rw [frames.eq_def]; simp
  | @body m l d hL hd =>
    rw [frames_head, if_neg (by omega), if_pos (by omega)]

/-- **The grammar advances as the unfinished frame does.** -/
theorem frames_advance {p : List UInt8} (hp : Unfinished p) (ch : UInt8) (bs : List UInt8) :
    frames (p ++ ch :: bs) =
      (if (advance p ch).2 = some true then [p ++ [ch]] else []) ++
        frames ((advance p ch).1 ++ bs) := by
  cases hp with
  | idle =>
    by_cases h : ch = 0xC0
    · subst h; rfl
    · rw [List.nil_append, frames_skip h]; simp [advance, h]
  | head => simp [advance]
  | msb m =>
    change frames (0xC0 :: m :: ch :: bs) = _
    by_cases h : be16 m ch > 128
    · rw [frames_head, if_pos h]; simp [advance, lenOf, h]
    · simp [advance, lenOf, h]
  | @body m l d hL hd =>
    by_cases h : d.length = be16 m l
    · have ht : (d ++ ch :: bs).take (be16 m l + 1) = d ++ [ch] := by
        rw [← h, List.take_append, List.take_of_length_le (by omega)]; simp
      have hdr : (d ++ ch :: bs).drop (be16 m l + 1) = bs := by
        rw [← h, List.drop_append, List.drop_of_length_le (by omega)]; simp
      rw [List.cons_append, List.cons_append, List.cons_append, frames_head, if_neg (by omega),
        if_neg (by simp; omega), ht, hdr]
      simp [advance, lenOf, h]
    · simp [advance, lenOf, h]

/-! ### The framer, byte by byte -/

/-- The framer has read the bytes `p` of an unfinished frame. -/
structure Holds (f : Framer) (p : List UInt8) : Prop where
  unfinished : Unfinished p
  start : f.proctolStart = !p.isEmpty
  recvLen : f.recvLen = p.length
  buf : slice f.uartRecvBuf 0 p.length = p
  dataLen : 3 ≤ p.length → f.dataLen + p.length = lenOf p + 4

theorem holds_nil {f : Framer} : Holds f [] ↔ f.Idle :=
  ⟨fun h => ⟨by simpa using h.start, h.recvLen⟩, fun h => ⟨.idle, by simp [h.1], h.2, rfl, by simp⟩⟩

/-- The length in the buffer is the length in the bytes read. -/
theorem be16_of_slice {m : Memory} {p : List UInt8} (h : slice m 0 p.length = p)
    (hp : 3 ≤ p.length) : be16 (m 1) (m 2) = lenOf p := by
  have hget : ∀ i, i < p.length → m i = p.getD i 0 := fun i hi => by
    rw [List.getD_eq_getElem _ _ hi, ← List.getElem_of_eq h (by simpa), getElem_slice, Nat.zero_add]
  rw [lenOf, hget 1 (by omega), hget 2 (by omega)]

/-- **The framer advances as the unfinished frame does**, and a frame it delivers is the bytes read.
-/
theorem onByte_advance {f : Framer} {p : List UInt8} (hf : Holds f p) (ch : UInt8) :
    (onByte f ch).2 = (advance p ch).2 ∧ Holds (onByte f ch).1 (advance p ch).1 ∧
      ((advance p ch).2 = some true →
        slice (onByte f ch).1.uartRecvBuf 0 (p.length + 1) = p ++ [ch]) := by
  have hu' := unfinished_advance hf.unfinished ch
  have hsl : slice (store f.uartRecvBuf p.length ch) 0 (p ++ [ch]).length = p ++ [ch] := by
    rw [List.length_append, List.length_singleton, slice_succ, slice_store_of_ge ch (by omega),
      hf.buf]
    simp
  obtain ⟨start, recvLen, dataLen, buf⟩ := f
  obtain ⟨hu, hs, hr, hb, hd⟩ := hf
  dsimp only at hs hr hb hd hsl
  subst hr hs
  cases hu with
  | idle =>
    by_cases h : ch = 0xC0
    · subst h
      exact ⟨rfl, ⟨hu', rfl, rfl, hsl, fun h3 => absurd h3 (by decide)⟩, by simp [advance]⟩
    · simp [onByte, advance, h, holds_nil, Framer.Idle]
  | head => exact ⟨by simp [onByte, advance], ⟨hu', by simp [onByte, advance],
      by simp [onByte, advance], by simpa [onByte, advance] using hsl, by simp [advance]⟩,
      by simp [advance]⟩
  | msb m =>
    have hL : lenOf ([0xC0, m] ++ [ch]) = be16 m ch := rfl
    have hlen : be16 (buf 1) ch = be16 m ch := by
      rw [← hL, ← be16_of_slice hsl (by simp)]; simp
    have hon : onByte ⟨! [0xC0, m].isEmpty, [0xC0, m].length, dataLen, buf⟩ ch =
        if be16 m ch + 1 > 129 then (⟨false, 0, 0, store buf 2 ch⟩, some false)
        else (⟨true, 3, be16 m ch + 1, store buf 2 ch⟩, none) := by
      simp [onByte, hlen, uartProcotolMaxLen]
    have hadv : advance [0xC0, m] ch =
        if be16 m ch > 128 then ([], some false) else ([0xC0, m, ch], none) := by
      simp [advance, lenOf]
    rw [hadv] at hu' ⊢
    rw [hon]
    by_cases h : be16 m ch > 128
    · rw [if_pos h, if_pos (by omega)]
      exact ⟨rfl, holds_nil.mpr ⟨rfl, rfl⟩, by simp⟩
    · rw [if_neg h] at hu'
      rw [if_neg h, if_neg (by omega)]
      exact ⟨rfl, ⟨hu', rfl, rfl, hsl, fun _ => by simp [lenOf]⟩, by simp⟩
  | @body m l d hL hd' =>
    have hL' : lenOf (0xC0 :: m :: l :: d) = be16 m l := rfl
    have hdl : dataLen = be16 m l + 1 - d.length := by
      have := hd (by simp)
      rw [hL'] at this
      simp only [List.length_cons] at this
      omega
    have hmod : (be16 m l + 1 - d.length + 4294967295) % 4294967296 = be16 m l - d.length := by
      omega
    have hmod' : (d.length + 1 + 1 + 1 + 1) % 4294967296 = d.length + 4 := by omega
    have hon : onByte ⟨!(0xC0 :: m :: l :: d).isEmpty, (0xC0 :: m :: l :: d).length, dataLen, buf⟩
        ch = if be16 m l - d.length = 0 then
          (⟨false, 0, be16 m l - d.length, store buf (d.length + 1 + 1 + 1) ch⟩, some true)
        else
          (⟨true, d.length + 4, be16 m l - d.length, store buf (d.length + 1 + 1 + 1) ch⟩,
            none) := by
      simp [onByte, hdl, hmod, hmod']
    have hadv : advance (0xC0 :: m :: l :: d) ch =
        if d.length = be16 m l then ([], some true) else (0xC0 :: m :: l :: (d ++ [ch]), none) := by
      simp [advance, hL']
    rw [hadv] at hu' ⊢
    rw [hon]
    by_cases h : d.length = be16 m l
    · rw [if_pos h, if_pos (by omega)]
      exact ⟨rfl, holds_nil.mpr ⟨rfl, rfl⟩, fun _ => by simpa using hsl⟩
    · rw [if_neg h] at hu'
      rw [if_neg h, if_neg (by omega)]
      refine ⟨rfl, ⟨hu', rfl, by simp, by simpa using hsl, fun _ => ?_⟩, by simp⟩
      have : lenOf (0xC0 :: m :: l :: (d ++ [ch])) = be16 m l := rfl
      rw [this]
      simp only [List.length_cons, List.length_append, List.length_nil]
      omega

/-- A byte that completes a frame completes the length its header says. -/
theorem lenOf_of_advance {p : List UInt8} {ch : UInt8} (hp : Unfinished p)
    (h : (advance p ch).2 = some true) :
    (p ++ [ch]).length = lenOf (p ++ [ch]) + 4 ∧ lenOf (p ++ [ch]) ≤ 128 := by
  cases hp with
  | idle => by_cases hc : ch = 0xC0 <;> simp [advance, hc] at h
  | head => simp [advance] at h
  | msb m => by_cases hc : be16 m ch > 128 <;> simp [advance, lenOf, hc] at h
  | @body m l d hL hd =>
    have hc : d.length = be16 m l := by
      by_contra hc
      simp [advance, lenOf, hc] at h
    have : lenOf (0xC0 :: m :: l :: d ++ [ch]) = be16 m l := rfl
    rw [this]
    exact ⟨by simp [hc], hL⟩

/-- The bytes of a frame delivered are the bytes read. -/
theorem bytes_of_advance {f : Framer} {p : List UInt8} {ch : UInt8} (hf : Holds f p)
    (h : (advance p ch).2 = some true) :
    UartCmdFormat.bytes (onByte f ch).1.uartRecvBuf = p ++ [ch] := by
  obtain ⟨hlen, -⟩ := lenOf_of_advance hf.unfinished h
  have hsl : slice (onByte f ch).1.uartRecvBuf 0 (p ++ [ch]).length = p ++ [ch] := by
    simpa using (onByte_advance hf ch).2.2 h
  have hl : UartCmdFormat.len (onByte f ch).1.uartRecvBuf = lenOf (p ++ [ch]) :=
    be16_of_slice hsl (by omega)
  rw [UartCmdFormat.bytes, UartCmdFormat.getresplen, hl, ← hlen]
  exact hsl

/-- **The run from a state with an unfinished frame.** -/
theorem uartRecvTsk_of_holds : ∀ (es : List (Option UInt8)) {f : Framer} {p : List UInt8},
    Holds f p → (uartRecvTsk f es).1.map UartCmdFormat.bytes = frames (p ++ bytesOf es) ∧
      ∃ q, Holds (uartRecvTsk f es).2 q
  | [], f, p, hf => by
    rw [uartRecvTsk_nil]
    exact ⟨by simp [frames_unfinished hf.unfinished], p, hf⟩
  | none :: es, f, p, hf => by
    rw [uartRecvTsk_none, bytesOf_none]
    exact uartRecvTsk_of_holds es hf
  | some ch :: es, f, p, hf => by
    obtain ⟨hr, hg, -⟩ := onByte_advance hf ch
    obtain ⟨ih, q, hq⟩ := uartRecvTsk_of_holds es hg
    rw [uartRecvTsk_cons, bytesOf_some, frames_advance hf.unfinished, hr]
    dsimp only
    by_cases hd : (advance p ch).2 = some true
    · rw [if_pos hd, if_pos hd]
      exact ⟨by rw [List.map_cons, ih, bytes_of_advance hf hd, List.singleton_append], q, hq⟩
    · rw [if_neg hd, if_neg hd]
      exact ⟨by rw [ih, List.nil_append], q, hq⟩

theorem holds_init (behind : Memory) : Holds (Framer.init behind) [] :=
  holds_nil.mpr ⟨rfl, rfl⟩

/-- **The frames delivered are the frames of the grammar**, for every stream and every placement of
failed reads. -/
theorem uartRecvTsk_frames (behind : Memory) (es : List (Option UInt8)) :
    (uartRecvTsk (Framer.init behind) es).1.map UartCmdFormat.bytes = frames (bytesOf es) :=
  (uartRecvTsk_of_holds es (holds_init behind)).1

/-! ### The buffer -/

/-- A byte is stored behind those of the unfinished frame, or skipped. -/
theorem onByte_buf (f : Framer) (ch : UInt8) : (onByte f ch).1.uartRecvBuf =
    if ch = 0xC0 ∨ f.proctolStart = true then store f.uartRecvBuf f.recvLen ch
    else f.uartRecvBuf := by
  obtain ⟨g, hg⟩ : ∃ g, g =
    if ch = 0xC0 ∧ f.proctolStart = false then { f with proctolStart := true } else f := ⟨_, rfl⟩
  have hstart : g.proctolStart = true ↔ ch = 0xC0 ∨ f.proctolStart = true := by
    rw [hg]
    split_ifs with h
    · simp [h.1]
    · simp only [not_and, Bool.not_eq_false] at h
      exact ⟨.inr, fun h' => h'.elim h id⟩
  have hbuf : g.uartRecvBuf = f.uartRecvBuf := by rw [hg]; split_ifs <;> rfl
  have hlen : g.recvLen = f.recvLen := by rw [hg]; split_ifs <;> rfl
  unfold onByte
  rw [← hg, ← hbuf, ← hlen]
  dsimp only
  by_cases hs : g.proctolStart = true
  · rw [if_pos hs, if_pos (hstart.mp hs)]
    split_ifs <;> rfl
  · rw [if_neg hs, if_neg (mt hstart.mpr hs)]

/-- The framer never writes from offset 132 on. -/
theorem uartRecvTsk_high {i : ℕ} (hi : 132 ≤ i) : ∀ (es : List (Option UInt8)) {f : Framer}
    {p : List UInt8}, Holds f p →
      (uartRecvTsk f es).2.uartRecvBuf i = f.uartRecvBuf i ∧
        ∀ buf ∈ (uartRecvTsk f es).1, buf i = f.uartRecvBuf i
  | [], f, p, _ => by simp
  | none :: es, f, p, hf => by rw [uartRecvTsk_none]; exact uartRecvTsk_high hi es hf
  | some ch :: es, f, p, hf => by
    have hg := (onByte_advance hf ch).2.1
    obtain ⟨h1, h2⟩ := uartRecvTsk_high hi es hg
    have hlt := hf.unfinished.length_lt
    have hbuf : (onByte f ch).1.uartRecvBuf i = f.uartRecvBuf i := by
      rw [onByte_buf]
      split_ifs
      · exact store_of_ne (by rw [hf.recvLen]; omega) ch
      · rfl
    rw [uartRecvTsk_cons]
    dsimp only
    split_ifs
    · refine ⟨h1.trans hbuf, fun buf hm => ?_⟩
      rcases List.mem_cons.mp hm with rfl | hm
      · exact hbuf
      · exact (h2 buf hm).trans hbuf
    · exact ⟨h1.trans hbuf, fun buf hm => (h2 buf hm).trans hbuf⟩

/-- The memory `m` with the bytes `x` written at its start. -/
def overlay (x : List UInt8) (m : Memory) : Memory :=
  fun i => if i < x.length then x.getD i 0 else m i

theorem overlay_concat (x : List UInt8) (ch : UInt8) (m : Memory) :
    overlay (x ++ [ch]) m = store (overlay x m) x.length ch := by
  funext i
  rw [store_apply]
  unfold overlay
  rcases Nat.lt_trichotomy i x.length with h | h | h
  · rw [if_pos (by simp; omega), if_neg (by omega), if_pos h, List.getD_append _ _ _ _ h]
  · subst h
    rw [if_pos (by simp), if_pos rfl, List.getD_append_right _ _ _ _ (by omega)]
    simp
  · rw [if_neg (by simp; omega), if_neg (by omega), if_neg (by omega)]

theorem slice_overlay (x : List UInt8) (m : Memory) : slice (overlay x m) 0 x.length = x := by
  refine List.ext_getElem (by simp) fun i h1 h2 => ?_
  rw [getElem_slice, Nat.zero_add, overlay, if_pos h2, List.getD_eq_getElem _ _ h2]

/-- The bytes of a whole frame. -/
def Complete (x : List UInt8) : Prop :=
  ∃ m l d, x = 0xC0 :: m :: l :: d ∧ be16 m l ≤ 128 ∧ d.length = be16 m l + 1

theorem Complete.length_eq {x : List UInt8} (hx : Complete x) : x.length = lenOf x + 4 := by
  obtain ⟨m, l, d, rfl, -, hd⟩ := hx
  have : lenOf (0xC0 :: m :: l :: d) = be16 m l := rfl
  rw [this]
  simp [hd]

theorem Complete.lenOf_le {x : List UInt8} (hx : Complete x) : lenOf x ≤ 128 := by
  obtain ⟨m, l, d, rfl, hL, -⟩ := hx
  exact hL

/-- The bytes of an overlaid frame. -/
theorem bytes_overlay {x : List UInt8} (hx : Complete x) (m : Memory) :
    UartCmdFormat.bytes (overlay x m) = x := by
  have hlen := hx.length_eq
  have hs := slice_overlay x m
  have hl : UartCmdFormat.len (overlay x m) = lenOf x := be16_of_slice hs (by omega)
  rw [UartCmdFormat.bytes, UartCmdFormat.getresplen, hl, ← hlen, hs]

/-- The grammar gives whole frames. -/
theorem frames_complete (bs : List UInt8) : ∀ x ∈ frames bs, Complete x := by
  fun_induction frames bs with
  | case1 => simp
  | case2 b bs h ih => exact ih
  | case3 b hb m l rest hlen ih => exact ih
  | case4 b hb m l rest hlen hshort => simp
  | case5 b hb m l rest hlen hlong ih =>
    intro x hx
    rcases List.mem_cons.mp hx with rfl | hx
    · obtain rfl : b = 0xC0 := by simpa using hb
      refine ⟨m, l, _, rfl, by omega, ?_⟩
      rw [List.length_take]
      omega
    · exact ih x hx
  | case6 => simp

theorem lenOf_bytes (c : UartCmdFormat) : lenOf c.bytes = c.len := by
  have hs : slice c 0 c.bytes.length = c.bytes := by simp [UartCmdFormat.bytes]
  exact (be16_of_slice hs (by simp [UartCmdFormat.bytes, UartCmdFormat.getresplen])).symm

/-- What is delivered is a whole frame. -/
theorem complete_of_mem {behind : Memory} {es : List (Option UInt8)} {buf : UartCmdFormat}
    (hb : buf ∈ (uartRecvTsk (Framer.init behind) es).1) : Complete buf.bytes := by
  have hm := List.mem_map_of_mem (f := UartCmdFormat.bytes) hb
  rw [(uartRecvTsk_of_holds es (holds_init behind)).1] at hm
  exact frames_complete _ _ hm

/-- On the way to a whole frame every byte is kept, and the last one completes it. -/
theorem advance_complete {p y : List UInt8} {ch : UInt8} (hp : Unfinished p)
    (hx : Complete (p ++ ch :: y)) :
    advance p ch = if y = [] then ([], some true) else (p ++ [ch], none) := by
  obtain ⟨m, l, d, he, hL, hd⟩ := hx
  cases hp with
  | idle =>
    obtain ⟨rfl, rfl⟩ := List.cons.inj he
    simp [advance]
  | head =>
    obtain ⟨rfl, rfl⟩ := List.cons.inj (List.cons.inj he).2
    simp [advance]
  | msb m' =>
    obtain ⟨rfl, h⟩ := List.cons.inj (List.cons.inj he).2
    obtain ⟨rfl, rfl⟩ := List.cons.inj h
    have hy : y ≠ [] := by rintro rfl; simp at hd
    have hL' : ¬ 128 < be16 m' ch := by omega
    simp [advance, lenOf, hL', hy]
  | @body m' l' d' hL' hd' =>
    obtain ⟨rfl, h⟩ := List.cons.inj (List.cons.inj he).2
    obtain ⟨rfl, rfl⟩ := List.cons.inj h
    have hd : (d' ++ ch :: y).length = be16 m' l' + 1 := hd
    rw [List.length_append, List.length_cons] at hd
    have hy : d'.length = be16 m' l' ↔ y = [] := by
      rw [← List.length_eq_zero_iff]; omega
    simp [advance, lenOf, hy]

/-- Failed reads alone deliver nothing and leave the framer as it is. -/
theorem uartRecvTsk_failed : ∀ {es : List (Option UInt8)} {f : Framer}, bytesOf es = [] →
    uartRecvTsk f es = ([], f)
  | [], f, _ => uartRecvTsk_nil f
  | none :: es, f, h => by rw [uartRecvTsk_none]; exact uartRecvTsk_failed h
  | some ch :: es, f, h => by simp at h

/-- **A whole frame is delivered as it is**, over whatever the buffer held. -/
theorem uartRecvTsk_complete : ∀ {es : List (Option UInt8)} {f : Framer} {p y : List UInt8}
    {m : Memory}, Holds f p → f.uartRecvBuf = overlay p m → bytesOf es = y → y ≠ [] →
      Complete (p ++ y) → (uartRecvTsk f es).1 = [overlay (p ++ y) m] ∧
        (uartRecvTsk f es).2.Idle ∧ (uartRecvTsk f es).2.uartRecvBuf = overlay (p ++ y) m
  | [], f, p, y, m, _, _, he, hy, _ => absurd he.symm hy
  | none :: es, f, p, y, m, hf, hb, he, hy, hx => by
    rw [uartRecvTsk_none]; exact uartRecvTsk_complete hf hb he hy hx
  | some ch :: es, f, p, y, m, hf, hb, he, hy, hx => by
    rw [bytesOf_some] at he
    subst he
    obtain ⟨hr, hg, -⟩ := onByte_advance hf ch
    have hadv := advance_complete hf.unfinished hx
    have hskip : ch = 0xC0 ∨ f.proctolStart = true := by
      cases hp : p with
      | nil =>
        obtain ⟨m, l, d, he, -, -⟩ := hx
        rw [hp] at he
        exact Or.inl (List.cons.inj he).1
      | cons b p' => right; simp [hf.start, hp]
    have hbuf : (onByte f ch).1.uartRecvBuf = overlay (p ++ [ch]) m := by
      rw [onByte_buf, if_pos hskip, hf.recvLen, hb, overlay_concat]
    have happ : p ++ ch :: bytesOf es = (p ++ [ch]) ++ bytesOf es := by simp
    rw [uartRecvTsk_cons]
    dsimp only
    rw [hr, hadv]
    rw [hadv] at hg
    by_cases hes : bytesOf es = []
    · rw [if_pos hes] at hg ⊢
      rw [if_pos rfl, uartRecvTsk_failed hes, hbuf, hes]
      exact ⟨rfl, holds_nil.mp hg, rfl⟩
    · rw [if_neg hes] at hg ⊢
      rw [if_neg (by simp), happ]
      exact uartRecvTsk_complete hg hbuf rfl hes (happ ▸ hx)

/-- A whole frame that arrives between two frames. -/
theorem uartRecvTsk_frame {es : List (Option UInt8)} {f : Framer} {x : List UInt8} (hf : f.Idle)
    (hes : bytesOf es = x) (hx : Complete x) :
    (uartRecvTsk f es).1 = [overlay x f.uartRecvBuf] ∧ (uartRecvTsk f es).2.Idle ∧
      (uartRecvTsk f es).2.uartRecvBuf = overlay x f.uartRecvBuf := by
  have h0 : f.uartRecvBuf = overlay [] f.uartRecvBuf := by
    funext i
    simp [overlay]
  have hne : x ≠ [] := by
    rintro rfl
    obtain ⟨m, l, d, he, -⟩ := hx
    cases he
  exact uartRecvTsk_complete (holds_nil.mpr hf) h0 hes hne hx

@[simp] theorem bytesOf_map_some (x : List UInt8) : bytesOf (x.map some) = x := by
  simp [bytesOf]

theorem idle_init (behind : Memory) : (Framer.init behind).Idle := ⟨rfl, rfl⟩

end MultiPortConvertor.Uart.Grammar
