import MultiPortConvertor.Uart.Grammar

/-! # Finding the next frame again

A length above the limit is discarded with its three bytes, so an unfinished frame has at most 131
bytes to come, garbage or not (`left`). Every byte brings the framer nearer to its end, and between
two frames only a `0xC0` starts one: after 131 other bytes the framer is idle, from wherever it was
(`resync`). -/

namespace MultiPortConvertor.Uart.Resync

open MultiPortConvertor.Lib.Bytes MultiPortConvertor.Uart.Format MultiPortConvertor.Uart.GetData
open MultiPortConvertor.Uart.Grammar

/-- The bytes that may still come in an unfinished frame. -/
def left (p : List UInt8) : ℕ :=
  if p = [] then 0 else if p.length < 3 then 132 - p.length else lenOf p + 4 - p.length

/-- No byte read starts a frame. -/
def Quiet (es : List (Option UInt8)) : Prop := ∀ b ∈ bytesOf es, b ≠ 0xC0

section

variable {f : Framer} {p : List UInt8} {ch : UInt8} {es : List (Option UInt8)}

theorem left_body (m l : UInt8) (d : List UInt8) :
    left (0xC0 :: m :: l :: d) = be16 m l + 1 - d.length := by
  have hlen : lenOf (0xC0 :: m :: l :: d) = be16 m l := rfl
  simp only [left, hlen, List.length_cons, reduceCtorEq, if_false]
  rw [if_neg (by omega)]
  omega

theorem left_le (hp : Unfinished p) : left p ≤ 131 := by
  cases hp with
  | idle => simp [left]
  | head => simp [left]
  | msb m => simp [left]
  | body hL hd =>
    rw [left_body]
    omega

theorem eq_nil_of_left (hp : Unfinished p) (h : left p = 0) : p = [] := by
  cases hp with
  | idle => rfl
  | head => simp [left] at h
  | msb m => simp [left] at h
  | body hL hd =>
    rw [left_body] at h
    omega

/-- **A byte that is no `0xC0` brings the end nearer.** -/
theorem left_advance (hp : Unfinished p) (hch : ch ≠ 0xC0) :
    left (advance p ch).1 ≤ left p - 1 := by
  cases hp with
  | idle => simp [advance, hch, left]
  | head => simp [advance, left]
  | msb m =>
    by_cases h : be16 m ch > 128
    · simp [advance, lenOf, h, left]
    · have hadv : (advance [0xC0, m] ch).1 = [0xC0, m, ch] := by simp [advance, lenOf, h]
      have htwo : left [0xC0, m] = 130 := rfl
      rw [hadv, left_body, htwo, List.length_nil]
      omega
  | @body m l d hL hd =>
    have hlen : lenOf (0xC0 :: m :: l :: d) = be16 m l := rfl
    by_cases h : d.length = be16 m l
    · simp [advance, hlen, h, left]
    · have hadv : (advance (0xC0 :: m :: l :: d) ch).1 = 0xC0 :: m :: l :: (d ++ [ch]) := by
        simp [advance, hlen, h]
      rw [hadv, left_body, left_body, List.length_append, List.length_singleton]
      omega

/-- The bytes still to come after a run without a `0xC0`. -/
theorem left_run : ∀ {es : List (Option UInt8)} {f : Framer} {p : List UInt8},
    Holds f p → Quiet es →
    ∃ q, Holds (uartRecvTsk f es).2 q ∧ left q ≤ left p - (bytesOf es).length
  | [], f, p, hf, _ => ⟨p, by rw [uartRecvTsk_nil]; exact hf, Nat.le_refl _⟩
  | none :: es, f, p, hf, hq => by
    rw [uartRecvTsk_none, bytesOf_none]
    exact left_run hf hq
  | some ch :: es, f, p, hf, hq => by
    obtain ⟨hch, hes⟩ : ch ≠ 0xC0 ∧ Quiet es := List.forall_mem_cons.mp hq
    obtain ⟨q, hq, hle⟩ := left_run (onByte_advance hf ch).2.1 hes
    have hstep := left_advance hf.unfinished hch
    refine ⟨q, ?_, ?_⟩
    · rw [uartRecvTsk_cons]
      dsimp only
      split_ifs
      · exact hq
      · exact hq
    · rw [bytesOf_some, List.length_cons]
      omega

theorem frames_quiet {bs : List UInt8} (h : ∀ b ∈ bs, b ≠ 0xC0) : frames bs = [] := by
  induction bs with
  | nil => exact frames_nil
  | cons b bs ih =>
    obtain ⟨hb, hbs⟩ := List.forall_mem_cons.mp h
    rw [frames_skip hb, ih hbs]

/-- Between two frames, bytes that start none deliver nothing and leave the framer there. -/
theorem idle_quiet (hf : f.Idle) (hq : Quiet es) :
    (uartRecvTsk f es).1 = [] ∧ (uartRecvTsk f es).2.Idle := by
  have hholds := holds_nil.mpr hf
  obtain ⟨q, hg, hle⟩ := left_run hholds hq
  have hnil : q = [] := eq_nil_of_left hg.unfinished (by
    have h0 : left [] = 0 := rfl
    omega)
  have hframes := (uartRecvTsk_of_holds es hholds).1
  rw [List.nil_append, frames_quiet hq] at hframes
  exact ⟨List.map_eq_nil_iff.mp hframes, holds_nil.mp (hnil ▸ hg)⟩

end

/-- **Resynchronisation.** Whatever has been received, and wherever reads fail: after 131 bytes none
of which is `0xC0` the framer is idle, on more such bytes it stays so and delivers nothing, and the
next whole frame is delivered byte for byte. -/
theorem resync (behind : Memory) (before : List (Option UInt8)) {garbage : List (Option UInt8)}
    (hg : Quiet garbage) (hlen : 131 ≤ (bytesOf garbage).length) :
    (uartRecvTsk (Framer.init behind) (before ++ garbage)).2.Idle ∧
      ∀ more, Quiet more →
        (uartRecvTsk (uartRecvTsk (Framer.init behind) (before ++ garbage)).2 more).1 = [] ∧
        (uartRecvTsk (Framer.init behind) (before ++ garbage ++ more)).2.Idle ∧
        ∀ es x, Complete x → bytesOf es = x →
          (uartRecvTsk (uartRecvTsk (Framer.init behind) (before ++ garbage ++ more)).2 es).1.map
            UartCmdFormat.bytes = [x] := by
  obtain ⟨-, p, hp⟩ := uartRecvTsk_of_holds before (holds_init behind)
  obtain ⟨q, hq, hle⟩ := left_run hp hg
  have hbound := left_le hp.unfinished
  have hnil : q = [] := eq_nil_of_left hq.unfinished (by omega)
  have happ : (uartRecvTsk (Framer.init behind) (before ++ garbage)).2 =
      (uartRecvTsk (uartRecvTsk (Framer.init behind) before).2 garbage).2 := by
    rw [uartRecvTsk_append]
  have hidle : (uartRecvTsk (Framer.init behind) (before ++ garbage)).2.Idle := by
    rw [happ]
    exact holds_nil.mp (hnil ▸ hq)
  refine ⟨hidle, fun more hmore => ?_⟩
  obtain ⟨hout, hidle'⟩ := idle_quiet hidle hmore
  have happ' : (uartRecvTsk (Framer.init behind) (before ++ garbage ++ more)).2 =
      (uartRecvTsk (uartRecvTsk (Framer.init behind) (before ++ garbage)).2 more).2 := by
    rw [uartRecvTsk_append]
  rw [happ']
  refine ⟨hout, hidle', fun es x hx hes => ?_⟩
  obtain ⟨hdeliver, -⟩ := uartRecvTsk_frame hidle' hes hx
  rw [hdeliver, List.map_singleton, bytes_overlay hx]

/-- The theorem applied to a stray `0xC0`, the longest that zero bytes can keep the framer busy. -/
theorem resync_stray :
    (uartRecvTsk (Framer.init (filled 0)) ([some 0xC0] ++ List.replicate 131 (some 0))).2.Idle :=
  (resync (filled 0) [some 0xC0] (by simp [Quiet, bytesOf]) (by decide +kernel)).1

end MultiPortConvertor.Uart.Resync
