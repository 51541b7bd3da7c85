import MultiPortConvertor.Uart.ParseStatics

/-! # A corrupted byte

A stream of valid frames in which one byte behind a length field is changed. The framer counts, so
the boundaries of the frames stay where they were, whatever the byte is changed to; the checksum
detects the change. So the frame changed is dropped, and nothing else is lost (`corrupted_byte`). -/

namespace MultiPortConvertor.Uart.Corruption

open MultiPortConvertor.Lib.Bytes MultiPortConvertor.Lib.Outcomes
open MultiPortConvertor.Uart.Format MultiPortConvertor.Uart.GetData MultiPortConvertor.Uart.Grammar
open MultiPortConvertor.Uart.Handlers MultiPortConvertor.Uart.Parse
open MultiPortConvertor.Uart.Transmit MultiPortConvertor.Uart.ParseStatics

/-- **The bytes of a valid frame**: whole, with a length of 4 to 128, and ended by the sum modulo
256 of the bytes behind the length. -/
structure ValidFrame (x : List UInt8) : Prop where
  complete : Complete x
  four_le : 4 ≤ lenOf x
  check : x.getLast? = some (UInt8.ofNat (byteSum ((x.drop 3).take (lenOf x))))

theorem getElem_bytes (c : UartCmdFormat) {i : ℕ} (h : i < c.bytes.length) : c.bytes[i] = c i := by
  simp only [UartCmdFormat.bytes, getElem_slice, Nat.zero_add]

theorem getLast?_bytes (c : UartCmdFormat) : c.bytes.getLast? = some (c (c.len + 3)) := by
  rw [UartCmdFormat.bytes, UartCmdFormat.getresplen, slice_succ, List.getLast?_concat, Nat.zero_add]

theorem body_bytes (c : UartCmdFormat) : (c.bytes.drop 3).take c.len = slice c 3 c.len := by
  rw [UartCmdFormat.bytes, UartCmdFormat.getresplen, show c.len + 4 = 3 + (c.len + 1) by omega,
    slice_add, List.drop_left' length_slice, slice_add, List.take_left' length_slice]

/-- A whole frame is accepted exactly if it is valid. -/
theorem procotolCheck_iff_valid {c : UartCmdFormat} (hc : Complete c.bytes) :
    procotolCheck c = true ↔ ValidFrame c.bytes := by
  have hs : slice c.fromStaParam 0 c.len = slice c 3 c.len := by
    refine List.ext_getElem (by simp) fun i h1 h2 => ?_
    rw [getElem_slice, getElem_slice, Nat.zero_add]
    rfl
  have hl := lenOf_bytes c
  have hsum : (UInt8.ofNat (byteSum ((c.bytes.drop 3).take (lenOf c.bytes)))) =
      checkSumCal c.fromStaParam c.len := by
    rw [hl, body_bytes, checkSumCal_eq _ (len_lt c), hs]
  rw [procotolCheck_iff]
  constructor
  · rintro ⟨h4, hcheck⟩
    refine ⟨hc, by omega, ?_⟩
    have hi : c.len + 3 = 7 + (c.len - 4) := by omega
    rw [hsum, ← hcheck, getLast?_bytes, UartCmdFormat.data, hi]
  · intro hv
    have h4 := hv.four_le
    have hcheck := hv.check
    rw [hsum, getLast?_bytes, Option.some.injEq] at hcheck
    have hi : 7 + (c.len - 4) = c.len + 3 := by omega
    refine ⟨by omega, ?_⟩
    rw [← hcheck, UartCmdFormat.data, hi]

/-! ### The frames of a stream -/

/-- The grammar finds whole frames one after another. -/
theorem frames_flatten : ∀ {xs : List (List UInt8)}, (∀ x ∈ xs, Complete x) → frames xs.flatten = xs
  | [], _ => frames_nil
  | x :: xs, h => by
    have ih := frames_flatten fun y hy => h y (List.mem_cons_of_mem _ hy)
    obtain ⟨m, l, d, rfl, hL, hd⟩ := h x (by simp)
    rw [List.flatten_cons, List.cons_append, List.cons_append, List.cons_append, frames_head,
      if_neg (by omega), if_neg (by rw [List.length_append]; omega), ← hd, List.take_left,
      List.drop_left, ih]

/-- Whole frames that arrive between two frames are delivered one after another. -/
theorem uartRecvTsk_flatten {f : Framer} (hf : f.Idle) {es : List (Option UInt8)}
    {xs : List (List UInt8)} (hxs : ∀ x ∈ xs, Complete x) (hes : bytesOf es = xs.flatten) :
    (uartRecvTsk f es).1.map UartCmdFormat.bytes = xs := by
  have h := (uartRecvTsk_of_holds es (holds_nil.mpr hf)).1
  rw [List.nil_append, hes, frames_flatten hxs] at h
  exact h

/-- A byte changed behind the length leaves the frame whole. -/
theorem Complete.set {x : List UInt8} (hx : Complete x) {j : ℕ} (hj : 3 ≤ j) (b : UInt8) :
    Complete (x.set j b) := by
  obtain ⟨m, l, d, rfl, hL, hd⟩ := hx
  obtain ⟨i, rfl⟩ : ∃ i, j = i + 3 := ⟨j - 3, by omega⟩
  exact ⟨m, l, d.set i b, rfl, hL, by rw [List.length_set, hd]⟩

/-- The frame changed is not accepted. -/
theorem procotolCheck_of_set {x : List UInt8} (hx : ValidFrame x) {j : ℕ} (h3 : 3 ≤ j)
    (hj : j < x.length) {b : UInt8} (hb : b ≠ x.getD j 0) {c : UartCmdFormat}
    (hc : c.bytes = x.set j b) : procotolCheck c = false := by
  have hlen : c.bytes.length = c.getresplen := length_slice
  rw [hc, List.length_set] at hlen
  have hat : ∀ i < c.getresplen, c i = (x.set j b).getD i 0 := by
    intro i hi
    rw [← hc, List.getD_eq_getElem _ _ (by simpa [UartCmdFormat.bytes] using hi), getElem_bytes]
  -- the buffer as it would be without the change
  obtain ⟨o, ho⟩ : ∃ o : UartCmdFormat, o = store c j (x.getD j 0) := ⟨_, rfl⟩
  have hne : ∀ i, i ≠ j → c i = o i := fun i hi => by rw [ho, store_of_ne hi]
  have hlo : o.getresplen = c.getresplen := by
    unfold UartCmdFormat.getresplen UartCmdFormat.len UartCmdFormat.lengthMsb
      UartCmdFormat.lengthLsb
    rw [hne 1 (by omega), hne 2 (by omega)]
  have hox : o.bytes = x := by
    refine List.ext_getElem (by simp [UartCmdFormat.bytes, hlo, hlen]) fun i h1 h2 => ?_
    rw [getElem_bytes]
    by_cases hij : i = j
    · subst hij
      rw [ho, store_self, List.getD_eq_getElem _ _ h2]
    · rw [← hne i hij, hat i (by omega), List.getD_eq_getElem _ _ (by simpa using h2),
        List.getElem_set_ne (fun h => hij h.symm)]
  have hcheck : procotolCheck o = true := (procotolCheck_iff_valid
    (by rw [hox]; exact hx.complete)).mpr (by rw [hox]; exact hx)
  refine procotolCheck_changed hcheck h3 (by omega) hne ?_
  rw [ho, store_self, hat j (by omega), List.getD_eq_getElem _ _ (by simpa using hj),
    List.getElem_set_self]
  exact hb

/-- **One corrupted byte costs one frame.** In a stream of valid frames, received from between two
frames and with reads failing anywhere, let one byte of the frame `x` from `sta_param` to the
checksum be changed. The frames delivered are those of the stream, the frame changed in the place of
`x`; all but that one are accepted, and for that one no handler runs, no buffer is taken, nothing is
queued and no entry marked: only `Data_p` points to it. -/
theorem corrupted_byte (va : List UInt8 → List UInt8) {f : Framer} (hf : f.Idle)
    {es : List (Option UInt8)} {l r : List (List UInt8)} {x : List UInt8}
    (hvalid : ∀ y ∈ l ++ x :: r, ValidFrame y) {j : ℕ} (h3 : 3 ≤ j) (hj : j ≤ lenOf x + 3)
    {b : UInt8} (hb : b ≠ x.getD j 0) (hes : bytesOf es = (l ++ x.set j b :: r).flatten) :
    ((uartRecvTsk f es).1.filter procotolCheck).map UartCmdFormat.bytes = l ++ r ∧
      ∃ cs c cs', (uartRecvTsk f es).1 = cs ++ c :: cs' ∧ cs.map UartCmdFormat.bytes = l ∧
        c.bytes = x.set j b ∧ cs'.map UartCmdFormat.bytes = r ∧
        (∀ d ∈ cs ++ cs', procotolCheck d = true) ∧ procotolCheck c = false ∧
        ∀ env v s, ParseStatics.uartProtocolParse va c env v s =
          .next ({ v with dataP := some c }, s, []) := by
  have hx : ValidFrame x := hvalid x (by simp)
  have hcomplete : ∀ y ∈ l ++ x.set j b :: r, Complete y := by
    intro y hy
    rcases List.mem_append.mp hy with hy | hy
    · exact (hvalid y (by simp [hy])).complete
    · rcases List.mem_cons.mp hy with rfl | hy
      · exact Complete.set hx.complete h3 b
      · exact (hvalid y (by simp [hy])).complete
  have hmap := uartRecvTsk_flatten hf hcomplete hes
  obtain ⟨cs, cs'', hcs, hl, hr⟩ := List.map_eq_append_iff.mp hmap
  obtain ⟨c, cs', rfl, hc, hr⟩ := List.map_eq_cons_iff.mp hr
  have haccept : ∀ d ∈ cs ++ cs', procotolCheck d = true := by
    intro d hd
    have hv : ValidFrame d.bytes := by
      rcases List.mem_append.mp hd with hd | hd
      · have hm : d.bytes ∈ l := by
          rw [← hl]
          exact List.mem_map_of_mem hd
        exact hvalid _ (by simp [hm])
      · have hm : d.bytes ∈ r := by
          rw [← hr]
          exact List.mem_map_of_mem hd
        exact hvalid _ (by simp [hm])
    exact (procotolCheck_iff_valid hv.complete).mpr hv
  have hreject : procotolCheck c = false :=
    procotolCheck_of_set hx h3 (by rw [hx.complete.length_eq]; omega) hb hc
  refine ⟨?_, cs, c, cs', hcs, hl, hc, hr, haccept, hreject, fun env v s => ?_⟩
  · have h1 : cs.filter procotolCheck = cs :=
      List.filter_eq_self.mpr fun d hd => haccept d (List.mem_append_left _ hd)
    have h2 : cs'.filter procotolCheck = cs' :=
      List.filter_eq_self.mpr fun d hd => haccept d (List.mem_append_right _ hd)
    rw [hcs, List.filter_append, List.filter_cons_of_neg (by simp [hreject]), h1, h2,
      List.map_append, hl, hr]
  · rw [uartProtocolParse_eq va c env v s (uartProtocolParse_rejected va _ hreject) (by simp)]
    rfl

/-- A `CMD_POWERON` frame. -/
def poweronFrame : List UInt8 := [0xC0, 0, 4, 0, 7, 0xA1, 0x13, 0xBB]

theorem validFrame_poweron : ValidFrame poweronFrame where
  complete := ⟨0, 4, [0, 7, 0xA1, 0x13, 0xBB], rfl, by decide, by decide⟩
  four_le := by decide
  check := by decide

/-- The theorem applied to three frames, where the sequence number of the second becomes a `0xC0`.
-/
theorem corrupted_byte_poweron :
    ((uartRecvTsk (Framer.init (filled 0)) ((poweronFrame ++ poweronFrame.set 4 0xC0 ++
        poweronFrame).map some)).1.filter procotolCheck).map UartCmdFormat.bytes =
      [poweronFrame] ++ [poweronFrame] ∧
    ∃ cs c cs', (uartRecvTsk (Framer.init (filled 0)) ((poweronFrame ++ poweronFrame.set 4 0xC0 ++
        poweronFrame).map some)).1 = cs ++ c :: cs' ∧
      cs.map UartCmdFormat.bytes = [poweronFrame] ∧ c.bytes = poweronFrame.set 4 0xC0 ∧
      cs'.map UartCmdFormat.bytes = [poweronFrame] ∧
      (∀ d ∈ cs ++ cs', procotolCheck d = true) ∧ procotolCheck c = false ∧
      ∀ env v s, ParseStatics.uartProtocolParse id c env v s =
        .next ({ v with dataP := some c }, s, []) := by
  refine corrupted_byte id (idle_init _) (l := [poweronFrame]) (r := [poweronFrame])
    (x := poweronFrame) (fun y hy => ?_) (j := 4) (by decide) (by decide) (b := 0xC0) (by decide)
    (by decide)
  obtain rfl : y = poweronFrame := by simpa using hy
  exact validFrame_poweron

end MultiPortConvertor.Uart.Corruption
