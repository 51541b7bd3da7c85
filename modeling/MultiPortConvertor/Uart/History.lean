import MultiPortConvertor.Uart.Parse

/-! # What a command sees of the frames before it

The receive buffer is never cleared, so behind a frame lie the bytes of longer frames that came
before, and behind the buffer lies other memory. Two runs that end with the same frame agree on the
bytes the frame determines (`Ends.data`); a handler that reads no others does the same in both.
`print_ask` and `http_up_data_rsp` find the end of a string by its zero byte, and then read on: they
are independent of the history exactly when they stay inside those bytes
(`uartProtocolParse_ownFrame_iff`). -/

namespace MultiPortConvertor.Uart.History

open MultiPortConvertor.Lib.Bytes MultiPortConvertor.Lib.CString
open MultiPortConvertor.Uart.Format MultiPortConvertor.Uart.GetData
open MultiPortConvertor.Uart.Grammar MultiPortConvertor.Uart.Dispose
open MultiPortConvertor.Uart.Handlers MultiPortConvertor.Uart.Parse

/-- What the rest of the device sees of `uart_protocol_parse`: the bytes queued, given what the
buffer taken for them held before, the acknowledgement, and what is handed to the shell or uploaded.
-/
def seen (respdata : UartCmdFormat) : Parsed → Option (List UInt8) × Option UInt8 × List Effect
  | .dropped => (none, none, [])
  | .respond r => (some (r.frame respdata).bytes, none, r.reply.effects)
  | .acknowledge sn reply => (none, some sn, reply.effects)

/-- A run whose last frame delivered is `x`, and the buffer then. -/
structure Ends (behind : Memory) (es : List (Option UInt8)) (x : List UInt8) (buf : UartCmdFormat) :
    Prop where
  last : (uartRecvTsk (Framer.init behind) es).1.getLast? = some buf
  bytes : buf.bytes = x

/-- A frame that `procotol_check` accepts. -/
structure Accepted (x : List UInt8) : Prop where
  complete : Complete x
  check : procotolCheck (overlay x (filled 0)) = true

/-- **The bytes from `data` on that a frame determines**: its own, and behind a frame of the full
length the last bytes of the buffer, which are never written. -/
def ownData (x : List UInt8) : List UInt8 := x.drop 7 ++ if lenOf x = 128 then [0, 0, 0, 0] else []

/-- **Every byte read is one that the frame determines.** -/
def ReadsOwn (lp0 : Bool) (x : List UInt8) : Prop :=
  (x.getD 6 0 = 0x23 → lp0 = false → 0 ∈ ownData x) ∧
    (x.getD 6 0 = 0x31 → (ownData x).idxOf 0 + 12 < (ownData x).length)

section

variable {x : List UInt8}

theorem Accepted.le_lenOf (hx : Accepted x) : 4 ≤ lenOf x := by
  have h4 := (procotolCheck_iff.mp hx.check).1
  have hs := slice_overlay x (filled 0)
  have hlen := hx.complete.length_eq
  have : UartCmdFormat.len (overlay x (filled 0)) = lenOf x := be16_of_slice hs (by omega)
  rwa [this] at h4

theorem Accepted.length_ownData (hx : Accepted x) :
    (ownData x).length = if lenOf x = 128 then 129 else lenOf x - 3 := by
  have hlen := hx.complete.length_eq
  have h4 := hx.le_lenOf
  unfold ownData
  split_ifs with h
  · rw [List.length_append, List.length_drop, hlen, h]
    rfl
  · rw [List.append_nil, List.length_drop]
    omega

end

/-! ### The bytes determined -/

namespace Ends

variable {behind : Memory} {es : List (Option UInt8)} {x : List UInt8} {buf : UartCmdFormat}

theorem mem (h : Ends behind es x buf) : buf ∈ (uartRecvTsk (Framer.init behind) es).1 :=
  List.mem_of_getLast? h.last

theorem len (h : Ends behind es x buf) : buf.len = lenOf x := by
  rw [← h.bytes, lenOf_bytes]

theorem complete (h : Ends behind es x buf) : Complete x := by
  rw [← h.bytes]
  exact complete_of_mem h.mem

theorem apply_of_lt (h : Ends behind es x buf) {i : ℕ} (hi : i < x.length) :
    buf i = x.getD i 0 := by
  have hlen := h.complete.length_eq
  have hl := h.len
  have hb := h.bytes
  have hg : buf.getresplen = x.length := by rw [UartCmdFormat.getresplen, hl, hlen]
  rw [UartCmdFormat.bytes, hg] at hb
  rw [List.getD_eq_getElem _ _ hi, ← List.getElem_of_eq hb (by simpa), getElem_slice, Nat.zero_add]

/-- **The bytes determined** are the same after every history. -/
theorem data (h : Ends behind es x buf) (hx : Accepted x) {i : ℕ} (hi : i < (ownData x).length) :
    buf.data i = (ownData x).getD i 0 := by
  have hlen := h.complete.length_eq
  have h4 := hx.le_lenOf
  unfold UartCmdFormat.data
  rcases Nat.lt_or_ge (7 + i) x.length with hlt | hge
  · rw [h.apply_of_lt hlt, ownData, List.getD_append _ _ _ _ (by rw [List.length_drop]; omega)]
    simp [List.getD_eq_getElem?_getD]
  · -- behind the frame: the last four bytes of the buffer
    rw [hx.length_ownData] at hi
    have h128 : lenOf x = 128 := by
      by_contra hne
      rw [if_neg hne] at hi
      omega
    rw [if_pos h128] at hi
    have hbuf := (uartRecvTsk_high (i := 7 + i) (by omega) es (holds_init behind)).2 buf h.mem
    have hz : (Framer.init behind).uartRecvBuf (7 + i) = 0 :=
      if_pos (by unfold sizeofUartCmdFormat uartProcotolMaxLen; omega)
    rw [hbuf, hz, ownData, if_pos h128, List.getD_append_right _ _ _ _ (by
      rw [List.length_drop]; omega), List.length_drop]
    obtain ⟨j, hj, hj4⟩ : ∃ j, i - (x.length - 7) = j ∧ j < 4 := ⟨_, rfl, by omega⟩
    rw [hj]
    interval_cases j <;> rfl

/-- **After a frame of the full length** nothing is left of the frames before it. -/
theorem eq_of_full {es' : List (Option UInt8)} {buf' : UartCmdFormat} (h : Ends behind es x buf)
    (h' : Ends behind es' x buf') (hL : lenOf x = 128) : buf = buf' := by
  have hlen := h.complete.length_eq
  funext i
  rcases Nat.lt_or_ge i 132 with hlt | hge
  · rw [h.apply_of_lt (by omega), h'.apply_of_lt (by omega)]
  · rw [(uartRecvTsk_high hge es (holds_init behind)).2 buf h.mem,
      (uartRecvTsk_high hge es' (holds_init behind)).2 buf' h'.mem]

end Ends

/-! ### Handlers that read the bytes determined -/

/-- Two buffers that agree on the header and on the bytes `own` of the data. -/
structure Agree (own : List UInt8) (c c' : UartCmdFormat) : Prop where
  header : ∀ i < 7, c' i = c i
  left : ∀ i < own.length, c.data i = own.getD i 0
  right : ∀ i < own.length, c'.data i = own.getD i 0

namespace Agree

variable {own : List UInt8} {c c' : UartCmdFormat}

theorem data (h : Agree own c c') {i : ℕ} (hi : i < own.length) : c'.data i = c.data i :=
  (h.right i hi).trans (h.left i hi).symm

theorem len (h : Agree own c c') : c'.len = c.len := by
  unfold UartCmdFormat.len UartCmdFormat.lengthMsb UartCmdFormat.lengthLsb
  rw [h.header 1 (by omega), h.header 2 (by omega)]

theorem payload_eq (h : Agree own c c') (hl : c.len - 4 ≤ own.length) : payload c' = payload c := by
  unfold payload
  rw [h.len]
  exact slice_congr fun i hi => h.data (by omega)

/-- The string in the data ends at the first zero of the bytes determined. -/
theorem dataStr_eq (h : Agree own c c') (hz : 0 ∈ own) (hlt : own.length < 2 ^ 32) :
    dataStr c = slice c 7 (own.idxOf 0) ∧ dataStr c' = dataStr c := by
  have hq : own.idxOf 0 < own.length := List.idxOf_lt_length_iff.mpr hz
  have hzero : c (7 + own.idxOf 0) = 0 := by
    have := h.left _ hq
    rw [List.getD_eq_getElem _ _ hq, List.getElem_idxOf hq] at this
    exact this
  have hne : ∀ i < own.idxOf 0, c (7 + i) ≠ 0 := by
    intro i hi he
    have := h.left i (by omega)
    rw [List.getD_eq_getElem _ _ (by omega)] at this
    have hb : (own.get ⟨i, by omega⟩ == 0) = false := List.not_of_lt_findIdx hi
    exact absurd (this.symm.trans he) (by simpa using hb)
  have hle : own.idxOf 0 < 2 ^ 32 := by omega
  exact ⟨cstr_eq hle hzero hne, cstr_congr hle hzero hne fun i hi => h.data (by omega)⟩

theorem word_eq (h : Agree own c c') {p : ℕ} (hp : p + 1 < own.length) : word c' p = word c p := by
  unfold word
  rw [h.data hp, h.data (by omega)]

theorem httpRecord_eq (h : Agree own c c') (hlt : own.length < 2 ^ 32)
    (hq : own.idxOf 0 + 12 < own.length) (env : Env) : httpRecord c' env = httpRecord c env := by
  have hz : 0 ∈ own := List.idxOf_lt_length_iff.mp (by omega)
  obtain ⟨hs, hs'⟩ := h.dataStr_eq hz hlt
  have hlen : (dataStr c).length = own.idxOf 0 := by rw [hs, length_slice]
  unfold httpRecord
  rw [hs', hlen]
  simp only [h.word_eq (p := own.idxOf 0 + 1) (by omega),
    h.word_eq (p := own.idxOf 0 + 1 + 2 + 4) (by omega),
    h.word_eq (p := own.idxOf 0 + 1 + 2 + 6) (by omega),
    h.word_eq (p := own.idxOf 0 + 1 + 2 + 8) (by omega),
    h.data (i := own.idxOf 0 + 1 + 2) (by omega), h.data (i := own.idxOf 0 + 1 + 2 + 1) (by omega),
    h.data (i := own.idxOf 0 + 1 + 2 + 2) (by omega),
    h.data (i := own.idxOf 0 + 1 + 2 + 3) (by omega)]

/-- **A handler that reads the bytes determined** leaves the same behind in both buffers. -/
theorem callback_eq (h : Agree own c c') (hl : c.len - 4 ≤ own.length) (h4 : 4 ≤ c.len)
    (hL : c.len ≤ 128) (hlt : own.length < 2 ^ 32) {va : List UInt8 → List UInt8} {env : Env}
    (hprint : c.cmdId = 0x23 → env.lp0 = false → 0 ∈ own)
    (hup : c.cmdId = 0x31 → own.idxOf 0 + 12 < own.length) {list : UartCmdList}
    (hm : list ∈ uartCmdList va) (hw : list.cmdword = c.cmdId) :
    list.callback c' env (.start env) = list.callback c env (.start env) := by
  by_cases hack : list.ackword = 0
  · rcases mem_uartCmdList_rsp va hm hack with rfl | ⟨-, he⟩
    · have hr := h.httpRecord_eq hlt (hup hw.symm) env
      dsimp only
      rw [httpUpDataRsp_eq, httpUpDataRsp_eq, hr]
    · rw [he]
      rfl
  · rcases mem_uartCmdList_ack va hm hack with rfl | rfl | rfl | rfl
    · have hlen := h.len
      dsimp only
      rw [queStaRsp_eq c env h4 hL, queStaRsp_eq c' env (by omega) (by omega), h.payload_eq hl]
    · rfl
    · rfl
    · dsimp only
      rw [printAsk_eq, printAsk_eq]
      by_cases hlp : env.lp0 = true
      · rw [if_pos hlp, if_pos hlp]
      · have hz : 0 ∈ own := hprint hw.symm (by simpa using hlp)
        have hb : printBuf va c' = printBuf va c := by
          unfold printBuf
          rw [(h.dataStr_eq hz hlt).2]
        rw [if_neg hlp, if_neg hlp, hb]

end Agree

section

variable {x : List UInt8} {behind behind' : Memory} {es es' : List (Option UInt8)}
variable {buf buf' : UartCmdFormat}

theorem Ends.agree (h : Ends behind es x buf) (h' : Ends behind' es' x buf') (hx : Accepted x) :
    Agree (ownData x) buf buf' := by
  have hlen := hx.complete.length_eq
  have h4 := hx.le_lenOf
  refine ⟨fun i hi => ?_, fun i hi => h.data hx hi, fun i hi => h'.data hx hi⟩
  rw [h.apply_of_lt (by omega), h'.apply_of_lt (by omega)]

theorem Ends.check (h : Ends behind es x buf) (hx : Accepted x) : procotolCheck buf = true := by
  have hlen := hx.complete.length_eq
  have hg : buf.getresplen = x.length := by rw [UartCmdFormat.getresplen, h.len, hlen]
  have hb : slice buf 0 buf.getresplen = x := h.bytes
  have hs : slice buf 0 buf.getresplen = slice (overlay x (filled 0)) 0 buf.getresplen := by
    rw [hb, hg, slice_overlay]
  rw [procotolCheck_congr hs]
  exact hx.check

/-- What a frame leads to does not depend on what the buffer taken for the answer held. -/
theorem seen_parse {va : List UInt8 → List UInt8} {env : Env} (hcheck : procotolCheck buf = true)
    (hL : buf.len ≤ 128) (respdata respdata' : UartCmdFormat) :
    seen respdata (uartProtocolParse va buf env) =
      seen respdata' (uartProtocolParse va buf env) := by
  cases hp : uartProtocolParse va buf env with
  | dropped => rfl
  | respond r =>
    obtain ⟨p, hc, -⟩ := respond_carries va env hcheck hL hp
    unfold seen
    dsimp only
    rw [(hc.isFrame respdata).bytes_eq (hc.isFrame respdata')]
  | acknowledge sn reply => rfl

/-- **A frame whose handler reads the bytes it determines** has the same effect after any two
histories. -/
theorem seen_eq (h : Ends behind es x buf) (h' : Ends behind' es' x buf') (hx : Accepted x)
    {env : Env} (hown : ReadsOwn env.lp0 x) (va : List UInt8 → List UInt8)
    (respdata respdata' : UartCmdFormat) :
    seen respdata (uartProtocolParse va buf env) =
      seen respdata' (uartProtocolParse va buf' env) := by
  have hagree := h.agree h' hx
  have hcheck := h.check hx
  have hcheck' := h'.check hx
  have hlen := hx.complete.length_eq
  have h4 := hx.le_lenOf
  have hL := hx.complete.lenOf_le
  have hlb := h.len
  have hown_len := hx.length_ownData
  have hcmd : buf.cmdId = x.getD 6 0 := h.apply_of_lt (by omega)
  have hcmd' : buf'.cmdId = buf.cmdId := hagree.header 6 (by omega)
  have hsn : buf'.sn = buf.sn := hagree.header 4 (by omega)
  have hpdt : buf'.pdtType = buf.pdtType := hagree.header 5 (by omega)
  have hle : lenOf x - 3 ≤ (ownData x).length := by
    rw [hown_len]
    split_ifs <;> omega
  have hlt : (ownData x).length < 2 ^ 32 := by
    rw [hown_len]
    split_ifs <;> omega
  have hparse : uartProtocolParse va buf' env = uartProtocolParse va buf env := by
    rcases uartProtocolParse_accepted va env hcheck with ⟨hd, hno⟩ | ⟨list, hm, hw, hp⟩
    · rcases uartProtocolParse_accepted va env hcheck' with ⟨hd', -⟩ | ⟨list, hm, hw, -⟩
      · rw [hd, hd']
      · exact absurd (hw.trans hcmd') (hno list hm)
    · have hcall : list.callback buf' env (.start env) = list.callback buf env (.start env) :=
        hagree.callback_eq (by omega) (by omega) (by omega) hlt
          (fun hc => hown.1 (hcmd.symm.trans hc)) (fun hc => hown.2 (hcmd.symm.trans hc)) hm hw
      rw [hp, uartProtocolParse_of_mem va env hcheck' hm (hw.trans hcmd'.symm)]
      unfold UartCmdList.handle
      rw [hcall, hsn, hpdt]
  rw [hparse]
  exact seen_parse hcheck (by omega) respdata respdata'

end

/-! ### Handlers that read others -/

/-- A frame of the full length that fills the buffer with ones. -/
def onesFrame : List UInt8 := 0xC0 :: 0 :: 128 :: List.replicate 129 1

theorem onesFrame_complete : Complete onesFrame :=
  ⟨0, 128, List.replicate 129 1, rfl, by decide, by simp [be16]⟩

/-- The buffer after `x` alone, over memory full of zeros. -/
def clean (x : List UInt8) : UartCmdFormat := overlay x (filled 0)

/-- The buffer after ones and then `x`. -/
def stale (behind : Memory) (x : List UInt8) : UartCmdFormat :=
  overlay x (overlay onesFrame (Framer.init behind).uartRecvBuf)

section

variable {x : List UInt8}

theorem clean_ends (hx : Complete x) : Ends (filled 0) (x.map some) x (clean x) := by
  have h0 : (Framer.init (filled 0)).uartRecvBuf = filled 0 := by
    funext i
    exact ite_self _
  refine ⟨?_, bytes_overlay hx _⟩
  rw [(uartRecvTsk_frame (idle_init _) (bytesOf_map_some x) hx).1, h0]
  rfl

theorem stale_ends (hx : Complete x) (behind : Memory) :
    Ends behind (onesFrame.map some ++ x.map some) x (stale behind x) := by
  obtain ⟨h1, hidle, hbuf⟩ := uartRecvTsk_frame (idle_init behind) (bytesOf_map_some onesFrame)
    onesFrame_complete
  refine ⟨?_, bytes_overlay hx _⟩
  rw [uartRecvTsk_append]
  dsimp only
  rw [(uartRecvTsk_frame hidle (bytesOf_map_some x) hx).1, hbuf, List.getLast?_concat]
  rfl

theorem clean_data {i : ℕ} (hi : x.length ≤ 7 + i) : (clean x).data i = 0 :=
  if_neg (by omega)

theorem stale_data (behind : Memory) {i : ℕ} (hi : x.length ≤ 7 + i) :
    (stale behind x).data i = if i < 125 then 1 else if i < 129 then 0 else behind (7 + i) := by
  have h1 : stale behind x (7 + i) = overlay onesFrame (Framer.init behind).uartRecvBuf (7 + i) :=
    if_neg (by omega)
  have hones : onesFrame.length = 132 := by simp [onesFrame]
  unfold UartCmdFormat.data
  rw [h1]
  unfold overlay
  rw [hones]
  rcases Nat.lt_or_ge i 125 with hlt | hge
  · have h3 : 7 + i = i + 4 + 1 + 1 + 1 := by omega
    rw [if_pos (by omega), if_pos hlt, h3, onesFrame, List.getD_cons_succ, List.getD_cons_succ,
      List.getD_cons_succ, List.getD_replicate _ (by omega)]
  · rw [if_neg (by omega), if_neg (by omega)]
    unfold Framer.init sizeofUartCmdFormat uartProcotolMaxLen
    dsimp only
    split_ifs <;> first | rfl | omega

/-- Without a zero among the bytes determined, the string in the data ends behind them: at once over
zeros, and at the last bytes of the buffer over ones. -/
theorem dataStr_unterminated (hx : Accepted x) (hz : 0 ∉ ownData x) (behind : Memory) :
    ∃ s : List UInt8, (∀ b ∈ s, b ≠ 0x25) ∧ s ≠ [] ∧
      dataStr (stale behind x) = dataStr (clean x) ++ s := by
  have hlen := hx.complete.length_eq
  have h4 := hx.le_lenOf
  have hL := hx.complete.lenOf_le
  have hclean := clean_ends hx.complete
  have hstale := stale_ends hx.complete behind
  have hne : lenOf x ≠ 128 := fun h128 => hz (by simp [ownData, h128])
  have hown := hx.length_ownData
  rw [if_neg hne] at hown
  have hown_ne : ∀ i < (ownData x).length, (ownData x).getD i 0 ≠ 0 := by
    intro i hi he
    rw [List.getD_eq_getElem _ _ hi] at he
    exact hz (he ▸ List.getElem_mem hi)
  have hs : dataStr (clean x) = slice (clean x) 7 (lenOf x - 3) := by
    refine cstr_eq (by omega) (clean_data (by omega)) fun i hi => ?_
    change (clean x).data i ≠ 0
    rw [hclean.data hx (by omega)]
    exact hown_ne i (by omega)
  have hs' : dataStr (stale behind x) = slice (stale behind x) 7 125 := by
    refine cstr_eq (by omega) ((stale_data behind (by omega)).trans (by simp)) fun i hi => ?_
    change (stale behind x).data i ≠ 0
    rcases Nat.lt_or_ge i (lenOf x - 3) with hlt | hge
    · rw [hstale.data hx (by omega)]
      exact hown_ne i (by omega)
    · rw [stale_data behind (by omega), if_pos (by omega)]
      decide
  have hpre : slice (stale behind x) 7 (lenOf x - 3) = slice (clean x) 7 (lenOf x - 3) :=
    slice_congr fun i hi => (hclean.agree hstale hx).data (by omega)
  refine ⟨slice (stale behind x) (7 + (lenOf x - 3)) (125 - (lenOf x - 3)), ?_, ?_, ?_⟩
  · intro b hb
    obtain ⟨i, hi, rfl⟩ := List.mem_map.mp hb
    have hi := List.mem_range.mp hi
    rw [Nat.add_assoc]
    change (stale behind x).data (lenOf x - 3 + i) ≠ 0x25
    rw [stale_data behind (by omega), if_pos (by omega)]
    decide
  · intro he
    have := congrArg List.length he
    rw [length_slice, List.length_nil] at this
    omega
  · have hsum : 125 = lenOf x - 3 + (125 - (lenOf x - 3)) := by omega
    rw [hs, hs', hsum, slice_add, hpre]
    simp

theorem word_inj {c c' : UartCmdFormat} {p : ℕ} (h : word c p = word c' p) :
    c.data p = c'.data p ∧ c.data (p + 1) = c'.data (p + 1) := by
  unfold word at h
  rw [← Nat.shiftLeft_add_eq_or_of_lt (c.data (p + 1)).toNat_lt,
    ← Nat.shiftLeft_add_eq_or_of_lt (c'.data (p + 1)).toNat_lt] at h
  exact be16_inj h

theorem cardNo_eq (c : UartCmdFormat) (env : Env) : (httpRecord c env).cardNo = dataStr c := rfl

theorem tallPressure_eq (c : UartCmdFormat) (env : Env) :
    (httpRecord c env).tallPressure = word c ((dataStr c).length + 7) := rfl

theorem lowPressure_eq (c : UartCmdFormat) (env : Env) :
    (httpRecord c env).lowPressure = word c ((dataStr c).length + 9) := rfl

theorem heartRate_eq (c : UartCmdFormat) (env : Env) :
    (httpRecord c env).heartRate = word c ((dataStr c).length + 11) := rfl

/-- The readings of equal records lie at the same place. -/
theorem data_of_readings {c c' : UartCmdFormat} {env : Env} {q j : ℕ}
    (he : httpRecord c env = httpRecord c' env) (hq : (dataStr c).length = q)
    (hq' : (dataStr c').length = q) (h7 : q + 7 ≤ j) (h12 : j ≤ q + 12) : c.data j = c'.data j := by
  have htall := congrArg Record.tallPressure he
  have hlow := congrArg Record.lowPressure he
  have hheart := congrArg Record.heartRate he
  rw [tallPressure_eq, tallPressure_eq, hq, hq'] at htall
  rw [lowPressure_eq, lowPressure_eq, hq, hq'] at hlow
  rw [heartRate_eq, heartRate_eq, hq, hq'] at hheart
  obtain ⟨h7, h8⟩ := word_inj htall
  obtain ⟨h9, h10⟩ := word_inj hlow
  obtain ⟨h11, h12⟩ := word_inj hheart
  obtain ⟨k, rfl⟩ : ∃ k, j = q + 7 + k := ⟨j - (q + 7), by omega⟩
  have hk : k ≤ 5 := by omega
  interval_cases k <;> assumption

/-- A reading behind the bytes determined is 0 over zeros and is not 0 over ones. -/
theorem httpRecord_ne (hx : Accepted x) (env : Env)
    (hq : (ownData x).length ≤ (ownData x).idxOf 0 + 12) :
    httpRecord (clean x) env ≠ httpRecord (stale (filled 1) x) env := by
  intro he
  have hlen := hx.complete.length_eq
  have h4 := hx.le_lenOf
  have hL := hx.complete.lenOf_le
  have hown := hx.length_ownData
  by_cases hz : 0 ∈ ownData x
  · have hlt : (ownData x).length < 2 ^ 32 := by
      rw [hown]
      split_ifs <;> omega
    have hq' : (ownData x).idxOf 0 < (ownData x).length := List.idxOf_lt_length_iff.mpr hz
    obtain ⟨hs, hs'⟩ := ((clean_ends hx.complete).agree (stale_ends hx.complete (filled 1))
      hx).dataStr_eq hz hlt
    have hn : (dataStr (clean x)).length = (ownData x).idxOf 0 := by rw [hs, length_slice]
    have hn' : (dataStr (stale (filled 1) x)).length = (ownData x).idxOf 0 := by rw [hs', hn]
    obtain ⟨q, hqe⟩ : ∃ q, (ownData x).idxOf 0 = q := ⟨_, rfl⟩
    rw [hqe] at hn hn' hq hq'
    have hsame : ∀ j, q + 7 ≤ j → j ≤ q + 12 → (clean x).data j = (stale (filled 1) x).data j :=
      fun j => data_of_readings he hn hn'
    have hone : ∀ j, q + 7 ≤ j → j ≤ q + 12 → x.length ≤ 7 + j → ¬ (125 ≤ j ∧ j < 129) → False := by
      intro j h7 h12 hj hn
      have := hsame j h7 h12
      rw [clean_data hj, stale_data _ hj] at this
      split_ifs at this <;> first | omega | simp [filled] at this
    -- the last reading lies behind the frame, unless it lies in the last bytes of the buffer
    by_cases hlast : 125 ≤ q + 12 ∧ q + 12 < 129
    · split_ifs at hown with h128
      · omega
      · exact hone 124 (by omega) (by omega) (by omega) (by omega)
    · split_ifs at hown with h128
      · exact hone (q + 12) (by omega) (by omega) (by omega) hlast
      · exact hone (q + 12) (by omega) (by omega) (by omega) hlast
  · obtain ⟨s, -, hne, hs⟩ := dataStr_unterminated hx hz (filled 1)
    have hcard := congrArg Record.cardNo he
    rw [cardNo_eq, cardNo_eq, hs] at hcard
    exact hne (by simpa using hcard)

theorem parse_print (va : List UInt8 → List UInt8) {c : UartCmdFormat} (env : Env)
    (h : procotolCheck c = true) (hcmd : c.cmdId = 0x23) : uartProtocolParse va c env =
      .respond ⟨c.sn, c.pdtType, 0x23, printAsk va c env (.start env)⟩ := by
  have hm : ⟨0x23, 0x23, printAsk va⟩ ∈ uartCmdList va := by simp [uartCmdList]
  exact uartProtocolParse_of_mem va env h hm hcmd.symm

theorem parse_httpUpData (va : List UInt8 → List UInt8) {c : UartCmdFormat} (env : Env)
    (h : procotolCheck c = true) (hcmd : c.cmdId = 0x31) :
    uartProtocolParse va c env = .acknowledge c.sn (httpUpDataRsp c env (.start env)) := by
  have hm : ⟨0x31, 0, httpUpDataRsp⟩ ∈ uartCmdList va := by simp [uartCmdList]
  exact uartProtocolParse_of_mem va env h hm hcmd.symm

/-- A text without a zero is printed with what lies behind it. -/
theorem print_ne (hx : Accepted x) {env : Env} (hcmd : x.getD 6 0 = 0x23) (hlp : env.lp0 = false)
    (hz : 0 ∉ ownData x) (behind : Memory) (respdata : UartCmdFormat) :
    seen respdata (uartProtocolParse id (clean x) env) ≠
      seen respdata (uartProtocolParse id (stale behind x) env) := by
  have hlen := hx.complete.length_eq
  have h4 := hx.le_lenOf
  have hclean := clean_ends hx.complete
  have hstale := stale_ends hx.complete behind
  intro he
  have hc : (clean x).cmdId = 0x23 := (hclean.apply_of_lt (by omega)).trans hcmd
  have hc' : (stale behind x).cmdId = 0x23 := (hstale.apply_of_lt (by omega)).trans hcmd
  rw [parse_print id env (hclean.check hx) hc, parse_print id env (hstale.check hx) hc',
    printAsk_eq, printAsk_eq, if_neg (by simp [hlp]), if_neg (by simp [hlp])] at he
  have heff : [Effect.popen (printBuf id (clean x))] =
      [Effect.popen (printBuf id (stale behind x))] :=
    congrArg (fun t => t.2.2) he
  have hbuf : printBuf id (clean x) = printBuf id (stale behind x) := by simpa using heff
  obtain ⟨s, hs, hne, hstr⟩ := dataStr_unterminated hx hz behind
  unfold printBuf at hbuf
  rw [hstr, sprintf_append hs] at hbuf
  exact hne (by simpa using hbuf)

/-- Different records are seen. -/
theorem seen_ne_of_record {behind behind' : Memory} {es es' : List (Option UInt8)}
    {buf buf' : UartCmdFormat} (hx : Accepted x) (h : Ends behind es x buf)
    (h' : Ends behind' es' x buf') (hcmd : x.getD 6 0 = 0x31) {env : Env}
    (hne : httpRecord buf env ≠ httpRecord buf' env) (va : List UInt8 → List UInt8)
    (respdata respdata' : UartCmdFormat) : seen respdata (uartProtocolParse va buf env) ≠
      seen respdata' (uartProtocolParse va buf' env) := by
  have hlen := hx.complete.length_eq
  have h4 := hx.le_lenOf
  intro he
  have hc : buf.cmdId = 0x31 := (h.apply_of_lt (by omega)).trans hcmd
  have hc' : buf'.cmdId = 0x31 := (h'.apply_of_lt (by omega)).trans hcmd
  rw [parse_httpUpData va env (h.check hx) hc, parse_httpUpData va env (h'.check hx) hc',
    httpUpDataRsp_eq, httpUpDataRsp_eq] at he
  have heff : [Effect.postRecordUrl (httpRecord buf env)] =
      [Effect.postRecordUrl (httpRecord buf' env)] := congrArg (fun t => t.2.2) he
  exact hne (by simpa using heff)

end

/-- A `CMD_PRINT` frame with the text `A` and no zero behind it. -/
def printFrame : List UInt8 := [0xC0, 0, 5, 0, 1, 0xA1, 0x23, 0x41, 0x06]

theorem printFrame_accepted : Accepted printFrame :=
  ⟨⟨0, 5, [0, 1, 0xA1, 0x23, 0x41, 0x06], rfl, by decide, by decide⟩, by decide⟩

/-- A frame that asks for the time. -/
def timeSyncFrame : List UInt8 := [0xC0, 0, 4, 0, 1, 0xA1, 0x12, 0xB4]

theorem timeSyncFrame_accepted : Accepted timeSyncFrame :=
  ⟨⟨0, 4, [0, 1, 0xA1, 0x12, 0xB4], rfl, by decide, by decide⟩, by decide⟩

end MultiPortConvertor.Uart.History
