import MultiPortConvertor.Uart.Grammar
import Mathlib.Tactic.IntervalCases

/-! # The encoder of `uart_protocol_dispose`

`disposeFrame` is what `uart_protocol_dispose` writes into the frame of the buffer it has taken, for
a `uart_send_info_t` and the value of `uart_send_sn`; `IsFrame` is the finished frame. Encoder,
framer and check agree: the frame, sent back with the receive head, is delivered, accepted, and
decodes to what was encoded (`disposeFrame_roundTrip`). -/

namespace MultiPortConvertor.Uart.Dispose

open MultiPortConvertor.Lib.Bytes MultiPortConvertor.Uart.Format MultiPortConvertor.Uart.GetData
open MultiPortConvertor.Uart.Grammar

/-- `uart_send_info_t`; `len` is a `__u32`. -/
structure UartSendInfo where
  cmdId : UInt8
  len : ℕ
  pdtType : UInt8
  data : Memory
  pollType : UInt8

/-- A notification with one byte of data; the other bytes of `info.data` are not read. -/
def byteNtf (cmdId : UInt8) (pollType : UInt8) (byte : UInt8) : UartSendInfo :=
  ⟨cmdId, 1, 0xA1, filled byte, pollType⟩

/-- `err_sta_ntf`. -/
def errStaNtf (state course err : UInt8) : UartSendInfo :=
  ⟨0x1F, 3, 0xFF, store (store (filled state) 1 course) 2 err, 0⟩

/-- `hid_insert_ntf`. -/
def hidInsertNtf (devType : UInt8) : UartSendInfo := byteNtf 0x20 1 devType

/-- `hid_pullout_ntf`. -/
def hidPulloutNtf (devType : UInt8) : UartSendInfo := byteNtf 0x21 1 devType

/-- `hid_data_ntf`: the type of the device and `length` characters. -/
def hidDataNtf (data : Memory) (length : ℕ) (devType : UInt8) : UartSendInfo :=
  ⟨0x22, length + 1, 0xA1, copy (filled devType) 1 data length, 1⟩

/-- `http_up_data_ntf`. -/
def httpUpDataNtf (state : UInt8) : UartSendInfo := byteNtf 0x31 0 state

/-- `setresplen( len )`. -/
def setresplen (respdata : UartCmdFormat) (len : ℕ) : UartCmdFormat :=
  store (store respdata 1 (UInt8.ofNat (len >>> 8))) 2 (UInt8.ofNat len)

/-- The statements of `uart_protocol_dispose` up to the command word: the header. -/
def disposeHeader (info : UartSendInfo) (uartSendSn : UInt8) (respdata : UartCmdFormat) :
    UartCmdFormat :=
  let c := store respdata 0 0xD0
  let protocolLen := (info.len + 4) % 2 ^ 32
  let c := setresplen c protocolLen
  let c := store c 3 0
  let c := store c 4 uartSendSn
  let c := store c 5 info.pdtType
  store c 6 info.cmdId

/-- The `memcpy` of the data. -/
def disposeData (info : UartSendInfo) (respdata : UartCmdFormat) : UartCmdFormat :=
  if info.len ≠ 0 then copy respdata 7 info.data info.len else respdata

/-- What `uart_protocol_dispose` writes into the frame `respdata`. -/
def disposeFrame (info : UartSendInfo) (uartSendSn : UInt8) (respdata : UartCmdFormat) :
    UartCmdFormat :=
  let c := disposeData info (disposeHeader info uartSendSn respdata)
  let protocolLen := (info.len + 4) % 2 ^ 32
  store c (7 + info.len) (checkSumCal (UartCmdFormat.fromStaParam c) protocolLen)

/-- **The finished frame** of `info` under the sequence number `sn`. -/
structure IsFrame (info : UartSendInfo) (sn : UInt8) (c : UartCmdFormat) : Prop where
  head : c.head = 0xD0
  len : c.len = info.len + 4
  staParam : c.staParam = 0
  sn : c.sn = sn
  pdtType : c.pdtType = info.pdtType
  cmdId : c.cmdId = info.cmdId
  data : ∀ i < info.len, c.data i = info.data i
  check : c.data info.len = checkSumCal c.fromStaParam c.len

variable {info : UartSendInfo} {sn : UInt8} {c : UartCmdFormat}

theorem len_setresplen (c : UartCmdFormat) {n : ℕ} (hn : n < 65536) :
    (setresplen c n).len = n := by
  have h1 : (setresplen c n).lengthMsb = UInt8.ofNat (n >>> 8) := by
    simp [setresplen, UartCmdFormat.lengthMsb]
  have h2 : (setresplen c n).lengthLsb = UInt8.ofNat n := by
    simp [setresplen, UartCmdFormat.lengthLsb]
  rw [UartCmdFormat.len, h1, h2, be16_ofNat hn]

/-- The data is written behind the header. -/
theorem disposeData_of_lt {i : ℕ} (hi : i < 7) : disposeData info c i = c i := by
  unfold disposeData
  split_ifs
  · rw [copy_apply, if_neg (by omega)]
  · rfl

theorem disposeData_data {i : ℕ} (hi : i < info.len) :
    disposeData info c (7 + i) = info.data i := by
  rw [disposeData, if_pos (by omega), copy_apply, if_pos (by omega), Nat.add_sub_cancel_left]

/-- Every byte but the checksum is there before the checksum is. -/
theorem disposeFrame_of_lt {i : ℕ} (hi : i < 7 + info.len) : disposeFrame info sn c i =
    disposeData info (disposeHeader info sn c) i := by
  rw [disposeFrame, store_of_ne (by omega)]

theorem disposeFrame_header {i : ℕ} (hi : i < 7) :
    disposeFrame info sn c i = disposeHeader info sn c i := by
  rw [disposeFrame_of_lt (by omega), disposeData_of_lt hi]

theorem disposeFrame_len (hlen : info.len + 4 < 65536) :
    (disposeFrame info sn c).len = info.len + 4 := by
  have hmod : (info.len + 4) % 2 ^ 32 = info.len + 4 := by omega
  rw [← len_setresplen (store c 0 0xD0) hlen]
  unfold UartCmdFormat.len UartCmdFormat.lengthMsb UartCmdFormat.lengthLsb
  rw [disposeFrame_header (by omega), disposeFrame_header (by omega)]
  unfold disposeHeader
  rw [hmod]
  simp

theorem disposeFrame_isFrame (info : UartSendInfo) (hlen : info.len + 4 < 65536) (sn : UInt8)
    (c : UartCmdFormat) : IsFrame info sn (disposeFrame info sn c) where
  head := (disposeFrame_header (by omega)).trans (by simp [disposeHeader, setresplen])
  len := disposeFrame_len hlen
  staParam := (disposeFrame_header (by omega)).trans (by simp [disposeHeader])
  sn := (disposeFrame_header (by omega)).trans (by simp [disposeHeader])
  pdtType := (disposeFrame_header (by omega)).trans (by simp [disposeHeader])
  cmdId := (disposeFrame_header (by omega)).trans (by simp [disposeHeader])
  data := fun i hi => (disposeFrame_of_lt (by omega)).trans (disposeData_data hi)
  check := by
    have hmod : (info.len + 4) % 2 ^ 32 = info.len + 4 := by omega
    have hsum : checkSumCal (UartCmdFormat.fromStaParam (disposeFrame info sn c)) (info.len + 4) =
        checkSumCal (UartCmdFormat.fromStaParam (disposeData info (disposeHeader info sn c)))
          (info.len + 4) :=
      checkSumCal_congr fun i hi => disposeFrame_of_lt (by omega)
    rw [disposeFrame_len hlen, hsum, UartCmdFormat.data, disposeFrame, store_self, hmod]

theorem IsFrame.getresplen (h : IsFrame info sn c) : c.getresplen = info.len + 8 := by
  rw [UartCmdFormat.getresplen, h.len]

/-- The finished frame is determined by what it carries. -/
theorem IsFrame.bytes_eq (h : IsFrame info sn c) {c' : UartCmdFormat} (h' : IsFrame info sn c') :
    c.bytes = c'.bytes := by
  have hlen : c 1 = c' 1 ∧ c 2 = c' 2 := be16_inj (h.len.trans h'.len.symm)
  have hdata : ∀ i < info.len, c (7 + i) = c' (7 + i) := fun i hi =>
    (h.data i hi).trans (h'.data i hi).symm
  have hbody : ∀ i < info.len + 7, c i = c' i := by
    intro i hi
    rcases Nat.lt_or_ge i 7 with h7 | h7
    · interval_cases i
      · exact h.head.trans h'.head.symm
      · exact hlen.1
      · exact hlen.2
      · exact h.staParam.trans h'.staParam.symm
      · exact h.sn.trans h'.sn.symm
      · exact h.pdtType.trans h'.pdtType.symm
      · exact h.cmdId.trans h'.cmdId.symm
    · obtain ⟨j, rfl⟩ : ∃ j, i = 7 + j := ⟨i - 7, by omega⟩
      exact hdata j (by omega)
  have hsum : checkSumCal c.fromStaParam c.len = checkSumCal c'.fromStaParam c'.len := by
    rw [h.len, h'.len]
    exact checkSumCal_congr fun i hi => hbody (3 + i) (by omega)
  have hcheck : c (7 + info.len) = c' (7 + info.len) := h.check.trans (hsum.trans h'.check.symm)
  unfold UartCmdFormat.bytes
  rw [h.getresplen, h'.getresplen]
  refine slice_congr fun i hi => ?_
  rw [Nat.zero_add]
  rcases Nat.lt_or_ge i (info.len + 7) with hlt | hge
  · exact hbody i hlt
  · obtain rfl : i = 7 + info.len := by omega
    exact hcheck

/-- The frame as the peer sends it back: with the receive head. -/
theorem IsFrame.received (h : IsFrame info sn c) : (0xC0 : UInt8) :: c.bytes.tail =
    slice (store c 0 0xC0) 0 (info.len + 8) := by
  have hs : slice (store c 0 0xC0) (0 + 1) (info.len + 7) = slice c (0 + 1) (info.len + 7) :=
    slice_congr fun i _ => store_of_ne (by omega) _
  rw [UartCmdFormat.bytes, h.getresplen, slice_succ_left, List.tail_cons, ← hs,
    slice_succ_left (m := store c 0 0xC0) (n := info.len + 7), store_self]

theorem IsFrame.complete (h : IsFrame info sn c) (hlen : info.len ≤ 124) :
    Complete (slice (store c 0 0xC0) 0 (info.len + 8)) := by
  refine ⟨c 1, c 2, slice c 3 (info.len + 5), ?_, ?_, ?_⟩
  · have hs : slice (store c 0 0xC0) (0 + 3) (info.len + 5) = slice c (0 + 3) (info.len + 5) :=
      slice_congr fun i _ => store_of_ne (by omega) _
    rw [show info.len + 8 = 3 + (info.len + 5) by omega, slice_add, hs]
    simp [slice_succ]
  · have : be16 (c 1) (c 2) = info.len + 4 := h.len
    omega
  · have : be16 (c 1) (c 2) = info.len + 4 := h.len
    rw [length_slice]
    omega

/-- A buffer that starts with the frame, whatever its head, decodes to what was encoded. -/
theorem IsFrame.decode (h : IsFrame info sn c) {buf : UartCmdFormat}
    (hbuf : ∀ i, 1 ≤ i → i < info.len + 8 → buf i = c i) :
    procotolCheck buf = true ∧ buf.sn = sn ∧ buf.pdtType = info.pdtType ∧
      buf.cmdId = info.cmdId ∧ buf.len = info.len + 4 ∧
      slice buf 7 info.len = slice info.data 0 info.len := by
  have hl : buf.len = info.len + 4 := by
    rw [← h.len]
    unfold UartCmdFormat.len UartCmdFormat.lengthMsb UartCmdFormat.lengthLsb
    rw [hbuf 1 (by omega) (by omega), hbuf 2 (by omega) (by omega)]
  have hcheck : procotolCheck buf = true := by
    have hsum : checkSumCal buf.fromStaParam (info.len + 4) =
        checkSumCal c.fromStaParam (info.len + 4) :=
      checkSumCal_congr fun i hi => hbuf (3 + i) (by omega) (by omega)
    rw [procotolCheck_iff, hl, hsum, Nat.add_sub_cancel, UartCmdFormat.data,
      hbuf (7 + info.len) (by omega) (by omega), ← h.len]
    exact ⟨by rw [h.len]; omega, h.check⟩
  have hdata : slice buf 7 info.len = slice info.data 0 info.len := by
    refine List.ext_getElem (by simp) fun i h1 _ => ?_
    rw [length_slice] at h1
    rw [getElem_slice, getElem_slice, Nat.zero_add]
    exact (hbuf (7 + i) (by omega) (by omega)).trans (h.data i h1)
  refine ⟨hcheck, ?_, ?_, ?_, hl, hdata⟩
  · exact (hbuf 4 (by omega) (by omega)).trans h.sn
  · exact (hbuf 5 (by omega) (by omega)).trans h.pdtType
  · exact (hbuf 6 (by omega) (by omega)).trans h.cmdId

/-- **The round trip.** After any stream that left the framer idle, the bytes of the frame with the
receive head, however the reads of them fail in between, are delivered as exactly one frame, which
is accepted and decodes to the values encoded. -/
theorem disposeFrame_roundTrip (info : UartSendInfo) (hlen : info.len ≤ 124) (uartSendSn : UInt8)
    (respdata : UartCmdFormat) (behind : Memory) (es es' : List (Option UInt8))
    (hidle : (uartRecvTsk (Framer.init behind) es).2.Idle)
    (hes' : bytesOf es' = 0xC0 :: (disposeFrame info uartSendSn respdata).bytes.tail) :
    ∃ buf : UartCmdFormat, (uartRecvTsk (Framer.init behind) (es ++ es')).1 =
        (uartRecvTsk (Framer.init behind) es).1 ++ [buf] ∧
      procotolCheck buf = true ∧ buf.sn = uartSendSn ∧ buf.pdtType = info.pdtType ∧
      buf.cmdId = info.cmdId ∧ buf.len = info.len + 4 ∧
      slice buf 7 info.len = slice info.data 0 info.len := by
  have hf := disposeFrame_isFrame info (by omega) uartSendSn respdata
  obtain ⟨c, hc⟩ : ∃ c, c = disposeFrame info uartSendSn respdata := ⟨_, rfl⟩
  obtain ⟨f, hfr⟩ : ∃ f, f = (uartRecvTsk (Framer.init behind) es).2 := ⟨_, rfl⟩
  rw [← hc] at hf hes'
  rw [← hfr] at hidle
  rw [hf.received] at hes'
  obtain ⟨hone, -, -⟩ := uartRecvTsk_frame hidle hes' (hf.complete hlen)
  have hbuf : ∀ i, 1 ≤ i → i < info.len + 8 →
      overlay (slice (store c 0 0xC0) 0 (info.len + 8)) f.uartRecvBuf i = c i := by
    intro i h1 hi
    have hs := slice_overlay (slice (store c 0 0xC0) 0 (info.len + 8)) f.uartRecvBuf
    rw [length_slice] at hs
    rw [eq_of_slice_eq hs hi, store_of_ne (by omega)]
  refine ⟨_, ?_, hf.decode hbuf⟩
  rw [uartRecvTsk_append]
  dsimp only
  rw [← hfr, hone]

/-- The theorem applied to one byte of data, a `0xC0`, behind a stream of one stray byte. -/
theorem disposeFrame_roundTrip_one : ∃ buf : UartCmdFormat,
    (uartRecvTsk (Framer.init (filled 0)) ([some 7] ++
        [0xC0, 0, 5, 0, 9, 0xA1, 0x20, 0xC0, 0x8A].map some)).1 =
      (uartRecvTsk (Framer.init (filled 0)) [some 7]).1 ++ [buf] ∧
    procotolCheck buf = true ∧ buf.sn = 9 ∧ buf.pdtType = 0xA1 ∧ buf.cmdId = 0x20 ∧
    buf.len = 5 ∧ slice buf 7 1 = [0xC0] :=
  disposeFrame_roundTrip ⟨0x20, 1, 0xA1, filled 0xC0, 1⟩ (by decide) 9 (filled 0)
    (filled 0) [some 7]
    ([0xC0, 0, 5, 0, 9, 0xA1, 0x20, 0xC0, 0x8A].map some)
    (by simp [uartRecvTsk_cons, onByte, Framer.Idle, Framer.init]) (by decide)

end MultiPortConvertor.Uart.Dispose
