import MultiPortConvertor.Uart.Corruption
import MultiPortConvertor.Uart.History
import MultiPortConvertor.Uart.Answers

/-! # The record of an upload

A `CMD_HTTP_UP_DATA` frame carries a card number as a string, and behind its terminator the zone,
the time and three readings, big-endian. `http_up_data_rsp` finds them by counting on from the
terminator. Whatever the frame carries and whatever the receive buffer held before, one record with
these fields is handed to `post_record_Url` (`upload_record`), under a number one above that of the
record before. -/

namespace MultiPortConvertor.Uart.UploadRecord

open MultiPortConvertor.Lib.Bytes MultiPortConvertor.Lib.CString MultiPortConvertor.Lib.Outcomes
open MultiPortConvertor.Lib.Runs MultiPortConvertor.App.System
open MultiPortConvertor.Uart.Format MultiPortConvertor.Uart.GetData MultiPortConvertor.Uart.Grammar
open MultiPortConvertor.Uart.Handlers MultiPortConvertor.Uart.Parse MultiPortConvertor.Uart.History
open MultiPortConvertor.Uart.Transmit MultiPortConvertor.Uart.TransmitQueues
open MultiPortConvertor.Uart.Refinement MultiPortConvertor.Uart.ParseStatics
open MultiPortConvertor.Uart.Release MultiPortConvertor.Uart.Corruption
open MultiPortConvertor.Uart.Answers

/-! ### The frame -/

/-- What the host uploads; the card number is a string and fits the frame. -/
structure Upload where
  cardNo : List UInt8
  ne_zero : ∀ b ∈ cardNo, b ≠ 0
  length_le : cardNo.length ≤ 111
  zone : UInt16
  time : UInt32
  tallPressure : UInt16
  lowPressure : UInt16
  heartRate : UInt16

/-- Big-endian. -/
def be2 (w : UInt16) : List UInt8 := [(w >>> 8).toUInt8, w.toUInt8]

/-- Big-endian. -/
def be4 (w : UInt32) : List UInt8 :=
  [(w >>> 24).toUInt8, (w >>> 16).toUInt8, (w >>> 8).toUInt8, w.toUInt8]

namespace Upload

variable (u : Upload)

/-- What follows the card number. -/
def fields : List UInt8 :=
  0 :: (be2 u.zone ++ be4 u.time ++ be2 u.tallPressure ++ be2 u.lowPressure ++ be2 u.heartRate)

def payload : List UInt8 := u.cardNo ++ u.fields

/-- What the checksum covers. -/
def body (staParam sn pdtType : UInt8) : List UInt8 := [staParam, sn, pdtType, 0x31] ++ u.payload

/-- The frame, with any header. -/
def frame (staParam sn pdtType : UInt8) : List UInt8 :=
  0xC0 :: UInt8.ofNat ((u.cardNo.length + 17) >>> 8) :: UInt8.ofNat (u.cardNo.length + 17) ::
    (u.body staParam sn pdtType ++ [UInt8.ofNat (byteSum (u.body staParam sn pdtType))])

/-- The zone as `http_up_data_rsp` reads it. -/
def zoneValue : Int16 := Int16.ofNat (u.zone.toNat / 2)

end Upload

/-- **The record `r` says what the host uploaded.** -/
structure Decoded (u : Upload) (r : Record) : Prop where
  cardNo : r.cardNo = u.cardNo
  timeZone : r.timeZone = zoneText u.zoneValue
  measureTime : r.measureTime = measureTimeText (Int32.ofNat u.time.toNat) (zoneText u.zoneValue)
  tallPressure : r.tallPressure = u.tallPressure.toNat
  lowPressure : r.lowPressure = u.lowPressure.toNat
  heartRate : r.heartRate = u.heartRate.toNat

theorem be2_toNat (w : UInt16) :
    (w >>> 8).toUInt8.toNat <<< 8 ||| w.toUInt8.toNat = w.toNat := by
  have h1 : (w >>> 8).toUInt8.toNat = w.toNat / 2 ^ 8 % 2 ^ 8 := by simp [Nat.shiftRight_eq_div_pow]
  have h2 : w.toUInt8.toNat = w.toNat % 2 ^ 8 := by simp
  have hlt := w.toNat_lt
  rw [h1, h2, ← Nat.shiftLeft_add_eq_or_of_lt (Nat.mod_lt _ (by decide)), Nat.shiftLeft_eq]
  omega

theorem be4_toNat (w : UInt32) : ((w >>> 24).toUInt8.toNat <<< 24) +
      ((w >>> 16).toUInt8.toNat <<< 16) +
    ((w >>> 8).toUInt8.toNat <<< 8) + w.toUInt8.toNat = w.toNat := by
  have h1 : (w >>> 24).toUInt8.toNat = w.toNat / 2 ^ 24 % 2 ^ 8 := by
    simp [Nat.shiftRight_eq_div_pow]
  have h2 : (w >>> 16).toUInt8.toNat = w.toNat / 2 ^ 16 % 2 ^ 8 := by
    simp [Nat.shiftRight_eq_div_pow]
  have h3 : (w >>> 8).toUInt8.toNat = w.toNat / 2 ^ 8 % 2 ^ 8 := by simp [Nat.shiftRight_eq_div_pow]
  have h4 : w.toUInt8.toNat = w.toNat % 2 ^ 8 := by simp
  have hlt := w.toNat_lt
  rw [h1, h2, h3, h4, Nat.shiftLeft_eq, Nat.shiftLeft_eq, Nat.shiftLeft_eq]
  omega

/-! ### The frame is read back -/

section

variable {u : Upload} {staParam sn pdtType : UInt8}

theorem length_payload : u.payload.length = u.cardNo.length + 13 := by
  simp [Upload.payload, Upload.fields, be2, be4]

theorem length_body : (u.body staParam sn pdtType).length = u.cardNo.length + 17 := by
  rw [Upload.body, List.length_append, length_payload]
  simp
  omega

theorem lenOf_frame : lenOf (u.frame staParam sn pdtType) = u.cardNo.length + 17 := by
  have := u.length_le
  exact be16_ofNat (by omega)

theorem validFrame_frame : ValidFrame (u.frame staParam sn pdtType) where
  complete := by
    have hle := u.length_le
    have hl : be16 (UInt8.ofNat ((u.cardNo.length + 17) >>> 8))
      (UInt8.ofNat (u.cardNo.length + 17)) =
        u.cardNo.length + 17 := be16_ofNat (by omega)
    refine ⟨_, _, _, rfl, by omega, ?_⟩
    rw [hl, List.length_append, length_body]
    rfl
  four_le := by rw [lenOf_frame]; omega
  check := by
    have hd : ((u.frame staParam sn pdtType).drop 3).take (u.cardNo.length + 17) =
        u.body staParam sn pdtType := List.take_left' length_body
    rw [lenOf_frame, hd]
    unfold Upload.frame
    rw [← List.cons_append, ← List.cons_append, ← List.cons_append, List.getLast?_concat]

/-- The buffer `c` holds the frame of the upload. -/
def HoldsFrame (c : UartCmdFormat) (u : Upload) : Prop :=
  ∃ staParam sn pdtType, c.bytes = u.frame staParam sn pdtType

variable {c : UartCmdFormat}

theorem HoldsFrame.check (h : HoldsFrame c u) : procotolCheck c = true := by
  obtain ⟨staParam, sn, pdtType, hc⟩ := h
  have hv : ValidFrame (u.frame staParam sn pdtType) := validFrame_frame
  rw [← hc] at hv
  exact (procotolCheck_iff_valid hv.complete).mpr hv

/-- A byte of the frame is a byte of the buffer. -/
theorem apply_of_bytes {x : List UInt8} (hc : c.bytes = x) {i : ℕ} (hi : i < x.length) :
    c i = x.getD i 0 := by
  subst hc
  rw [List.getD_eq_getElem _ _ hi, getElem_bytes]

theorem HoldsFrame.cmdId (h : HoldsFrame c u) : c.cmdId = 0x31 := by
  obtain ⟨staParam, sn, pdtType, hc⟩ := h
  exact apply_of_bytes hc (i := 6) (by simp [Upload.frame, Upload.body])

theorem HoldsFrame.data (h : HoldsFrame c u) {i : ℕ} (hi : i < u.cardNo.length + 13) :
    c.data i = u.payload.getD i 0 := by
  obtain ⟨staParam, sn, pdtType, hc⟩ := h
  have hlen : (u.frame staParam sn pdtType).length = u.cardNo.length + 21 := by
    simp [Upload.frame, length_body]
  have hp : i < u.payload.length := by
    rw [length_payload]
    exact hi
  have hframe : u.frame staParam sn pdtType = [0xC0, UInt8.ofNat ((u.cardNo.length + 17) >>> 8),
      UInt8.ofNat (u.cardNo.length + 17), staParam, sn, pdtType, 0x31] ++
      (u.payload ++ [UInt8.ofNat (byteSum (u.body staParam sn pdtType))]) := by
    simp [Upload.frame, Upload.body]
  rw [UartCmdFormat.data, apply_of_bytes hc (by omega), hframe,
    List.getD_append_right _ _ _ _ (by simp), List.length_cons, Nat.add_comm 7 i]
  exact List.getD_append _ _ _ _ hp

/-- What follows the card number. -/
theorem HoldsFrame.field (h : HoldsFrame c u) {i : ℕ} (hi : i < 13) :
    c.data (u.cardNo.length + i) = u.fields.getD i 0 := by
  rw [h.data (by omega), Upload.payload, List.getD_append_right _ _ _ _ (by omega),
    Nat.add_sub_cancel_left]

/-- The string in the frame is the card number. -/
theorem HoldsFrame.dataStr (h : HoldsFrame c u) : Handlers.dataStr c = u.cardNo := by
  have hle := u.length_le
  have hat : ∀ i (hi : i < u.cardNo.length), c (7 + i) = u.cardNo[i] := by
    intro i hi
    have := h.data (i := i) (by omega)
    rw [Upload.payload, List.getD_append _ _ _ _ hi, List.getD_eq_getElem _ _ hi] at this
    exact this
  have hz : c (7 + u.cardNo.length) = 0 := h.field (i := 0) (by omega)
  have hs : Handlers.dataStr c = slice c 7 u.cardNo.length := by
    refine cstr_eq (by omega) hz fun i hi => ?_
    rw [hat i hi]
    exact u.ne_zero _ (List.getElem_mem hi)
  rw [hs]
  refine List.ext_getElem (by simp) fun i h1 h2 => ?_
  rw [getElem_slice, hat i h2]

/-- A word among the fields. -/
theorem HoldsFrame.word (h : HoldsFrame c u) {i : ℕ} {w : UInt16} (hi : i < 12)
    (hmsb : u.fields.getD i 0 = (w >>> 8).toUInt8) (hlsb : u.fields.getD (i + 1) 0 = w.toUInt8) :
    Handlers.word c (u.cardNo.length + i) = w.toNat := by
  rw [Handlers.word, Nat.add_assoc, h.field (by omega), h.field (by omega), hmsb, hlsb, be2_toNat]

/-- **`http_up_data_rsp` finds the fields.** -/
theorem HoldsFrame.decoded (h : HoldsFrame c u) (env : Env) : Decoded u (httpRecord c env) := by
  have hstr := h.dataStr
  have hzone : Handlers.word c (u.cardNo.length + 1) = u.zone.toNat := h.word (by omega) rfl rfl
  have htall : Handlers.word c (u.cardNo.length + 1 + 2 + 4) = u.tallPressure.toNat :=
    h.word (i := 7) (by omega) rfl rfl
  have hlow : Handlers.word c (u.cardNo.length + 1 + 2 + 6) = u.lowPressure.toNat :=
    h.word (i := 9) (by omega) rfl rfl
  have hheart : Handlers.word c (u.cardNo.length + 1 + 2 + 8) = u.heartRate.toNat :=
    h.word (i := 11) (by omega) rfl rfl
  have htime : ((c.data (u.cardNo.length + 1 + 2)).toNat <<< 24) +
      ((c.data (u.cardNo.length + 1 + 2 + 1)).toNat <<< 16) +
      ((c.data (u.cardNo.length + 1 + 2 + 2)).toNat <<< 8) +
      (c.data (u.cardNo.length + 1 + 2 + 3)).toNat = u.time.toNat := by
    simp only [Nat.add_assoc]
    rw [h.field (by omega), h.field (by omega), h.field (by omega), h.field (by omega),
      ← Nat.add_assoc, ← Nat.add_assoc]
    exact be4_toNat u.time
  constructor
  · exact hstr
  · unfold httpRecord
    dsimp only
    rw [hstr, hzone]
    rfl
  · unfold httpRecord
    dsimp only
    rw [hstr, hzone, htime]
    rfl
  · unfold httpRecord
    dsimp only
    rw [hstr, htall]
  · unfold httpRecord
    dsimp only
    rw [hstr, hlow]
  · unfold httpRecord
    dsimp only
    rw [hstr, hheart]

end

/-! ### The numbers of the records -/

/-- The record in what a handler hands on. -/
def recordOf : Effect → Option Record
  | .popen _ => none
  | .postRecordUrl r => some r

/-- The records handed to `post_record_Url` in a run. -/
def records (va : List UInt8 → List UInt8) : Process → List Act → List Record
  | _, [] => []
  | s, a :: as =>
    match s.step va a with
    | .next (t, effects) => effects.filterMap recordOf ++ records va t as
    | _ => []

section

variable {va : List UInt8 → List UInt8} {c : UartCmdFormat} {env : Env} {v v' : Statics} {s s' : Tx}
variable {effects : List Effect}

theorem beginResponse_next {list : UartCmdList} (h : beginResponse list v s = .next (v', s')) :
    v'.dataP = v.dataP ∧ v'.respdatalen = v.respdatalen ∧ v'.httpSendSn = v.httpSendSn := by
  obtain ⟨dataP, -, h⟩ := Outcome.bind_eq_next.mp h
  obtain ⟨⟨b, H⟩, -, h⟩ := Outcome.bind_eq_next.mp h
  cases h
  exact ⟨rfl, rfl, rfl⟩

theorem httpSendSn_end (h : endResponse v s = .next (v', s')) : v'.httpSendSn = v.httpSendSn := by
  obtain ⟨b, -, h⟩ := Outcome.bind_eq_next.mp h
  obtain ⟨t, -, h⟩ := Outcome.bind_eq_next.mp h
  obtain ⟨b', -, h⟩ := Outcome.bind_eq_next.mp h
  obtain ⟨t', -, h⟩ := Outcome.bind_eq_next.mp h
  cases h
  rfl

theorem httpSendSn_mark (h : markEntry v s = .next (v', s')) : v'.httpSendSn = v.httpSendSn := by
  obtain ⟨dataP, -, h⟩ := Outcome.bind_eq_next.mp h
  obtain ⟨t, -, h⟩ := Outcome.bind_eq_next.mp h
  cases h
  rfl

theorem callBack_next {list : UartCmdList} (hv : v.dataP = some c) (hn : v.respdatalen = 0)
    (h : callBack list env v s = .next (v', s', effects)) :
    v'.httpSendSn = (replyOf list c env v).httpSendSn ∧
    effects = (replyOf list c env v).effects := by
  obtain ⟨dataP, hd, h⟩ := Outcome.bind_eq_next.mp h
  obtain ⟨t, -, h⟩ := Outcome.bind_eq_next.mp h
  rw [hv] at hd
  cases hd
  rw [hn] at h
  cases h
  exact ⟨rfl, rfl⟩

/-- What a frame hands on, and the number it leaves, are those of its handler. -/
theorem uartProtocolParse_next
    (h : ParseStatics.uartProtocolParse va c env v s = .next (v', s', effects)) :
    (v'.httpSendSn = v.httpSendSn ∧ effects = []) ∨ ∃ list ∈ uartCmdList va,
      v'.httpSendSn = (replyOf list c env v).httpSendSn ∧
        effects = (replyOf list c env v).effects := by
  unfold ParseStatics.uartProtocolParse at h
  by_cases hc : procotolCheck c = false
  · rw [if_pos hc] at h
    cases h
    exact .inl ⟨rfl, rfl⟩
  rw [if_neg hc] at h
  dsimp only at h
  cases hf : (uartCmdList va).find? fun list => c.cmdId == list.cmdword with
  | none =>
    rw [hf] at h
    cases h
    exact .inl ⟨rfl, rfl⟩
  | some list =>
    refine .inr ⟨list, List.mem_of_find?_eq_some hf, ?_⟩
    rw [hf] at h
    dsimp only at h
    split_ifs at h
    · obtain ⟨⟨v₁, s₁⟩, h₁, h⟩ := Outcome.bind_eq_next.mp h
      obtain ⟨⟨v₂, s₂, es⟩, h₂, h⟩ := Outcome.bind_eq_next.mp h
      obtain ⟨⟨v₃, s₃⟩, h₃, h⟩ := Outcome.bind_eq_next.mp h
      cases h
      obtain ⟨hd, hn, hsn₁⟩ := beginResponse_next h₁
      obtain ⟨hsn, heff⟩ := callBack_next (c := c) hd hn h₂
      have hr : replyOf list c env v₁ = replyOf list c env v := by rw [replyOf, hsn₁]; rfl
      rw [hr] at hsn heff
      exact ⟨(httpSendSn_end h₃).trans hsn, heff⟩
    · obtain ⟨⟨v₂, s₂, es⟩, h₂, h⟩ := Outcome.bind_eq_next.mp h
      obtain ⟨⟨v₃, s₃⟩, h₃, h⟩ := Outcome.bind_eq_next.mp h
      cases h
      obtain ⟨hsn, heff⟩ := callBack_next (c := c) rfl rfl h₂
      exact ⟨(httpSendSn_mark h₃).trans hsn, heff⟩

/-- Only `http_up_data_rsp` hands on a record and changes the number. -/
theorem callback_quiet {list : UartCmdList} (hm : list ∈ uartCmdList va)
    (hne : list.callback ≠ httpUpDataRsp) (c : UartCmdFormat) (env : Env) :
    (list.callback c env (.start env)).httpSendSn = env.httpSendSn ∧
      (list.callback c env (.start env)).effects.filterMap recordOf = [] := by
  have hque : ∀ (bs : List UInt8) (r : Reply), r.httpSendSn = env.httpSendSn ∧ r.effects = [] →
      (bs.foldl (queStaStep env) r).httpSendSn = env.httpSendSn ∧
        (bs.foldl (queStaStep env) r).effects = [] := by
    intro bs
    induction bs with
    | nil => exact fun r hr => hr
    | cons b bs ih =>
      intro r hr
      rw [List.foldl_cons]
      refine ih _ ?_
      unfold queStaStep
      split_ifs
      · exact hr
      · exact hr
  by_cases hack : list.ackword = 0
  · rcases mem_uartCmdList_rsp va hm hack with rfl | ⟨-, hc⟩
    · exact absurd rfl hne
    · rw [hc]
      exact ⟨rfl, rfl⟩
  · rcases mem_uartCmdList_ack va hm hack with rfl | rfl | rfl | rfl
    · have hfold := hque ((List.range ((c.len + (2 ^ 32 - 4)) % 2 ^ 32)).map c.data) (.start env)
        ⟨rfl, rfl⟩
      rw [List.foldl_map] at hfold
      obtain ⟨h1, h2⟩ := hfold
      refine ⟨h1, ?_⟩
      have he : (queStaRsp c env (.start env)).effects = [] := h2
      dsimp only
      rw [he]
      rfl
    · dsimp only
      rw [timeSyncRsp_eq]
      exact ⟨rfl, rfl⟩
    · dsimp only
      rw [drvPoweronRsp_eq]
      exact ⟨rfl, rfl⟩
    · dsimp only
      rw [printAsk_eq]
      split_ifs
      · exact ⟨rfl, rfl⟩
      · exact ⟨rfl, rfl⟩

/-- **A step hands on no record and keeps the number, or one record under it**, and goes on to the
next. -/
theorem records_step {p t : Process} {a : Act} (h : p.step va a = .next (t, effects)) :
    (t.statics.httpSendSn = p.statics.httpSendSn ∧ effects.filterMap recordOf = []) ∨
      ∃ r, t.statics.httpSendSn = p.statics.httpSendSn + 1 ∧ effects.filterMap recordOf = [r] ∧
        r.queueNum = toString p.statics.httpSendSn.toNat := by
  cases a with
  | frame c env =>
    rcases uartProtocolParse_next (step_frame h) with ⟨hsn, rfl⟩ | ⟨list, hm, hsn, rfl⟩
    · exact .inl ⟨hsn, rfl⟩
    · by_cases hc : list.callback = httpUpDataRsp
      · refine .inr ⟨httpRecord c { env with httpSendSn := p.statics.httpSendSn }, ?_, ?_, rfl⟩
        · rw [hsn, replyOf, hc]
          rfl
        · rw [replyOf, hc]
          rfl
      · obtain ⟨h1, h2⟩ :=
          callback_quiet hm hc c { env with httpSendSn := p.statics.httpSendSn }
        exact .inl ⟨hsn.trans h1, h2⟩
  | task a =>
    cases a with
    | recv q => cases h
    | dispose _ | pollLock | pollEntry | pollUnlock | take | write _ | test =>
      obtain ⟨⟨u, es⟩, -, h⟩ := Outcome.bind_eq_next.mp h
      cases h
      exact .inl ⟨rfl, rfl⟩

/-- Over a run: no record and the number as before, or the last record has the number below the
next. -/
theorem records_run : ∀ {as : List Act} {p t : Process}, exec (Process.next va) p as = some t →
    (records va p as = [] ∧ t.statics.httpSendSn = p.statics.httpSendSn) ∨
      ∃ r, (records va p as).getLast? = some r ∧
        r.queueNum = toString (t.statics.httpSendSn - 1).toNat
  | [], p, t, h => by
    obtain rfl := Option.some.inj h
    exact .inl ⟨rfl, rfl⟩
  | a :: as, p, t, h => by
    obtain ⟨u, hu, h⟩ := Option.bind_eq_some_iff.mp h
    obtain ⟨effects, hs⟩ := next_eq_some.mp hu
    have hrec : records va p (a :: as) = effects.filterMap recordOf ++ records va u as := by
      rw [records, hs]
    rw [hrec]
    rcases records_run h with ⟨hnil, hsn⟩ | ⟨r, hlast, hnum⟩
    · rw [hnil, List.append_nil, hsn]
      rcases records_step hs with ⟨hsn', heff⟩ | ⟨r, hsn', heff, hnum⟩
      · exact .inl ⟨heff, hsn'⟩
      · refine .inr ⟨r, by rw [heff]; rfl, ?_⟩
        rw [hnum, hsn', UInt8.add_sub_cancel]
    · exact .inr ⟨r, by rw [List.getLast?_append, hlast]; rfl, hnum⟩

end

/-! ### From the bytes to the record -/

/-- The send list is a list of buffers. -/
def Linked (s : Tx) : Prop := ∃ q, Rep s q ∧ ∀ b ∈ q.list, b < uartSendBufNum

theorem acknowledge_linked {s : Tx} (hs : Linked s) (hl : s.locked = false) (sn : UInt8) :
    ∃ x, acknowledge sn s = .next x := by
  obtain ⟨q, hr, hlt⟩ := hs
  have hlen := length_le_of_lt (nodup_of_rep hr) hlt
  have hloop := ackLoop_eq (s := s) sn (l := []) (r := q.list) (uartSendBufNum + 1) hr.lists
    (by omega)
  unfold acknowledge
  rw [if_neg (by simp [hl]), hr.lists.next_head, hloop]
  cases q.list.find? fun b => (s.mem b).cmd.sn = sn with
  | none => exact ⟨_, rfl⟩
  | some b => exact ⟨_, rfl⟩

/-- **The record of an upload.** The bytes of a `CMD_HTTP_UP_DATA` frame, received from between two
frames and with reads failing anywhere, are delivered as one frame, which is accepted; handling it,
after any run of the process, hands one record to `post_record_Url`, which says what the host
uploaded, and whose number is one above that of the record before, modulo 256. Nothing keeps the
handling from its end but the lock. -/
theorem upload_record (va : List UInt8 → List UInt8) {f : Framer} (hf : f.Idle) (u : Upload)
    (staParam sn pdtType : UInt8) {es : List (Option UInt8)}
    (hes : bytesOf es = u.frame staParam sn pdtType) :
    ∃ c, (uartRecvTsk f es).1 = [c] ∧ procotolCheck c = true ∧
      ∀ (p₀ p : Process) (before : List Act), exec (Process.next va) p₀ before = some p →
        ∀ env, (p.tx.locked = false → Linked p.tx → ∃ x, p.step va (.frame c env) = .next x) ∧
          ∀ t effects, p.step va (.frame c env) = .next (t, effects) →
            ∃ r, effects = [.postRecordUrl r] ∧ Decoded u r ∧
              ∀ r', (records va p₀ before).getLast? = some r' → ∃ n : UInt8,
                r'.queueNum = toString n.toNat ∧ r.queueNum = toString (n + 1).toNat := by
  have hcomplete : ∀ x ∈ [u.frame staParam sn pdtType], Complete x := fun x hx => by
    rw [List.mem_singleton.mp hx]
    exact validFrame_frame.complete
  have hmap := uartRecvTsk_flatten hf hcomplete (by simpa using hes)
  obtain ⟨c, hc, hbytes⟩ := List.map_eq_singleton_iff.mp hmap
  have hh : HoldsFrame c u := ⟨staParam, sn, pdtType, hbytes⟩
  refine ⟨c, hc, hh.check, fun p₀ p before hp env => ?_⟩
  have hparse := uartProtocolParse_eq va c env p.statics p.tx
    (parse_httpUpData va { env with httpSendSn := p.statics.httpSendSn } hh.check hh.cmdId)
      (by simp)
  constructor
  · intro hl hlinked
    obtain ⟨x, hx⟩ := acknowledge_linked hlinked hl c.sn
    rw [recv, hx] at hparse
    exact ⟨_, by rw [Process.step, hparse]; rfl⟩
  · intro t effects h
    rw [step_frame h] at hparse
    obtain ⟨x, -, hx⟩ := Outcome.bind_eq_next.mp hparse.symm
    obtain ⟨-, -, rfl⟩ : _ ∧ _ ∧ _ = effects := by simpa using hx
    refine ⟨_, rfl, hh.decoded _, fun r' hr' => ⟨p.statics.httpSendSn - 1, ?_, ?_⟩⟩
    · rcases records_run hp with ⟨hnil, -⟩ | ⟨r, hlast, hnum⟩
      · rw [hnil] at hr'
        cases hr'
      · rw [hr'] at hlast
        cases hlast
        exact hnum
    · rw [UInt8.sub_add_cancel]
      rfl

/-- An upload with zero bytes and a `0xC0` among its readings. -/
def uploadSample : Upload where
  cardNo := [0x34, 0x32]
  ne_zero := by simp
  length_le := by decide
  zone := 16
  time := 1500000000
  tallPressure := 0xC0
  lowPressure := 80
  heartRate := 0x0100

/-- The theorem applied to it, at the start of the process. -/
theorem upload_record_sample :
    ∃ c, (uartRecvTsk (Framer.init (filled 0)) ((uploadSample.frame 0 9 0xA1).map some)).1 = [c] ∧
      procotolCheck c = true ∧ ∃ t r,
        Process.step id ⟨Statics.init, txInit⟩ (.frame c envInit) = .next (t, [.postRecordUrl r]) ∧
          r.tallPressure = 192 ∧ r.lowPressure = 80 ∧ r.heartRate = 256 := by
  obtain ⟨c, hc, hcheck, h⟩ := upload_record id (idle_init (filled 0)) uploadSample 0 9 0xA1
    (bytesOf_map_some _)
  obtain ⟨hgo, hrec⟩ := h ⟨Statics.init, txInit⟩ ⟨Statics.init, txInit⟩ [] rfl envInit
  have hlinked : Linked txInit := by
    have hr := rep_start uartContextInit_txInit
    exact ⟨_, hr, by simp [start, Queues.list]⟩
  obtain ⟨⟨t, effects⟩, ht⟩ := hgo (by decide +kernel) hlinked
  obtain ⟨r, rfl, hd, -⟩ := hrec t effects ht
  exact ⟨c, hc, hcheck, t, r, ht, hd.tallPressure, hd.lowPressure, hd.heartRate⟩

end MultiPortConvertor.Uart.UploadRecord
