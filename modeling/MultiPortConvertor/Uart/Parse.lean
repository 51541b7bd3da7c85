import MultiPortConvertor.Uart.Handlers
import Mathlib.Data.List.Nodup

/-! # The dispatcher `uart_protocol_parse`

The command table and what `uart_protocol_parse` does with a received frame: nothing, queue a
response, or mark an entry of the send list and hand on what the handler made. A response carries
the payload of its handler behind the header (`Response.frame_apply`), so it fits the frame as long
as that payload has at most 124 bytes, which `que_sta_rsp` alone can exceed
(`uartProtocolParse_fits_iff`). -/

namespace MultiPortConvertor.Uart.Parse

open MultiPortConvertor.Lib.Bytes MultiPortConvertor.Uart.Format MultiPortConvertor.Uart.GetData
open MultiPortConvertor.Uart.Grammar MultiPortConvertor.Uart.Dispose
open MultiPortConvertor.Uart.Handlers MultiPortConvertor.App.System

/-- `uart_cmd_list_t`; no callback looks at the parameters split off by `argvlist`. -/
structure UartCmdList where
  cmdword : UInt8
  ackword : UInt8
  callback : Callback

def uartCmdList (va : List UInt8 → List UInt8) : List UartCmdList :=
  [⟨0x10, 0, poweronRsp⟩,
   ⟨0x11, 0x11, queStaRsp⟩,
   ⟨0x12, 0x12, timeSyncRsp⟩,
   ⟨0x13, 0x13, drvPoweronRsp⟩,
   ⟨0x20, 0, hidInsertRsp⟩,
   ⟨0x21, 0, hidPulloutRsp⟩,
   ⟨0x22, 0, hidDataRsp⟩,
   ⟨0x24, 0, printStaRsp⟩,
   ⟨0x23, 0x23, printAsk va⟩,
   ⟨0x31, 0, httpUpDataRsp⟩]

/-- A response: what it takes from the command, and what the handler left behind. -/
structure Response where
  sn : UInt8
  pdtType : UInt8
  ackword : UInt8
  reply : Reply

/-- What `uart_protocol_parse` does with a frame. -/
inductive Parsed where
  | dropped
  | respond (r : Response)
  | acknowledge (sn : UInt8) (reply : Reply)

/-- The entry of the table that the command word selects, at work. -/
def UartCmdList.handle (list : UartCmdList) (c : UartCmdFormat) (env : Env) : Parsed :=
  let reply := list.callback c env (.start env)
  if list.ackword ≠ 0 then .respond ⟨c.sn, c.pdtType, list.ackword, reply⟩
  else .acknowledge c.sn reply

/-- `uart_protocol_parse`, up to the send list. -/
def uartProtocolParse (va : List UInt8 → List UInt8) (c : UartCmdFormat) (env : Env) : Parsed :=
  if procotolCheck c = false then .dropped
  else match (uartCmdList va).find? fun list => c.cmdId == list.cmdword with
    | none => .dropped
    | some list => list.handle c env

namespace Response

/-- `Respdatalen` at the end. -/
def respdatalen (r : Response) : ℕ := (r.reply.respdatalen + 4) % 2 ^ 16

/-- The header of the response, but for its length. -/
def header (r : Response) (respdata : UartCmdFormat) : UartCmdFormat :=
  let c := store respdata 0 0xD0
  let c := store c 3 0
  let c := store c 4 r.sn
  let c := store c 5 r.pdtType
  store c 6 r.ackword

/-- The writes of the handler to `Respdata->data`. -/
def writeData (writes : List (ℕ × UInt8)) (respdata : UartCmdFormat) : UartCmdFormat :=
  writes.foldl (fun c w => store c (7 + w.1) w.2) respdata

/-- What `uart_protocol_parse` writes into the frame `respdata` of the buffer it has taken. -/
def frame (r : Response) (respdata : UartCmdFormat) : UartCmdFormat :=
  let c := writeData r.reply.writes (r.header respdata)
  let c := setresplen c r.respdatalen
  store c (7 + (r.respdatalen - 4)) (checkSumCal (UartCmdFormat.fromStaParam c) r.respdatalen)

/-- The indices of `Respdata->data` written: those of the payload and that of the checksum. -/
def indices (r : Response) : List ℕ := r.reply.writes.map Prod.fst ++ [r.respdatalen - 4]

/-- **The response fits**: it writes inside `data`, and its length is one that the framer accepts.
-/
def Fits (r : Response) : Prop :=
  (∀ i ∈ r.indices, i < uartProcotolMaxLen) ∧ ∀ respdata, (r.frame respdata).len ≤ 128

end Response

/-! ### The frame of a response -/

/-- The bytes of a payload written in order. -/
theorem writeData_packed (c : UartCmdFormat) (p : List UInt8) : ∀ (k i : ℕ),
    Response.writeData ((p.zipIdx k).map fun b => (b.2, b.1)) c i =
      if 7 + k ≤ i ∧ i < 7 + k + p.length then p.getD (i - (7 + k)) 0 else c i := by
  induction p generalizing c with
  | nil =>
    intro k i
    rw [if_neg (by rw [List.length_nil]; omega)]
    rfl
  | cons b p ih =>
    intro k i
    have hstep : Response.writeData (((b :: p).zipIdx k).map fun b => (b.2, b.1)) c =
        Response.writeData ((p.zipIdx (k + 1)).map fun b => (b.2, b.1)) (store c (7 + k) b) := rfl
    rw [hstep, ih, store_apply, List.length_cons]
    rcases Nat.lt_trichotomy i (7 + k) with h | h | h
    · rw [if_neg (by omega), if_neg (by omega), if_neg (by omega)]
    · subst h
      rw [if_neg (by omega), if_pos rfl, if_pos (by omega)]
      simp
    · obtain ⟨j, rfl⟩ : ∃ j, i = 7 + k + (j + 1) := ⟨i - (7 + k) - 1, by omega⟩
      have hj : 7 + k + (j + 1) - (7 + (k + 1)) = j := by omega
      have hj' : 7 + k + (j + 1) - (7 + k) = j + 1 := by omega
      rw [hj, hj', List.getD_cons_succ]
      by_cases hlt : j < p.length
      · rw [if_pos (by omega), if_pos (by omega)]
      · rw [if_neg (by omega), if_neg (by omega), if_neg (by omega)]

namespace Response

variable {r : Response} {p : List UInt8} {sn : UInt8} {effects : List Effect}

/-- The response has the payload `p`. -/
structure Carries (r : Response) (p : List UInt8) : Prop where
  writes : r.reply.writes = p.zipIdx.map fun b => (b.2, b.1)
  respdatalen : r.reply.respdatalen = p.length
  lt : p.length + 4 < 2 ^ 16

/-- What a response with the payload `p` sends. -/
def info (r : Response) (p : List UInt8) : UartSendInfo where
  cmdId := r.ackword
  len := p.length
  pdtType := r.pdtType
  data := fun i => p.getD i 0
  pollType := 0

theorem Carries.respdatalen_eq (h : r.Carries p) : r.respdatalen = p.length + 4 := by
  have := h.lt
  rw [Response.respdatalen, h.respdatalen, Nat.mod_eq_of_lt this]

theorem Carries.indices_eq (h : r.Carries p) : r.indices = List.range (p.length + 1) := by
  unfold indices
  rw [h.writes, h.respdatalen_eq, List.range_succ, Nat.add_sub_cancel, List.map_map]
  congr 1
  exact (List.zipIdx_map_snd 0 p).trans (List.range_eq_range' ..).symm

/-- The frame before its checksum: the header but for its length, the length, the payload. -/
theorem Carries.body_apply (h : r.Carries p) (c : UartCmdFormat) (i : ℕ) :
    setresplen (writeData r.reply.writes (r.header c)) r.respdatalen i =
      if i = 2 then UInt8.ofNat (p.length + 4) else if i = 1 then UInt8.ofNat ((p.length + 4) >>> 8)
      else if 7 ≤ i ∧ i < 7 + p.length then p.getD (i - 7) 0 else r.header c i := by
  rw [setresplen, store_apply, store_apply, h.writes, h.respdatalen_eq]
  have hw := writeData_packed (r.header c) p 0 i
  rw [Nat.add_zero] at hw
  rw [hw]

theorem Carries.frame_of_lt (h : r.Carries p) (c : UartCmdFormat) {i : ℕ}
    (hi : i < 7 + p.length) : r.frame c i =
      setresplen (writeData r.reply.writes (r.header c)) r.respdatalen i := by
  rw [frame, store_of_ne (by rw [h.respdatalen_eq]; omega)]

theorem Carries.frame_header (h : r.Carries p) (c : UartCmdFormat) {i : ℕ} (hi : i < 7)
    (h1 : i ≠ 1) (h2 : i ≠ 2) : r.frame c i = r.header c i := by
  rw [h.frame_of_lt c (by omega), h.body_apply, if_neg h2, if_neg h1, if_neg (by omega)]

theorem Carries.len_frame (h : r.Carries p) (c : UartCmdFormat) :
    (r.frame c).len = p.length + 4 := by
  have hlt := h.lt
  unfold UartCmdFormat.len UartCmdFormat.lengthMsb UartCmdFormat.lengthLsb
  rw [h.frame_of_lt c (by omega), h.frame_of_lt c (by omega), h.body_apply, h.body_apply]
  exact be16_ofNat h.lt

/-- **A response is the finished frame of what it carries**, whatever the buffer held before. -/
theorem Carries.isFrame (h : r.Carries p) (c : UartCmdFormat) :
    IsFrame (r.info p) r.sn (r.frame c) where
  head := (h.frame_header c (i := 0) (by omega) (by omega) (by omega)).trans (by simp [header])
  len := h.len_frame c
  staParam := (h.frame_header c (i := 3) (by omega) (by omega) (by omega)).trans (by simp [header])
  sn := (h.frame_header c (i := 4) (by omega) (by omega) (by omega)).trans (by simp [header])
  pdtType := (h.frame_header c (i := 5) (by omega) (by omega) (by omega)).trans
    (by simp [header, info])
  cmdId := (h.frame_header c (i := 6) (by omega) (by omega) (by omega)).trans
    (by simp [header, info])
  data := by
    intro i hi
    have hi' : i < p.length := hi
    change r.frame c (7 + i) = p.getD i 0
    rw [h.frame_of_lt c (by omega), h.body_apply, if_neg (by omega), if_neg (by omega),
      if_pos (by omega), Nat.add_sub_cancel_left]
  check := by
    have hsum : checkSumCal (UartCmdFormat.fromStaParam (r.frame c)) (p.length + 4) =
        checkSumCal (UartCmdFormat.fromStaParam
          (setresplen (writeData r.reply.writes (r.header c)) r.respdatalen)) (p.length + 4) :=
      checkSumCal_congr fun i hi => h.frame_of_lt c (by omega)
    rw [h.len_frame, hsum]
    change r.frame c (7 + p.length) = _
    rw [frame, h.respdatalen_eq, Nat.add_sub_cancel, store_self]

/-- A response fits exactly when its payload has at most 124 bytes. -/
theorem Carries.fits_iff (h : r.Carries p) : r.Fits ↔ p.length ≤ 124 := by
  unfold Fits
  rw [h.indices_eq]
  constructor
  · rintro ⟨-, hlen⟩
    have := hlen (filled 0)
    rw [h.len_frame] at this
    omega
  · intro hp
    refine ⟨fun i hi => ?_, fun c => ?_⟩
    · have := List.mem_range.mp hi
      unfold uartProcotolMaxLen
      omega
    · rw [h.len_frame]
      omega

end Response

/-! ### The dispatch -/

section

variable (va : List UInt8 → List UInt8) {c : UartCmdFormat} (env : Env)

theorem uartProtocolParse_rejected (h : procotolCheck c = false) :
    uartProtocolParse va c env = .dropped := by
  rw [uartProtocolParse, if_pos h]

/-- An accepted frame is handled by the entry with its command word, if there is one. -/
theorem uartProtocolParse_accepted (h : procotolCheck c = true) :
    (uartProtocolParse va c env = .dropped ∧ ∀ list ∈ uartCmdList va, list.cmdword ≠ c.cmdId) ∨
      ∃ list ∈ uartCmdList va, list.cmdword = c.cmdId ∧
        uartProtocolParse va c env = list.handle c env := by
  have hp : uartProtocolParse va c env =
      match (uartCmdList va).find? fun list => c.cmdId == list.cmdword with
      | none => .dropped
      | some list => list.handle c env := by
    rw [uartProtocolParse, if_neg (by simp [h])]
  cases hf : (uartCmdList va).find? fun list => c.cmdId == list.cmdword with
  | none =>
    refine Or.inl ⟨by rw [hp, hf], fun list hm he => ?_⟩
    exact List.find?_eq_none.mp hf list hm (by simp [he])
  | some list =>
    refine Or.inr ⟨list, List.mem_of_find?_eq_some hf, ?_, by rw [hp, hf]⟩
    have := List.find?_some hf
    exact (beq_iff_eq.mp this).symm

/-- No two entries have the same command word. -/
theorem uartProtocolParse_of_mem (h : procotolCheck c = true) {list : UartCmdList}
    (hm : list ∈ uartCmdList va) (hw : list.cmdword = c.cmdId) :
    uartProtocolParse va c env = list.handle c env := by
  rcases uartProtocolParse_accepted va env h with ⟨-, hno⟩ | ⟨list', hm', hw', hp⟩
  · exact absurd hw (hno list hm)
  · have hnd : ((uartCmdList va).map UartCmdList.cmdword).Nodup := by
      simp [uartCmdList]
    rw [hp, List.inj_on_of_nodup_map hnd hm' hm (hw'.trans hw.symm)]

/-- The entries that answer. -/
theorem mem_uartCmdList_ack {list : UartCmdList} (hm : list ∈ uartCmdList va)
    (hack : list.ackword ≠ 0) : list = ⟨0x11, 0x11, queStaRsp⟩ ∨ list = ⟨0x12, 0x12, timeSyncRsp⟩ ∨
      list = ⟨0x13, 0x13, drvPoweronRsp⟩ ∨ list = ⟨0x23, 0x23, printAsk va⟩ := by
  unfold uartCmdList at hm
  simp only [List.mem_cons, List.not_mem_nil, or_false] at hm
  rcases hm with rfl | rfl | rfl | rfl | rfl | rfl | rfl | rfl | rfl | rfl <;> simp at hack ⊢

/-- The entries that mark an entry of the send list. -/
theorem mem_uartCmdList_rsp {list : UartCmdList} (hm : list ∈ uartCmdList va)
    (hack : list.ackword = 0) : list = ⟨0x31, 0, httpUpDataRsp⟩ ∨
      list.cmdword ∈ [0x10, 0x20, 0x21, 0x22, 0x24] ∧ list.callback = poweronRsp := by
  unfold uartCmdList at hm
  simp only [List.mem_cons, List.not_mem_nil, or_false] at hm
  rcases hm with rfl | rfl | rfl | rfl | rfl | rfl | rfl | rfl | rfl | rfl <;>
    first | (simp at hack; done) | exact Or.inr ⟨by simp, rfl⟩ | exact Or.inl rfl

theorem length_queSta_le (hL : c.len ≤ 128) :
    ((payload c).flatMap (staBytes env)).length ≤ 372 := by
  have hle : (payload c).countP (fun b => b.toNat < 4) ≤ (payload c).length := List.countP_le_length
  have hpl : (payload c).length = c.len - 4 := length_slice
  rw [length_flatMap_staBytes]
  omega

theorem carries_of_eq {reply : Reply} {p : List UInt8} {httpSendSn : UInt8} {effects : List Effect}
    (he : reply = .packed p httpSendSn effects) (hp : p.length ≤ 372) {sn pdtType ackword : UInt8} :
    Response.Carries ⟨sn, pdtType, ackword, reply⟩ p := by
  refine ⟨?_, ?_, by omega⟩ <;> rw [he] <;> rfl

/-- The payload of a response: that of `que_sta_rsp`, or at most 16 bytes. -/
theorem respond_carries (h : procotolCheck c = true) (hL : c.len ≤ 128) {r : Response}
    (hr : uartProtocolParse va c env = .respond r) : ∃ p, r.Carries p ∧
      if c.cmdId = 0x11 then p = (payload c).flatMap (staBytes env) else p.length ≤ 16 := by
  have h4 : 4 ≤ c.len := (procotolCheck_iff.mp h).1
  rcases uartProtocolParse_accepted va env h with ⟨hd, -⟩ | ⟨list, hm, hw, hp⟩
  · rw [hd] at hr
    cases hr
  rw [hp] at hr
  unfold UartCmdList.handle at hr
  have hack : list.ackword ≠ 0 := by
    intro h0
    rw [if_neg (by simp [h0])] at hr
    cases hr
  rw [if_pos hack] at hr
  cases hr
  rcases mem_uartCmdList_ack va hm hack with rfl | rfl | rfl | rfl
  · have he := queStaRsp_eq c env h4 hL
    have hc : c.cmdId = 0x11 := hw.symm
    dsimp only
    exact ⟨_, carries_of_eq he (length_queSta_le env hL), by rw [if_pos hc]⟩
  · refine ⟨_, carries_of_eq (timeSyncRsp_eq c env) (by simp [timeSyncBytes]), ?_⟩
    split_ifs with hc
    · simp [hc] at hw
    · simp [timeSyncBytes]
  · refine ⟨_, carries_of_eq (drvPoweronRsp_eq c env) (by simp [drvPoweronBytes]), ?_⟩
    split_ifs with hc
    · simp [hc] at hw
    · simp [drvPoweronBytes]
  · have he := printAsk_eq c env va
    have hc : c.cmdId ≠ 0x11 := fun hc => by simp [hc] at hw
    by_cases hlp : env.lp0 = true
    · rw [if_pos hlp] at he
      exact ⟨_, carries_of_eq he (by simp), by rw [if_neg hc]; simp⟩
    · rw [if_neg hlp] at he
      exact ⟨_, carries_of_eq he (by simp), by rw [if_neg hc]; simp⟩

end

/-- A `CMD_QUE_STA` frame is answered with the states of its selectors. -/
theorem respond_queSta (va : List UInt8 → List UInt8) {c : UartCmdFormat} (env : Env)
    (h : procotolCheck c = true) (hL : c.len ≤ 128) (hcmd : c.cmdId = 0x11) :
    ∃ r, uartProtocolParse va c env = .respond r ∧
    r.Carries ((payload c).flatMap (staBytes env)) := by
  have hp : uartProtocolParse va c env = UartCmdList.handle ⟨0x11, 0x11, queStaRsp⟩ c env :=
    uartProtocolParse_of_mem va env h (by simp [uartCmdList]) hcmd.symm
  unfold UartCmdList.handle at hp
  rw [if_pos (by simp)] at hp
  obtain ⟨p, hc, hpay⟩ := respond_carries va env h hL hp
  rw [if_pos hcmd] at hpay
  subst hpay
  exact ⟨_, hp, hc⟩

/-- **When every response fits.** The response to a frame that is delivered and accepted fits
exactly when the frame is no `CMD_QUE_STA`, or has at most 41 selectors below 4. -/
theorem uartProtocolParse_fits_iff (va : List UInt8 → List UInt8) (behind : Memory)
    (es : List (Option UInt8)) (buf : UartCmdFormat)
    (hbuf : buf ∈ (uartRecvTsk (Framer.init behind) es).1) (hcheck : procotolCheck buf = true)
    (env : Env) :
    (∀ r, uartProtocolParse va buf env = .respond r → r.Fits) ↔
      (buf.cmdId = 0x11 → (payload buf).countP (fun b => b.toNat < 4) ≤ 41) := by
  have hL : buf.len ≤ 128 := by
    rw [← lenOf_bytes]
    exact (complete_of_mem hbuf).lenOf_le
  constructor
  · intro hfit hcmd
    obtain ⟨r, hr, hc⟩ := respond_queSta va env hcheck hL hcmd
    have hle := hc.fits_iff.mp (hfit r hr)
    rw [length_flatMap_staBytes] at hle
    omega
  · intro hle r hr
    obtain ⟨p, hc, hpay⟩ := respond_carries va env hcheck hL hr
    rw [hc.fits_iff]
    split_ifs at hpay with hcmd
    · rw [hpay, length_flatMap_staBytes]
      have := hle hcmd
      omega
    · omega

/-- A `CMD_QUE_STA` frame with `n` selectors 0, for a small `n`. -/
def queStaFrame (n : ℕ) : List UInt8 :=
  [0xC0, 0, UInt8.ofNat (n + 4), 0, 1, 0xA1, 0x11] ++ List.replicate n 0 ++ [0xB3]

def envInit : Env := ⟨systemInfoInit, netStateInit, 0, false, 0⟩

theorem queStaFrame_received {n : ℕ} (hn : n ≤ 124) (behind : Memory) :
    (uartRecvTsk (Framer.init behind) ((queStaFrame n).map some)).1 =
      [overlay (queStaFrame n) (Framer.init behind).uartRecvBuf] := by
  have hlen : be16 0 (UInt8.ofNat (n + 4)) = n + 4 := by
    have := be16_ofNat (n := n + 4) (by omega)
    rw [Nat.shiftRight_eq_div_pow, show (n + 4) / 2 ^ 8 = 0 by omega] at this
    exact this
  have hx : Complete (queStaFrame n) := by
    refine ⟨0, UInt8.ofNat (n + 4), [0, 1, 0xA1, 0x11] ++ List.replicate n 0 ++ [0xB3], rfl, ?_, ?_⟩
    · rw [hlen]; omega
    · rw [hlen]; simp
  exact (uartRecvTsk_frame (idle_init behind) (bytesOf_map_some _) hx).1

/-- With 43 selectors the checksum is written behind `data`, and the length is 133. -/
theorem queStaFrame_overflow :
    ∃ buf ∈ (uartRecvTsk (Framer.init (filled 0)) ((queStaFrame 43).map some)).1,
      procotolCheck buf = true ∧ ∃ r, uartProtocolParse id buf envInit = .respond r ∧
        uartProcotolMaxLen ∈ r.indices ∧ ∀ respdata, (r.frame respdata).len = 133 := by
  refine ⟨overlay (queStaFrame 43) (Framer.init (filled 0)).uartRecvBuf,
    by rw [queStaFrame_received (by omega)]; simp, ?_⟩
  have hcheck : procotolCheck (overlay (queStaFrame 43) (Framer.init (filled 0)).uartRecvBuf) =
      true := by decide
  obtain ⟨r, hr, hc⟩ := respond_queSta id envInit hcheck (by decide) (by decide)
  have hlen : (payload (overlay (queStaFrame 43) (Framer.init (filled 0)).uartRecvBuf)).countP
      (fun b => b.toNat < 4) = 43 := by decide
  refine ⟨hcheck, r, hr, ?_, fun c => ?_⟩
  · rw [hc.indices_eq, length_flatMap_staBytes, hlen]
    decide
  · rw [hc.len_frame, length_flatMap_staBytes, hlen]

/-- The theorem applied to four selectors: there is a response, and it fits. -/
theorem queStaFrame_fits : ∃ buf ∈ (uartRecvTsk (Framer.init (filled 0))
      ((queStaFrame 4).map some)).1,
    ∃ r, uartProtocolParse id buf envInit = .respond r ∧ r.Fits := by
  have hmem : overlay (queStaFrame 4) (Framer.init (filled 0)).uartRecvBuf ∈
      (uartRecvTsk (Framer.init (filled 0)) ((queStaFrame 4).map some)).1 := by
    rw [queStaFrame_received (by omega)]; simp
  have hcheck : procotolCheck (overlay (queStaFrame 4) (Framer.init (filled 0)).uartRecvBuf) =
      true := by decide
  obtain ⟨r, hr, -⟩ := respond_queSta id envInit hcheck (by decide) (by decide)
  refine ⟨_, hmem, r, hr, ?_⟩
  exact (uartProtocolParse_fits_iff id (filled 0) _ _ hmem hcheck envInit).mpr
    (fun _ => by decide) r hr

end MultiPortConvertor.Uart.Parse
