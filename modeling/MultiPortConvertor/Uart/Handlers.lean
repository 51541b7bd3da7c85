import MultiPortConvertor.App.System
import MultiPortConvertor.Lib.Calendar
import MultiPortConvertor.Lib.CString
import MultiPortConvertor.Uart.Dispose
import Mathlib.Data.List.Flatten
import Mathlib.Data.List.Count

/-! # The handlers of the received commands

The callbacks of `uart_cmd_list`, on the received frame `Data_p` and on what they leave behind, a
`Reply`: the bytes written to `Respdata->data`, `Respdatalen`, the upload counter, and the shell
commands and records handed on. What the standard output shows is left out. A handler appends to the
payload (`Reply.packed`), so the payload is all there is to say about its writes. -/

namespace MultiPortConvertor.Uart.Handlers

open MultiPortConvertor.Lib.Bytes MultiPortConvertor.Lib.CString MultiPortConvertor.Lib.Calendar
open MultiPortConvertor.App.System MultiPortConvertor.Uart.Format

/-- What a handler reads besides the frame: `system_info`, `net_state`, the clock, whether
`/dev/usb/lp0` exists, and `http_send_sn`. -/
structure Env where
  systemInfo : SystemInfo
  netState : Fin 4 → NetState
  tvSec : UInt32
  lp0 : Bool
  httpSendSn : UInt8

/-- The record of an upload: `queue_num` and the one element of `data`. -/
structure Record where
  queueNum : String
  cardNo : List UInt8
  timeZone : String
  measureTime : String
  tallPressure : ℕ
  lowPressure : ℕ
  heartRate : ℕ
  deviceSerial : String

/-- What a handler hands on: a command to the shell, or a record to `post_record_Url`. -/
inductive Effect where
  | popen (command : List UInt8)
  | postRecordUrl (root : Record)

/-- What a handler leaves behind; `writes` are the writes to `Respdata->data`, index and byte. -/
structure Reply where
  writes : List (ℕ × UInt8)
  respdatalen : ℕ
  httpSendSn : UInt8
  effects : List Effect

/-- Before the handler. -/
def Reply.start (env : Env) : Reply := ⟨[], 0, env.httpSendSn, []⟩

/-- A `memcpy` of `bs` to `&Respdata->data[Respdatalen]`, and `Respdatalen` moved behind it. -/
def Reply.putBytes (r : Reply) (bs : List UInt8) : Reply :=
  { r with
    writes := r.writes ++ bs.zipIdx.map fun b => (r.respdatalen + b.2, b.1)
    respdatalen := (r.respdatalen + bs.length) % 2 ^ 16 }

/-- `Respdata->data[Respdatalen] = b; Respdatalen += 1;` -/
def Reply.put (r : Reply) (b : UInt8) : Reply := r.putBytes [b]

/-- The bytes written. -/
def Reply.replied (r : Reply) : List UInt8 := r.writes.map Prod.snd

/-- A callback of the command table. -/
abbrev Callback := UartCmdFormat → Env → Reply → Reply

def poweronRsp : Callback := fun _ _ r => r

/-- One round of the loop of `que_sta_rsp`, for the selector `b`. -/
def queStaStep (env : Env) (r : Reply) (b : UInt8) : Reply :=
  if h : b.toNat < 4 then r.putBytes (env.netState ⟨b.toNat, h⟩).bytes else r

def queStaRsp : Callback := fun c env r =>
  let ptlLen := c.len
  (List.range ((ptlLen + (2 ^ 32 - 4)) % 2 ^ 32)).foldl (fun r i => queStaStep env r (c.data i)) r

def timeSyncRsp : Callback := fun _ env r =>
  let r := r.put env.systemInfo.timeValid
  let r := r.put (env.systemInfo.timezone >>> 8).toInt8.toUInt8
  let r := r.put env.systemInfo.timezone.toInt8.toUInt8
  let r := r.put (env.tvSec >>> 24).toUInt8
  let r := r.put (env.tvSec >>> 16).toUInt8
  let r := r.put (env.tvSec >>> 8).toUInt8
  r.put env.tvSec.toUInt8

def drvPoweronRsp : Callback := fun _ env r =>
  let r := r.put env.systemInfo.poweron
  let r := r.putBytes (List.ofFn env.systemInfo.firmwareVer)
  let r := r.putBytes (List.ofFn env.systemInfo.hardwareVer)
  let r := r.putBytes (List.ofFn env.systemInfo.protocolVer)
  r.putBytes (List.ofFn env.systemInfo.mac)

def hidInsertRsp : Callback := fun _ _ r => r
def hidPulloutRsp : Callback := fun _ _ r => r
def hidDataRsp : Callback := fun _ _ r => r
def printStaRsp : Callback := fun _ _ r => r

/-- The string at `Data_p->data + p`. -/
def dataStr (c : UartCmdFormat) : List UInt8 := cstr c 7

/-- What `print_ask` writes to `print_buf`. -/
def printBuf (va : List UInt8 → List UInt8) (c : UartCmdFormat) : List UInt8 :=
  ascii "echo \"" ++ sprintf va (dataStr c) ++ ascii "\" > /dev/usb/lp0"

def printAsk (va : List UInt8 → List UInt8) : Callback := fun c env r =>
  if env.lp0 then r.put 2
  else
    let r := r.put 0
    { r with effects := r.effects ++ [.popen (printBuf va c)] }

/-- `(Data_p->data[p]<<8)|Data_p->data[p+1]`. -/
def word (c : UartCmdFormat) (p : ℕ) : ℕ := (c.data p).toNat <<< 8 ||| (c.data (p + 1)).toNat

/-- The time zone as `http_up_data_rsp` prints it. -/
def zoneText (timezone : Int16) : String :=
  if 0 ≤ timezone.toInt then
    if timezone.toInt < 10 then "+0" ++ toString timezone.toInt ++ "00"
    else "+" ++ toString timezone.toInt ++ "00"
  else
    if -10 < timezone.toInt then "-0" ++ toString timezone.toInt.natAbs ++ "00"
    else toString timezone.toInt ++ "00"

/-- `%02d`. -/
def pad2 (n : ℕ) : String := if n < 10 then "0" ++ toString n else toString n

/-- `%02x`. -/
def hex2 (b : UInt8) : String :=
  String.ofList [Nat.digitChar (b.toNat / 16), Nat.digitChar (b.toNat % 16)]

/-- `measure_time`: the date and time of day, and the zone. -/
def measureTimeText (utcTime : Int32) (zone : String) : String :=
  let tm := gmtime utcTime.toInt
  toString (tm.tmYear + 1900) ++ "-" ++ pad2 tm.tmMon ++ "-" ++ pad2 tm.tmMday ++ " " ++
    pad2 tm.tmHour ++ ":" ++ pad2 tm.tmMin ++ ":" ++ pad2 tm.tmSec ++ ".000 " ++ zone

/-- The record that `http_up_data_rsp` builds. -/
def httpRecord (c : UartCmdFormat) (env : Env) : Record :=
  let p := (dataStr c).length + 1
  let zone := zoneText (Int16.ofNat (word c p / 2))
  let p := p + 2
  let utcTime := Int32.ofNat (((c.data p).toNat <<< 24) + ((c.data (p + 1)).toNat <<< 16) +
    ((c.data (p + 2)).toNat <<< 8) + (c.data (p + 3)).toNat)
  { queueNum := toString env.httpSendSn.toNat
    cardNo := dataStr c
    timeZone := zone
    measureTime := measureTimeText utcTime zone
    tallPressure := word c (p + 4)
    lowPressure := word c (p + 6)
    heartRate := word c (p + 8)
    deviceSerial := ":".intercalate ((List.ofFn env.systemInfo.mac).map hex2) }

def httpUpDataRsp : Callback := fun c env r =>
  { r with
    httpSendSn := env.httpSendSn + 1
    effects := r.effects ++ [.postRecordUrl (httpRecord c env)] }

/-! ### The payloads -/

/-- The reply with the payload `p`. -/
def Reply.packed (p : List UInt8) (httpSendSn : UInt8) (effects : List Effect) : Reply where
  writes := p.zipIdx.map fun b => (b.2, b.1)
  respdatalen := p.length
  httpSendSn := httpSendSn
  effects := effects

theorem replied_packed (p : List UInt8) (httpSendSn : UInt8) (effects : List Effect) :
    (Reply.packed p httpSendSn effects).replied = p := by
  unfold Reply.packed Reply.replied
  rw [List.map_map]
  exact List.zipIdx_map_fst 0 p

theorem start_eq (env : Env) : Reply.start env = .packed [] env.httpSendSn [] := rfl

/-- **A write appends to the payload.** -/
theorem putBytes_packed {p bs : List UInt8} (h : p.length + bs.length < 2 ^ 16) (sn : UInt8)
    (effects : List Effect) :
    (Reply.packed p sn effects).putBytes bs = .packed (p ++ bs) sn effects := by
  have hw : bs.zipIdx.map (fun b => (p.length + b.2, b.1)) =
      (bs.zipIdx p.length).map fun b => (b.2, b.1) := by
    have hz : (bs.zipIdx 0).map (Prod.map id (· + p.length)) = bs.zipIdx (p.length + 0) :=
      List.map_snd_add_zipIdx_eq_zipIdx
    rw [Nat.add_zero] at hz
    rw [← hz, List.map_map]
    refine List.map_congr_left fun b _ => ?_
    simp [Nat.add_comm]
  unfold Reply.putBytes Reply.packed
  simp only [Reply.mk.injEq, and_true]
  refine ⟨?_, ?_⟩
  · rw [hw, List.zipIdx_append, List.map_append, Nat.zero_add]
  · rw [Nat.mod_eq_of_lt h, List.length_append]

/-- The bytes that `que_sta_rsp` adds for the selector `b`. -/
def staBytes (env : Env) (b : UInt8) : List UInt8 :=
  if h : b.toNat < 4 then (env.netState ⟨b.toNat, h⟩).bytes else []

theorem length_staBytes (env : Env) (b : UInt8) :
    (staBytes env b).length = if b.toNat < 4 then 3 else 0 := by
  unfold staBytes
  split_ifs <;> rfl

theorem length_flatMap_staBytes (env : Env) (bs : List UInt8) :
    (bs.flatMap (staBytes env)).length = 3 * bs.countP fun b => b.toNat < 4 := by
  induction bs with
  | nil => rfl
  | cons b bs ih =>
    rw [List.flatMap_cons, List.length_append, ih, length_staBytes, List.countP_cons]
    by_cases h : b.toNat < 4
    · simp [h]; omega
    · simp [h]

theorem queStaStep_packed (env : Env) {p : List UInt8} (h : p.length + 3 < 2 ^ 16) (b : UInt8)
    (sn : UInt8) (effects : List Effect) :
    queStaStep env (.packed p sn effects) b = .packed (p ++ staBytes env b) sn effects := by
  unfold queStaStep staBytes
  split_ifs with hb
  · rw [putBytes_packed (by simpa using h)]
  · rw [List.append_nil]

/-- The loop of `que_sta_rsp` adds the bytes of the selectors one after another. -/
theorem foldl_queStaStep (env : Env) (sn : UInt8) (effects : List Effect) (bs : List UInt8) :
    ∀ p : List UInt8, p.length + 3 * bs.length < 2 ^ 16 →
      bs.foldl (queStaStep env) (.packed p sn effects) =
        .packed (p ++ bs.flatMap (staBytes env)) sn effects := by
  induction bs with
  | nil => intro p _; simp
  | cons b bs ih =>
    intro p hp
    have hb := length_staBytes env b
    rw [List.length_cons] at hp
    rw [List.foldl_cons, queStaStep_packed env (by omega), ih _ (by
      rw [List.length_append, hb]; split_ifs <;> omega)]
    simp

/-- The selectors of a `CMD_QUE_STA` frame: its data. -/
def payload (c : UartCmdFormat) : List UInt8 := slice c 7 (c.len - 4)

section

variable (c : UartCmdFormat) (env : Env)

/-- **`que_sta_rsp`** answers with the states selected, in the order of the selectors. -/
theorem queStaRsp_eq (h4 : 4 ≤ c.len) (hL : c.len ≤ 128) : queStaRsp c env (.start env) =
    .packed ((payload c).flatMap (staBytes env)) env.httpSendSn [] := by
  have hn : (c.len + (2 ^ 32 - 4)) % 2 ^ 32 = c.len - 4 := by omega
  have hfold : (List.range (c.len - 4)).foldl (fun r i => queStaStep env r (c.data i))
      (Reply.start env) = (payload c).foldl (queStaStep env) (Reply.start env) := by
    unfold payload slice
    rw [List.foldl_map]
    rfl
  unfold queStaRsp
  dsimp only
  rw [hn, hfold, start_eq, foldl_queStaStep env _ _ _ _ (by simp [payload]; omega), List.nil_append]

/-- The answer of `time_sync_rsp`. -/
def timeSyncBytes : List UInt8 :=
  [env.systemInfo.timeValid, (env.systemInfo.timezone >>> 8).toInt8.toUInt8,
    env.systemInfo.timezone.toInt8.toUInt8, (env.tvSec >>> 24).toUInt8, (env.tvSec >>> 16).toUInt8,
    (env.tvSec >>> 8).toUInt8, env.tvSec.toUInt8]

theorem timeSyncRsp_eq : timeSyncRsp c env (.start env) =
    .packed (timeSyncBytes env) env.httpSendSn [] := rfl

/-- The answer of `drv_poweron_rsp`. -/
def drvPoweronBytes : List UInt8 :=
  env.systemInfo.poweron :: (List.ofFn env.systemInfo.firmwareVer ++
    List.ofFn env.systemInfo.hardwareVer ++ List.ofFn env.systemInfo.protocolVer ++
    List.ofFn env.systemInfo.mac)

theorem drvPoweronRsp_eq : drvPoweronRsp c env (.start env) =
    .packed (drvPoweronBytes env) env.httpSendSn [] := by
  unfold drvPoweronRsp Reply.put
  dsimp only
  rw [start_eq, putBytes_packed (by simp), putBytes_packed (by simp), putBytes_packed (by simp),
    putBytes_packed (by simp), putBytes_packed (by simp)]
  simp [drvPoweronBytes]

theorem printAsk_eq (va : List UInt8 → List UInt8) : printAsk va c env (.start env) =
    if env.lp0 then .packed [2] env.httpSendSn []
    else .packed [0] env.httpSendSn [.popen (printBuf va c)] := rfl

theorem httpUpDataRsp_eq : httpUpDataRsp c env (.start env) =
    .packed [] (env.httpSendSn + 1) [.postRecordUrl (httpRecord c env)] := rfl

end

end MultiPortConvertor.Uart.Handlers
