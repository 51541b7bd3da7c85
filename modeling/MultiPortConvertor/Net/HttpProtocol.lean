import MultiPortConvertor.Lib.Calendar
import MultiPortConvertor.Lib.Scanf
import MultiPortConvertor.Lib.Transfers
import MultiPortConvertor.Tool.CJson
import MultiPortConvertor.Uart.Handlers

/-! # `net/http_protocol.c`

The heartbeat `get_time_Url` and the upload `post_record_Url`, with their write callbacks. A `CURL`
handle is given by the transfers that `curl_easy_perform` makes with it, `none` if there is no
handle. The parser of `cJSON`, its rendering and the contents of the stack are parameters; what goes
to the standard output is left out. -/

namespace MultiPortConvertor.Net.HttpProtocol

open MultiPortConvertor.Lib.Bytes MultiPortConvertor.Lib.CString MultiPortConvertor.Lib.Calendar
open MultiPortConvertor.Lib.Scanf MultiPortConvertor.Lib.Transfers MultiPortConvertor.Tool.CJson
open MultiPortConvertor.App.System MultiPortConvertor.Uart.Dispose MultiPortConvertor.Uart.Handlers

/-- The variables that the functions read and write: `system_info`, `net_state`, the clock and
`heart_err_time`. -/
structure Http where
  systemInfo : SystemInfo
  netState : Fin 4 → NetState
  tvSec : UInt32
  heartErrTime : UInt32

/-- What is outside: `cJSON_Parse`, `cJSON_Print` of values other than strings, and what lies on the
stack where `t_tm` is. `get_time_parse` leaves `t_tm.tm_isdst` as it lies there; `mktime` is assumed
to ignore it, as the board's zone is UTC. -/
structure Outside where
  cjsonParse : List UInt8 → Option CJSON
  render : CJSON → List UInt8
  stack : Fields

/-- `net_state[3].err`. -/
def Http.err (h : Http) : UInt8 := (h.netState 3).err

/-- `net_state[3].err = e`. -/
def Http.setErr (h : Http) (e : UInt8) : Http :=
  { h with netState := Function.update h.netState 3 { h.netState 3 with err := e } }

/-- The format of `get_time_parse`. -/
def timeFormat : List Directive :=
  [.char 0x22, .int 4, .char 0x2D, .int 2, .char 0x2D, .int 2, .space, .int 2, .char 0x3A, .int 2,
    .char 0x3A, .int 2, .char 0x2E, .int 3, .char 0x22]

/-- `sscanf` into `t_tm`: what it does not assign stays as it was. -/
def scanTime (sub : List UInt8) (tm : Fields) : Fields :=
  let ns := sscanf timeFormat sub
  { tmYear := ns.getD 0 tm.tmYear
    tmMon := ns.getD 1 tm.tmMon
    tmMday := ns.getD 2 tm.tmMday
    tmHour := ns.getD 3 tm.tmHour
    tmMin := ns.getD 4 tm.tmMin
    tmSec := ns.getD 5 tm.tmSec }

/-- The clock that `get_time_parse` sets for the text `sub`; `time_t` has 32 bits. -/
def clockOf (sub : List UInt8) (stack : Fields) : UInt32 :=
  let tm := scanTime sub stack
  UInt32.ofInt (mktime { tm with tmYear := tm.tmYear - 1900 })

/-- `get_time_parse`: the state, and the number of bytes it says it has taken. -/
def getTimeParse (o : Outside) (h : Http) (buffer : List UInt8) : Http × ℕ :=
  match o.cjsonParse buffer with
  | none => (h, 0)
  | some root =>
    match getObjectItem root "errno" with
    | none => (h, 0)
    | some (.number valueint _) =>
      if valueint = 0 then
        match getObjectItem root "data" with
        | none => (h, 0)
        | some data =>
          match getObjectItem data "time" with
          | none => (h, 0)
          | some time =>
            let h := { h with tvSec := clockOf (cjsonPrint o.render time) o.stack }
            match getObjectItem data "time_zone" with
            | none => (h, 0)
            | some (.string valuestring) =>
              ({ h with systemInfo := { h.systemInfo with
                  timezone := Int16.ofInt ((atoi valuestring).tdiv 50)
                  timeValid := 1 } }, buffer.length)
            | some _ => (h, buffer.length)
      else (h, buffer.length)
    | some _ => (h, buffer.length)

/-- `get_time_Url`. -/
def getTimeUrl (o : Outside) (curl : Option Attempt) (h : Http) : Http × ℕ :=
  match curl with
  | none => (h, 0)
  | some a =>
    let (h, opCode) := a.perform (getTimeParse o) h
    if opCode ≠ 0 then
      let h := { h with heartErrTime := h.heartErrTime + 1 }
      if h.heartErrTime ≥ 3 then (({ h with heartErrTime := 0 } : Http).setErr 1, 1) else (h, 1)
    else (({ h with heartErrTime := 0 } : Http).setErr 0, 1)

/-- `post_record_parse`: the notifications handed to `uart_protocol_dispose` so far, and the number
of bytes it says it has taken. -/
def postRecordParse (o : Outside) (ntfs : List UartSendInfo) (buffer : List UInt8) :
    List UartSendInfo × ℕ :=
  match o.cjsonParse buffer with
  | none => (ntfs, 0)
  | some root =>
    match getObjectItem root "errno" with
    | none => (ntfs, 0)
    | some (.number valueint _) => (ntfs ++ [httpUpDataNtf valueint.toInt8.toUInt8], buffer.length)
    | some _ => (ntfs, buffer.length)

/-- `post_record_Url`, with the transfers of up to three calls of `curl_easy_perform`; besides the
state, the notifications. -/
def postRecordUrl (o : Outside) (curl : Option (Attempt × Attempt × Attempt)) (h : Http) :
    Http × List UartSendInfo :=
  match curl with
  | none => (h, [])
  | some (a₁, a₂, a₃) =>
    let (ntfs, opCode) := a₁.perform (postRecordParse o) []
    let (h, ntfs, opCode) :=
      if opCode ≠ 0 then
        let (ntfs, opCode) := a₂.perform (postRecordParse o) ntfs
        if opCode ≠ 0 then
          let (ntfs, opCode) := a₃.perform (postRecordParse o) ntfs
          (h.setErr 1, ntfs, opCode)
        else (h, ntfs, opCode)
      else (h, ntfs, opCode)
    if opCode = 0 then (h.setErr 0, ntfs) else (h, ntfs ++ [httpUpDataNtf 2])

/-- `sys_context_init`, but for the domain name and the address it reads. -/
def sysContextInit (o : Outside) (curl : Option Attempt) (h : Http) : Http :=
  let h := (getTimeUrl o curl h).1
  { h with
    systemInfo := { h.systemInfo with poweron := 0 }
    netState := netStateInit }

end MultiPortConvertor.Net.HttpProtocol
