import MultiPortConvertor.Net.HttpProtocol
import MultiPortConvertor.Uart.UploadRecord

/-! # The server's time

`get_time_parse` reads the month of the server's time as `tm_mon`, which counts from 0, and
`http_up_data_rsp` prints `tm_mon` as the month. In between, the clock holds a date one month late:
the two cancel unless `mktime` carries the date over the end of a month (`measureTime_iff`). -/

namespace MultiPortConvertor.Net.ServerTime

open MultiPortConvertor.Lib.Bytes MultiPortConvertor.Lib.CString MultiPortConvertor.Lib.Calendar
open MultiPortConvertor.Lib.Scanf MultiPortConvertor.Tool.CJson MultiPortConvertor.App.System
open MultiPortConvertor.Uart.Format MultiPortConvertor.Uart.Parse
open MultiPortConvertor.Uart.Handlers MultiPortConvertor.Uart.UploadRecord
open MultiPortConvertor.Net.HttpProtocol

/-! ### The text of a date and time -/

/-- Year, month, day and time of day, as the server writes them. -/
def dateTimeText (year : ℤ) (month day hour min sec : ℕ) : String :=
  toString year ++ "-" ++ pad2 month ++ "-" ++ pad2 day ++ " " ++ pad2 hour ++ ":" ++
    pad2 min ++ ":" ++ pad2 sec

theorem measureTimeText_eq (utcTime : Int32) (zone : String) :
    measureTimeText utcTime zone =
      dateTimeText ((gmtime utcTime.toInt).tmYear + 1900) (gmtime utcTime.toInt).tmMon
        (gmtime utcTime.toInt).tmMday (gmtime utcTime.toInt).tmHour (gmtime utcTime.toInt).tmMin
        (gmtime utcTime.toInt).tmSec ++ ".000 " ++ zone := by
  unfold measureTimeText dateTimeText
  simp only [String.append_assoc]

theorem ascii_pad2 {n : ℕ} (h : n < 100) : ascii (pad2 n) = digits 2 n := by
  unfold pad2
  split_ifs with h10
  · rw [ascii_append, ascii_toString (k := 0) (.inr rfl) h10]
    have hzero : digits 1 (n / 10) = ascii "0" := by
      rw [Nat.div_eq_of_lt h10]
      decide
    show ascii "0" ++ _ = digits 1 (n / 10) ++ [digit (n % 10)]
    rw [hzero]
    simp [digits]
  · exact ascii_toString (k := 1) (.inl (by omega)) h

/-- The fields have the widths of the format. -/
structure Widths (year month day hour min sec : ℕ) : Prop where
  year_ge : 1000 ≤ year
  year_lt : year < 10000
  month : month < 100
  day : day < 100
  hour : hour < 100
  min : min < 100
  sec : sec < 100

variable {year month day hour min sec : ℕ}

theorem ascii_dateTimeText (w : Widths year month day hour min sec) :
    ascii (dateTimeText year month day hour min sec) =
      digits 4 year ++ 0x2D :: (digits 2 month ++ 0x2D :: (digits 2 day ++ 0x20 ::
        (digits 2 hour ++ 0x3A :: (digits 2 min ++ 0x3A :: digits 2 sec)))) := by
  have hyear : ascii (toString (year : ℤ)) = digits 4 year :=
    ascii_toString (k := 3) (.inl w.year_ge) w.year_lt
  unfold dateTimeText
  simp only [ascii_append, ascii_pad2 w.month, ascii_pad2 w.day, ascii_pad2 w.hour,
    ascii_pad2 w.min,
    ascii_pad2 w.sec, hyear, List.append_assoc]
  rfl

/-- **The fields are read back**, whatever follows. -/
theorem sscanf_dateTimeText (w : Widths year month day hour min sec)
    (rest : List UInt8) : ∃ ns,
      sscanf timeFormat (0x22 :: (ascii (dateTimeText year month day hour min sec) ++ rest)) =
        (year : ℤ) :: month :: day :: hour :: min :: sec :: ns := by
  obtain ⟨b, bs, hb⟩ := List.exists_cons_of_ne_nil
    (fun h => by simpa using congrArg List.length h : digits 2 hour ≠ [])
  have hspace : isSpace b = false := (digit_ne (isDigit_of_mem b (by rw [hb]; simp))).1
  refine ⟨sscanf [.char 0x2E, .int 3, .char 0x22] rest, ?_⟩
  rw [ascii_dateTimeText w, timeFormat]
  simp only [List.append_assoc, List.cons_append]
  rw [sscanf_char, sscanf_digits _ (by omega) w.year_lt, sscanf_char,
    sscanf_digits _ (by omega) w.month, sscanf_char, sscanf_digits _ (by omega) w.day, hb,
    List.cons_append, sscanf_space _ hspace, ← List.cons_append, ← hb,
    sscanf_digits _ (by omega) w.hour, sscanf_char, sscanf_digits _ (by omega) w.min,
    sscanf_char, sscanf_digits _ (by omega) w.sec]

/-! ### From the server to the upload -/

/-- A date and time of the years 1970 to 2036, for which 31 bits are enough. -/
structure DateTime where
  year : ℕ
  month : ℕ
  day : ℕ
  hour : ℕ
  min : ℕ
  sec : ℕ
  year_ge : 1970 ≤ year
  year_le : year ≤ 2036
  valid : ValidDate year month day
  hour_lt : hour < 24
  min_lt : min < 60
  sec_lt : sec < 60

namespace DateTime

variable (t : DateTime)

def text : String := dateTimeText t.year t.month t.day t.hour t.min t.sec

/-- The time that `mktime` makes of it, with `tm_mon` one too high. -/
def clock : ℤ := monthLate t.year t.month t.day * 86400 + t.hour * 3600 + t.min * 60 + t.sec

/-- The month after this one is long enough for the day, and in the same year. -/
def Kept : Prop := t.month ≤ 11 ∧ t.day ≤ daysInMonth t.year (t.month + 1)

instance : Decidable t.Kept := inferInstanceAs (Decidable (_ ∧ _))

theorem widths : Widths t.year t.month t.day t.hour t.min t.sec := by
  have hv := validDate_cases t.valid
  have hmonth := t.valid.month_le
  have hyear := And.intro t.year_ge t.year_le
  exact ⟨by omega, by omega, by omega, by omega, t.hour_lt.trans (by omega),
    t.min_lt.trans (by omega),
    t.sec_lt.trans (by omega)⟩

/-- The text has no character that `cJSON_Print` writes otherwise. -/
theorem plain : ∀ b ∈ ascii t.text, 31 < b ∧ b ≠ 0x22 ∧ b ≠ 0x5C := by
  have hdigit : ∀ b : UInt8, isDigit b = true → 31 < b ∧ b ≠ 0x22 ∧ b ≠ 0x5C := by
    intro b hb
    obtain ⟨h1, h2⟩ := isDigit_iff.mp hb
    refine ⟨?_, ?_, ?_⟩
    · rw [UInt8.lt_iff_toNat_lt]
      show 31 < b.toNat
      omega
    · rintro rfl
      simp at h1
    · rintro rfl
      simp at h2
  intro b hb
  rw [text, ascii_dateTimeText t.widths] at hb
  simp only [List.mem_append, List.mem_cons] at hb
  rcases hb with h | rfl | h | rfl | h | rfl | h | rfl | h | rfl | h
  all_goals first | exact hdigit _ (isDigit_of_mem _ h) | decide

/-- Between 1970 and 2038. -/
theorem clock_bounds : 0 ≤ t.clock ∧ t.clock < 2 ^ 31 := by
  have hv := validDate_cases t.valid
  have h1 := t.valid.one_le_month
  have h12 := t.valid.month_le
  have hge := t.year_ge
  have hle := t.year_le
  have := t.hour_lt
  have := t.min_lt
  have := t.sec_lt
  have hyear : 1970 ≤ (t.year : ℤ) + (t.month : ℤ) / 12 := by omega
  have hb := daysFromCivil_bounds hyear (by omega : 1 ≤ t.month % 12 + 1)
    (by omega) t.valid.one_le_day
  have hupper : 366 * ((t.year : ℤ) + (t.month : ℤ) / 12 - 1970) + 31 *
    (t.month % 12 + 1 : ℕ) + t.day ≤
      24852 := by omega
  unfold clock monthLate
  omega

/-- **The clock** that `get_time_parse` sets. -/
theorem clockOf_text (rest : List UInt8) (render : CJSON → List UInt8) (stack : Fields) :
    ((clockOf (cjsonPrint render (.string (ascii t.text ++ rest))) stack).toNat : ℤ) = t.clock := by
  have hprint : cjsonPrint render (.string (ascii t.text ++ rest)) =
      0x22 :: (ascii t.text ++ (rest.flatMap printChar ++ [0x22])) := by
    show printString _ = _
    rw [printString, List.flatMap_append, flatMap_printChar t.plain, List.append_assoc]
  obtain ⟨ns, hns⟩ := sscanf_dateTimeText t.widths (rest.flatMap printChar ++ [0x22])
  have hmk : mktime ⟨(t.year : ℤ) - 1900, t.month, t.day, t.hour, t.min, t.sec⟩ = t.clock := by
    have hmod : ((t.month : ℤ) % 12).toNat = t.month % 12 := by omega
    unfold mktime clock monthLate
    dsimp only
    rw [hmod, daysFromCivil_day _ _ t.valid.one_le_day, Int.sub_add_cancel]
  obtain ⟨h0, h31⟩ := t.clock_bounds
  unfold clockOf scanTime
  rw [hprint]
  unfold text at *
  rw [hns]
  show ((UInt32.ofInt (mktime ⟨(t.year : ℤ) - 1900, t.month, t.day, t.hour, t.min,
    t.sec⟩)).toNat : ℤ) = _
  rw [hmk, UInt32.ofInt, UInt32.toNat_ofNat']
  omega

/-- **What the clock shows** of the date, printed with the month counted from 0: the date again,
unless `mktime` has carried it on. -/
theorem gmtime_clock : gmtime t.clock =
    if t.month = 12 then ⟨t.year + 1 - 1900, 0, t.day, t.hour, t.min, t.sec⟩
    else if t.day ≤ daysInMonth t.year (t.month + 1) then
      ⟨t.year - 1900, t.month, t.day, t.hour, t.min, t.sec⟩
    else ⟨t.year - 1900, t.month + 1, t.day - daysInMonth t.year (t.month + 1), t.hour,
      t.min, t.sec⟩ := by
  unfold clock
  rw [gmtime_days _ t.hour_lt t.min_lt t.sec_lt, civil_monthLate t.valid]
  split_ifs
  · rfl
  · rfl
  · rfl

/-- The date and time that the clock shows. -/
def shown : String :=
  dateTimeText ((gmtime t.clock).tmYear + 1900) (gmtime t.clock).tmMon (gmtime t.clock).tmMday
    (gmtime t.clock).tmHour (gmtime t.clock).tmMin (gmtime t.clock).tmSec

/-- A text says which year, month and day it shows. -/
theorem date_of_text (w : Widths year month day hour min sec)
    (h : dateTimeText year month day hour min sec = t.text) :
    year = t.year ∧ month = t.month ∧ day = t.day := by
  obtain ⟨ns, hns⟩ := sscanf_dateTimeText w []
  obtain ⟨ns', hns'⟩ := sscanf_dateTimeText t.widths []
  rw [h, text, hns'] at hns
  simp only [List.cons.injEq, Nat.cast_inj] at hns
  exact ⟨hns.1.symm, hns.2.1.symm, hns.2.2.1.symm⟩

theorem shown_eq_text_iff : t.shown = t.text ↔ t.Kept := by
  have w := t.widths
  have hyear := And.intro t.year_ge t.year_le
  have h12 := t.valid.month_le
  unfold shown Kept
  rw [t.gmtime_clock]
  split_ifs with hm hd
  · have hback : (t.year : ℤ) + 1 - 1900 + 1900 = (t.year + 1 : ℕ) := by omega
    dsimp only
    rw [hback]
    constructor
    · intro h
      have hdate := t.date_of_text ⟨by omega, by omega, by omega, w.day, w.hour, w.min, w.sec⟩ h
      omega
    · intro h
      omega
  · dsimp only
    rw [Int.sub_add_cancel]
    exact iff_of_true rfl ⟨by omega, hd⟩
  · dsimp only
    rw [Int.sub_add_cancel]
    constructor
    · intro h
      have hdate := t.date_of_text ⟨w.year_ge, w.year_lt, by omega, (Nat.sub_le _ _).trans_lt w.day,
        w.hour, w.min, w.sec⟩ h
      omega
    · intro h
      omega

end DateTime

/-- A reply of the server with the time `t`; what follows in the text, the milliseconds, is `rest`.
-/
structure TimeReply (o : Outside) (t : DateTime) where
  buffer : List UInt8
  root : CJSON
  data : CJSON
  valuedouble : ℚ
  rest : List UInt8
  parsed : o.cjsonParse buffer = some root
  errno : getObjectItem root "errno" = some (.number 0 valuedouble)
  getData : getObjectItem root "data" = some data
  time : getObjectItem data "time" = some (.string (ascii t.text ++ rest))

theorem TimeReply.tvSec {o : Outside} {t : DateTime} (r : TimeReply o t) (h : Http) :
    ((getTimeParse o h r.buffer).1.tvSec.toNat : ℤ) = t.clock := by
  have hclock : (getTimeParse o h r.buffer).1.tvSec =
      clockOf (cjsonPrint o.render (.string (ascii t.text ++ r.rest))) o.stack := by
    unfold getTimeParse
    simp only [r.parsed, r.errno, r.getData, r.time, if_true]
    obtain ⟨zone, hzone⟩ : ∃ zone, getObjectItem r.data "time_zone" = zone := ⟨_, rfl⟩
    rcases zone with _ | zone
    · simp [hzone]
    · cases zone <;> simp [hzone]
  rw [hclock]
  exact t.clockOf_text r.rest o.render o.stack

/-- The four bytes of the time in the answer of `time_sync_rsp`. -/
def sentTime (c : UartCmdFormat) (env : Env) : List UInt8 :=
  ((timeSyncRsp c env (.start env)).writes.map Prod.snd).drop 3

theorem sentTime_eq (c : UartCmdFormat) (env : Env) : sentTime c env = be4 env.tvSec := rfl

theorem be4_inj {w w' : UInt32} (h : be4 w = be4 w') : w = w' := by
  simp only [be4, List.cons.injEq, and_true] at h
  obtain ⟨h3, h2, h1, h0⟩ := h
  rw [← UInt32.toNat_inj, ← be4_toNat w, ← be4_toNat w', h3, h2, h1, h0]

/-- **The way of the time**: the server replies with it, the host asks for it with `CMD_TIME_SYNC`,
and returns the four bytes it is sent as the time of an upload. -/
structure Trip (o : Outside) (h : Http) where
  time : DateTime
  reply : TimeReply o time
  ask : UartCmdFormat
  env : Env
  upload : Upload
  returned : be4 upload.time =
    sentTime ask { env with tvSec := (getTimeParse o h reply.buffer).1.tvSec }
  frame : UartCmdFormat
  holdsFrame : HoldsFrame frame upload

variable {o : Outside} {h : Http}

theorem Trip.measureTime (x : Trip o h) (env : Env) : (httpRecord x.frame env).measureTime =
    x.time.shown ++ ".000 " ++ zoneText x.upload.zoneValue := by
  have hback := be4_inj (x.returned.trans (sentTime_eq _ _))
  have hclock := x.reply.tvSec h
  obtain ⟨h0, h31⟩ := x.time.clock_bounds
  have hint : (Int32.ofNat x.upload.time.toNat).toInt = x.time.clock := by
    rw [hback]
    dsimp only
    rw [Int32.toInt_ofNat_of_lt (by omega), hclock]
  rw [(x.holdsFrame.decoded env).measureTime, measureTimeText_eq, hint]
  rfl

/-- **When the date comes back.** Exactly if the month after it is in the same year and has its day:
then the date that `mktime` has moved on by a month is moved back by printing it. -/
theorem measureTime_iff (x : Trip o h) (env : Env) : (httpRecord x.frame env).measureTime =
    x.time.text ++ ".000 " ++ zoneText x.upload.zoneValue ↔ x.time.Kept := by
  rw [x.measureTime env, ← x.time.shown_eq_text_iff, String.append_left_inj, String.append_left_inj]

/-- The last of January. -/
def january31 : DateTime where
  year := 2017
  month := 1
  day := 31
  hour := 12
  min := 0
  sec := 0
  year_ge := by decide
  year_le := by decide
  valid := ⟨by decide, by decide, by decide, by decide⟩
  hour_lt := by decide
  min_lt := by decide
  sec_lt := by decide

/-- The server's reply with that time. -/
def replyJanuary : List UInt8 :=
  ascii "\x7b\"errno\":0,\"data\":\x7b\"time\":\"2017-01-31 12:00:00.000\",\"time_zone\":\"0800\"\x7d\x7d"

def dataJanuary : CJSON :=
  .object [(ascii "time", .string (ascii january31.text ++ ascii ".000")),
    (ascii "time_zone", .string (ascii "0800"))]

def rootJanuary : CJSON := .object [(ascii "errno", .number 0 0), (ascii "data", dataJanuary)]

/-- `cJSON` for that reply. -/
def outsideJanuary : Outside where
  cjsonParse := fun text => if text = replyJanuary then some rootJanuary else none
  render := fun _ => []
  stack := ⟨0, 0, 0, 0, 0, 0⟩

def timeReplyJanuary : TimeReply outsideJanuary january31 where
  buffer := replyJanuary
  root := rootJanuary
  data := dataJanuary
  valuedouble := 0
  rest := ascii ".000"
  parsed := by simp [outsideJanuary]
  errno := rfl
  getData := rfl
  time := rfl

def httpJanuary : Http := ⟨systemInfoInit, netStateInit, 0, 0⟩

def uploadJanuary : Upload where
  cardNo := []
  ne_zero := by simp
  length_le := by decide
  zone := 16
  time := 1488542400
  tallPressure := 120
  lowPressure := 80
  heartRate := 60

/-- Its way from the server to the upload. -/
def tripJanuary : Trip outsideJanuary httpJanuary where
  time := january31
  reply := timeReplyJanuary
  ask := fun _ => 0
  env := envInit
  upload := uploadJanuary
  returned := by
    have hclock := timeReplyJanuary.tvSec httpJanuary
    have hvalue : january31.clock = 1488542400 := by decide +kernel
    refine congrArg be4 (UInt32.toNat_inj.mp ?_)
    show 1488542400 = (getTimeParse outsideJanuary httpJanuary
      timeReplyJanuary.buffer).1.tvSec.toNat
    omega
  frame := fun i => (uploadJanuary.frame 0 1 0xA1).getD i 0
  holdsFrame := ⟨0, 1, 0xA1, by decide +kernel⟩

/-- It comes back as the third of February. -/
theorem january31_moved : (httpRecord tripJanuary.frame envInit).measureTime ≠
    january31.text ++ ".000 " ++ zoneText uploadJanuary.zoneValue := by
  rw [tripJanuary.measureTime envInit]
  show january31.shown ++ ".000 " ++ zoneText uploadJanuary.zoneValue ≠ _
  rw [Ne, String.append_left_inj, String.append_left_inj, january31.shown_eq_text_iff]
  decide

end MultiPortConvertor.Net.ServerTime
