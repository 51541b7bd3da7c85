import MultiPortConvertor.Tool.CJsonRoundTrip
import MultiPortConvertor.Uart.UploadRecord

/-! # The text of an upload

`http_up_data_rsp` builds the record as a value of `cJSON` and renders it, and `post_record_Url`
posts the text up to its terminating zero. Whatever bytes the card number has, the text is read back
as the record (`posted_text`). -/

namespace MultiPortConvertor.Net.PostedText

open MultiPortConvertor.Lib.Bytes MultiPortConvertor.Lib.CString MultiPortConvertor.Lib.Doubles
open MultiPortConvertor.Lib.Outcomes
open MultiPortConvertor.Lib.Parsers MultiPortConvertor.Lib.Scanf
open MultiPortConvertor.Tool.CJson MultiPortConvertor.Tool.CJsonParse
open MultiPortConvertor.Tool.CJsonPrint
open MultiPortConvertor.Tool.CJsonStrings MultiPortConvertor.Tool.CJsonRoundTrip
open MultiPortConvertor.Uart.Format MultiPortConvertor.Uart.Handlers
open MultiPortConvertor.Uart.ParseStatics
open MultiPortConvertor.Uart.UploadRecord MultiPortConvertor.Uart.History
open MultiPortConvertor.Uart.Answers
open MultiPortConvertor.Uart.Transmit MultiPortConvertor.Uart.Refinement
open MultiPortConvertor.Uart.TransmitQueues
open MultiPortConvertor.Uart.Release
open MultiPortConvertor.Uart.Parse (envInit)

/-! ### The value -/

/-- `cJSON_CreateNumber`, of an unsigned number. -/
def createNumber (num : ℕ) : CJSON := .number (Int32.ofNat num) num

/-- `list`. -/
def listItem (r : Record) : CJSON :=
  .object [(ascii "card_no", .string r.cardNo), (ascii "time_zone", .string (ascii r.timeZone)),
    (ascii "measure_time", .string (ascii r.measureTime)),
    (ascii "tall_pressure", createNumber r.tallPressure),
    (ascii "low_pressure", createNumber r.lowPressure),
    (ascii "heart_rate", createNumber r.heartRate),
      (ascii "device_serial", .string (ascii r.deviceSerial))]

/-- `root`. -/
def recordRoot (r : Record) : CJSON :=
  .object [(ascii "queue_num", .string (ascii r.queueNum)), (ascii "data", .array [listItem r])]

/-- `rendered`. -/
def rendered (fpu : Arithmetic) (r : Record) : List UInt8 := cjsonText fpu true (recordRoot r)

/-! ### The strings are C strings -/

variable {s t : List UInt8}

theorem cstr_append : CStr (s ++ t) ↔ CStr s ∧ CStr t := by simp [CStr]

theorem cstr_string {s t : String} : CStr (ascii (s ++ t)) ↔ CStr (ascii s) ∧ CStr (ascii t) := by
  rw [ascii_append, cstr_append]

theorem cstr_nat (n : ℕ) : CStr (ascii (toString n)) := fun h =>
  absurd ((value_repr n).1 0 h) (by decide)

theorem cstr_int (z : ℤ) : CStr (ascii (toString z)) := by
  rcases z with n | n
  · exact cstr_nat n
  · exact cstr_string.mpr ⟨by decide, cstr_nat (n + 1)⟩

theorem cstr_pad2 (n : ℕ) : CStr (ascii (pad2 n)) := by
  unfold pad2
  split_ifs
  · exact cstr_string.mpr ⟨by decide, cstr_nat n⟩
  · exact cstr_nat n

theorem cstr_zoneText (timezone : Int16) : CStr (ascii (zoneText timezone)) := by
  have hzero : CStr (ascii "00") := by decide
  unfold zoneText
  split_ifs
  · exact cstr_string.mpr ⟨cstr_string.mpr ⟨by decide, cstr_int _⟩, hzero⟩
  · exact cstr_string.mpr ⟨cstr_string.mpr ⟨by decide, cstr_int _⟩, hzero⟩
  · exact cstr_string.mpr ⟨cstr_string.mpr ⟨by decide, cstr_nat _⟩, hzero⟩
  · exact cstr_string.mpr ⟨cstr_int _, hzero⟩

theorem cstr_measureTimeText (utcTime : Int32) (timezone : Int16) :
    CStr (ascii (measureTimeText utcTime (zoneText timezone))) := by
  have hdash : CStr (ascii "-") := by decide
  have hcolon : CStr (ascii ":") := by decide
  have hblank : CStr (ascii " ") := by decide
  have hmillis : CStr (ascii ".000 ") := by decide
  simp only [measureTimeText, cstr_string, cstr_int, cstr_pad2, cstr_zoneText, hdash,
    hcolon, hblank,
    hmillis, and_self]

theorem cstr_hex2 (b : UInt8) : CStr (ascii (hex2 b)) := by
  have hdigit : ∀ n < 16, UInt8.ofNat (Nat.digitChar n).toNat ≠ 0 := by decide
  have hlt := b.toNat_lt
  have hhi := hdigit _ (show b.toNat / 16 < 16 by omega)
  have hlo := hdigit _ (show b.toNat % 16 < 16 by omega)
  simp [CStr, ascii, hex2, hhi.symm, hlo.symm]

theorem cstr_intercalate {sep : String} (hsep : CStr (ascii sep)) : ∀ {ss : List String},
    (∀ s ∈ ss, CStr (ascii s)) → CStr (ascii (sep.intercalate ss))
  | [], _ => by
    rw [String.intercalate_nil]
    decide
  | [s], h => by
    rw [String.intercalate_singleton]
    exact h s (by simp)
  | s :: t :: ss, h => by
    have ih := cstr_intercalate hsep fun u hu => h u (List.mem_cons_of_mem s hu)
    rw [String.intercalate_cons_cons, cstr_string, cstr_string]
    exact ⟨⟨h s (by simp), hsep⟩, ih⟩

theorem cstr_cstrFrom (m : Memory) : ∀ n off : ℕ, CStr (cstrFrom m off n)
  | 0, _ => by simp [cstrFrom, CStr]
  | n + 1, off => by
    rw [cstrFrom]
    split_ifs with h0
    · simp [CStr]
    · exact List.not_mem_cons_of_ne_of_not_mem (Ne.symm h0) (cstr_cstrFrom m n (off + 1))

theorem cstr_dataStr (c : UartCmdFormat) : CStr (dataStr c) := by
  rw [dataStr, cstr]
  exact cstr_cstrFrom c _ 7

theorem word_lt (c : UartCmdFormat) (p : ℕ) : word c p < 2 ^ 16 := by
  have hhi : (c.data p).toNat <<< 8 < 2 ^ 16 := by
    have hlt := (c.data p).toNat_lt
    rw [Nat.shiftLeft_eq]
    omega
  exact Nat.or_lt_two_pow hhi ((c.data (p + 1)).toNat_lt.trans (by decide))

/-- A reading is whole. -/
theorem all_createNumber {n : ℕ} (h : n < 2 ^ 16) : All CStr Whole (createNumber n) := by
  refine .number ?_
  have hint : (Int32.ofNat n).toInt = n := Int32.toInt_ofNat_of_lt (by omega)
  rw [Whole, hint, Int.cast_natCast]

/-- The strings of a record are C strings, and its readings are words. -/
structure Plain (r : Record) : Prop where
  queueNum : CStr (ascii r.queueNum)
  cardNo : CStr r.cardNo
  timeZone : CStr (ascii r.timeZone)
  measureTime : CStr (ascii r.measureTime)
  tallPressure : r.tallPressure < 2 ^ 16
  lowPressure : r.lowPressure < 2 ^ 16
  heartRate : r.heartRate < 2 ^ 16
  deviceSerial : CStr (ascii r.deviceSerial)

theorem plain_httpRecord (c : UartCmdFormat) (env : Env) : Plain (httpRecord c env) := by
  have hserial : ∀ s ∈ (List.ofFn env.systemInfo.mac).map hex2, CStr (ascii s) := by
    intro s hs
    obtain ⟨b, -, rfl⟩ := List.mem_map.mp hs
    exact cstr_hex2 b
  unfold httpRecord
  dsimp only
  constructor
  all_goals dsimp only
  · exact cstr_nat env.httpSendSn.toNat
  · exact cstr_dataStr c
  · exact cstr_zoneText _
  · exact cstr_measureTimeText _ _
  · exact word_lt c _
  · exact word_lt c _
  · exact word_lt c _
  · exact cstr_intercalate (by decide) hserial

theorem Plain.all {r : Record} (h : Plain r) : All CStr Whole (recordRoot r) := by
  have hlist : All CStr Whole (listItem r) := by
    refine .object ?_ ?_
    · simp only [List.forall_mem_cons, List.not_mem_nil, false_implies, implies_true, and_true]
      decide
    · simp only [List.forall_mem_cons, List.not_mem_nil, false_implies, implies_true, and_true]
      exact ⟨.string h.cardNo, .string h.timeZone, .string h.measureTime,
        all_createNumber h.tallPressure, all_createNumber h.lowPressure,
        all_createNumber h.heartRate,
        .string h.deviceSerial⟩
  refine .object ?_ ?_
  · simp only [List.forall_mem_cons, List.not_mem_nil, false_implies, implies_true, and_true]
    decide
  · simp only [List.forall_mem_cons, List.not_mem_nil, false_implies, implies_true, and_true]
    exact ⟨.string h.queueNum, .array (by simpa using hlist)⟩

/-- What is found in the element of `data`. -/
structure Found (item : CJSON) (u : Upload) : Prop where
  cardNo : getObjectItem item "card_no" = some (.string u.cardNo)
  timeZone : getObjectItem item "time_zone" = some (.string (ascii (zoneText u.zoneValue)))
  measureTime : getObjectItem item "measure_time" =
    some (.string (ascii (measureTimeText (Int32.ofNat u.time.toNat) (zoneText u.zoneValue))))
  tallPressure : getObjectItem item "tall_pressure" = some (createNumber u.tallPressure.toNat)
  lowPressure : getObjectItem item "low_pressure" = some (createNumber u.lowPressure.toNat)
  heartRate : getObjectItem item "heart_rate" = some (createNumber u.heartRate.toNat)

theorem found_of_decoded {u : Upload} {r : Record} (h : Decoded u r) : Found (listItem r) u := by
  constructor
  · rw [← h.cardNo]
    rfl
  · rw [← h.timeZone]
    rfl
  · rw [← h.measureTime]
    rfl
  · rw [← h.tallPressure]
    rfl
  · rw [← h.lowPressure]
    rfl
  · rw [← h.heartRate]
    rfl

section

variable {va : List UInt8 → List UInt8} {c : UartCmdFormat} {u : Upload} {p t : Process} {env : Env}
  {effects : List Effect}

/-- The effects of a frame with an upload. -/
theorem effects_eq (hc : HoldsFrame c u) (hs : p.step va (.frame c env) = .next (t, effects)) :
    effects = [.postRecordUrl (httpRecord c { env with httpSendSn := p.statics.httpSendSn })] := by
  have hparse := uartProtocolParse_eq va c env p.statics p.tx
    (parse_httpUpData va { env with httpSendSn := p.statics.httpSendSn } hc.check hc.cmdId)
      (by simp)
  rw [step_frame hs] at hparse
  obtain ⟨x, -, hx⟩ := Outcome.bind_eq_next.mp hparse.symm
  obtain ⟨-, -, rfl⟩ : _ ∧ _ ∧ _ = effects := by simpa using hx
  rfl

theorem exists_step (va : List UInt8 → List UInt8) (hc : HoldsFrame c u) (hl : Linked p.tx)
    (hu : p.tx.locked = false) (env : Env) : ∃ x, p.step va (.frame c env) = .next x := by
  obtain ⟨x, hx⟩ := acknowledge_linked hl hu c.sn
  have hparse := uartProtocolParse_eq va c env p.statics p.tx
    (parse_httpUpData va { env with httpSendSn := p.statics.httpSendSn } hc.check hc.cmdId)
      (by simp)
  rw [recv, hx] at hparse
  exact ⟨_, by rw [Process.step, hparse]; rfl⟩

/-- **The text that is posted says what the host uploaded**: handling the frame of an upload,
whatever bytes the card number has, hands on one record; its text has no zero in it, and `cJSON`
reads it to its end as an object in which the number of the upload and its fields are found. -/
theorem posted_text (va : List UInt8 → List UInt8) (fpu : Arithmetic) (hc : HoldsFrame c u)
    (hs : p.step va (.frame c env) = .next (t, effects)) : ∃ r, effects = [.postRecordUrl r] ∧
      CStr (rendered fpu r) ∧ ∀ stack, 4 ≤ stack → ∃ root item,
        cjsonParse fpu stack (rendered fpu r) = .ok root [] ∧
        getObjectItem root "queue_num" =
          some (.string (ascii (toString p.statics.httpSendSn.toNat))) ∧
        getObjectItem root "data" = some (.array [item]) ∧ Found item u := by
  obtain ⟨r, hr⟩ : ∃ r, r = httpRecord c { env with httpSendSn := p.statics.httpSendSn } := ⟨_, rfl⟩
  have hplain : Plain r := hr ▸ plain_httpRecord c _
  have hall := hplain.all
  have hd : Decoded u r := hr ▸ hc.decoded _
  refine ⟨r, by rw [effects_eq hc hs, hr], cstr_cjsonText _,
    fun stack hstack => ⟨recordRoot r, listItem r, ?_, ?_, rfl, found_of_decoded hd⟩⟩
  · have hread : cjsonParse fpu stack (rendered fpu r ++ []) = .ok (reread fpu (recordRoot r)) [] :=
      cjsonParse_cjsonText hall hstack trivial
    rw [List.append_nil, reread_eq_self hall] at hread
    exact hread
  · have hqueue : r.queueNum = toString p.statics.httpSendSn.toNat := by
      rw [hr]
      rfl
    rw [← hqueue]
    rfl

end

/-- A card number that tries to end its string. -/
def quotedUpload : Upload where
  cardNo := ascii "1\",\"x\":\"\\"
  ne_zero := by decide +kernel
  length_le := by decide
  zone := 16
  time := 1500000000
  tallPressure := 120
  lowPressure := 80
  heartRate := 60

def quotedFrame : UartCmdFormat := fun i => (quotedUpload.frame 0 9 0xA1).getD i 0

theorem posted_text_quoted : ∃ t r,
    Process.step id ⟨Statics.init, txInit⟩ (.frame quotedFrame envInit) =
    .next (t, [.postRecordUrl r]) ∧
      ∃ root item, cjsonParse binary64 4 (rendered binary64 r) = .ok root [] ∧
        getObjectItem root "data" = some (.array [item]) ∧
        getObjectItem item "card_no" = some (.string quotedUpload.cardNo) := by
  have hc : HoldsFrame quotedFrame quotedUpload := ⟨0, 9, 0xA1, by decide +kernel⟩
  have hlinked : Linked txInit := by
    have hr := rep_start uartContextInit_txInit
    exact ⟨_, hr, by simp [start, Queues.list]⟩
  obtain ⟨⟨t, effects⟩, ht⟩ := exists_step id (p := ⟨Statics.init, txInit⟩) hc hlinked rfl envInit
  obtain ⟨r, rfl, -, hread⟩ := posted_text id binary64 hc ht
  obtain ⟨root, item, hparse, -, hdata, hfound⟩ := hread 4 (by decide)
  exact ⟨t, r, ht, root, item, hparse, hdata, hfound.cardNo⟩

end MultiPortConvertor.Net.PostedText
