import MultiPortConvertor.Lib.Scanf
import MultiPortConvertor.Uart.UploadRecord

/-! # The time zone there and back

`time_sync_rsp` sends the zone in half hours, as two bytes. `http_up_data_rsp` puts them together as
an unsigned number and halves it before it makes a signed one of it, and then prints whole hours. So
its branches for negative zones are never reached, and only an even zone that is not negative comes
back as what it was (`zone_iff`). -/

namespace MultiPortConvertor.Uart.TimeZone

open MultiPortConvertor.Lib.Bytes MultiPortConvertor.Lib.CString MultiPortConvertor.Lib.Scanf
open MultiPortConvertor.App.System MultiPortConvertor.Uart.Format MultiPortConvertor.Uart.Handlers
open MultiPortConvertor.Uart.Parse MultiPortConvertor.Uart.UploadRecord

/-! ### Reading a zone -/

/-- The minutes that some digits stand for: hours, and two digits for minutes. -/
def clockMinutes (ds : List UInt8) : Option ℤ :=
  if ds.all isDigit ∧ 3 ≤ ds.length then
    some (60 * (value (ds.take (ds.length - 2)) : ℤ) + value (ds.drop (ds.length - 2)))
  else none

/-- The offset in minutes that a zone denotes: a sign, the hours, and two digits for minutes. -/
def zoneMinutes (text : String) : Option ℤ :=
  match ascii text with
  | [] => none
  | sign :: ds =>
    if sign = 0x2B then clockMinutes ds
    else if sign = 0x2D then (clockMinutes ds).map (-·)
    else none

example : zoneMinutes "-0330" = some (-210) := by decide

theorem clockMinutes_hours {ds : List UInt8} (hne : ds ≠ []) (hds : ∀ b ∈ ds, isDigit b = true) :
    clockMinutes (ds ++ ascii "00") = some (60 * (value ds : ℤ)) := by
  have hall : ((ds ++ ascii "00").all isDigit) = true := by
    rw [List.all_append, Bool.and_eq_true]
    exact ⟨List.all_eq_true.mpr hds, by decide⟩
  have hlen : (ds ++ ascii "00").length - 2 = ds.length := by
    rw [List.length_append]
    exact Nat.add_sub_cancel _ 2
  have hpos : 0 < ds.length := List.length_pos_of_ne_nil hne
  have h3 : 3 ≤ (ds ++ ascii "00").length := by omega
  rw [clockMinutes, if_pos ⟨hall, h3⟩, hlen, List.take_left, List.drop_left]
  exact congrArg some (Int.add_zero _)

/-! ### What is printed -/

/-- The zone printed for hours that are not negative. -/
theorem zoneMinutes_zoneText {timezone : Int16} {n : ℕ} (h : timezone.toInt = n) :
    zoneMinutes (zoneText timezone) = some (60 * (n : ℤ)) := by
  obtain ⟨hdigits, hvalue⟩ := value_repr n
  have hn : toString (n : ℤ) = toString n := rfl
  unfold zoneText zoneMinutes
  rw [h, if_pos (Int.natCast_nonneg n), hn]
  by_cases h10 : (n : ℤ) < 10
  · have htext : ascii ("+0" ++ toString n ++ "00") =
        0x2B :: ((0x30 :: ascii (toString n)) ++ ascii "00") := by
      simp only [ascii_append]
      rfl
    rw [if_pos h10, htext]
    dsimp only
    rw [if_pos rfl, clockMinutes_hours (List.cons_ne_nil _ _)
      (List.forall_mem_cons.mpr ⟨by decide, hdigits⟩)]
    exact congrArg (fun v : ℕ => some (60 * (v : ℤ))) hvalue
  · have htext : ascii ("+" ++ toString n ++ "00") = 0x2B ::
        (ascii (toString n) ++ ascii "00") := by
      simp only [ascii_append]
      rfl
    have hne : ascii (toString n) ≠ [] := by
      intro hnil
      rw [hnil] at hvalue
      have h0 : (0 : ℕ) = n := hvalue
      omega
    rw [if_neg h10, htext]
    dsimp only
    rw [if_pos rfl, clockMinutes_hours hne hdigits, hvalue]

/-! ### The two bytes -/

/-- The zone in the answer of `time_sync_rsp`. -/
def zoneSent (r : Reply) : List UInt8 := (r.replied.drop 1).take 2

/-- The zone of a `CMD_HTTP_UP_DATA` frame, behind the card number. -/
def zoneField (c : UartCmdFormat) : List UInt8 :=
  let p := (dataStr c).length + 1
  [c.data p, c.data (p + 1)]

section

variable {c : UartCmdFormat} {env : Env} (z : Int16)

/-- The shift copies the sign only into bits that the byte does not have. -/
theorem msb_eq : (z >>> 8).toInt8.toUInt8 = (z.toUInt16 >>> 8).toUInt8 := by
  refine UInt8.eq_of_toBitVec_eq ?_
  show (z.toBitVec.sshiftRight 8).signExtend 8 = (z.toBitVec >>> (8 : BitVec 16)).setWidth 8
  rw [BitVec.signExtend_eq_setWidth_of_le _ (by decide)]
  ext i hi
  simp [BitVec.getElem_sshiftRight, show i < 16 by omega, show 8 + i < 16 by omega]

theorem lsb_eq : z.toInt8.toUInt8 = z.toUInt16.toUInt8 := by
  refine UInt8.eq_of_toBitVec_eq ?_
  show z.toBitVec.signExtend 8 = z.toBitVec.setWidth 8
  exact BitVec.signExtend_eq_setWidth_of_le _ (by decide)

theorem zoneSent_timeSyncRsp : zoneSent (timeSyncRsp c env (.start env)) =
    be2 env.systemInfo.timezone.toUInt16 := by
  rw [timeSyncRsp_eq]
  show [(env.systemInfo.timezone >>> 8).toInt8.toUInt8, env.systemInfo.timezone.toInt8.toUInt8] = _
  rw [msb_eq, lsb_eq]
  rfl

/-- The bytes put together are the zone without its sign. -/
theorem word_zone (h : zoneField c = be2 z.toUInt16) :
    word c ((dataStr c).length + 1) = z.toUInt16.toNat := by
  obtain ⟨hmsb, hlsb⟩ : _ ∧ _ := by simpa [zoneField, be2] using h
  rw [word, hmsb, hlsb, be2_toNat]

/-- A half of an unsigned number is not negative. -/
theorem toInt_half (w : UInt16) : (Int16.ofNat (w.toNat / 2)).toInt = (w.toNat / 2 : ℕ) := by
  have hlt := w.toNat_lt
  rw [Int16.toInt_ofNat']
  have hsize : (Int16.size : ℤ) = 65536 := rfl
  exact Int.bmod_eq_of_le_mul_two (by omega) (by omega)

theorem toInt_eq : z.toInt = if z.toUInt16.toNat < 32768 then (z.toUInt16.toNat : ℤ)
    else (z.toUInt16.toNat : ℤ) - 65536 := by
  have h := BitVec.toInt_eq_toNat_cond z.toBitVec
  have hz : z.toBitVec.toNat = z.toUInt16.toNat := rfl
  rw [hz] at h
  show z.toBitVec.toInt = _
  rw [h]
  split_ifs <;> omega

end

/-- **When the zone survives**: exactly if it is not negative and a number of whole hours. -/
theorem zone_iff (ask c : UartCmdFormat) (env env' : Env)
    (h : zoneField c = zoneSent (timeSyncRsp ask env (.start env))) :
    zoneMinutes (httpRecord c env').timeZone = some (30 * env.systemInfo.timezone.toInt) ↔
      0 ≤ env.systemInfo.timezone.toInt ∧ env.systemInfo.timezone.toInt % 2 = 0 := by
  generalize hz : env.systemInfo.timezone = z
  rw [zoneSent_timeSyncRsp, hz] at h
  have hzone : (httpRecord c env').timeZone = zoneText (Int16.ofNat (z.toUInt16.toNat / 2)) := by
    unfold httpRecord
    dsimp only
    rw [word_zone z h]
  rw [hzone, zoneMinutes_zoneText (toInt_half z.toUInt16), Option.some_inj, toInt_eq z]
  have hlt := z.toUInt16.toNat_lt
  split_ifs <;> omega

/-- A frame without a card number, and with the zone that `time_sync_rsp` sends in `env`. -/
def returned (env : Env) : UartCmdFormat :=
  let sent := zoneSent (timeSyncRsp (filled 0) env (.start env))
  store (store (filled 0) 8 (sent.getD 0 0)) 9 (sent.getD 1 0)

/-- A zone of so many half hours. -/
def envZone (z : Int16) : Env := { envInit with systemInfo := { envInit.systemInfo
    with timezone := z } }

/-- The theorem applied to eight hours east. -/
theorem zone_iff_east :
    zoneMinutes (httpRecord (returned (envZone 16)) envInit).timeZone = some (30 * 16) :=
  (zone_iff (filled 0) (returned (envZone 16)) (envZone 16) envInit (by decide +kernel)).mpr
    (by decide)

/-- Five hours west come back as a zone far east, and five and a half hours east lose their half. -/
theorem zone_west :
    (zoneField (returned (envZone (-10))) =
        zoneSent (timeSyncRsp (filled 0) (envZone (-10)) (.start (envZone (-10)))) ∧
      (httpRecord (returned (envZone (-10))) envInit).timeZone = "+3276300" ∧
      zoneMinutes (httpRecord (returned (envZone (-10))) envInit).timeZone ≠ some (30 * -10)) ∧
    zoneField (returned (envZone 11)) =
        zoneSent (timeSyncRsp (filled 0) (envZone 11) (.start (envZone 11))) ∧
      zoneMinutes (httpRecord (returned (envZone 11)) envInit).timeZone ≠ some (30 * 11) := by
  decide +kernel

end MultiPortConvertor.Uart.TimeZone
