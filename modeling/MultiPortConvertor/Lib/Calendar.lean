import Mathlib.Data.Int.Notation
import Mathlib.Data.Nat.Notation
import Mathlib.Tactic.IntervalCases

/-! # Calendar time

`gmtime` of the C library: the date and the time of day, in UTC and the Gregorian calendar, of a
number of seconds since 1970. The date is found from the day counted in eras of 400 years that begin
on a first of March. -/

namespace MultiPortConvertor.Lib.Calendar

/-- `struct tm`: `tmYear` counts from 1900 and `tmMon` from 0. -/
structure Tm where
  tmYear : ℤ
  tmMon : ℕ
  tmMday : ℕ
  tmHour : ℕ
  tmMin : ℕ
  tmSec : ℕ
  deriving DecidableEq

/-- The day `days` after the first of January 1970: year, month (from 1) and day of the month. -/
def civil (days : ℤ) : ℤ × ℕ × ℕ :=
  let z := days + 719468
  let era := z / 146097
  let doe := (z % 146097).toNat
  let yoe := (doe - doe / 1460 + doe / 36524 - doe / 146096) / 365
  let doy := doe - (365 * yoe + yoe / 4 - yoe / 100)
  let mp := (5 * doy + 2) / 153
  let month := if mp < 10 then mp + 3 else mp - 9
  (yoe + era * 400 + (if month ≤ 2 then 1 else 0), month, doy - (153 * mp + 2) / 5 + 1)

/-- `gmtime`. -/
def gmtime (t : ℤ) : Tm :=
  let (year, month, day) := civil (t / 86400)
  let secs := (t % 86400).toNat
  { tmYear := year - 1900
    tmMon := month - 1
    tmMday := day
    tmHour := secs / 3600
    tmMin := secs % 3600 / 60
    tmSec := secs % 60 }

example : gmtime 1500000000 = ⟨117, 6, 14, 2, 40, 0⟩ := by decide

example : gmtime (-1) = ⟨69, 11, 31, 23, 59, 59⟩ := by decide

/-! ### The day of a date -/

/-- The days of the year before the month `mp`, counted from March. -/
def daysBefore (mp : ℕ) : ℕ := (153 * mp + 2) / 5

/-- The days from the first of January 1970 to a date, the month from 1. -/
def daysFromCivil (year : ℤ) (month day : ℕ) : ℤ :=
  let y := if month ≤ 2 then year - 1 else year
  let era := y / 400
  let yoe := (y % 400).toNat
  let doy := daysBefore (if month ≤ 2 then month + 9 else month - 3) + day - 1
  era * 146097 + (yoe * 365 + yoe / 4 - yoe / 100 + doy : ℕ) - 719468

/-- A leap year. -/
def leap (year : ℤ) : Prop := year % 4 = 0 ∧ (year % 100 ≠ 0 ∨ year % 400 = 0)

instance (year : ℤ) : Decidable (leap year) := inferInstanceAs (Decidable (_ ∧ _))

def daysInMonth (year : ℤ) (month : ℕ) : ℕ :=
  if month = 2 then (if leap year then 29 else 28)
  else if month = 4 ∨ month = 6 ∨ month = 9 ∨ month = 11 then 30 else 31

/-- The year of the era is found from the day of the era; `doy` counts from March. -/
theorem yoe_of_doe {yoe doy : ℕ} (hy : yoe < 400)
    (hd : doy < 365 ∨ doy = 365 ∧ yoe % 4 = 3 ∧ (yoe % 100 ≠ 99 ∨ yoe = 399)) :
    let doe := yoe * 365 + yoe / 4 - yoe / 100 + doy
    (doe - doe / 1460 + doe / 36524 - doe / 146096) / 365 = yoe := by
  intro doe
  obtain ⟨c, q, r, hc, hq, hr, rfl⟩ : ∃ c q r, c < 4 ∧ q < 25 ∧ r < 4 ∧ yoe = 100 * c + 4 * q + r :=
    ⟨yoe / 100, yoe % 100 / 4, yoe % 4, by omega, by omega, by omega, by omega⟩
  have hdoe : doe = 36524 * c + 1461 * q + 365 * r + doy := by
    show (100 * c + 4 * q + r) * 365 + (100 * c + 4 * q + r) / 4 - (100 * c + 4 * q +
      r) / 100 + doy = _
    omega
  have hd' : doy < 365 ∨ doy = 365 ∧ r = 3 ∧ (q < 24 ∨ c = 3) := by omega
  clear_value doe
  clear hd hy
  by_cases hlast : doe = 146096
  · rw [hlast]
    omega
  have h2 : doe / 36524 = c := by omega
  have h3 : doe / 146096 = 0 := by omega
  have h1 : doe / 1460 = 25 * c + q ∧ doy < 365 ∨ doe / 1460 = 25 * c + q + 1 ∧ 1 ≤ doy := by omega
  rw [h2, h3]
  rcases h1 with ⟨h1, hlt⟩ | ⟨h1, hlt⟩
  · rw [h1]
    omega
  · rw [h1]
    omega

/-- **A date**: the month from 1 to 12, the day from 1 to the length of the month. -/
structure ValidDate (year : ℤ) (month day : ℕ) : Prop where
  one_le_month : 1 ≤ month
  month_le : month ≤ 12
  one_le_day : 1 ≤ day
  day_le : day ≤ daysInMonth year month

/-- What the lengths of the months say of a date. -/
theorem validDate_cases {year : ℤ} {month day : ℕ} (h : ValidDate year month day) :
    (month = 1 ∧ day ≤ 31) ∨ (month = 2 ∧ (day ≤ 28 ∨ day = 29 ∧ leap year)) ∨
      (3 ≤ month ∧ day ≤ 31 ∧ (month = 4 ∨ month = 6 ∨ month = 9 ∨ month = 11 → day ≤ 30)) := by
  obtain ⟨h1, h2, h3, h4⟩ := h
  unfold daysInMonth at h4
  by_cases hm : month = 2
  · rw [if_pos hm] at h4
    split_ifs at h4 with hl
    · rcases Nat.lt_or_ge day 29 with hd | hd
      · exact .inr (.inl ⟨hm, .inl (by omega)⟩)
      · exact .inr (.inl ⟨hm, .inr ⟨by omega, hl⟩⟩)
    · exact .inr (.inl ⟨hm, .inl (by omega)⟩)
  · rw [if_neg hm] at h4
    split_ifs at h4 with h30
    · omega
    · omega

/-- The month is found from the day of the year. -/
theorem month_of_day {mp k : ℕ} (hm : mp < 12) (hk : k < 31)
    (h30 : mp = 1 ∨ mp = 3 ∨ mp = 6 ∨ mp = 8 → k < 30) (h29 : mp = 11 → k < 29) :
    (5 * (daysBefore mp + k) + 2) / 153 = mp := by
  unfold daysBefore
  have h29' : mp < 11 ∨ k < 29 := by omega
  clear h29
  interval_cases mp <;> omega

/-- **A date is found from its day.** -/
theorem civil_daysFromCivil {year : ℤ} {month day : ℕ} (h : ValidDate year month day) :
    civil (daysFromCivil year month day) = (year, month, day) := by
  have hd := validDate_cases h
  obtain ⟨h1, h2, h3, -⟩ := h
  obtain ⟨y, hy⟩ : ∃ y, y = if month ≤ 2 then year - 1 else year := ⟨_, rfl⟩
  obtain ⟨mp, hmp⟩ : ∃ mp, mp = if month ≤ 2 then month + 9 else month - 3 := ⟨_, rfl⟩
  obtain ⟨yoe, hyoe⟩ : ∃ yoe : ℕ, (yoe : ℤ) = y % 400 := ⟨(y % 400).toNat, by omega⟩
  obtain ⟨k, rfl⟩ : ∃ k, day = k + 1 := ⟨day - 1, by omega⟩
  have hmp12 : mp < 12 := by split_ifs at hmp <;> omega
  have hmonth : (5 * (daysBefore mp + k) + 2) / 153 = mp := by
    refine month_of_day hmp12 ?_ ?_ ?_
    · omega
    · split_ifs at hmp <;> omega
    · split_ifs at hmp <;> omega
  have hdoy : daysBefore mp + k < 365 ∨
      daysBefore mp + k = 365 ∧ yoe % 4 = 3 ∧ (yoe % 100 ≠ 99 ∨ yoe = 399) := by
    unfold daysBefore
    unfold leap at hd
    split_ifs at hmp hy
    · rcases hd with ⟨rfl, hd⟩ | ⟨rfl, hd⟩ | ⟨hm, -⟩
      · omega
      · omega
      · omega
    · omega
  have hyear := yoe_of_doe (by omega) hdoy
  have hdays : daysFromCivil year month (k + 1) =
      y / 400 * 146097 + (yoe * 365 + yoe / 4 - yoe / 100 + (daysBefore mp + k) : ℕ) - 719468 := by
    have hn : (y % 400).toNat = yoe := by omega
    unfold daysFromCivil
    dsimp only
    rw [← hy, ← hmp, hn]
    rfl
  obtain ⟨doe, hdoe⟩ : ∃ doe, doe = yoe * 365 + yoe / 4 - yoe / 100 + (daysBefore mp + k) :=
    ⟨_, rfl⟩
  have hlt : doe < 146097 := by omega
  have hsub : doe - (365 * yoe + yoe / 4 - yoe / 100) = daysBefore mp + k := by omega
  rw [← hdoe] at hyear hdays
  have hz : daysFromCivil year month (k + 1) + 719468 = y / 400 * 146097 + doe := by omega
  have hera : (daysFromCivil year month (k + 1) + 719468) / 146097 = y / 400 := by omega
  have hmod : ((daysFromCivil year month (k + 1) + 719468) % 146097).toNat = doe := by omega
  dsimp only at hyear
  unfold civil
  dsimp only
  rw [hera, hmod, hyear, hsub, hmonth]
  have hmon : (if mp < 10 then mp + 3 else mp - 9) = month := by
    split_ifs at hmp ⊢ <;> omega
  have hday : daysBefore mp + k - (153 * mp + 2) / 5 + 1 = k + 1 := by
    unfold daysBefore
    omega
  rw [hmon, hday]
  refine Prod.ext ?_ rfl
  dsimp only
  split_ifs at hy ⊢ <;> omega

/-- The days of the years before `y`, each counted from March. -/
def daysBeforeYear (y : ℤ) : ℤ := 365 * y + y / 4 - y / 100 + y / 400

/-- The day of a date in closed form. -/
theorem daysFromCivil_eq (year : ℤ) (month : ℕ) {day : ℕ} (hd : 1 ≤ day) :
    daysFromCivil year month day = daysBeforeYear (if month ≤ 2 then year - 1 else year) +
      daysBefore (if month ≤ 2 then month + 9 else month - 3) + day - 719469 := by
  unfold daysFromCivil daysBeforeYear
  dsimp only
  generalize (if month ≤ 2 then year - 1 else year) = y
  generalize daysBefore (if month ≤ 2 then month + 9 else month - 3) = d
  obtain ⟨yoe, hyoe⟩ : ∃ yoe : ℕ, (yoe : ℤ) = y % 400 := ⟨(y % 400).toNat, by omega⟩
  have hn : (y % 400).toNat = yoe := by omega
  have h4 : y / 4 = 100 * (y / 400) + yoe / 4 := by omega
  have h100 : y / 100 = 4 * (y / 400) + yoe / 100 := by omega
  rw [hn, h4, h100]
  omega

/-- A year counted from March has 366 days if it ends in a leap year. -/
theorem daysBeforeYear_pred (year : ℤ) :
    daysBeforeYear year = daysBeforeYear (year - 1) + if leap year then 366 else 365 := by
  have h4 : (year - 1) / 4 = year / 4 - if year % 4 = 0 then 1 else 0 := by split_ifs <;> omega
  have h100 : (year - 1) / 100 = year / 100 - if year % 100 = 0 then 1 else 0 := by
    split_ifs <;> omega
  have h400 : (year - 1) / 400 = year / 400 - if year % 400 = 0 then 1 else 0 := by
    split_ifs <;> omega
  unfold daysBeforeYear leap
  rw [h4, h100, h400]
  split_ifs <;> omega

/-- What the lengths of the months say of the days before them. -/
theorem daysBefore_next {month : ℕ} (h3 : 3 ≤ month) (h11 : month ≤ 11) :
    daysBefore (month + 1 - 3) = daysBefore (month - 3) +
      if month = 4 ∨ month = 6 ∨ month = 9 ∨ month = 11 then 30 else 31 := by
  interval_cases month <;> rfl

/-- Days behind the end of a month are days of the next one. -/
theorem daysFromCivil_next {year : ℤ} {month : ℕ} (h1 : 1 ≤ month) (h11 : month ≤ 11) {k : ℕ}
    (hk : 1 ≤ k) : daysFromCivil year month (daysInMonth year month + k) =
      daysFromCivil year (month + 1) k := by
  rw [daysFromCivil_eq _ _ (by omega), daysFromCivil_eq _ _ hk]
  unfold daysInMonth
  by_cases hm : month = 2
  · subst hm
    have h3 : ¬ 2 + 1 ≤ 2 := by omega
    simp only [Nat.le_refl, if_true, h3, if_false]
    rw [daysBeforeYear_pred year]
    unfold daysBefore
    split_ifs
    · omega
    · omega
  · rw [if_neg hm]
    rcases Nat.lt_or_ge month 3 with hlt | h3
    · obtain rfl : month = 1 := by omega
      simp [daysBefore]
      omega
    · have hle : ¬ month ≤ 2 := by omega
      have hle' : ¬ month + 1 ≤ 2 := by omega
      simp only [hle, hle', if_false]
      rw [daysBefore_next h3 h11]
      omega

theorem daysFromCivil_bounds {year : ℤ} {month day : ℕ} (hy : 1970 ≤ year) (h1 : 1 ≤ month)
    (h12 : month ≤ 12) (hd : 1 ≤ day) : 0 ≤ daysFromCivil year month day ∧
      daysFromCivil year month day < 366 * (year - 1970) + 31 * month + day := by
  rw [daysFromCivil_eq _ _ hd]
  unfold daysBeforeYear daysBefore
  split_ifs
  · omega
  · omega

/-! ### `mktime` -/

/-- `struct tm` as it is handed to `mktime`, with fields out of range. `tm_isdst` is not among them:
UTC has no summer time, and there `mktime` is taken to ignore it. -/
structure Fields where
  tmYear : ℤ
  tmMon : ℤ
  tmMday : ℤ
  tmHour : ℤ
  tmMin : ℤ
  tmSec : ℤ

/-- `mktime`, in UTC. -/
def mktime (f : Fields) : ℤ :=
  (daysFromCivil (f.tmYear + 1900 + f.tmMon / 12) ((f.tmMon % 12).toNat + 1) 1 + (f.tmMday - 1)) *
    86400 + f.tmHour * 3600 + f.tmMin * 60 + f.tmSec

theorem daysFromCivil_day (year : ℤ) (month : ℕ) {day : ℕ} (h : 1 ≤ day) :
    daysFromCivil year month 1 + (day - 1) = daysFromCivil year month day := by
  rw [daysFromCivil_eq _ _ h, daysFromCivil_eq _ _ (Nat.le_refl 1)]
  omega

/-- The day of a date that is one month late, as `mktime` counts it. -/
def monthLate (year : ℤ) (month day : ℕ) : ℤ :=
  daysFromCivil (year + (month : ℤ) / 12) (month % 12 + 1) day

theorem civil_monthLate {year : ℤ} {month day : ℕ} (h : ValidDate year month day) :
    civil (monthLate year month day) =
      if month = 12 then (year + 1, 1, day)
      else if day ≤ daysInMonth year (month + 1) then (year, month + 1, day)
      else (year, month + 2, day - daysInMonth year (month + 1)) := by
  have hd := validDate_cases h
  obtain ⟨h1, h2, h3, -⟩ := h
  unfold monthLate
  by_cases hm : month = 12
  · subst hm
    have hv : ValidDate (year + 1) 1 day := ⟨by omega, by omega, h3, by simp [daysInMonth]; omega⟩
    exact civil_daysFromCivil hv
  have hyear : year + (month : ℤ) / 12 = year := by omega
  have hmod : month % 12 = month := by omega
  rw [if_neg hm, hyear, hmod]
  split_ifs with hlen
  · exact civil_daysFromCivil ⟨by omega, by omega, h3, hlen⟩
  · have hlen31 : daysInMonth year (month + 1) < 31 := by omega
    have h12 : month + 1 ≤ 11 := by
      by_contra hgt
      have h11 : month + 1 = 12 := by omega
      rw [h11] at hlen31
      exact absurd hlen31 (by simp [daysInMonth])
    obtain ⟨k, hk⟩ := Nat.exists_eq_add_of_le (Nat.le_of_not_le hlen)
    have hlen28 : 28 ≤ daysInMonth year (month + 1) := by
      unfold daysInMonth
      split_ifs <;> omega
    have hk28 : 28 ≤ daysInMonth year (month + 1 + 1) := by
      unfold daysInMonth
      split_ifs <;> omega
    rw [hk, daysFromCivil_next (by omega) h12 (by omega), Nat.add_sub_cancel_left]
    exact civil_daysFromCivil ⟨by omega, by omega, by omega, by omega⟩

/-- `gmtime` takes a time apart into the date and the time of day. -/
theorem gmtime_days (days : ℤ) {hour min sec : ℕ} (hh : hour < 24) (hm : min < 60) (hs : sec < 60) :
    gmtime (days * 86400 + hour * 3600 + min * 60 + sec) =
      ⟨(civil days).1 - 1900, (civil days).2.1 - 1, (civil days).2.2, hour, min, sec⟩ := by
  have hd : (days * 86400 + hour * 3600 + min * 60 + sec) / 86400 = days := by omega
  have hr : ((days * 86400 + hour * 3600 + min * 60 + sec) % 86400).toNat =
      hour * 3600 + min * 60 + sec := by omega
  unfold gmtime
  rw [hd, hr]
  simp only [Tm.mk.injEq, true_and]
  omega

end MultiPortConvertor.Lib.Calendar
