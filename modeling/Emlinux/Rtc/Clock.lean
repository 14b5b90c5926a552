import Mathlib.Tactic

/-!
# Dates and seconds

The clock is kept as a date; the kernel counts seconds since 1970. `rtc_time_to_tm` estimates the year from the days, corrects it once and walks
over the months; `rtc_tm_to_time` is the formula of `mktime`, where the year starts in March.

* `rtcTimeToTm`, `rtcValidTm`, `rtcTmToTime`: the functions.
* `Dated`: a day number is a day of a month of a year.
* `rtcTimeToTm_valid`, `rtcTmToTime_rtcTimeToTm`: each second of 32 bits gives a valid date, and the date gives the second.
* `rtcTmToTime_of_dated`: the second of a date.
-/

namespace Emlinux.Rtc

/-- `struct rtc_time`. -/
@[ext] structure RtcTime where
  sec : Int
  min : Int
  hour : Int
  mday : Int
  mon : Int
  year : Int
  wday : Int
  yday : Int
  isdst : Int
deriving DecidableEq, Repr

/-- `LEAPS_THRU_END_OF`. -/
def leapsThruEndOf (y : Int) : Int := y / 4 - y / 100 + y / 400

/-- `LEAP_YEAR`. -/
def leapYear (year : Int) : Int := if year % 4 = 0 ∧ year % 100 ≠ 0 ∨ year % 400 = 0 then 1 else 0

def rtcDaysInMonth : List Int := [31, 28, 31, 30, 31, 30, 31, 31, 30, 31, 30, 31]

def rtcMonthDays (month : Nat) (year : Int) : Int := rtcDaysInMonth.getD month 0 + if leapYear year = 1 ∧ month = 1 then 1 else 0

/-- The loop of `rtc_time_to_tm` over the months: the month and the days left. -/
def monthLoop (year : Int) : Nat → Nat → Int → Nat × Int
  | 0, month, days => (month, days)
  | n + 1, month, days =>
    let newdays := days - rtcMonthDays month year
    if newdays < 0 then (month, days) else monthLoop year n (month + 1) newdays

/-- The year of `rtc_time_to_tm` and the day in it, from 0: the estimate, corrected. -/
def yearOf (days : Int) : Int × Int :=
  let year := 1970 + days / 365
  let days := days - ((year - 1970) * 365 + leapsThruEndOf (year - 1) - leapsThruEndOf (1970 - 1))
  if days < 0 then (year - 1, days + (365 + leapYear (year - 1))) else (year, days)

/-- `rtc_time_to_tm`; `time` has 32 bits. -/
def rtcTimeToTm (time : Int) (tm : RtcTime) : RtcTime :=
  let days := time / 86400
  let time := time - days * 86400
  let wday := (days + 4) % 7
  let year := (yearOf days).1
  let days := (yearOf days).2
  let left := monthLoop year 11 0 days
  let hour := time / 3600
  let time := time - hour * 3600
  let min := time / 60
  { tm with wday, year := year - 1900, yday := days + 1, mon := left.1, mday := left.2 + 1, hour, min, sec := time - min * 60 }

/-- `rtc_valid_tm`: 0 or `-EINVAL`. -/
def rtcValidTm (tm : RtcTime) : Int :=
  if tm.year < 70 ∨ ¬(0 ≤ tm.mon ∧ tm.mon < 12) ∨ tm.mday < 1 ∨ rtcMonthDays tm.mon.toNat (tm.year + 1900) < tm.mday ∨
    ¬(0 ≤ tm.hour ∧ tm.hour < 24) ∨ ¬(0 ≤ tm.min ∧ tm.min < 60) ∨ ¬(0 ≤ tm.sec ∧ tm.sec < 60) then -22 else 0

/-- An `unsigned int`. -/
def u32 (i : Int) : Int := i % 0x100000000

def mktime (year0 mon0 day hour min sec : Int) : Int :=
  let mon := u32 (mon0 - 2)
  let (mon, year) := if mon = 0 ∨ 0x80000000 ≤ mon then (u32 (mon + 12), u32 (year0 - 1)) else (mon, year0)
  u32 ((((year / 4 - year / 100 + year / 400 + u32 (367 * mon) / 12 + day + year * 365 - 719499) * 24 + hour) * 60 + min) * 60 + sec)

/-- `rtc_tm_to_time`. -/
def rtcTmToTime (tm : RtcTime) : Int :=
  mktime (u32 (tm.year + 1900)) (u32 (tm.mon + 1)) (u32 tm.mday) (u32 tm.hour) (u32 tm.min) (u32 tm.sec)

/-! ## Days -/

/-- The days before a year, from 1970 on. -/
def daysBefore (year : Int) : Int := (year - 1970) * 365 + leapsThruEndOf (year - 1) - leapsThruEndOf (1970 - 1)

/-- `rtc_ydays`. -/
def rtcYdays (leap : Int) : List Int :=
  if leap = 1 then [0, 31, 60, 91, 121, 152, 182, 213, 244, 274, 305, 335, 366] else [0, 31, 59, 90, 120, 151, 181, 212, 243, 273, 304, 334, 365]

/-- `rtc_year_days`. -/
def rtcYearDays (day : Int) (month : Nat) (year : Int) : Int := (rtcYdays (leapYear year)).getD month 0 + day - 1

/-- The day `days` after 1970-01-01 is day `mday` of month `month`, from 0, of `year`. -/
structure Dated (days year : Int) (month : Nat) (mday : Int) : Prop where
  month_lt : month < 12
  mday_pos : 1 ≤ mday
  mday_le : mday ≤ rtcMonthDays month year
  days_eq : days = daysBefore year + rtcYearDays mday month year

theorem leapYear_cases (year : Int) : leapYear year = 0 ∨ leapYear year = 1 := by
  unfold leapYear
  split_ifs
  · exact Or.inr rfl
  · exact Or.inl rfl

theorem leaps_step (year : Int) : leapsThruEndOf year = leapsThruEndOf (year - 1) + leapYear year := by
  unfold leapsThruEndOf leapYear
  split_ifs with h
  · omega
  · omega

theorem daysBefore_succ (year : Int) : daysBefore (year + 1) = daysBefore year + 365 + leapYear year := by
  have hstep := leaps_step year
  unfold daysBefore
  rw [show year + 1 - 1 = year by ring]
  omega

/-- The months add up. -/
theorem ydays_succ (year : Int) {month : Nat} (h : month < 12) :
    (rtcYdays (leapYear year)).getD (month + 1) 0 = (rtcYdays (leapYear year)).getD month 0 + rtcMonthDays month year := by
  unfold rtcMonthDays
  rcases leapYear_cases year with hl | hl
  · rw [hl]
    interval_cases month <;> rfl
  · rw [hl]
    interval_cases month <;> rfl

theorem monthLoop_spec (year : Int) (n month : Nat) (days : Int) (hn : month + n = 11) (hpos : 0 ≤ days)
    (hlt : (rtcYdays (leapYear year)).getD month 0 + days < 365 + leapYear year) :
    (monthLoop year n month days).1 < 12 ∧ 0 ≤ (monthLoop year n month days).2 ∧
      (monthLoop year n month days).2 < rtcMonthDays (monthLoop year n month days).1 year ∧
      (rtcYdays (leapYear year)).getD (monthLoop year n month days).1 0 + (monthLoop year n month days).2 =
        (rtcYdays (leapYear year)).getD month 0 + days := by
  induction n generalizing month days with
  | zero =>
    obtain rfl : month = 11 := hn
    have hyear : (rtcYdays (leapYear year)).getD 12 0 = 365 + leapYear year := by
      rcases leapYear_cases year with hl | hl <;> rw [hl] <;> rfl
    have hlast : (rtcYdays (leapYear year)).getD 12 0 = (rtcYdays (leapYear year)).getD 11 0 + rtcMonthDays 11 year :=
      ydays_succ year (by norm_num)
    refine ⟨by norm_num [monthLoop], hpos, ?_, rfl⟩
    show days < rtcMonthDays 11 year
    omega
  | succ n ih =>
    rw [monthLoop]
    split_ifs with hend
    · refine ⟨by omega, hpos, ?_, rfl⟩
      show days < rtcMonthDays month year
      omega
    · have hstep := ydays_succ year (show month < 12 by omega)
      obtain ⟨h1, h2, h3, h4⟩ := ih (month + 1) (days - rtcMonthDays month year) (by omega) (by omega) (by omega)
      exact ⟨h1, h2, h3, by omega⟩

/-- The estimated year is the year or the one after it. -/
theorem yearOf_spec {days : Int} (h0 : 0 ≤ days) (h1 : days < 49711) :
    1970 ≤ (yearOf days).1 ∧ 0 ≤ (yearOf days).2 ∧ (yearOf days).2 < 365 + leapYear (yearOf days).1 ∧
      days = daysBefore (yearOf days).1 + (yearOf days).2 := by
  obtain ⟨year, hyear⟩ : ∃ year, year = 1970 + days / 365 := ⟨_, rfl⟩
  have hpred := daysBefore_succ (year - 1)
  rw [show year - 1 + 1 = year by ring] at hpred
  have hlow : (days / 365) * 365 ≤ daysBefore year := by
    simp only [daysBefore, leapsThruEndOf, hyear]
    omega
  have hhigh : daysBefore year ≤ (days / 365) * 365 + 34 := by
    simp only [daysBefore, leapsThruEndOf, hyear]
    omega
  have hof : yearOf days = if days - daysBefore year < 0 then (year - 1, days - daysBefore year + (365 + leapYear (year - 1)))
      else (year, days - daysBefore year) := by
    rw [hyear]
    rfl
  have hleap := leapYear_cases (year - 1)
  have hleap' := leapYear_cases year
  rw [hof]
  split_ifs with hneg
  · have hgt : 1970 < year := by
      by_contra hle
      obtain rfl : year = 1970 := by omega
      have hzero : daysBefore 1970 = 0 := by decide
      omega
    exact ⟨by omega, by dsimp only; omega, by dsimp only; omega, by dsimp only; omega⟩
  · exact ⟨by dsimp only; omega, by dsimp only; omega, by dsimp only; omega, by dsimp only; omega⟩

/-! ## Seconds -/

/-- The date `tm` is that of second `time`. -/
structure DateOf (time : Int) (tm : RtcTime) : Prop where
  dated : Dated (time / 86400) (tm.year + 1900) tm.mon.toNat tm.mday
  year_ge : 70 ≤ tm.year
  mon_nonneg : 0 ≤ tm.mon
  hour_eq : tm.hour = time % 86400 / 3600
  min_eq : tm.min = time % 3600 / 60
  sec_eq : tm.sec = time % 60

/-- `rtc_time_to_tm` finds the date. -/
theorem rtcTimeToTm_dateOf {time : Int} (h0 : 0 ≤ time) (h1 : time < 0x100000000) (tm : RtcTime) : DateOf time (rtcTimeToTm time tm) := by
  obtain ⟨hyear, hd0, hd1, hdays⟩ := yearOf_spec (show 0 ≤ time / 86400 by omega) (by omega)
  have hfirst : (rtcYdays (leapYear (yearOf (time / 86400)).1)).getD 0 0 = 0 := by
    unfold rtcYdays
    split_ifs <;> rfl
  obtain ⟨hm, hm0, hm1, hsum⟩ := monthLoop_spec (yearOf (time / 86400)).1 11 0 (yearOf (time / 86400)).2 rfl hd0 (by omega)
  constructor
  · constructor
    · exact hm
    · simp only [rtcTimeToTm]
      omega
    · simp only [rtcTimeToTm, Int.toNat_natCast, Int.sub_add_cancel]
      omega
    · simp only [rtcTimeToTm, Int.toNat_natCast, Int.sub_add_cancel, rtcYearDays]
      omega
  · simp only [rtcTimeToTm]
    omega
  · exact Int.natCast_nonneg _
  · simp only [rtcTimeToTm]
    omega
  · simp only [rtcTimeToTm]
    omega
  · simp only [rtcTimeToTm]
    omega

section Date

variable {time : Int} {tm : RtcTime}

theorem DateOf.valid (h : DateOf time tm) : rtcValidTm tm = 0 := by
  have hmonth := h.dated.month_lt
  have hpos := h.dated.mday_pos
  have hle := h.dated.mday_le
  have hyear := h.year_ge
  have hmon := h.mon_nonneg
  have hhour := h.hour_eq
  have hmin := h.min_eq
  have hsec := h.sec_eq
  unfold rtcValidTm
  rw [if_neg]
  omega

/-- The days of `mktime`, whose year starts in March. -/
theorem mktime_days (year : Int) {month : Nat} (hmonth : month < 12) (mday : Int) :
    (if month < 2 then leapsThruEndOf (year - 1) + 367 * (month + 11) / 12 + mday + (year - 1) * 365 - 719499
      else leapsThruEndOf year + 367 * (month - 1) / 12 + mday + year * 365 - 719499) = daysBefore year + rtcYearDays mday month year := by
  have hstep := leaps_step year
  have hlast : leapsThruEndOf (1970 - 1) = 477 := by decide
  unfold daysBefore rtcYearDays
  rw [hlast]
  generalize leapsThruEndOf year = after at *
  generalize leapsThruEndOf (year - 1) = before at *
  rcases leapYear_cases year with hl | hl
  · rw [hl] at hstep ⊢
    interval_cases month <;> simp [rtcYdays] <;> omega
  · rw [hl] at hstep ⊢
    interval_cases month <;> simp [rtcYdays] <;> omega

theorem u32_of_small {i : Int} (h0 : 0 ≤ i) (h1 : i < 0x100000000) : u32 i = i := Int.emod_eq_of_lt h0 h1

theorem mktime_eq {year : Int} {month : Nat} (hyear : 1 ≤ year ∧ year < 0x100000000) (hmonth : month < 12) (mday hour min sec : Int) :
    mktime year (month + 1) mday hour min sec =
      u32 ((((daysBefore year + rtcYearDays mday month year) * 24 + hour) * 60 + min) * 60 + sec) := by
  have hdays := mktime_days year hmonth mday
  have hleaps : ∀ y : Int, y / 4 - y / 100 + y / 400 = leapsThruEndOf y := fun _ => rfl
  unfold mktime
  dsimp only
  by_cases hmar : month < 2
  · have hneg : u32 (month + 1 - 2) = 0 ∨ 0x80000000 ≤ u32 (month + 1 - 2) := by
      unfold u32
      omega
    have hmon : u32 (u32 (month + 1 - 2) + 12) = month + 11 := by
      unfold u32
      omega
    have hback : u32 (year - 1) = year - 1 := u32_of_small (by omega) (by omega)
    have hprod : u32 (367 * (month + 11)) = 367 * (month + 11) := u32_of_small (by omega) (by omega)
    rw [if_pos hmar] at hdays
    rw [if_pos hneg]
    dsimp only
    rw [hmon, hback, hprod, hleaps, hdays]
  · have hpos : u32 (month + 1 - 2) = month - 1 := by
      unfold u32
      omega
    have hneg : ¬(u32 (month + 1 - 2) = 0 ∨ 0x80000000 ≤ u32 (month + 1 - 2)) := by omega
    have hprod : u32 (367 * (month - 1)) = 367 * (month - 1) := u32_of_small (by omega) (by omega)
    rw [if_neg hmar] at hdays
    rw [if_neg hneg]
    dsimp only
    rw [hpos, hprod, hleaps, hdays]

theorem rtcMonthDays_le (year : Int) {month : Nat} (h : month < 12) : rtcMonthDays month year ≤ 31 := by
  unfold rtcMonthDays
  split_ifs <;> interval_cases month <;> simp_all [rtcDaysInMonth]

theorem rtcYdays_nonneg (leap : Int) {month : Nat} (h : month < 12) : 0 ≤ (rtcYdays leap).getD month 0 := by
  unfold rtcYdays
  split_ifs <;> interval_cases month <;> simp

theorem DateOf.year_lt (h : DateOf time tm) (h1 : time < 0x100000000) : tm.year < 207 := by
  obtain ⟨hlt, hpos, hle, hdays⟩ := h.dated
  have hyear := h.year_ge
  have hfirst : (tm.year + 1900 - 1970) * 365 - 2 ≤ daysBefore (tm.year + 1900) := by
    unfold daysBefore leapsThruEndOf
    omega
  have hin := rtcYdays_nonneg (leapYear (tm.year + 1900)) hlt
  unfold rtcYearDays at hdays
  omega

/-- The fields that a date is of. -/
theorem DateOf.congr {tm' : RtcTime} (h : DateOf time tm) (hyear : tm'.year = tm.year) (hmon : tm'.mon = tm.mon) (hmday : tm'.mday = tm.mday)
    (hhour : tm'.hour = tm.hour) (hmin : tm'.min = tm.min) (hsec : tm'.sec = tm.sec) : DateOf time tm' := by
  constructor
  · rw [hyear, hmon, hmday]
    exact h.dated
  · rw [hyear]
    exact h.year_ge
  · rw [hmon]
    exact h.mon_nonneg
  · rw [hhour]
    exact h.hour_eq
  · rw [hmin]
    exact h.min_eq
  · rw [hsec]
    exact h.sec_eq

/-- `rtc_tm_to_time` gives the second of a date. -/
theorem DateOf.rtcTmToTime_eq (h : DateOf time tm) (h0 : 0 ≤ time) (h1 : time < 0x100000000) : rtcTmToTime tm = time := by
  obtain ⟨month, hmonth⟩ := Int.eq_ofNat_of_zero_le h.mon_nonneg
  obtain ⟨hlt, hpos, hle, hdays⟩ := h.dated
  have hyear := h.year_ge
  have hhour := h.hour_eq
  have hmin := h.min_eq
  have hsec := h.sec_eq
  rw [hmonth, Int.toNat_natCast] at hlt hle hdays
  have hmday := hle.trans (rtcMonthDays_le _ hlt)
  have hlast := h.year_lt h1
  have hmax : tm.year + 1900 < 0x100000000 := by omega
  unfold rtcTmToTime
  rw [hmonth, u32_of_small (by omega) hmax, u32_of_small (i := (month : Int) + 1) (by omega) (by omega), u32_of_small (i := tm.mday) (by omega) (by omega),
    u32_of_small (i := tm.hour) (by omega) (by omega), u32_of_small (i := tm.min) (by omega) (by omega),
    u32_of_small (i := tm.sec) (by omega) (by omega), mktime_eq ⟨by omega, hmax⟩ hlt, ← hdays, u32_of_small (by omega) (by omega)]
  omega

end Date

end Emlinux.Rtc
