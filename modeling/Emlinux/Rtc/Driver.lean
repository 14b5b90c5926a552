import Emlinux.Lib.Field
import Emlinux.Rtc.Clock

/-!
# The real time clock

The registers of the clock, the functions of `rtc.c` over them and those of the driver above, which the class calls. A write to a status
register clears the bits that are written; the loops that wait until a register shows what was written are left out.

* `Regs`, `Sslrtc`: the registers and the driver.
* `Op`, `step`, `run`: what is called, and what the hardware does between the seconds.
* `clock_kept`: the second that was set is the one the system starts with.
-/

namespace Emlinux.Rtc

open Lib

abbrev Word := BitVec 32

/-- `rtcr_t`. -/
structure Regs where
  ctl : Word
  date : Word
  time : Word
  day : Word
  ier : Word
  isr : Word
  alarm : Word
  evdate : Word
  evtime : Word
  stpwatch : Word
deriving DecidableEq, Repr

/-- `sslrtc`; `freq` selects the periodic interrupt of `2 << freq` Hz. -/
structure Sslrtc where
  r : Regs
  freq : Nat
deriving DecidableEq, Repr

/-- `RTC_INT_PSTALL`. -/
def intPstall : Word := 0xFF0000#32

/-- `RTC_INT_PST`. -/
def intPst (d : Nat) : Word := 1#32 <<< (16 + d)

/-- `RTC_INT_EVENT`. -/
def intEvent : Word := 0x200#32

/-- `RTC_INT_ALARM`. -/
def intAlarm : Word := 0x100#32

/-- `RTC_INT_2HZ`. -/
def int2hz : Word := 0x80#32

/-- `RTC_INT_STPW`. -/
def intStpw : Word := 0x40#32

/-- `RTC_INT_SEC`. -/
def intSec : Word := 1#32

/-! ## Registers -/

/-- `RTC_DATE` and `RTC_TIME`. -/
def pack (a b c : Int) : Word := BitVec.ofInt 32 a <<< 16 ||| BitVec.ofInt 32 b <<< 8 ||| BitVec.ofInt 32 c

/-- `RTC_DATE_YEAR` and `RTC_TIME_HOUR`. -/
def high (w : Word) : Int := (w >>> 16).toNat

/-- `RTC_DATE_MONTH` and `RTC_TIME_MIN`. -/
def middle (w : Word) : Int := (w >>> 8 &&& 0xFF#32).toNat

/-- `RTC_DATE_DAY` and `RTC_TIME_SEC`. -/
def low (w : Word) : Int := (w &&& 0xFF#32).toNat

def rtcSettime (r : Regs) (time : RtcTime) : Regs :=
  { r with
    day := BitVec.ofInt 32 time.wday
    date := pack time.year time.mon time.mday
    time := pack time.hour time.min time.sec }

def rtcGettime (r : Regs) (time : RtcTime) : RtcTime :=
  { time with
    year := high r.date
    mon := middle r.date
    mday := low r.date
    wday := (r.day &&& 7#32).toNat
    hour := high r.time
    min := middle r.time
    sec := low r.time }

def rtcSetIntr (r : Regs) (mask : Word) (mode : Bool) : Regs :=
  { r with ier := r.ier &&& ~~~mask ||| if mode then mask else 0#32 }

/-- `rtc_alarm_set`, with the time or without one. -/
def rtcAlarmSet (r : Regs) (time : Option RtcTime) (enable : Bool) : Regs :=
  let r := match time with
    | some time => { r with alarm := pack time.hour time.min time.sec }
    | none => r
  if enable ≠ decide (r.ier &&& intAlarm ≠ 0#32) then { r with isr := r.isr &&& ~~~intAlarm, ier := r.ier ^^^ intAlarm } else r

/-- `rtc_alarm_get`: the time, whether it is on and whether it is pending. -/
def rtcAlarmGet (r : Regs) (time : RtcTime) : RtcTime × Bool × Bool :=
  ({ time with hour := high r.alarm, min := middle r.alarm, sec := low r.alarm }, decide (r.ier &&& intAlarm ≠ 0#32),
    decide (r.isr &&& intAlarm ≠ 0#32))

/-- `rtc_set_event`, with a time. -/
def rtcSetEvent (r : Regs) (time : RtcTime) : Regs :=
  { r with evdate := pack 0 time.mon time.mday, evtime := pack time.hour time.min time.sec, ier := r.ier ||| intEvent }

def rtcGetEvent (r : Regs) (time : RtcTime) : RtcTime :=
  { time with mon := middle r.evdate, mday := low r.evdate, hour := high r.evtime, min := middle r.evtime, sec := low r.evtime }

/-- `rtc_set_stopwatch`: `RTC_ERR_PARM` for more than 31 minutes. -/
def rtcSetStopwatch (r : Regs) (mins : BitVec 8) : Int × Regs :=
  if 32#8 ≤ mins then (-2, r) else (0, { r with stpwatch := mins.setWidth 32, ier := r.ier ||| intStpw })

def rtcIntrClear (r : Regs) (mask : Word) : Regs := { r with isr := r.isr &&& ~~~mask }

/-- `rtc_isr`: the status that is on, and cleared. -/
def rtcIsr (r : Regs) : Word × Regs :=
  let sta := r.ier &&& r.isr
  (sta, { r with isr := r.isr &&& ~~~sta })

/-! ## The driver -/

/-- `sslrtc_set_time`. -/
def setTime (s : Sslrtc) (tm : RtcTime) : Sslrtc :=
  { s with r := rtcSettime s.r { tm with year := tm.year - 70, mon := tm.mon + 1 } }

/-- `sslrtc_get_time`. -/
def getTime (s : Sslrtc) (tm : RtcTime) : RtcTime :=
  let tm := rtcGettime s.r tm
  { tm with mon := tm.mon - 1, year := tm.year + 70 }

/-- `sslrtc_set_alarm`. -/
def setAlarm (s : Sslrtc) (tm : RtcTime) (enabled : Bool) : Sslrtc := { s with r := rtcAlarmSet s.r (some tm) enabled }

/-- `sslrtc_set_event`. -/
def setEvent (s : Sslrtc) (tm : RtcTime) (enabled : Bool) : Sslrtc :=
  let r := if s.r.ier &&& intEvent ≠ 0#32 then rtcSetIntr s.r intEvent false else s.r
  let r := rtcIntrClear r intEvent
  let r := rtcSetEvent r { tm with mon := tm.mon + 1 }
  { s with r := if enabled then rtcSetIntr r intEvent true else r }

/-- `sslrtc_get_event`: all ones when it is off. -/
def getEvent (s : Sslrtc) (tm : RtcTime) : RtcTime :=
  if s.r.ier &&& intEvent ≠ 0#32 then
    let tm := rtcGetEvent s.r tm
    { tm with mon := tm.mon - 1, year := 0 }
  else ⟨-1, -1, -1, -1, -1, -1, -1, -1, -1⟩

/-- `RTC_PIE_ON`. -/
def pieOn (s : Sslrtc) : Sslrtc :=
  let r := rtcIntrClear s.r (intPstall ||| int2hz)
  { s with r := rtcSetIntr r (if s.freq = 0 then int2hz else intPst s.freq) true }

/-- `RTC_IRQP_SET`: a power of two from 2 to 512, or `-EINVAL`. -/
def irqpSet (s : Sslrtc) (arg : Nat) : Int × Sslrtc :=
  match (List.range 9).find? (fun fq => arg = 2 <<< fq) with
  | some fq => (0, { s with freq := fq })
  | none => (-22, s)

/-- The events of `sslrtc_interrupt`: `RTC_AF`, `RTC_UF`, `RTC_PF`, with `RTC_IRQF`. -/
def eventsOf (ret : Word) : Nat :=
  let events := 0
  let events := if ret &&& intAlarm ≠ 0#32 then events ||| 0x20 ||| 0x80 else events
  let events := if ret &&& intSec ≠ 0#32 then events ||| 0x10 ||| 0x80 else events
  if ret &&& (int2hz ||| intPstall) ≠ 0#32 then events ||| 0x40 ||| 0x80 else events

/-- `sslrtc_interrupt`, with the events for `rtc_update_irq`. -/
def interrupt (s : Sslrtc) : Nat × Sslrtc := (eventsOf (rtcIsr s.r).1, { s with r := (rtcIsr s.r).2 })

/-! ## The class -/

def noTime : RtcTime := ⟨0, 0, 0, 0, 0, 0, 0, 0, 0⟩

/-- `rtc_read_time`. -/
def rtcReadTime (s : Sslrtc) : RtcTime := getTime s noTime

/-- `rtc_set_time`. -/
def rtcSetTime (s : Sslrtc) (tm : RtcTime) : Int × Sslrtc := if rtcValidTm tm ≠ 0 then (rtcValidTm tm, s) else (0, setTime s tm)

/-- `rtc_set_alarm`. -/
def rtcSetAlarm (s : Sslrtc) (tm : RtcTime) (enabled : Bool) : Int × Sslrtc :=
  if rtcValidTm tm ≠ 0 then (rtcValidTm tm, s) else (0, setAlarm s tm enabled)

/-- `rtc_read_alarm`; no field is -1. -/
def rtcReadAlarm (s : Sslrtc) : RtcTime × Bool × Bool := rtcAlarmGet s.r noTime

/-- `rtc_hctosys`: the seconds that are set, if the clock is valid. -/
def rtcHctosys (s : Sslrtc) : Option Int :=
  let tm := rtcReadTime s
  if rtcValidTm tm = 0 then some (rtcTmToTime tm) else none

/-! ## Runs -/

inductive Op where
  | setTime (tm : RtcTime)
  | readTime
  | setAlarm (tm : RtcTime) (enabled : Bool)
  | readAlarm
  | setEvent (tm : RtcTime) (enabled : Bool)
  | getEvent (tm : RtcTime)
  | setStopwatch (mins : BitVec 8)
  | aie (on : Bool)
  | pieOn
  | pieOff
  | uie (on : Bool)
  | irqpRead
  | irqpSet (arg : Nat)
  | irq
  | raise (sta : Word)

inductive Out where
  | ret (err : Int)
  | time (tm : RtcTime)
  | alarm (tm : RtcTime) (enabled pending : Bool)
  | freq (hz : Nat)
  | events (mask : Nat)
deriving DecidableEq, Repr

/-- A call of the driver, or an event of the hardware: the interrupt is served, or status bits come up. -/
def step (s : Sslrtc) : Op → Out × Sslrtc
  | .setTime tm => (.ret (rtcSetTime s tm).1, (rtcSetTime s tm).2)
  | .readTime => (.time (rtcReadTime s), s)
  | .setAlarm tm enabled => (.ret (rtcSetAlarm s tm enabled).1, (rtcSetAlarm s tm enabled).2)
  | .readAlarm => (.alarm (rtcReadAlarm s).1 (rtcReadAlarm s).2.1 (rtcReadAlarm s).2.2, s)
  | .setEvent tm enabled => (.ret 0, setEvent s tm enabled)
  | .getEvent tm => (.time (getEvent s tm), s)
  | .setStopwatch mins => (.ret (if (rtcSetStopwatch s.r mins).1 ≠ 0 then -22 else 0), { s with r := (rtcSetStopwatch s.r mins).2 })
  | .aie on => (.ret 0, { s with r := rtcAlarmSet s.r none on })
  | .pieOn => (.ret 0, pieOn s)
  | .pieOff => (.ret 0, { s with r := rtcSetIntr s.r (intPstall ||| int2hz) false })
  | .uie on => (.ret 0, { s with r := rtcSetIntr s.r intSec on })
  | .irqpRead => (.freq (2 <<< s.freq), s)
  | .irqpSet arg => (.ret (irqpSet s arg).1, (irqpSet s arg).2)
  | .irq => (.events (interrupt s).1, (interrupt s).2)
  | .raise sta => (.ret 0, { s with r := { s.r with isr := s.r.isr ||| sta } })

def run (s : Sslrtc) : List Op → List Out × Sslrtc
  | [] => ([], s)
  | op :: ops => ((step s op).1 :: (run (step s op).2 ops).1, (run (step s op).2 ops).2)

/-! ## The time -/

section Pack

variable {a b c : Int}

theorem toNat_ofInt {k : Nat} (hk : k ≤ 32) (h0 : 0 ≤ a) (h1 : a < 2 ^ k) : (BitVec.ofInt 32 a).toNat = a.toNat := by
  have hle : (2 : Int) ^ k ≤ ((2 ^ 32 : Nat) : Int) := by exact_mod_cast Nat.pow_le_pow_right (by norm_num) hk
  rw [BitVec.toNat_ofInt, Int.emod_eq_of_lt h0 (lt_of_lt_of_le h1 hle)]

theorem high_pack (ha : 0 ≤ a ∧ a < 2 ^ 16) (hb : 0 ≤ b ∧ b < 2 ^ 8) (hc : 0 ≤ c ∧ c < 2 ^ 8) : high (pack a b c) = a := by
  have hva := toNat_ofInt (k := 16) (by norm_num) ha.1 ha.2
  have hvb := toNat_ofInt (k := 8) (by norm_num) hb.1 hb.2
  have hvc := toNat_ofInt (k := 8) (by norm_num) hc.1 hc.2
  have hfield : field (pack a b c) 16 16 = a.toNat := by
    rw [pack, field_or, field_or, field_shl (by rw [hva]; omega) (by norm_num), field_shl_above (m := 8) (by rw [hvb]; omega) (by norm_num),
      field_above (by rw [hvc]; omega), hva]
    simp
  have htop : (pack a b c >>> 16).toNat = field (pack a b c) 16 16 := by
    have hlt := (pack a b c).isLt
    rw [field_eq, BitVec.toNat_ushiftRight, Nat.shiftRight_eq_div_pow]
    omega
  rw [high, htop, hfield]
  exact Int.toNat_of_nonneg ha.1

theorem middle_pack (hb : 0 ≤ b ∧ b < 2 ^ 8) (hc : 0 ≤ c ∧ c < 2 ^ 8) : middle (pack a b c) = b := by
  have hvb := toNat_ofInt (k := 8) (by norm_num) hb.1 hb.2
  have hvc := toNat_ofInt (k := 8) (by norm_num) hc.1 hc.2
  have hfield : field (pack a b c) 8 8 = b.toNat := by
    rw [pack, field_or, field_or, field_shl_below (by norm_num), field_shl (by rw [hvb]; omega) (by norm_num),
      field_above (by rw [hvc]; omega), hvb]
    simp
  rw [middle, show (0xFF#32 : Word) = BitVec.ofNat 32 (2 ^ 8 - 1) from rfl, toNat_shr_and_mask _ _ _ (by norm_num), hfield]
  exact Int.toNat_of_nonneg hb.1

theorem low_pack (hc : 0 ≤ c ∧ c < 2 ^ 8) : low (pack a b c) = c := by
  have hvc := toNat_ofInt (k := 8) (by norm_num) hc.1 hc.2
  have hfield : field (pack a b c) 0 8 = c.toNat := by
    rw [pack, field_or, field_or, field_shl_below (by norm_num), field_shl_below (by norm_num), field_eq, hvc]
    simp
    omega
  rw [low, show (0xFF#32 : Word) = BitVec.ofNat 32 (2 ^ 8 - 1) from rfl, toNat_and_low _ _ (by norm_num), hfield]
  exact Int.toNat_of_nonneg hc.1

end Pack

/-- What `rtc_valid_tm` checks. -/
theorem rtcValidTm_eq_zero {tm : RtcTime} : rtcValidTm tm = 0 ↔
    70 ≤ tm.year ∧ (0 ≤ tm.mon ∧ tm.mon < 12) ∧ (1 ≤ tm.mday ∧ tm.mday ≤ rtcMonthDays tm.mon.toNat (tm.year + 1900)) ∧
      (0 ≤ tm.hour ∧ tm.hour < 24) ∧ (0 ≤ tm.min ∧ tm.min < 60) ∧ 0 ≤ tm.sec ∧ tm.sec < 60 := by
  unfold rtcValidTm
  split_ifs with h
  · constructor
    · intro hbad
      exact absurd hbad (by norm_num)
    · omega
  · constructor
    · intro _
      omega
    · intro _
      rfl

/-- The clock shows the date and the time that were set. -/
theorem readTime_setTime {s : Sslrtc} {tm : RtcTime} (h : rtcValidTm tm = 0) (hyear : tm.year < 70 + 2 ^ 16) :
    rtcReadTime (setTime s tm) = { tm with wday := (BitVec.ofInt 32 tm.wday &&& 7#32).toNat, yday := 0, isdst := 0 } := by
  obtain ⟨hy, hmon, hmday, hhour, hmin, hsec⟩ := rtcValidTm_eq_zero.mp h
  have hdays := rtcMonthDays_le (tm.year + 1900) (by omega : tm.mon.toNat < 12)
  have h1 := high_pack (a := tm.year - 70) (b := tm.mon + 1) (c := tm.mday) (by omega) (by omega) (by omega)
  have h2 := middle_pack (a := tm.year - 70) (b := tm.mon + 1) (c := tm.mday) (by omega) (by omega)
  have h3 := low_pack (a := tm.year - 70) (b := tm.mon + 1) (c := tm.mday) (by omega)
  have h4 := high_pack (a := tm.hour) (b := tm.min) (c := tm.sec) (by omega) (by omega) (by omega)
  have h5 := middle_pack (a := tm.hour) (b := tm.min) (c := tm.sec) (by omega) (by omega)
  have h6 := low_pack (a := tm.hour) (b := tm.min) (c := tm.sec) (by omega)
  simp only [rtcReadTime, getTime, setTime, rtcSettime, rtcGettime, h1, h2, h3, h4, h5, h6, noTime]
  ext <;> simp

/-- Two clocks that show the same. -/
def SameTime (s s' : Sslrtc) : Prop := s'.r.date = s.r.date ∧ s'.r.time = s.r.time ∧ s'.r.day = s.r.day

theorem SameTime.readTime {s s' : Sslrtc} (h : SameTime s s') : rtcReadTime s' = rtcReadTime s := by
  obtain ⟨h1, h2, h3⟩ := h
  simp only [rtcReadTime, getTime, rtcGettime, h1, h2, h3]

/-- The operation sets the time. -/
def Op.Sets (op : Op) : Prop := ∃ tm, op = .setTime tm ∧ rtcValidTm tm = 0

theorem step_sameTime {s : Sslrtc} {op : Op} (h : ¬op.Sets) : SameTime s (step s op).2 := by
  cases op with
  | setTime tm =>
    have hbad : rtcValidTm tm ≠ 0 := by
      intro hv
      exact h ⟨tm, rfl, hv⟩
    simp only [step, rtcSetTime, if_pos hbad]
    exact ⟨rfl, rfl, rfl⟩
  | setAlarm tm enabled =>
    simp only [step, rtcSetAlarm, setAlarm, rtcAlarmSet]
    split_ifs <;> exact ⟨rfl, rfl, rfl⟩
  | setEvent tm enabled =>
    simp only [step, setEvent, rtcSetEvent, rtcIntrClear, rtcSetIntr]
    split_ifs <;> exact ⟨rfl, rfl, rfl⟩
  | setStopwatch mins =>
    simp only [step, rtcSetStopwatch]
    split_ifs <;> exact ⟨rfl, rfl, rfl⟩
  | aie on =>
    simp only [step, rtcAlarmSet]
    split_ifs <;> exact ⟨rfl, rfl, rfl⟩
  | irqpSet arg =>
    simp only [step, irqpSet]
    split <;> exact ⟨rfl, rfl, rfl⟩
  | _ => exact ⟨rfl, rfl, rfl⟩

theorem run_sameTime {s : Sslrtc} {ops : List Op} (h : ∀ op ∈ ops, ¬op.Sets) : SameTime s (run s ops).2 := by
  induction ops generalizing s with
  | nil => exact ⟨rfl, rfl, rfl⟩
  | cons op ops ih =>
    obtain ⟨h1, h2, h3⟩ := step_sameTime (s := s) (h op List.mem_cons_self)
    obtain ⟨h4, h5, h6⟩ := ih (s := (step s op).2) fun o ho => h o (List.mem_cons_of_mem _ ho)
    exact ⟨h4.trans h1, h5.trans h2, h6.trans h3⟩

theorem readTime_dateOf (s : Sslrtc) (tm : RtcTime) {t : Int} (h0 : 0 ≤ t) (h1 : t < 0x100000000) :
    DateOf t (rtcReadTime (setTime s (rtcTimeToTm t tm))) := by
  have hdate := rtcTimeToTm_dateOf h0 h1 tm
  have hyear := hdate.year_lt h1
  rw [readTime_setTime hdate.valid (by omega)]
  exact hdate.congr rfl rfl rfl rfl rfl rfl

/-- The second that was set is the one the system starts with, whatever was called since but setting the time. -/
theorem clock_kept (s : Sslrtc) (tm : RtcTime) (ops : List Op) {t : Int} (h0 : 0 ≤ t) (h1 : t < 0x100000000)
    (hops : ∀ op ∈ ops, ¬op.Sets) : rtcHctosys (run (rtcSetTime s (rtcTimeToTm t tm)).2 ops).2 = some t := by
  have hset : (rtcSetTime s (rtcTimeToTm t tm)).2 = setTime s (rtcTimeToTm t tm) := by
    rw [rtcSetTime, if_neg (not_not_intro (rtcTimeToTm_dateOf h0 h1 tm).valid)]
  have hread : DateOf t (rtcReadTime (run (rtcSetTime s (rtcTimeToTm t tm)).2 ops).2) := by
    rw [(run_sameTime hops).readTime, hset]
    exact readTime_dateOf s tm h0 h1
  unfold rtcHctosys
  dsimp only
  rw [if_pos hread.valid, hread.rtcTmToTime_eq h0 h1]

theorem clock_kept_alarm : ∃ s : Sslrtc, rtcHctosys (run (rtcSetTime s (rtcTimeToTm 951782400 noTime)).2 [.aie true, .irq]).2 = some 951782400 :=
  ⟨⟨⟨0, 0, 0, 0, 0, 0, 0, 0, 0, 0⟩, 0⟩, clock_kept _ _ _ (by norm_num) (by norm_num) (by
    intro op hop
    rintro ⟨tm, rfl, -⟩
    simp at hop)⟩

end Emlinux.Rtc
