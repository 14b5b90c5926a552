import Emlinux.Rtc.Driver

/-!
# The alarm

* `Alarm`: the alarm as the user sees it; `Alarm.step`: what each call does to it.
* `alarm_refines`: the driver shows and reports the alarm as the abstract clock does, whatever else is called.
* `almSet_next`: `RTC_ALM_SET` sets the alarm to the next second of that time of the day.
-/

namespace Emlinux.Rtc

/-- The alarm as the user sees it. -/
@[ext] structure Alarm where
  hour : Int
  min : Int
  sec : Int
  on : Bool
  pending : Bool
deriving DecidableEq, Repr

/-- What the user sees of the alarm. -/
inductive AlarmOut where
  | quiet
  | shown (a : Alarm)
  | fired
deriving DecidableEq, Repr

/-- Switching the alarm drops what is pending. -/
def Alarm.switch (a : Alarm) (on : Bool) : Alarm := if on = a.on then a else { a with on, pending := false }

def Alarm.step (a : Alarm) : Op → AlarmOut × Alarm
  | .setAlarm tm enabled =>
    (.quiet, if rtcValidTm tm = 0 then { a with hour := tm.hour, min := tm.min, sec := tm.sec }.switch enabled else a)
  | .aie on => (.quiet, a.switch on)
  | .readAlarm => (.shown a, a)
  | .irq => if a.on ∧ a.pending then (.fired, { a with pending := false }) else (.quiet, a)
  | .raise sta => (.quiet, { a with pending := a.pending || sta.getLsbD 8 })
  | _ => (.quiet, a)

def Alarm.run (a : Alarm) : List Op → List AlarmOut × Alarm
  | [] => ([], a)
  | op :: ops => ((a.step op).1 :: ((a.step op).2.run ops).1, ((a.step op).2.run ops).2)

/-- The alarm in the registers. -/
def Sslrtc.alarm (s : Sslrtc) : Alarm := ⟨high s.r.alarm, middle s.r.alarm, low s.r.alarm, s.r.ier.getLsbD 8, s.r.isr.getLsbD 8⟩

/-- What a call says of the alarm. -/
def Op.view : Op → Out → AlarmOut
  | .readAlarm, .alarm tm enabled pending => .shown ⟨tm.hour, tm.min, tm.sec, enabled, pending⟩
  | .irq, .events mask => if mask &&& 0x20 ≠ 0 then .fired else .quiet
  | _, _ => .quiet

theorem and_intAlarm (w : Word) : w &&& intAlarm ≠ 0#32 ↔ w.getLsbD 8 = true := by
  have htwo : intAlarm = BitVec.twoPow 32 8 := rfl
  rw [htwo, BitVec.and_twoPow]
  split_ifs with h
  · exact iff_of_true (by decide) h
  · exact iff_of_false (not_not_intro rfl) h

theorem alarm_congr {s s' : Sslrtc} (halarm : s'.r.alarm = s.r.alarm) (hier : s'.r.ier.getLsbD 8 = s.r.ier.getLsbD 8)
    (hisr : s'.r.isr.getLsbD 8 = s.r.isr.getLsbD 8) : s'.alarm = s.alarm := by
  simp only [Sslrtc.alarm, halarm, hier, hisr]

/-- The bits of a mask are dropped, or taken. -/
theorem alarm_clear (w : Word) {mask : Word} (h : mask.getLsbD 8 = false) : (w &&& ~~~mask).getLsbD 8 = w.getLsbD 8 := by
  rw [BitVec.getLsbD_and, BitVec.getLsbD_not, h]
  simp

theorem alarm_or (w : Word) {mask : Word} (h : mask.getLsbD 8 = false) : (w ||| mask).getLsbD 8 = w.getLsbD 8 := by
  rw [BitVec.getLsbD_or, h, Bool.or_false]

/-- Another interrupt is switched. -/
theorem ier_rtcSetIntr (r : Regs) {mask : Word} (h : mask.getLsbD 8 = false) (mode : Bool) :
    (rtcSetIntr r mask mode).ier.getLsbD 8 = r.ier.getLsbD 8 := by
  have hmask : (if mode then mask else 0#32).getLsbD 8 = false := by
    split_ifs
    · exact h
    · rfl
  exact (alarm_or _ hmask).trans (alarm_clear _ h)

theorem decide_and_intAlarm (w : Word) : decide (w &&& intAlarm ≠ 0#32) = w.getLsbD 8 := by
  rw [Bool.eq_iff_iff, decide_eq_true_iff, and_intAlarm]

theorem alarm_switch (s : Sslrtc) (on : Bool) : ({ s with r := rtcAlarmSet s.r none on } : Sslrtc).alarm = s.alarm.switch on := by
  unfold rtcAlarmSet Alarm.switch
  dsimp only
  rw [decide_and_intAlarm]
  by_cases hon : on = s.alarm.on
  · have hbit : on = s.r.ier.getLsbD 8 := hon
    rw [if_neg (not_not_intro hbit), if_pos hon]
  · have hne : on ≠ s.r.ier.getLsbD 8 := hon
    rw [if_pos hne, if_neg hon]
    have hflip : (s.r.ier ^^^ intAlarm).getLsbD 8 = on := by
      have hset : intAlarm.getLsbD 8 = true := by decide
      rw [BitVec.getLsbD_xor, hset]
      cases on <;> cases hb : s.r.ier.getLsbD 8 <;> simp_all
    have hdrop : (s.r.isr &&& ~~~intAlarm).getLsbD 8 = false := by
      have hset : (~~~intAlarm).getLsbD 8 = false := by decide
      rw [BitVec.getLsbD_and, hset, Bool.and_false]
    simp only [Sslrtc.alarm, hflip, hdrop]

theorem pst_alarm (d : Nat) : (intPst d).getLsbD 8 = false := by
  rw [intPst, BitVec.getLsbD_shiftLeft]
  have hlow : 8 < 16 + d := by omega
  simp [hlow]

theorem eventsOf_alarm (ret : Word) : eventsOf ret &&& 0x20 ≠ 0 ↔ ret &&& intAlarm ≠ 0#32 := by
  unfold eventsOf
  by_cases h : ret &&& intAlarm ≠ 0#32
  · simp only [if_pos h]
    split_ifs <;> simp [h]
  · simp only [if_neg h]
    split_ifs <;> simp [h]

theorem events_alarm (s : Sslrtc) : (interrupt s).1 &&& 0x20 ≠ 0 ↔ s.alarm.on ∧ s.alarm.pending := by
  have hbit := and_intAlarm (s.r.ier &&& s.r.isr)
  rw [BitVec.getLsbD_and, Bool.and_eq_true] at hbit
  exact (eventsOf_alarm _).trans hbit

/-- The served status is dropped. -/
theorem isr_interrupt (s : Sslrtc) : (interrupt s).2.r.isr.getLsbD 8 = (s.alarm.pending && !s.alarm.on) := by
  simp only [interrupt, rtcIsr, BitVec.getLsbD_and, BitVec.getLsbD_not, Sslrtc.alarm]
  cases s.r.ier.getLsbD 8 <;> cases s.r.isr.getLsbD 8 <;> rfl

theorem step_alarm (s : Sslrtc) (op : Op) :
    op.view (step s op).1 = (s.alarm.step op).1 ∧ (step s op).2.alarm = (s.alarm.step op).2 := by
  cases op with
  | setTime tm =>
    refine ⟨rfl, ?_⟩
    simp only [step, rtcSetTime]
    split_ifs <;> rfl
  | readTime => exact ⟨rfl, rfl⟩
  | setAlarm tm enabled =>
    refine ⟨rfl, ?_⟩
    simp only [step, rtcSetAlarm, Alarm.step]
    by_cases hv : rtcValidTm tm = 0
    · obtain ⟨-, -, -, hhour, hmin, hsec⟩ := rtcValidTm_eq_zero.mp hv
      rw [if_neg (not_not_intro hv), if_pos hv]
      have hset := alarm_switch { s with r := { s.r with alarm := pack tm.hour tm.min tm.sec } } enabled
      refine hset.trans ?_
      congr 1
      ext
      · exact high_pack (by omega) (by omega) (by omega)
      · exact middle_pack (by omega) (by omega)
      · exact low_pack (by omega)
      · rfl
      · rfl
    · rw [if_pos hv, if_neg hv]
  | readAlarm =>
    refine ⟨?_, rfl⟩
    simp only [step, Op.view, Alarm.step, rtcReadAlarm, rtcAlarmGet, decide_and_intAlarm, Sslrtc.alarm]
  | setEvent tm enabled =>
    refine ⟨rfl, alarm_congr ?_ ?_ ?_⟩
    · simp only [step, setEvent, rtcSetEvent, rtcIntrClear, rtcSetIntr]
      split_ifs <;> rfl
    · have hmask : intEvent.getLsbD 8 = false := by decide
      have hfirst : (if s.r.ier &&& intEvent ≠ 0#32 then rtcSetIntr s.r intEvent false else s.r).ier.getLsbD 8 = s.r.ier.getLsbD 8 := by
        split_ifs
        · exact ier_rtcSetIntr s.r hmask false
        · rfl
      simp only [step, setEvent]
      generalize (if s.r.ier &&& intEvent ≠ 0#32 then rtcSetIntr s.r intEvent false else s.r) = r at hfirst ⊢
      split_ifs
      · exact (ier_rtcSetIntr _ hmask true).trans ((alarm_or _ hmask).trans hfirst)
      · exact (alarm_or _ hmask).trans hfirst
    · have hmask : intEvent.getLsbD 8 = false := by decide
      have hclear := alarm_clear s.r.isr hmask
      simp only [step, setEvent, rtcSetEvent, rtcIntrClear, rtcSetIntr]
      split_ifs <;> exact hclear
  | getEvent tm => exact ⟨rfl, rfl⟩
  | setStopwatch mins =>
    refine ⟨rfl, alarm_congr ?_ ?_ ?_⟩
    · simp only [step, rtcSetStopwatch]
      split_ifs <;> rfl
    · have hor := alarm_or s.r.ier (by decide : intStpw.getLsbD 8 = false)
      simp only [step, rtcSetStopwatch]
      split_ifs
      · rfl
      · exact hor
    · simp only [step, rtcSetStopwatch]
      split_ifs <;> rfl
  | aie on => exact ⟨rfl, alarm_switch s on⟩
  | pieOn =>
    refine ⟨rfl, alarm_congr rfl ?_ (alarm_clear s.r.isr (by decide))⟩
    refine ier_rtcSetIntr _ ?_ true
    split_ifs
    · decide
    · exact pst_alarm _
  | pieOff => exact ⟨rfl, alarm_congr rfl (ier_rtcSetIntr s.r (by decide) false) rfl⟩
  | uie on => exact ⟨rfl, alarm_congr rfl (ier_rtcSetIntr s.r (by decide) on) rfl⟩
  | irqpRead => exact ⟨rfl, rfl⟩
  | irqpSet arg =>
    refine ⟨rfl, ?_⟩
    simp only [step, irqpSet]
    split <;> rfl
  | irq =>
    have hevents := events_alarm s
    have hisr := isr_interrupt s
    simp only [step, Op.view, Alarm.step]
    by_cases hon : s.alarm.on ∧ s.alarm.pending
    · rw [if_pos (hevents.mpr hon), if_pos hon]
      rw [hon.1, hon.2] at hisr
      refine ⟨rfl, ?_⟩
      simp only [Sslrtc.alarm] at hisr ⊢
      rw [hisr]
      rfl
    · rw [if_neg (mt hevents.mp hon), if_neg hon]
      refine ⟨rfl, alarm_congr rfl rfl ?_⟩
      rw [hisr]
      simp only [Sslrtc.alarm] at hon ⊢
      cases hb : s.r.isr.getLsbD 8 <;> simp_all
  | raise sta =>
    refine ⟨rfl, ?_⟩
    simp only [step, Alarm.step, Sslrtc.alarm, BitVec.getLsbD_or]

/-- Whatever is called, the alarm is the one of the abstract clock: it shows what was set last, and goes off once for what came up while
it was on. -/
theorem alarm_refines (s : Sslrtc) (ops : List Op) :
    List.zipWith Op.view ops (run s ops).1 = (s.alarm.run ops).1 ∧ (run s ops).2.alarm = (s.alarm.run ops).2 := by
  induction ops generalizing s with
  | nil => exact ⟨rfl, rfl⟩
  | cons op ops ih =>
    obtain ⟨hout, hstep⟩ := step_alarm s op
    obtain ⟨houts, hrun⟩ := ih (step s op).2
    rw [hstep] at houts hrun
    simp only [run, Alarm.run, List.zipWith_cons_cons, hout, houts, hrun, and_self]

/-! ## The next alarm -/

/-- The alarm of `RTC_ALM_SET`: today, or tomorrow when it is past. -/
def almTime (s : Sslrtc) (req : RtcTime) : RtcTime :=
  let tm := rtcReadTime s
  let now := rtcTmToTime tm
  let alarm := { req with wday := -1, yday := -1, isdst := -1, mday := tm.mday, mon := tm.mon, year := tm.year }
  if rtcTmToTime alarm < now then
    let tm := rtcTimeToTm (u32 (now + 24 * 60 * 60)) tm
    { alarm with mday := tm.mday, mon := tm.mon, year := tm.year }
  else alarm

/-- `RTC_ALM_SET`. -/
def almSet (s : Sslrtc) (req : RtcTime) : Int × Sslrtc :=
  let tm := rtcReadTime s
  let alarm := { req with wday := -1, yday := -1, isdst := -1, mday := tm.mday, mon := tm.mon, year := tm.year }
  if rtcValidTm alarm < 0 then (rtcValidTm alarm, s) else rtcSetAlarm s (almTime s req) false

/-- The date of a day with another time of that day. -/
theorem DateOf.at {time time' : Int} {tm tm' : RtcTime} (h : DateOf time tm) (hyear : tm'.year = tm.year) (hmon : tm'.mon = tm.mon)
    (hmday : tm'.mday = tm.mday) (hhour : 0 ≤ tm'.hour ∧ tm'.hour < 24) (hmin : 0 ≤ tm'.min ∧ tm'.min < 60) (hsec : 0 ≤ tm'.sec ∧ tm'.sec < 60)
    (htime : time' = time / 86400 * 86400 + tm'.hour * 3600 + tm'.min * 60 + tm'.sec) : DateOf time' tm' := by
  have hday : time' / 86400 = time / 86400 := by omega
  constructor
  · rw [hday, hyear, hmon, hmday]
    exact h.dated
  · rw [hyear]
    exact h.year_ge
  · rw [hmon]
    exact h.mon_nonneg
  · omega
  · omega
  · omega

/-- The alarm of `RTC_ALM_SET` is the next second with that time of the day, today or tomorrow; it is set, and off. -/
theorem almSet_next (s : Sslrtc) (req : RtcTime) {now : Int} (hnow : DateOf now (rtcReadTime s)) (h0 : 0 ≤ now)
    (h1 : now + 2 * 86400 < 0x100000000) (hhour : 0 ≤ req.hour ∧ req.hour < 24) (hmin : 0 ≤ req.min ∧ req.min < 60)
    (hsec : 0 ≤ req.sec ∧ req.sec < 60) :
    ∃ t, DateOf t (almTime s req) ∧ now ≤ t ∧ t % 86400 = req.hour * 3600 + req.min * 60 + req.sec ∧
      (∀ t', now ≤ t' → t' % 86400 = req.hour * 3600 + req.min * 60 + req.sec → t ≤ t') ∧
      (almSet s req).1 = 0 ∧
      (almSet s req).2.alarm = { s.alarm with hour := req.hour, min := req.min, sec := req.sec }.switch false := by
  let today : RtcTime := { req with
    wday := -1, yday := -1, isdst := -1, mday := (rtcReadTime s).mday, mon := (rtcReadTime s).mon, year := (rtcReadTime s).year }
  have htoday : DateOf (now / 86400 * 86400 + req.hour * 3600 + req.min * 60 + req.sec) today :=
    hnow.at rfl rfl rfl hhour hmin hsec rfl
  have hsecs := htoday.rtcTmToTime_eq (by omega) (by omega)
  have hfields : (almTime s req).hour = req.hour ∧ (almTime s req).min = req.min ∧ (almTime s req).sec = req.sec := by
    unfold almTime
    dsimp only
    split_ifs <;> exact ⟨rfl, rfl, rfl⟩
  have hset : DateOf (if now / 86400 * 86400 + req.hour * 3600 + req.min * 60 + req.sec < now then
      (now / 86400 + 1) * 86400 + req.hour * 3600 + req.min * 60 + req.sec
      else now / 86400 * 86400 + req.hour * 3600 + req.min * 60 + req.sec) (almTime s req) := by
    have hcond : (rtcTmToTime today < rtcTmToTime (rtcReadTime s)) ↔
        now / 86400 * 86400 + req.hour * 3600 + req.min * 60 + req.sec < now := by
      rw [hsecs, hnow.rtcTmToTime_eq h0 (by omega)]
    by_cases hpast : now / 86400 * 86400 + req.hour * 3600 + req.min * 60 + req.sec < now
    · rw [if_pos hpast]
      have htomorrow := rtcTimeToTm_dateOf (by omega : 0 ≤ now + 86400) (by omega) (rtcReadTime s)
      have hwrap : u32 (rtcTmToTime (rtcReadTime s) + 24 * 60 * 60) = now + 86400 := by
        rw [hnow.rtcTmToTime_eq h0 (by omega)]
        exact u32_of_small (by omega) (by omega)
      unfold almTime
      dsimp only
      rw [if_pos (hcond.mpr hpast), hwrap]
      exact htomorrow.at rfl rfl rfl hhour hmin hsec (by dsimp only; omega)
    · rw [if_neg hpast]
      unfold almTime
      dsimp only
      rw [if_neg (mt hcond.mp hpast)]
      exact htoday
  refine ⟨_, hset, ?_, ?_, ?_, ?_⟩
  · split_ifs <;> omega
  · split_ifs <;> omega
  · intro t' hge htime
    split_ifs <;> omega
  · have hvalid : ¬rtcValidTm today < 0 := by
      rw [htoday.valid]
      norm_num
    have hdo : almSet s req = (0, setAlarm s (almTime s req) false) := by
      unfold almSet
      dsimp only
      rw [if_neg hvalid, rtcSetAlarm, if_neg (not_not_intro hset.valid)]
    have hstep := (step_alarm s (.setAlarm (almTime s req) false)).2
    simp only [step, rtcSetAlarm, Alarm.step, if_neg (not_not_intro hset.valid), if_pos hset.valid, hfields] at hstep
    rw [hdo]
    exact ⟨rfl, hstep⟩

theorem almSet_next_noon : ∃ s t, DateOf t (almTime s { noTime with hour := 12 }) ∧ 951782400 ≤ t ∧ (almSet s { noTime with hour := 12 }).1 = 0 := by
  have hnow := readTime_dateOf ⟨⟨0, 0, 0, 0, 0, 0, 0, 0, 0, 0⟩, 0⟩ noTime (t := 951782400) (by norm_num) (by norm_num)
  obtain ⟨t, hdate, hge, -, -, hret, -⟩ := almSet_next _ { noTime with hour := 12 } hnow (by norm_num) (by norm_num) (by decide) (by decide) (by decide)
  exact ⟨_, t, hdate, hge, hret⟩

end Emlinux.Rtc
