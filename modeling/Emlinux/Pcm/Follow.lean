import Emlinux.Pcm.Session

/-!
# The core follows the DSP
-/

namespace Emlinux.Pcm

open Lib

/-! ## The driver -/

/-- The driver after a report of so many frames. -/
structure Told (p : Params) (drv : Stream) (told : Nat) : Prop where
  size : drv.pcmSize = p.len.buffer
  count : drv.pcmCount = p.len.period
  buf : drv.pcmBufPos.toNat = told * p.frameBytes % (p.bufferSize * p.frameBytes)
  irq : drv.pcmIrqPos.toNat = told * p.frameBytes % (p.periodSize * p.frameBytes)

section Driver

variable {p : Params} {drv : Stream} {told count : Nat}

theorem bytes_pos (p : Params) : 0 < p.bufferSize * p.frameBytes := Nat.mul_pos p.buffer_pos p.frame_pos

theorem toNat_progress (p : Params) (count : Nat) :
    (progress p count).buffPosn.toNat = count * p.frameBytes % (p.bufferSize * p.frameBytes) :=
  Params.toNat_bytes (le_trans (Nat.mod_lt _ (bytes_pos p)).le p.buffer_le)

theorem progress_inside (p : Params) (count : Nat) : (progress p count).buffPosn < p.len.buffer := by
  rw [BitVec.lt_def, toNat_progress, Params.toNat_buffer]
  exact Nat.mod_lt _ (bytes_pos p)

theorem progress_progress (p : Params) (count : Nat) : (progress p count).Progress := ⟨rfl, rfl⟩

theorem period_bytes_dvd (p : Params) : p.periodSize * p.frameBytes ∣ p.bufferSize * p.frameBytes := Nat.mul_dvd_mul_right p.period_dvd _

theorem positions_progress (p : Params) (count : Nat) :
    positions [progress p count] = [count * p.frameBytes % (p.bufferSize * p.frameBytes)] := by
  unfold positions
  rw [List.filter_cons_of_pos (by simp [progress_progress]), List.filter_nil, List.map_cons, toNat_progress, List.map_nil]

theorem way_progress (p : Params) (count : Nat) :
    way p.len [progress p count] = count * p.frameBytes % (p.bufferSize * p.frameBytes) := by
  rw [way, positions_progress, travelled, travelled, Params.toNat_buffer, forward_of_le (Nat.zero_le _) (Nat.mod_lt _ (bytes_pos p))]
  omega

/-- The driver is where one report has taken it. -/
theorem Told.tracked (h : Told p drv told) : Tracked p.len [progress p told] drv where
  size := h.size
  count := h.count
  buf := by rw [h.buf, lastPosition, positions_progress, List.getLastD_cons, List.getLastD_nil]
  irq := by rw [h.irq, way_progress, Params.toNat_period, Nat.mod_mod_of_dvd _ (period_bytes_dvd p)]

/-- A report ends a period when the frames since the last one do not fit into what is left of it. -/
theorem Told.deliver (h : Told p drv told) (count : Nat) : Told p (callback (progress p count) drv).2 count ∧
    ((callback (progress p count) drv).1 = true ↔
      p.periodSize ≤ told % p.periodSize + forward p.bufferSize (told % p.bufferSize) (count % p.bufferSize)) := by
  have hin : Inside p.len [progress p told] := by
    intro m hm _
    rw [List.mem_singleton.mp hm]
    exact progress_inside p told
  obtain ⟨hends, htracked⟩ := callback_progress h.tracked hin (progress_progress p count) (progress_inside p count)
  have hlast : lastPosition [progress p told] = told * p.frameBytes % (p.bufferSize * p.frameBytes) := by
    rw [lastPosition, positions_progress, List.getLastD_cons, List.getLastD_nil]
  have hway : way p.len ([progress p told] ++ [progress p count]) % (p.bufferSize * p.frameBytes) =
      count * p.frameBytes % (p.bufferSize * p.frameBytes) := by
    rw [way_append (progress_progress p count), way_progress, hlast, toNat_progress, Params.toNat_buffer,
      add_forward_mod (Nat.mod_lt _ (bytes_pos p)) (Nat.mod_lt _ (bytes_pos p))]
  refine ⟨⟨htracked.size, htracked.count, ?_, ?_⟩, ?_⟩
  · rw [htracked.buf, lastPosition_append (progress_progress p count), toNat_progress]
  · rw [htracked.irq, Params.toNat_period, ← Nat.mod_mod_of_dvd _ (period_bytes_dvd p), hway, Nat.mod_mod_of_dvd _ (period_bytes_dvd p)]
  · rw [hends, Params.toNat_period, crosses_iff p.bytes_pos, way_progress, hlast, toNat_progress, Params.toNat_buffer,
      Nat.mod_mod_of_dvd _ (period_bytes_dvd p)]
    simp only [Nat.mul_mod_mul_right, forward_mul, ← Nat.add_mul]
    exact Nat.mul_le_mul_right_iff p.frame_pos

theorem pointer_eq {s : Substream} (h : Told p s.drv told) : s.pointer p = told % p.bufferSize := by
  rw [Substream.pointer, h.buf, Nat.mul_mod_mul_right, Nat.mul_div_cancel _ p.frame_pos]

/-- What the driver knows of the DSP does not depend on whether it is on. -/
theorem Told.congr {drv' : Stream} (h : Told p drv told) (h1 : drv'.pcmSize = drv.pcmSize) (h2 : drv'.pcmCount = drv.pcmCount)
    (h3 : drv'.pcmBufPos = drv.pcmBufPos) (h4 : drv'.pcmIrqPos = drv.pcmIrqPos) : Told p drv' told :=
  ⟨h1.trans h.size, h2.trans h.count, h3 ▸ h.buf, h4 ▸ h.irq⟩

theorem Told.trigger {s : Substream} (h : Told p s.drv told) (cmd : Cmd) : Told p (s.trigger p cmd).drv told := by
  unfold Substream.trigger
  cases cmd <;> dsimp only <;> try split_ifs
  all_goals exact h.congr rfl rfl rfl rfl

theorem trigger_rt {s : Substream} (cmd : Cmd) : (s.trigger p cmd).rt = s.rt := by
  unfold Substream.trigger
  cases cmd <;> dsimp only <;> try split_ifs
  all_goals rfl

end Driver

/-! ## The core -/

namespace PcmState

/-- The core follows the DSP from the time a stream is prepared until it is stopped. -/
def live : PcmState → Bool
  | .prepared | .running | .draining | .paused => true
  | .setup | .xrun => false

/-- The stream was started. -/
def started : PcmState → Bool
  | .running | .draining | .paused => true
  | .setup | .prepared | .xrun => false

theorem started_of_isRunning {st : PcmState} (h : st.isRunning = true) : st.started = true := by
  cases st <;> first | rfl | cases h

theorem live_of_started {st : PcmState} (h : st.started = true) : st.live = true := by
  cases st <;> first | rfl | cases h

end PcmState

/-- The core has last seen the DSP at `h`, in the section of the last report or, when `exact`, in its period. -/
structure Follow (p : Params) (exact : Prop) (s : Substream) (told h : Nat) : Prop where
  drv : Told p s.drv told
  ptr : s.rt.hwPtr = h % p.boundary
  base : s.rt.hwPtrBase = h / p.bufferSize * p.bufferSize % p.boundary
  int : s.rt.state.live = true → s.rt.hwPtrInterrupt = h / p.periodSize * p.periodSize % p.boundary
  le : h ≤ told
  near : s.rt.state.live = true → InStep p.bufferSize p.periodSize h told
  close : exact → s.rt.state.live = true → h / p.periodSize = told / p.periodSize

/-- The count of the frames that were written, by that of the frames the core has seen taken. -/
structure Counts (p : Params) (rt : Runtime) (written h : Nat) : Prop where
  appl : rt.applPtr = written % p.boundary
  room : written ≤ h + p.bufferSize
  late : h + p.bufferSize < written + p.boundary
  behind : rt.state.live = true → h ≤ written
  ahead : rt.state.started = true → h < written

section Core

variable {p : Params} {exact : Prop} {s : Substream} {told written h h' : Nat} {st : PcmState}

theorem playbackAvail_eq (hptr : s.rt.hwPtr = h % p.boundary) (happl : s.rt.applPtr = written % p.boundary)
    (hroom : written ≤ h + p.bufferSize) (hlate : h + p.bufferSize < written + p.boundary) :
    playbackAvail p s.rt = h + p.bufferSize - written := by
  have hM := p.four_le_boundary
  unfold playbackAvail
  rw [hptr, happl]
  exact wrap_sub hroom hlate (by omega)

/-! ### The stream is stopped -/

theorem stop_rt : (s.stop p st).rt = { s.rt with state := st } := by
  unfold Substream.stop
  dsimp only
  split_ifs
  · rw [trigger_rt]
  · rfl

theorem Told.stop (hd : Told p s.drv told) : Told p (s.stop p st).drv told := by
  unfold Substream.stop
  dsimp only
  split_ifs
  · exact hd.trigger .stop
  · exact hd

theorem Follow.stop (hf : Follow p exact s told h) (hst : st.live = false) : Follow p exact (s.stop p st) told h where
  drv := hf.drv.stop
  ptr := by rw [stop_rt, hf.ptr]
  base := by rw [stop_rt, hf.base]
  int hlive := absurd hlive (by simp [stop_rt, hst])
  le := hf.le
  near hlive := absurd hlive (by simp [stop_rt, hst])
  close _ hlive := absurd hlive (by simp [stop_rt, hst])

theorem not_started (hst : st.live = false) : st.started = false := by
  cases st <;> first | rfl | cases hst

/-- A stream that is stopped may be late. -/
theorem Counts.stopped {rt : Runtime} (hst : rt.state.live = false) (happl : rt.applPtr = written % p.boundary)
    (hroom : written ≤ h + p.bufferSize) (hlate : h + p.bufferSize < written + p.boundary) : Counts p rt written h where
  appl := happl
  room := hroom
  late := hlate
  behind hlive := absurd hlive (by simp [hst])
  ahead hstarted := absurd hstarted (by simp [not_started hst])

theorem Counts.stop (hc : Counts p s.rt written h) (hst : st.live = false) : Counts p (s.stop p st).rt written h := by
  rw [stop_rt]
  exact .stopped hst hc.appl hc.room hc.late

/-! ### The core looks at the position -/

/-- The core with a new count. -/
def Substream.seen (p : Params) (s : Substream) (h : Nat) : Substream :=
  { s with rt := { s.rt with
      hwPtr := h % p.boundary
      hwPtrBase := h / p.bufferSize * p.bufferSize % p.boundary
      hwPtrInterrupt := h / p.periodSize * p.periodSize % p.boundary } }

/-- The last position in the lap `q`. -/
theorem lap_of {q pos : Nat} (hpos : pos < p.bufferSize) (hh : h' = q * p.bufferSize + pos) :
    h' / p.bufferSize = q ∧ q * p.bufferSize % p.boundary + pos = h' % p.boundary := by
  refine ⟨?_, ?_⟩
  · rw [hh, Nat.mul_comm, Nat.mul_add_div p.buffer_pos, Nat.div_eq_of_lt hpos, Nat.add_zero]
  · rw [hh, lap_add p.buffer_dvd p.boundary_pos hpos]

theorem setHwPtrInterrupt_eq {q pos : Nat} (hpos : pos < p.bufferSize) (hh : h' = q * p.bufferSize + pos) :
    s.setHwPtrInterrupt p (q * p.bufferSize % p.boundary) pos = (s.seen p h').updateHwPtrPost p := by
  obtain ⟨hq, hptr⟩ := lap_of hpos hh
  unfold Substream.setHwPtrInterrupt Substream.seen
  dsimp only
  rw [hptr, hq, lap_start p.period_dvd_boundary p.boundary_pos]

/-- When a program asks, the DSP has not left the period in which it was at the last interrupt. -/
theorem setHwPtr_eq {q pos : Nat} (hpos : pos < p.bufferSize) (hh : h' = q * p.bufferSize + pos)
    (hint : s.rt.hwPtrInterrupt = h' / p.periodSize * p.periodSize % p.boundary) :
    s.setHwPtr p (q * p.bufferSize % p.boundary) pos = (s.seen p h').updateHwPtrPost p := by
  obtain ⟨hq, hptr⟩ := lap_of hpos hh
  unfold Substream.setHwPtr Substream.seen
  rw [hptr, hq, ← hint]

theorem nextBase_eq (q : Nat) : Substream.nextBase p (q * p.bufferSize % p.boundary) = (q + 1) * p.bufferSize % p.boundary :=
  lap_next p.buffer_dvd p.boundary_pos q

/-- The core has seen the DSP. The stream is stopped when there is no frame left. -/
theorem seen_post (hd : Told p s.drv told) (hc : Counts p s.rt written h) (hrun : s.rt.state.isRunning = true) (hle : h ≤ h')
    (hlt : h' < h + 2 * p.bufferSize) (htold : h' ≤ told) (hnear : InStep p.bufferSize p.periodSize h' told)
    (hclose : exact → h' / p.periodSize = told / p.periodSize) :
    Follow p exact ((s.seen p h').updateHwPtrPost p) told h' ∧ Counts p ((s.seen p h').updateHwPtrPost p).rt written h' := by
  have hstarted := PcmState.started_of_isRunning hrun
  have hlive := PcmState.live_of_started hstarted
  have hM := p.four_le_boundary
  have hahead := hc.ahead hstarted
  have hroom := hc.room
  have hf : Follow p exact (s.seen p h') told h' := ⟨hd, rfl, rfl, fun _ => rfl, htold, fun _ => hnear, fun he _ => hclose he⟩
  have hroom' : written ≤ h' + p.bufferSize := by omega
  have hlate' : h' + p.bufferSize < written + p.boundary := by omega
  have havail := playbackAvail_eq (s := s.seen p h') rfl hc.appl hroom' hlate'
  unfold Substream.updateHwPtrPost
  rw [havail]
  split_ifs with hstop hdrain
  · have hst : PcmState.setup.live = false := rfl
    refine ⟨hf.stop hst, ?_⟩
    rw [stop_rt]
    exact .stopped hst hc.appl hroom' hlate'
  · have hst : PcmState.xrun.live = false := rfl
    refine ⟨hf.stop hst, ?_⟩
    rw [stop_rt]
    exact .stopped hst hc.appl hroom' hlate'
  · have hstop_le := p.stop_le
    have hbuf := p.buffer_pos
    exact ⟨hf, hc.appl, hroom', hlate', fun _ => by omega, fun _ => by omega⟩

/-- A program asks. -/
theorem updateHwPtr_follow (hf : Follow p exact s told h) (hc : Counts p s.rt written h) (hrun : s.rt.state.isRunning = true) :
    ∃ h' ≥ h, Follow p exact (s.updateHwPtr p) told h' ∧ Counts p (s.updateHwPtr p).rt written h' := by
  have hlive := PcmState.live_of_started (PcmState.started_of_isRunning hrun)
  have hbuf := p.buffer_pos
  have hrest : h / p.bufferSize * p.bufferSize % p.boundary + h % p.bufferSize = h % p.boundary := lap_mod p.buffer_dvd p.boundary_pos h
  obtain ⟨hn1, hn2⟩ := hf.near hlive
  have hsec := lt_section p.period_pos (h % p.bufferSize)
  have hpos : told % p.bufferSize < p.bufferSize := Nat.mod_lt _ hbuf
  unfold Substream.updateHwPtr
  dsimp only
  rw [pointer_eq hf.drv, hf.ptr, hf.base]
  split_ifs with hbehind hsmall
  · exact ⟨h, le_rfl, hf, hc⟩
  · -- no further behind than half the buffer
    exfalso
    omega
  · have hr : h % p.bufferSize ≤ told % p.bufferSize := by omega
    obtain ⟨hle, htold⟩ := same_lap hf.le hr
    have hperiod : (h / p.bufferSize * p.bufferSize + told % p.bufferSize) / p.periodSize = h / p.periodSize := by
      apply section_unique p.period_pos hle
      rw [section_eq p.period_dvd h]
      omega
    have hlap := Nat.div_mul_le_self h p.bufferSize
    rw [setHwPtr_eq hpos rfl (by rw [hf.int hlive, hperiod])]
    refine ⟨_, hle, seen_post hf.drv hc hrun hle (by omega) htold ?_ ?_⟩
    · apply InStep.seen p.period_pos p.two_periods
      rw [Nat.mul_comm, Nat.mul_add_mod, Nat.mod_mod]
    · exact fun he => hperiod.trans (hf.close he hlive)

/-- A report ends a period of a stream that runs. -/
theorem updateHwPtrInterrupt_follow {count : Nat} (hf : Follow p exact s told h) (hc : Counts p s.rt written h)
    (hrun : s.rt.state.isRunning = true) (hle : told ≤ count) (hprompt : exact → count ≤ told + p.bufferSize / 2)
    (hleft : p.periodSize ≤ told % p.periodSize + forward p.bufferSize (told % p.bufferSize) (count % p.bufferSize)) {drv : Stream}
    (hd : Told p drv count) :
    ∃ h' ≥ h, Follow p exact (Substream.updateHwPtrInterrupt p { s with drv }) count h' ∧
      Counts p (Substream.updateHwPtrInterrupt p { s with drv }).rt written h' := by
  have hlive := PcmState.live_of_started (PcmState.started_of_isRunning hrun)
  have hbuf := p.buffer_pos
  have htwo := p.two_periods
  have hper := p.period_pos
  have hpos : count % p.bufferSize < p.bufferSize := Nat.mod_lt _ hbuf
  have hrest : h % p.bufferSize < p.bufferSize := Nat.mod_lt _ hbuf
  have hsec_le := section_add_le p.period_dvd hrest
  have hend : h / p.periodSize * p.periodSize + p.periodSize ≤ count := section_left hbuf hle hf.le hleft
  have hsec := section_eq p.period_dvd h
  have hlap := Nat.div_add_mod' h p.bufferSize
  have hsucc : (h / p.bufferSize + 1) * p.bufferSize = h / p.bufferSize * p.bufferSize + p.bufferSize := by rw [Nat.add_mul, Nat.one_mul]
  have hlt := lt_section hper h
  have hint : h / p.periodSize * p.periodSize % p.boundary =
      h / p.bufferSize * p.bufferSize % p.boundary + h % p.bufferSize / p.periodSize * p.periodSize := by
    rw [hsec, lap_add p.buffer_dvd p.boundary_pos (Nat.lt_of_le_of_lt (section_le _ _) hrest)]
  have hptr := pointer_eq (s := { s with drv }) hd
  -- how far the DSP is when it reports in time
  have hnext : exact → count < h / p.periodSize * p.periodSize + p.periodSize + p.bufferSize / 2 := by
    intro he
    have h1 := hprompt he
    have h2 := lt_section hper told
    rw [← hf.close he hlive] at h2
    omega
  unfold Substream.updateHwPtrInterrupt
  dsimp only
  rw [hptr, hf.base, hf.int hlive, hint, if_neg (by omega), nextBase_eq]
  split_ifs with hbehind hsmall
  · -- taken for a position that has gone back
    have hlater : (h / p.bufferSize + 1) * p.bufferSize + count % p.bufferSize ≤ count :=
      later_lap (a := h % p.bufferSize / p.periodSize * p.periodSize + p.periodSize) (by omega) (by omega)
    refine ⟨h, le_rfl, ⟨hd, hf.ptr, hf.base, hf.int, le_trans hf.le hle, fun _ => ?_, fun he _ => ?_⟩, hc⟩
    · unfold InStep
      omega
    · have hclose := hnext he
      omega
  · -- the next lap
    have hlater : (h / p.bufferSize + 1) * p.bufferSize + count % p.bufferSize ≤ count :=
      later_lap (a := h % p.bufferSize / p.periodSize * p.periodSize + p.periodSize) (by omega) (by omega)
    rw [setHwPtrInterrupt_eq hpos rfl]
    refine ⟨_, ?_, seen_post hd hc hrun ?_ ?_ hlater (.seen hper htwo ?_) fun he => ?_⟩
    · omega
    · omega
    · omega
    · rw [Nat.mul_comm, Nat.mul_add_mod, Nat.mod_mod]
    · have hclose := hnext he
      rw [lap_unique hlater (by omega)]
  · -- the same lap
    have hr : h % p.bufferSize ≤ count % p.bufferSize := by
      have h1 := lt_section hper (h % p.bufferSize)
      omega
    obtain ⟨hle', htold⟩ := same_lap (le_trans hf.le hle) hr
    rw [setHwPtrInterrupt_eq hpos rfl]
    refine ⟨_, hle', seen_post hd hc hrun hle' ?_ htold (.seen hper htwo ?_) fun he => ?_⟩
    · omega
    · rw [Nat.mul_comm, Nat.mul_add_mod, Nat.mod_mod]
    · have hclose := hnext he
      rw [lap_unique htold (by omega)]

/-! ### A report comes -/

theorem Follow.driver {drv : Stream} {count : Nat} (hf : Follow p exact s told h) (hd : Told p drv count) (hle : told ≤ count)
    (hnear : s.rt.state.live = true → InStep p.bufferSize p.periodSize h count)
    (hclose : exact → s.rt.state.live = true → h / p.periodSize = count / p.periodSize) : Follow p exact { s with drv } count h where
  drv := hd
  ptr := hf.ptr
  base := hf.base
  int := hf.int
  le := le_trans hf.le hle
  near := hnear
  close := hclose

/-- Whatever state the stream is in. -/
theorem message_follow {count : Nat} (hf : Follow p exact s told h) (hc : Counts p s.rt written h) (hle : told ≤ count)
    (hprompt : exact → count ≤ told + p.bufferSize / 2)
    (hsteady : s.rt.state = .prepared ∨ s.rt.state = .paused → (callback (progress p count) s.drv).1 = false) :
    ∃ h' ≥ h, Follow p exact (s.message p (progress p count)) count h' ∧ Counts p (s.message p (progress p count)).rt written h' := by
  obtain ⟨hd, hends⟩ := hf.drv.deliver count
  unfold Substream.message
  generalize hres : callback (progress p count) s.drv = res at hd hends hsteady
  obtain ⟨ended, drv⟩ := res
  dsimp only at hd hends hsteady ⊢
  cases ended with
  | false =>
    have hstay : told % p.periodSize + forward p.bufferSize (told % p.bufferSize) (count % p.bufferSize) < p.periodSize := by
      by_contra hge
      exact Bool.false_ne_true (hends.mpr (by omega))
    refine ⟨h, le_rfl, hf.driver hd hle (fun hlive => ?_) fun he hlive => ?_, hc⟩
    · exact (hf.near hlive).stay p.period_dvd p.buffer_pos p.period_pos hstay
    · have hnear := hprompt he
      have hbuf := p.buffer_pos
      have hper := Nat.div_add_mod' told p.periodSize
      rw [forward_mod hbuf hle, Nat.mod_eq_of_lt (show count - told < p.bufferSize by omega)] at hstay
      rw [hf.close he hlive, section_unique p.period_pos hle (by omega)]
  | true =>
    have hleft := hends.mp rfl
    unfold Substream.periodElapsed
    dsimp only
    rw [if_pos rfl]
    by_cases hrun : s.rt.state.isRunning = true
    · rw [if_pos hrun]
      obtain ⟨h', hh, hf', hc'⟩ := updateHwPtrInterrupt_follow hf hc hrun hle hprompt hleft hd
      refine ⟨h', hh, ?_, hc'⟩
      exact ⟨hf'.drv.congr rfl rfl rfl rfl, hf'.ptr, hf'.base, hf'.int, hf'.le, hf'.near, hf'.close⟩
    · rw [if_neg hrun]
      have hlive : ¬ s.rt.state.live = true := by
        intro hlive
        have hnot : ¬ (s.rt.state = .prepared ∨ s.rt.state = .paused) := fun hst => Bool.true_eq_false_eq_False (hsteady hst)
        revert hrun hlive hnot
        cases s.rt.state <;> simp [PcmState.live, PcmState.isRunning]
      refine ⟨h, le_rfl, hf.driver (hd.congr rfl rfl rfl rfl) hle (fun hl => absurd hl hlive) fun _ hl => absurd hl hlive, hc⟩

/-- Another message of the DSP. -/
theorem notice_follow {m : Msg} (hf : Follow p exact s told h) (hm : ¬ m.Progress) :
    Follow p exact (s.message p m) told h ∧ (s.message p m).rt = s.rt := by
  obtain ⟨hended, h1, h2, h3, h4⟩ := callback_other (s := s.drv) hm
  unfold Substream.message
  dsimp only
  rw [if_neg (by simp [hended])]
  exact ⟨hf.driver (hf.drv.congr h1 h2 h4 h3) le_rfl hf.near hf.close, rfl⟩

/-! ### What the program does -/

theorem Follow.state (hf : Follow p exact s told h) {drv : Stream} (hd : Told p drv told) (hst : st.live = true → s.rt.state.live = true) :
    Follow p exact ⟨{ s.rt with state := st }, drv⟩ told h where
  drv := hd
  ptr := hf.ptr
  base := hf.base
  int hlive := hf.int (hst hlive)
  le := hf.le
  near hlive := hf.near (hst hlive)
  close he hlive := hf.close he (hst hlive)

theorem Counts.state {rt : Runtime} (hc : Counts p rt written h) (hlive : st.live = true → rt.state.live = true)
    (hstarted : st.started = true → h < written) : Counts p { rt with state := st } written h where
  appl := hc.appl
  room := hc.room
  late := hc.late
  behind hl := hc.behind (hlive hl)
  ahead := hstarted

/-- A stream that has data is not behind. -/
theorem lt_of_avail (hf : Follow p exact s told h) (hc : Counts p s.rt written h) (h' : playbackAvail p s.rt < p.bufferSize) : h < written := by
  rw [playbackAvail_eq hf.ptr hc.appl hc.room hc.late] at h'
  omega

theorem start_follow {u : Substream} (hf : Follow p exact s told h) (hc : Counts p s.rt written h) (hu : s.start p = some u) :
    Follow p exact u told h ∧ Counts p u.rt written h := by
  unfold Substream.start at hu
  split_ifs at hu with hst
  obtain ⟨hst, hdata⟩ := hst
  dsimp only at hu
  rw [trigger_rt] at hu
  have hlt : h < written := by
    have hM := p.four_le_boundary
    have hstop := p.stop_le
    have hbuf := p.buffer_pos
    unfold playbackData at hdata
    rw [Bool.or_eq_true, decide_eq_true_eq, decide_eq_true_eq] at hdata
    exact lt_of_avail hf hc (hdata.resolve_left (by omega))
  have hlive : s.rt.state.live = true := by rw [hst]; rfl
  rw [← Option.some.inj hu]
  exact ⟨hf.state (hf.drv.trigger .start) fun _ => hlive, hc.state (fun _ => hlive) fun _ => hlt⟩

theorem pause_follow (push : Bool) (hf : Follow p exact s told h) (hc : Counts p s.rt written h) :
    Follow p exact (s.pause p push) told h ∧ Counts p (s.pause p push).rt written h := by
  unfold Substream.pause
  dsimp only
  rw [trigger_rt, trigger_rt]
  split_ifs with hpush hst hst
  · have hlive : s.rt.state.live = true := by rw [hst]; rfl
    have hstarted : s.rt.state.started = true := by rw [hst]; rfl
    exact ⟨hf.state (hf.drv.trigger .pausePush) fun _ => hlive, hc.state (fun _ => hlive) fun _ => hc.ahead hstarted⟩
  · exact ⟨hf, hc⟩
  · have hlive : s.rt.state.live = true := by rw [hst]; rfl
    have hstarted : s.rt.state.started = true := by rw [hst]; rfl
    exact ⟨hf.state (hf.drv.trigger .pauseRelease) fun _ => hlive, hc.state (fun _ => hlive) fun _ => hc.ahead hstarted⟩
  · exact ⟨hf, hc⟩

theorem drop_follow (hf : Follow p exact s told h) (hc : Counts p s.rt written h) :
    Follow p exact (s.drop p) told h ∧ Counts p (s.drop p).rt written h := by
  obtain ⟨hf', hc'⟩ := pause_follow false hf hc
  have hst : PcmState.setup.live = false := rfl
  exact ⟨hf'.stop hst, hc'.stop hst⟩

theorem drain_follow (hf : Follow p exact s told h) (hc : Counts p s.rt written h) :
    Follow p exact (s.drain p) told h ∧ Counts p (s.drain p).rt written h := by
  obtain ⟨hf', hc'⟩ := pause_follow false hf hc
  unfold Substream.drain
  generalize s.pause p false = u at hf' hc'
  dsimp only
  rw [trigger_rt]
  split
  · next hst =>
    have hlive : u.rt.state.live = true := by rw [hst]; rfl
    split_ifs with havail
    · exact ⟨hf'.state (hf'.drv.trigger .start) fun _ => hlive, hc'.state (fun _ => hlive) fun _ => lt_of_avail hf' hc' havail⟩
    · exact ⟨hf', hc'⟩
  · next hst =>
    have hlive : u.rt.state.live = true := by rw [hst]; rfl
    have hstarted : u.rt.state.started = true := by rw [hst]; rfl
    exact ⟨hf'.state hf'.drv fun _ => hlive, hc'.state (fun _ => hlive) fun _ => hc'.ahead hstarted⟩
  all_goals exact ⟨hf', hc'⟩

/-- The counts start again. -/
theorem prepare_follow (s : Substream) (hrun : s.rt.state.isRunning = false) :
    Follow p exact (s.prepare p).2 0 0 ∧ Counts p (s.prepare p).2.rt 0 0 := by
  have hM := p.four_le_boundary
  have hbuf := p.buffer_pos
  unfold Substream.prepare
  rw [if_neg (by simp [hrun])]
  refine ⟨⟨⟨rfl, rfl, ?_, ?_⟩, ?_, ?_, fun _ => ?_, le_rfl, fun _ => .seen p.period_pos p.two_periods rfl, fun _ _ => rfl⟩,
    ?_, by omega, by omega, fun _ => le_rfl, fun hst => absurd hst Bool.false_ne_true⟩
  all_goals simp [Pcm.prepare]

end Core

end Emlinux.Pcm
