import Emlinux.Lib.Lap
import Emlinux.Pcm.Position

/-!
# The stream above the driver

The PCM core counts the frames that the DSP has taken and those that the program has written, both up to a boundary that is a multiple of the
buffer. It learns of the DSP when `magus_pcm_callback` ends a period and when a program asks, and takes the position in the buffer from the
driver; whether the DSP has gone on to the next lap it tells from how far the position has fallen.

* `Params`: the parameters of a playback stream; `boundaryOf` is the loop that chooses the boundary.
* `Substream`: the runtime of the core and that of the driver.
* `updateHwPtr`, `updateHwPtrInterrupt`: how the core follows the position.
* `trigger`: the driver turns the DSP on and off. It does not turn it off in the first quarter of a second.
-/

namespace Emlinux.Pcm

open Lib

/-! ## Parameters -/

def longMax : Nat := 2 ^ 31 - 1

/-- The loop over `boundary`, by how many turns are left. After 31 of them any number but 0 is past a `long`. -/
def boundaryLoop (bufferSize : Nat) : Nat → Nat → Nat
  | 0, boundary => boundary
  | turns + 1, boundary =>
    if boundary * 2 ≤ longMax - bufferSize then boundaryLoop bufferSize turns (boundary * 2) else boundary

def boundaryOf (bufferSize : Nat) : Nat := boundaryLoop bufferSize 31 bufferSize

/-- What `snd_pcm_hw_params` and `snd_pcm_sw_params` set, in frames, for a stream that `magus_pcm_hardware` allows and `magus_pcm_open`
constrains to whole periods. The stream stops when no more than a buffer is missing. -/
structure Params where
  bufferSize : Nat
  periodSize : Nat
  frameBytes : Nat
  rate : Nat
  startThreshold : Nat
  stopThreshold : Nat
  availMin : Nat
  xferAlign : Nat
  frame_pos : 0 < frameBytes
  period_pos : 0 < periodSize
  period_dvd : periodSize ∣ bufferSize
  two_periods : 2 * periodSize ≤ bufferSize
  buffer_le : bufferSize * frameBytes ≤ 256 * 1024
  stop_le : stopThreshold ≤ bufferSize
  xferAlign_pos : 0 < xferAlign

namespace Params

def boundary (p : Params) : Nat := boundaryOf p.bufferSize

variable (p : Params)

theorem buffer_pos : 0 < p.bufferSize := by
  have h1 := p.two_periods
  have h2 := p.period_pos
  omega

theorem buffer_small : p.bufferSize ≤ 256 * 1024 :=
  le_trans (Nat.le_mul_of_pos_right _ p.frame_pos) p.buffer_le

theorem period_le : p.periodSize ≤ p.bufferSize := by
  have h := p.two_periods
  omega

theorem bytes_pos : 0 < p.periodSize * p.frameBytes := Nat.mul_pos p.period_pos p.frame_pos

theorem period_bytes_le : p.periodSize * p.frameBytes ≤ 256 * 1024 :=
  le_trans (Nat.mul_le_mul_right _ p.period_le) p.buffer_le

theorem dvd_boundaryLoop {n : Nat} (turns : Nat) : ∀ {b : Nat}, n ∣ b → n ∣ boundaryLoop n turns b := by
  induction turns with
  | zero => exact id
  | succ turns ih =>
    intro b hb
    unfold boundaryLoop
    split_ifs
    · exact ih (Dvd.dvd.mul_right hb 2)
    · exact hb

theorem le_boundaryLoop {n : Nat} (turns : Nat) : ∀ b, b ≤ boundaryLoop n turns b := by
  induction turns with
  | zero => exact fun b => le_rfl
  | succ turns ih =>
    intro b
    unfold boundaryLoop
    split_ifs
    · exact le_trans (by omega) (ih (b * 2))
    · exact le_rfl

theorem buffer_dvd : p.bufferSize ∣ p.boundary := dvd_boundaryLoop 31 dvd_rfl

theorem period_dvd_boundary : p.periodSize ∣ p.boundary := p.period_dvd.trans p.buffer_dvd

/-- The boundary is several buffers away. -/
theorem four_le_boundary : 4 * p.bufferSize ≤ p.boundary := by
  have h := p.buffer_small
  unfold boundary boundaryOf
  rw [boundaryLoop, if_pos (by unfold longMax; omega), boundaryLoop, if_pos (by unfold longMax; omega)]
  have hle := le_boundaryLoop (n := p.bufferSize) 29 (p.bufferSize * 2 * 2)
  omega

theorem boundary_pos : 0 < p.boundary := by
  have h1 := p.four_le_boundary
  have h2 := p.buffer_pos
  omega

theorem toNat_bytes {n : Nat} (h : n ≤ 256 * 1024) : (BitVec.ofNat 32 n).toNat = n :=
  (BitVec.toNat_ofNat n 32).trans (Nat.mod_eq_of_lt (by omega))

/-- `snd_pcm_lib_buffer_bytes` and `snd_pcm_lib_period_bytes`. -/
def len : Lengths where
  buffer := BitVec.ofNat 32 (p.bufferSize * p.frameBytes)
  period := BitVec.ofNat 32 (p.periodSize * p.frameBytes)
  period_pos := by
    rw [BitVec.lt_def, toNat_bytes p.period_bytes_le]
    exact p.bytes_pos
  buffer_le := by
    have h := p.buffer_le
    rw [BitVec.le_def, toNat_bytes h]
    exact le_trans h (by decide)
  period_le := by
    have h := p.period_bytes_le
    rw [BitVec.le_def, toNat_bytes h]
    exact le_trans h (by decide)

@[simp] theorem toNat_buffer : p.len.buffer.toNat = p.bufferSize * p.frameBytes := toNat_bytes p.buffer_le

@[simp] theorem toNat_period : p.len.period.toNat = p.periodSize * p.frameBytes := toNat_bytes p.period_bytes_le

end Params

/-! ## The runtime -/

/-- `snd_pcm_state_t`, as far as a stream that is set up is not suspended or disconnected. -/
inductive PcmState where
  | setup
  | prepared
  | running
  | xrun
  | draining
  | paused
deriving DecidableEq, Repr

/-- `struct snd_pcm_runtime` with its status and control. -/
structure Runtime where
  state : PcmState
  hwPtr : Nat
  hwPtrBase : Nat
  hwPtrInterrupt : Nat
  applPtr : Nat
deriving DecidableEq, Repr

structure Substream where
  rt : Runtime
  drv : Stream
deriving DecidableEq, Repr

/-- `snd_pcm_playback_avail`. -/
def playbackAvail (p : Params) (rt : Runtime) : Nat :=
  let avail : Int := rt.hwPtr + p.bufferSize - rt.applPtr
  (if avail < 0 then avail + p.boundary else if (p.boundary : Int) ≤ avail then avail - p.boundary else avail).toNat

/-- `snd_pcm_playback_hw_avail`. -/
def playbackHwAvail (p : Params) (rt : Runtime) : Int := p.bufferSize - playbackAvail p rt

/-- `snd_pcm_playback_data`. -/
def playbackData (p : Params) (rt : Runtime) : Bool := p.boundary ≤ p.stopThreshold || playbackAvail p rt < p.bufferSize

/-- `snd_pcm_running`. -/
def PcmState.isRunning : PcmState → Bool
  | .running | .draining => true
  | .setup | .prepared | .xrun | .paused => false

/-! ## The driver -/

inductive Cmd where
  | start
  | resume
  | pauseRelease
  | stop
  | suspend
  | pausePush
deriving DecidableEq, Repr

namespace Substream

/-- `magus_pcm_trigger`. The DSP is only turned off when a quarter of a second has been written. -/
def trigger (p : Params) (s : Substream) : Cmd → Substream
  | .start | .resume | .pauseRelease => if s.drv.tdmEn = 0#32 then { s with drv := { s.drv with tdmEn := 1#32 } } else s
  | .stop | .suspend =>
    if s.drv.tdmEn = 1#32 ∧ p.rate / 4 ≤ s.rt.applPtr then { s with drv := { s.drv with tdmEn := 0#32, apbState := 0 } } else s
  | .pausePush => { s with drv := { s.drv with tdmEn := 0#32 } }

/-- `magus_pcm_pointer`, with `bytes_to_frames`. -/
def pointer (p : Params) (s : Substream) : Nat := s.drv.pcmBufPos.toNat / p.frameBytes

/-! ## The core -/

/-- `snd_pcm_stop`. -/
def stop (p : Params) (s : Substream) (state : PcmState) : Substream :=
  let s := if s.rt.state.isRunning then s.trigger p .stop else s
  { s with rt := { s.rt with state } }

/-- `snd_pcm_start`, when it succeeds. -/
def start (p : Params) (s : Substream) : Option Substream :=
  if s.rt.state = .prepared ∧ playbackData p s.rt then
    let s := s.trigger p .start
    some { s with rt := { s.rt with state := .running } }
  else none

/-- `snd_pcm_update_hw_ptr_post`: a stream that has drained is stopped, and one that the program has not kept up with. -/
def updateHwPtrPost (p : Params) (s : Substream) : Substream :=
  if p.stopThreshold ≤ playbackAvail p s.rt then s.stop p (if s.rt.state = .draining then .setup else .xrun) else s

/-- `hw_ptr_base` of the next lap. -/
def nextBase (p : Params) (base : Nat) : Nat := if base + p.bufferSize = p.boundary then 0 else base + p.bufferSize

/-- The end of `snd_pcm_update_hw_ptr`. -/
def setHwPtr (p : Params) (s : Substream) (base pos : Nat) : Substream :=
  updateHwPtrPost p { s with rt := { s.rt with hwPtrBase := base, hwPtr := base + pos } }

/-- `snd_pcm_update_hw_ptr`. -/
def updateHwPtr (p : Params) (s : Substream) : Substream :=
  let pos := s.pointer p
  let delta : Int := s.rt.hwPtr - (s.rt.hwPtrBase + pos : Nat)
  if 0 < delta then
    if delta < (p.bufferSize / 2 : Nat) then s else s.setHwPtr p (nextBase p s.rt.hwPtrBase) pos
  else s.setHwPtr p s.rt.hwPtrBase pos

/-- The end of `snd_pcm_update_hw_ptr_interrupt`. -/
def setHwPtrInterrupt (p : Params) (s : Substream) (base pos : Nat) : Substream :=
  let newHwPtr := base + pos
  updateHwPtrPost p
    { s with rt := { s.rt with hwPtrBase := base, hwPtr := newHwPtr, hwPtrInterrupt := newHwPtr - newHwPtr % p.periodSize } }

/-- `snd_pcm_update_hw_ptr_interrupt`. -/
def updateHwPtrInterrupt (p : Params) (s : Substream) : Substream :=
  let pos := s.pointer p
  let delta : Int := (s.rt.hwPtrInterrupt + p.periodSize : Nat) - (s.rt.hwPtrBase + pos : Nat)
  if p.periodSize = p.bufferSize then s.setHwPtrInterrupt p (nextBase p s.rt.hwPtrBase) pos
  else if 0 < delta then
    if delta < (p.bufferSize / 2 : Nat) then s else s.setHwPtrInterrupt p (nextBase p s.rt.hwPtrBase) pos
  else s.setHwPtrInterrupt p s.rt.hwPtrBase pos

/-- `snd_pcm_period_elapsed`. -/
def periodElapsed (p : Params) (s : Substream) : Substream :=
  if s.rt.state.isRunning then s.updateHwPtrInterrupt p else s

/-- `magus_pcm_callback`, whose flag is set when the core is done. -/
def message (p : Params) (m : Msg) (s : Substream) : Substream :=
  let (ended, drv) := callback m s.drv
  if ended then
    let s := periodElapsed p { s with drv }
    { s with drv := { s.drv with apbState := drv.apbState } }
  else { s with drv }

/-- `snd_pcm_hwsync`. -/
def hwsync (p : Params) (s : Substream) : Substream := if s.rt.state.isRunning then s.updateHwPtr p else s

/-- `snd_pcm_pause`. -/
def pause (p : Params) (s : Substream) (push : Bool) : Substream :=
  if push then
    if s.rt.state = .running then
      let s := s.trigger p .pausePush
      { s with rt := { s.rt with state := .paused } }
    else s
  else if s.rt.state = .paused then
    let s := s.trigger p .pauseRelease
    { s with rt := { s.rt with state := .running } }
  else s

/-- `snd_pcm_drop`. -/
def drop (p : Params) (s : Substream) : Substream := (s.pause p false).stop p .setup

/-- `snd_pcm_drain` up to its wait. -/
def drain (p : Params) (s : Substream) : Substream :=
  let s := s.pause p false
  match s.rt.state with
  | .prepared =>
    if playbackAvail p s.rt < p.bufferSize then
      let s := s.trigger p .start
      { s with rt := { s.rt with state := .draining } }
    else s
  | .running => { s with rt := { s.rt with state := .draining } }
  | .setup | .xrun | .draining | .paused => s

/-- `snd_pcm_prepare`: `magus_pcm_prepare`, and the counts start again. -/
def prepare (p : Params) (s : Substream) : List Effect × Substream :=
  if s.rt.state.isRunning then ([], s)
  else
    let (effects, drv) := Pcm.prepare p.len s.drv
    (effects, ⟨⟨.prepared, 0, 0, 0, 0⟩, drv⟩)

end Substream

end Emlinux.Pcm
