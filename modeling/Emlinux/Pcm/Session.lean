import Emlinux.Lib.Run
import Emlinux.Lib.Splice
import Emlinux.Pcm.Alsa

/-!
# A playback stream

A program writes frames into the buffer, the DSP takes them out while it is turned on, and reports now and then how far it is; reports are on
their way for a while. A write copies without the lock, and the other things happen in between.

* `Writer`: where the program is in `snd_pcm_lib_write1`.
* `Sys`: the stream, the buffer, the writer and the DSP, with what was written and what the DSP has taken.
* `Act`, `sysStep`: what can happen.
* `Steady`, `Prompt`: what the reports of the DSP are expected to be like.
-/

namespace Emlinux.Pcm

open Lib

/-- `snd_pcm_lib_write1`: before a turn of its loop, in the loop that waits, and before and behind `transfer`. -/
inductive Writer (α : Type) where
  | idle
  | looping (data : List α)
  | waiting (data : List α)
  | copying (applPtr : Nat) (chunk rest : List α)
  | copied (applPtr : Nat) (chunk rest : List α)
deriving DecidableEq, Repr

/-- A frame that the DSP has taken, as which one since the stream was prepared, and how many were written by then. -/
structure Fetch (α : Type) where
  index : Nat
  frame : α
  written : Nat
deriving DecidableEq, Repr

/-- The DSP has taken `count` frames and its reports are `flight`; the last one that came was `told`. -/
structure Sys (α : Type) where
  sub : Substream
  area : Nat → α
  writer : Writer α
  count : Nat
  flight : List Nat
  told : Nat
  written : List α
  played : List (Fetch α)

/-- A report of the DSP, of the position in bytes. -/
def progress (p : Params) (count : Nat) : Msg :=
  ⟨msgCurrstate, statusOk, BitVec.ofNat 32 (count * p.frameBytes % (p.bufferSize * p.frameBytes)), 0#32⟩

inductive Act (α : Type) where
  /-- The DSP takes a frame. -/
  | fetch
  /-- The DSP sends a report. -/
  | report
  /-- A report comes. -/
  | deliver
  /-- Another message of the DSP comes. -/
  | notice (m : Msg)
  | write (data : List α)
  /-- A turn of the loop, up to `transfer`. -/
  | turn (nonblock : Bool)
  /-- A turn of the loop that waits. -/
  | wake
  /-- A signal, or nothing for ten seconds. -/
  | giveUp
  | copy
  /-- The rest of the turn. -/
  | commit
  | hwsync
  | start
  | pause (push : Bool)
  | drop
  | drain
  | prepare
deriving DecidableEq, Repr

namespace Sys

variable {α : Type}

/-! ## The program -/

/-- The call of `snd_pcm_lib_write1`. -/
def write (p : Params) (s : Sys α) (data : List α) : Sys α :=
  let size := if p.xferAlign < data.length then data.length - data.length % p.xferAlign else data.length
  if size = 0 then s
  else
    match s.sub.rt.state with
    | .prepared | .running | .paused => { s with writer := .looping (data.take size) }
    | .setup | .xrun | .draining => s

/-- The frames of a turn: those there is room for, up to the end of the buffer. -/
def chunkSize (p : Params) (rt : Runtime) (avail size : Nat) : Nat :=
  let avail := if p.xferAlign < avail then avail - avail % p.xferAlign else avail
  min (min size avail) (p.bufferSize - rt.applPtr % p.bufferSize)

/-- The turn up to `transfer`. -/
def take (p : Params) (s : Sys α) (avail : Nat) (data : List α) : Sys α :=
  let frames := chunkSize p s.sub.rt avail data.length
  if frames = 0 then { s with writer := .idle }
  else { s with writer := .copying s.sub.rt.applPtr (data.take frames) (data.drop frames) }

/-- The program has to wait. -/
def MustWait (p : Params) (avail size : Nat) : Prop := (avail < p.availMin ∧ avail < size) ∨ (p.xferAlign ≤ size ∧ avail < p.xferAlign)

instance (p : Params) (avail size : Nat) : Decidable (MustWait p avail size) := inferInstanceAs (Decidable (_ ∨ _))

/-- The start of a turn. -/
def turn (p : Params) (s : Sys α) (nonblock : Bool) (data : List α) : Sys α :=
  let s := if s.sub.rt.state = .running then { s with sub := s.sub.updateHwPtr p } else s
  let avail := playbackAvail p s.sub.rt
  if MustWait p avail data.length then { s with writer := if nonblock then .idle else .waiting data } else s.take p avail data

/-- The program has been woken up. -/
def wake (p : Params) (s : Sys α) (data : List α) : Sys α :=
  match s.sub.rt.state with
  | .xrun | .draining | .setup => { s with writer := .idle }
  | .prepared | .running | .paused =>
    let avail := playbackAvail p s.sub.rt
    if p.availMin ≤ avail then s.take p avail data else s

/-- `appl_ptr` behind the frames that were copied. -/
def applAfter (p : Params) (applPtr frames : Nat) : Nat :=
  if p.boundary ≤ applPtr + frames then applPtr + frames - p.boundary else applPtr + frames

/-- The turn behind `transfer`, of a stream that has not run out of frames in the meantime. -/
def accept (p : Params) (s : Sys α) (applPtr : Nat) (chunk rest : List α) : Sys α :=
  let rt := { s.sub.rt with applPtr := applAfter p applPtr chunk.length }
  let next : Writer α := if rest = [] then .idle else .looping rest
  let t := { s with sub := { s.sub with rt }, written := s.written ++ chunk, writer := next }
  if rt.state = .prepared ∧ (p.startThreshold : Int) ≤ playbackHwAvail p rt then
    match t.sub.start p with
    | some sub => { t with sub }
    | none => { t with writer := .idle }
  else t

/-- `snd_pcm_prepare`. A DSP that is configured starts again; one that was not turned off goes on where it is. -/
def prepare [Zero α] (p : Params) (s : Sys α) : Sys α :=
  if s.sub.rt.state.isRunning then s
  else
    let (effects, sub) := s.sub.prepare p
    { s with
      sub
      area := if .clearDmaArea ∈ effects then fun _ => 0 else s.area
      count := if .tdmConfig ∈ effects then 0 else s.count % p.bufferSize
      told := 0
      written := []
      played := [] }

/-! ## The DSP -/

def fetch (p : Params) (s : Sys α) : Sys α :=
  { s with count := s.count + 1, played := s.played ++ [⟨s.count, s.area (s.count % p.bufferSize), s.written.length⟩] }

def deliver (p : Params) (s : Sys α) (count : Nat) (flight : List Nat) : Sys α :=
  { s with sub := s.sub.message p (progress p count), flight, told := count }

/-- A stream that was opened, set up and prepared. -/
def prepared [Zero α] (p : Params) : Sys α where
  sub := ((⟨⟨.setup, 0, 0, 0, 0⟩, ⟨0#32, 0#32, 0#32, 0#32, 0, 0#32⟩⟩ : Substream).prepare p).2
  area := fun _ => 0
  writer := .idle
  count := 0
  flight := []
  told := 0
  written := []
  played := []

end Sys

variable {α : Type} [Zero α] [DecidableEq α]

/-- The program does one thing at a time. Others may ask for the position. -/
def sysStep (p : Params) (s : Sys α) : Act α → Option (Sys α)
  | .fetch => if s.sub.drv.tdmEn = 0#32 then none else some (s.fetch p)
  | .report => some { s with flight := s.flight ++ [s.count] }
  | .deliver =>
    match s.flight with
    | [] => none
    | count :: flight => some (s.deliver p count flight)
  | .notice m => if m.Progress then none else some { s with sub := s.sub.message p m }
  | .write data => if s.writer = .idle then some (s.write p data) else none
  | .turn nonblock =>
    match s.writer with
    | .looping data => some (s.turn p nonblock data)
    | .idle | .waiting _ | .copying _ _ _ | .copied _ _ _ => none
  | .wake =>
    match s.writer with
    | .waiting data => some (s.wake p data)
    | .idle | .looping _ | .copying _ _ _ | .copied _ _ _ => none
  | .giveUp =>
    match s.writer with
    | .waiting _ => some { s with writer := .idle }
    | .idle | .looping _ | .copying _ _ _ | .copied _ _ _ => none
  | .copy =>
    match s.writer with
    | .copying applPtr chunk rest =>
      some { s with area := splice s.area (applPtr % p.bufferSize) chunk, writer := .copied applPtr chunk rest }
    | .idle | .looping _ | .waiting _ | .copied _ _ _ => none
  | .commit =>
    match s.writer with
    | .copied applPtr chunk rest =>
      some (if s.sub.rt.state = .xrun then { s with writer := .idle } else s.accept p applPtr chunk rest)
    | .idle | .looping _ | .waiting _ | .copying _ _ _ => none
  | .hwsync => some { s with sub := s.sub.hwsync p }
  | .start => if s.writer = .idle then (s.sub.start p).map fun sub => { s with sub } else none
  | .pause push => if s.writer = .idle then some { s with sub := s.sub.pause p push } else none
  | .drop => if s.writer = .idle then some { s with sub := s.sub.drop p } else none
  | .drain => if s.writer = .idle then some { s with sub := s.sub.drain p } else none
  | .prepare => if s.writer = .idle then some (s.prepare p) else none

/-- No report is on its way when a stream is prepared, and none ends a period of a stream that is prepared or paused. -/
def Steady (p : Params) (s : Sys α) : Act α → Prop
  | .prepare => s.sub.rt.state.isRunning = false → s.flight = []
  | .deliver =>
    s.sub.rt.state = .prepared ∨ s.sub.rt.state = .paused → ∀ count ∈ s.flight.head?, (callback (progress p count) s.sub.drv).1 = false
  | _ => True

/-- The DSP reports each half of the buffer at the latest. -/
def Prompt (p : Params) (s : Sys α) : Act α → Prop
  | .deliver => ∀ count ∈ s.flight.head?, count ≤ s.told + p.bufferSize / 2
  | _ => True

end Emlinux.Pcm
