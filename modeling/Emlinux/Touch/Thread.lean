import Emlinux.Lib.Exchange

/-!
# The touch screen

`tsc2007ts_thread` asks the controller for the pressure and, while there is some, for five positions. It drops a turn whose positions are too
far apart, and reports the mean of those in the middle. The input core passes on what has changed, and a program puts the frames together.

* `Turn`: what the transfers of a turn of the thread give; `tsTurn`, `tsThread`.
* `InputDev`, `inputEvent`: the input core; `Frame.events` are the calls of the thread.
* `View`, `snapshots`: a program that keeps the last value of each axis.
-/

namespace Emlinux.Touch

open Lib

/-! ## The thread -/

/-- A transfer of a byte, or one that fails. -/
abbrev Transfer := Option (BitVec 8)

/-- `tsc2007_read` of 8 bits. When the transfer fails the variable is left. -/
def tsc2007Read (val : BitVec 32) : Transfer → BitVec 32
  | some d => d.setWidth 32 <<< 4
  | none => val

def avgTimes : Nat := 5

/-- What the transfers of a turn give, and what is in its variables before they are set. -/
structure Turn where
  pressure : Transfer
  xpos : Nat → Transfer
  ypos : Nat → Transfer
  pressureAfter : Transfer
  p : BitVec 32
  tempX : Nat → BitVec 32
  tempY : Nat → BitVec 32

/-- The two loops, over both arrays. -/
def sortBoth (n : Nat) (temp : (Nat → Nat) × (Nat → Nat)) : (Nat → Nat) × (Nat → Nat) :=
  (List.range n).foldl
    (fun temp i => (List.range' i (n - i)).foldl (fun temp x => (exchange temp.1 i x, exchange temp.2 i x)) temp) temp

/-- The sum of the positions in the middle, as an `unsigned int`, by their number. -/
def average (temp : Nat → Nat) : Nat := ((List.range' 1 (avgTimes - 2)).map temp).sum % 2 ^ 32 / (avgTimes - 2)

/-- What the thread reports up to `input_sync`. -/
inductive Frame where
  | press (x y p : Int)
  | release
deriving DecidableEq, Repr

/-- An `unsigned int` is passed as an `int`. -/
def asInt (v : Int) : Int := v.bmod (2 ^ 32)

/-- The end of the turn: `pendown`, and the frame. -/
def report (pendown : Bool) (x y p : Nat) : Bool × Option Frame :=
  if 32 < p then (true, some (.press (asInt x) (asInt (4096 - y)) (asInt p)))
  else if pendown then (false, some .release)
  else (false, none)

/-- `temp_x`. The controller's y is the x of the screen. -/
def Turn.posX (t : Turn) (i : Nat) : Nat := (tsc2007Read (t.tempX i) (t.ypos i)).toNat

/-- `temp_y`. -/
def Turn.posY (t : Turn) (i : Nat) : Nat := (tsc2007Read (t.tempY i) (t.xpos i)).toNat

/-- A turn of `tsc2007ts_thread`. -/
def tsTurn (pendown : Bool) (t : Turn) : Bool × Option Frame :=
  let p := tsc2007Read t.p t.pressure
  if 32 < p.toNat then
    let temp := sortBoth avgTimes (t.posX, t.posY)
    if temp.1 (avgTimes - 1) - temp.1 0 > 64 ∨ temp.2 (avgTimes - 1) - temp.2 0 > 64 then (pendown, none)
    else report pendown (average temp.1) (average temp.2) (tsc2007Read p t.pressureAfter).toNat
  else report pendown 0 0 p.toNat

/-- The frames of the turns. -/
def tsThread : Bool → List Turn → List Frame
  | _, [] => []
  | pendown, t :: l => (tsTurn pendown t).2.toList ++ tsThread (tsTurn pendown t).1 l

/-! ## The input core -/

/-- `EV_SYN`, `EV_KEY` and `EV_ABS`. -/
inductive EvType where
  | syn
  | key
  | abs
deriving DecidableEq, Repr

structure Event where
  type : EvType
  code : Nat
  value : Int
deriving DecidableEq, Repr

def synReport : Nat := 0
def absX : Nat := 0
def absY : Nat := 1
def absPressure : Nat := 0x18
def btnTouch : Nat := 0x14a

/-- `input_dev`. -/
structure InputDev where
  evbit : EvType → Bool
  keybit : Nat → Bool
  absbit : Nat → Bool
  key : Nat → Bool
  abs : Nat → Int
  absfuzz : Nat → Int
  sync : Bool

/-- `input_defuzz_abs_event`. -/
def inputDefuzzAbsEvent (value old fuzz : Int) : Int :=
  if fuzz = 0 then value
  else if value > old - fuzz.tdiv 2 ∧ value < old + fuzz.tdiv 2 then old
  else if value > old - fuzz ∧ value < old + fuzz then (old * 3 + value).tdiv 4
  else if value > old - fuzz * 2 ∧ value < old + fuzz * 2 then (old + value).tdiv 2
  else value

/-- `input_handle_event`: the device, and what is passed to the handlers. -/
def inputHandleEvent (dev : InputDev) (ev : Event) : InputDev × List Event :=
  match ev.type with
  | .syn => if ev.code = synReport ∧ dev.sync = false then ({ dev with sync := true }, [ev]) else (dev, [])
  | .key =>
    let dev := { dev with sync := false }
    if dev.keybit ev.code ∧ (dev.key ev.code).toInt ≠ ev.value then
      (if ev.value ≠ 2 then { dev with key := Function.update dev.key ev.code (!dev.key ev.code) } else dev, [ev])
    else (dev, [])
  | .abs =>
    let dev := { dev with sync := false }
    if dev.absbit ev.code then
      let value := inputDefuzzAbsEvent ev.value (dev.abs ev.code) (dev.absfuzz ev.code)
      if dev.abs ev.code ≠ value then ({ dev with abs := Function.update dev.abs ev.code value }, [{ ev with value }]) else (dev, [])
    else (dev, [])

/-- `input_event`. -/
def inputEvent (dev : InputDev) (ev : Event) : InputDev × List Event :=
  if dev.evbit ev.type then inputHandleEvent dev ev else (dev, [])

/-- The calls, one after the other. -/
def inputEvents : InputDev → List Event → InputDev × List Event
  | dev, [] => (dev, [])
  | dev, ev :: l =>
    let next := inputEvents (inputEvent dev ev).1 l
    (next.1, (inputEvent dev ev).2 ++ next.2)

/-- `input_report_abs`, `input_report_key` and `input_sync` for a frame. -/
def Frame.events : Frame → List Event
  | .press x y p => [⟨.abs, absX, x⟩, ⟨.abs, absY, y⟩, ⟨.abs, absPressure, p⟩, ⟨.key, btnTouch, 1⟩, ⟨.syn, synReport, 0⟩]
  | .release => [⟨.key, btnTouch, 0⟩, ⟨.abs, absPressure, 0⟩, ⟨.syn, synReport, 0⟩]

/-- After `tsc2007_driver_register`; `input_register_device` sets `EV_SYN`. -/
def tsc2007Dev : InputDev where
  evbit := fun type => type = .abs || type = .syn
  keybit := fun _ => false
  absbit := fun code => code = absX || code = absY || code = absPressure
  key := fun _ => false
  abs := fun _ => 0
  absfuzz := fun _ => 0
  sync := false

/-! ## A program -/

structure View where
  x : Int
  y : Int
  pressure : Int
deriving DecidableEq, Repr

def View.put (v : View) (ev : Event) : View :=
  if ev.type = .abs then
    if ev.code = absX then { v with x := ev.value }
    else if ev.code = absY then { v with y := ev.value }
    else if ev.code = absPressure then { v with pressure := ev.value }
    else v
  else v

/-- What the program has at each `EV_SYN`. -/
def snapshots : View → List Event → List View
  | _, [] => []
  | v, ev :: l => if ev.type = .syn then v :: snapshots v l else snapshots (v.put ev) l

end Emlinux.Touch
