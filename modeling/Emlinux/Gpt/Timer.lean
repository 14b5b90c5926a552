import Emlinux.Lib.Run
import Mathlib.Data.BitVec

/-!
# The general purpose timer driver

`gpt.c`, without `_DO_RESET` and less the system timer: `gpt_init`, `gpt_profile_start`, `gpt_profile_end`,
`gpt_time_udelay`, `gpt_profile_capture` and `gpt_isr`. The counter runs while the module is enabled. A match of the
compare register raises its interrupt each time the counter passes it, an edge on the input its own.

The interrupt routine is taken apart at its callback, so that the callback may call the driver, and the busy delay at
its polls. Beside the context stands the list of the users: who started and has not yet ended.
-/

namespace Emlinux.Gpt

open Lib

abbrev Word := BitVec 32

/-- `GPT_ERR_NONE`. -/
def errNone : Int := 0

/-- `GPT_ERR_HW`. -/
def errHw : Int := -1

/-- `GPT_ERR_PARM`. -/
def errParm : Int := -2

/-- `GPT_CTRL_EN`. -/
def ctrlEn : Word := 1#32

/-- `GPT_CTRL_DIS`. -/
def ctrlDis : Word := 0#32

/-- `GPT_CTRL_CAPEN`. -/
def ctrlCapen : Word := 1#32 <<< 11

/-- `GPT_CTRL_COMPEN`. -/
def ctrlCompen : Word := 1#32 <<< 10

/-- `GPT_CTRL_CLKSEL`. -/
def ctrlClksel : Word := 3#32 <<< 8

/-- `GPT_CTRL_EDGEDET`. -/
def ctrlEdgedet : Word := 3#32 <<< 5

/-- `GPT_CTRL_FRS`. -/
def ctrlFrs : Word := 1#32 <<< 3

/-- `GPT_INT_COMP`. -/
def intComp : Word := 1#32

/-- `GPT_INT_CAP`. -/
def intCap : Word := 2#32

/-- `gpt_mode_e`. -/
inductive Mode where
  | none
  | system
  | profile
  | capture
deriving DecidableEq, Repr

/-- `gpt_clk_t`. -/
structure Clk where
  clksel : Word
  pslr : BitVec 16
  compVal : Word
deriving DecidableEq, Repr

/-- `gpt_reg_t`. -/
structure Regs where
  idr : Word
  ctrl : Word
  ier : Word
  isr : Word
  pslr : Word
  cnt : Word
  comp : Word
  capt : Word
deriving DecidableEq, Repr

/-- The module after its reset. -/
def Regs.reset (r : Regs) (comp : Word) : Regs :=
  { r with ctrl := ctrlEn, ier := 0#32, isr := 0#32, pslr := 0#32, cnt := 0#32, comp := comp, capt := 0#32 }

/-- A registered user of the timer: a section, a busy delay with the count it waits for (none when it waits for
ever), a delayed callback, a capture. -/
inductive User where
  | sec (id : Nat)
  | wait (id : Nat) (limit : Option Word)
  | delay (id : Nat)
  | capture (id : Nat)
deriving DecidableEq, Repr

/-- `gpt_t`. The registered callback is named by the user it belongs to; whether its function is null decides no more
than whether it is called. -/
structure Context where
  reg : Regs
  apbclk : Word
  perclk : Word
  callback : Option User
  freq : Word
  mode : Mode
  usage : BitVec 8
deriving DecidableEq, Repr

/-- `gpt_setclk`, over the contents that `clkparm` has before. -/
def gptSetclk (t : Context) (mode : Mode) (clkparm : Clk) : Except Int Clk :=
  let n := t.perclk
  let lim := if t.apbclk < n then t.apbclk else n
  let lim := match mode with
    | .system => lim >>> 5
    | .capture => lim >>> 4
    | _ => lim
  if lim < t.freq then .error errParm else
  let n := n / t.freq
  if mode = .system then .ok { clkparm with clksel := 1#32, pslr := 0#16, compVal := n - 1#32 }
  else .ok { clkparm with clksel := 1#32, pslr := ((if n >>> 11 ≠ 0#32 then 1#32 <<< 11 else n) - 1#32).setWidth 16 }

/-- `gpt_reset`, when `polls` reads of the control register still show the reset bit, and `comp` is the value of the
compare register after a reset. -/
def gptReset (t : Context) (polls : Nat) (comp : Word) : Int × Context :=
  if 300 < polls then (errHw, { t with reg := { t.reg.reset comp with ctrl := 3#32 } })
  else (errNone, { t with reg := t.reg.reset comp })

/-- `gpt_init`. -/
def gptInit (t : Context) (polls : Nat) (comp : Word) : Int × Context :=
  if t.reg.idr >>> 16 ≠ 0x0802#32 then (errHw, t) else
  let (err, t) := gptReset t polls comp
  if err ≠ errNone then (errHw, t) else
  if t.reg.comp ≠ ~~~0#32 then (errHw, t) else
  (errNone, { t with reg := { t.reg with ctrl := ctrlDis }, usage := 0#8 })

/-- The control word of a free-running counter. -/
def ctrlRun (c : Clk) : Word := ctrlEn ||| (c.clksel <<< 8 &&& ctrlClksel) ||| ctrlFrs

/-- `gpt_profile_start`. -/
def gptProfileStart (t : Context) (stack : Clk) : Except Int Context :=
  if t.usage = 0#8 then do
    let c ← gptSetclk t .profile stack
    pure { t with
      reg := { t.reg with ctrl := ctrlRun c, pslr := c.pslr.setWidth 32 }, mode := .profile, usage := t.usage + 1#8 }
  else pure { t with usage := t.usage + 1#8 }

/-- Leave the timer: the end of `gpt_profile_end` and of both branches of `gpt_isr`. -/
def release (t : Context) : Context :=
  let t := { t with usage := t.usage - 1#8 }
  if t.usage = 0#8 then { t with reg := { t.reg with ctrl := ctrlDis } } else t

/-- `gpt_profile_end`. -/
def gptProfileEnd (t : Context) : Context := release t

/-- The callback branch of `gpt_time_udelay`; `stack` is what its local `clkparm` starts with. -/
def gptTimeUdelay (t : Context) (callback : User) (stack : Clk) : Except Int Context := do
  let (t, c, ctrl) ←
    if t.usage ≠ 0#8 then pure (t, stack, t.reg.ctrl)
    else do
      let c ← gptSetclk t .profile stack
      pure ({ t with reg := { t.reg with pslr := c.pslr.setWidth 32 } }, c, ctrlRun c)
  pure { t with
    callback := some callback
    reg := { t.reg with ier := intComp, comp := c.compVal + t.reg.cnt, ctrl := ctrl ||| ctrlCompen }
    mode := .profile
    usage := t.usage + 1#8 }

/-- What the busy branch of `gpt_time_udelay` waits for after it read `cnt`: when the sum wraps, the loop before
compares the counter with the largest word and does not end. -/
def waitLimit (t : Context) (usec : Word) : Option Word :=
  let ticks := usec * t.freq / 1000000#32
  if ticks + t.reg.cnt < t.reg.cnt then none else some (t.reg.cnt + ticks)

/-- `gpt_profile_capture`. -/
def gptProfileCapture (t : Context) (edgedet : BitVec 8) (callback : User) (stack : Clk) : Except Int Context := do
  let t ←
    if t.usage ≠ 0#8 then pure t
    else do
      let c ← gptSetclk t .capture stack
      pure { t with reg := { t.reg with ctrl := ctrlRun c, pslr := c.pslr.setWidth 32 }, mode := .profile }
  let ctrl := (t.reg.ctrl &&& ~~~ctrlEdgedet) ||| edgedet.setWidth 32 <<< 5
  pure { t with
    callback := some callback
    reg := { t.reg with ier := intCap, ctrl := ctrl ||| ctrlCapen }
    usage := t.usage + 1#8 }

/-! ## The timer among its users -/

/-- Where the interrupt routine is: not running, in the callback of the compare branch under the status it read, or in
the callback of the capture branch. The user it serves is `none` when no pending user has the callback. -/
inductive Stage where
  | idle
  | comp (stat : Word) (serving : Option User)
  | cap (serving : Option User)
deriving DecidableEq, Repr

/-- The driver, its interrupt routine, the users that started and have not ended, and a serial number for the next. -/
structure Sys where
  t : Context
  stage : Stage
  users : List User
  next : Nat
deriving DecidableEq, Repr

inductive Action where
  | profileStart (stack : Clk)
  | profileEnd (id : Nat)
  /-- `gpt_time_udelay` without callback -/
  | udelay (usec : Word) (stack : Clk)
  /-- one poll of the busy loop that waits for `limit` -/
  | poll (id : Nat) (limit : Word)
  /-- `gpt_time_udelay` with a callback -/
  | udelayCb (stack : Clk)
  | capture (edgedet : BitVec 8) (stack : Clk)
  /-- `gpt_isr` up to its callback -/
  | enter
  /-- the callback returns -/
  | leave
  /-- `n` ticks of the counter -/
  | elapse (n : Nat)
  /-- an edge on the input -/
  | edge
deriving DecidableEq, Repr

namespace Sys

variable (s : Sys)

/-- A call that registers the user `w` when it succeeds. -/
def enlist (w : User) (r : Except Int Context) : Sys :=
  match r with
  | .error _ => s
  | .ok t => { s with t := t, users := w :: s.users, next := s.next + 1 }

/-- The pending user that the registered callback belongs to. -/
def serving : Option User := s.t.callback.filter (· ∈ s.users)

/-- The capture branch of `gpt_isr`, up to its callback. -/
def enterCap : Sys :=
  let reg := { s.t.reg with ctrl := s.t.reg.ctrl &&& ~~~(ctrlCapen ||| ctrlEdgedet), ier := s.t.reg.ier &&& ~~~intCap }
  { s with t := { s.t with reg := reg }, stage := .cap s.serving }

/-- `gpt_isr` up to its callback. -/
def enterIsr : Sys :=
  let stat := s.t.reg.ier &&& s.t.reg.isr
  let s' := { s with t := { s.t with reg := { s.t.reg with isr := s.t.reg.isr &&& ~~~stat } } }
  if stat.getLsbD 0 then { s' with stage := .comp stat s.serving }
  else if stat.getLsbD 1 then s'.enterCap
  else s'

/-- The served user is done. -/
def retire (w : Option User) : Sys := { s with users := w.elim s.users s.users.erase }

/-- The rest of `gpt_isr` after a callback. -/
def leaveIsr : Option Sys :=
  match s.stage with
  | .idle => none
  | .comp stat w =>
    let s := if s.t.mode = .profile then { s with t := release s.t } else s
    let s := s.retire w
    some (if stat.getLsbD 1 then s.enterCap else { s with stage := .idle })
  | .cap w => some { ({ s with t := release s.t } : Sys).retire w with stage := .idle }

/-- `n` ticks: the compare interrupt is raised when the counter passes the compare value. -/
def elapse (n : Nat) : Sys :=
  let r := s.t.reg
  if r.ctrl.getLsbD 0 then
    let hit := r.ctrl.getLsbD 10 && decide ((r.comp - r.cnt - 1#32).toNat < n)
    { s with t := { s.t with reg := { r with cnt := r.cnt + BitVec.ofNat 32 n, isr := if hit then r.isr ||| intComp else r.isr } } }
  else s

/-- An edge: the capture interrupt is raised. -/
def edge : Sys :=
  let r := s.t.reg
  if r.ctrl.getLsbD 0 && r.ctrl.getLsbD 11 then
    { s with t := { s.t with reg := { r with capt := r.cnt, isr := r.isr ||| intCap } } }
  else s

/-- One action. A section is ended once, by who started it. -/
def step : Action → Option Sys
  | .profileStart stack => some (s.enlist (.sec s.next) (gptProfileStart s.t stack))
  | .profileEnd id =>
    if User.sec id ∈ s.users then some { s with t := gptProfileEnd s.t, users := s.users.erase (.sec id) } else none
  | .udelay usec stack =>
    some (match gptProfileStart s.t stack with
      | .error e => s.enlist (.wait s.next none) (.error e)
      | .ok t => s.enlist (.wait s.next (waitLimit t usec)) (.ok t))
  | .poll id limit =>
    if User.wait id (some limit) ∈ s.users then
      if s.t.reg.cnt < limit then some s
      else some { s with t := gptProfileEnd s.t, users := s.users.erase (.wait id (some limit)) }
    else none
  | .udelayCb stack => some (s.enlist (.delay s.next) (gptTimeUdelay s.t (.delay s.next) stack))
  | .capture edgedet stack => some (s.enlist (.capture s.next) (gptProfileCapture s.t edgedet (.capture s.next) stack))
  | .enter => if s.stage = .idle then some s.enterIsr else none
  | .leave => s.leaveIsr
  | .elapse n => some (s.elapse n)
  | .edge => some s.edge

end Sys

/-- The driver after `gpt_init`: whatever callback its client gave it belongs to no user. -/
def start (t : Context) (polls : Nat) (comp : Word) : Sys :=
  ⟨{ (gptInit t polls comp).2 with callback := none }, .idle, [], 0⟩

end Emlinux.Gpt
