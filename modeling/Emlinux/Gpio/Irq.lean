import Emlinux.Gpio.Pins
import Emlinux.Lib.Run

/-!
# The interrupts of the pins

The pins share one line to the interrupt controller. `gpio_isr` is chained to it: it reads which pins are pending, port by port, and calls the
flow handler of each. A pin is handled by its edges or by its level, and the handlers of drivers run with interrupts on, so another `gpio_isr`
may come in between, and they, or the code they interrupt, may disable and enable any of the interrupts.

* `Irqs`: the registers of the ports, the descriptors, the interrupts to resend, and what the processor has to go on with.
* `handleEdgeIrq`, `handleLevelIrq`: the flow handlers up to where the handler of the driver runs; `handled` is what comes after it.
* `step`: an edge at a pin, what the processor does next, and the calls of drivers, in any order.
* `Line`: what there is of one interrupt, and what each of these does to it.
-/

namespace Emlinux.Gpio

open Lib

/-- `INTC_IRQS`. -/
def intcIrqs : Nat := 32

/-- `GPIO_IRQS`. -/
def gpioIrqs : Nat := 6 <<< 5

/-- `NR_IRQS`. -/
def nrIrqs : Nat := 64 + 32 * 6 + 1

def gpioIrq (port pin : Nat) : Nat := intcIrqs + port <<< 5 + pin

def gpioIrqPort (irq : Nat) : Nat := (irq - intcIrqs) >>> 5

def gpioIrqPin (irq : Nat) : Nat := (irq - intcIrqs) &&& (1 <<< 5 - 1)

/-- `struct irqaction`: `IRQF_DISABLED` of the handler. -/
structure Action where
  disabled : Bool
deriving DecidableEq, Repr

/-- `struct irq_desc`: the flags of its status, and whether `handle_irq` is `handle_edge_irq`. -/
structure Desc where
  action : Option Action
  edge : Bool
  depth : Nat
  disabled : Bool
  inProgress : Bool
  pending : Bool
  replay : Bool
  masked : Bool
deriving DecidableEq, Repr

/-- What the processor goes on with when it is back: the loops of `gpio_isr`, a handler called by a flow handler, and `resend_irqs`. -/
inductive Frame where
  | isr (port pin : Nat) (isr : Word)
  | event (irq : Nat)
  | resend
deriving DecidableEq, Repr

/-- The interrupts. `owed` is set by an edge, and reset when the handler is started. -/
structure Irqs where
  ier : Nat → Word
  isr : Nat → Word
  desc : Nat → Desc
  irqsResend : Nat → Bool
  tasklet : Bool
  stack : List Frame
  owed : Nat → Bool

/-! ## The chip -/

/-- `gpio_mask_port` on the interrupt enables. -/
def gpioMaskPort (v pinmask : Word) (mask : Bool) : Word := if (!mask) = decide (v &&& pinmask = 0#32) then v ^^^ pinmask else v

namespace Irqs

def gpioMaskIrq (s : Irqs) (irq : Nat) : Irqs :=
  { s with ier := Function.update s.ier (gpioIrqPort irq) (gpioMaskPort (s.ier (gpioIrqPort irq)) (1#32 <<< gpioIrqPin irq) true) }

def gpioUnmaskIrq (s : Irqs) (irq : Nat) : Irqs :=
  { s with ier := Function.update s.ier (gpioIrqPort irq) (gpioMaskPort (s.ier (gpioIrqPort irq)) (1#32 <<< gpioIrqPin irq) false) }

/-- What is written to the pending register is cleared in it. -/
def gpioAckIrq (s : Irqs) (irq : Nat) : Irqs :=
  { s with isr := Function.update s.isr (gpioIrqPort irq) (s.isr (gpioIrqPort irq) &&& ~~~(1#32 <<< gpioIrqPin irq)) }

def maskAckIrq (s : Irqs) (irq : Nat) : Irqs := (s.gpioMaskIrq irq).gpioAckIrq irq

/-- An edge comes at a pin, or its line has the level. -/
def edge (s : Irqs) (irq : Nat) : Irqs :=
  { s with
    isr := Function.update s.isr (gpioIrqPort irq) (s.isr (gpioIrqPort irq) ||| 1#32 <<< gpioIrqPin irq)
    owed := Function.update s.owed irq true }

def setDesc (s : Irqs) (irq : Nat) (d : Desc) : Irqs := { s with desc := Function.update s.desc irq d }

def defaultEnable (s : Irqs) (irq : Nat) : Irqs := (s.gpioUnmaskIrq irq).setDesc irq { s.desc irq with masked := false }

/-! ## The flow handlers -/

/-- What has come is seen by a handler that is started now, or nobody's. -/
def settle (s : Irqs) (irq : Nat) : Irqs := { s with owed := Function.update s.owed irq false }

/-- `handle_IRQ_event` is entered. -/
def event (s : Irqs) (irq : Nat) : Irqs := { s.settle irq with stack := .event irq :: s.stack }

def handleLevelIrq (s : Irqs) (irq : Nat) : Irqs :=
  let s := s.maskAckIrq irq
  if (s.desc irq).inProgress then s
  else
    let s := s.setDesc irq { s.desc irq with replay := false }
    if (s.desc irq).action = none ∨ (s.desc irq).disabled then s
    else (s.setDesc irq { s.desc irq with inProgress := true }).event irq

/-- The body of the loop of `handle_edge_irq`. -/
def edgeLoop (s : Irqs) (irq : Nat) : Irqs :=
  if (s.desc irq).action = none then s.gpioMaskIrq irq
  else
    let s :=
      if (s.desc irq).pending ∧ (s.desc irq).masked ∧ ¬(s.desc irq).disabled then
        (s.gpioUnmaskIrq irq).setDesc irq { s.desc irq with masked := false }
      else s
    (s.setDesc irq { s.desc irq with pending := false }).event irq

def handleEdgeIrq (s : Irqs) (irq : Nat) : Irqs :=
  let s := s.setDesc irq { s.desc irq with replay := false }
  if (s.desc irq).inProgress ∨ (s.desc irq).disabled ∨ (s.desc irq).action = none then
    (s.setDesc irq { s.desc irq with pending := true, masked := true }).maskAckIrq irq
  else
    let s := s.gpioAckIrq irq
    (s.setDesc irq { s.desc irq with inProgress := true }).edgeLoop irq

def handleIrq (s : Irqs) (irq : Nat) : Irqs := if (s.desc irq).edge then s.handleEdgeIrq irq else s.handleLevelIrq irq

/-- The flow handler goes on after the handler of the driver. -/
def handled (s : Irqs) (irq : Nat) : Irqs :=
  if (s.desc irq).edge then
    if (s.desc irq).pending ∧ ¬(s.desc irq).disabled then s.edgeLoop irq
    else s.setDesc irq { s.desc irq with inProgress := false }
  else
    let s := s.setDesc irq { s.desc irq with inProgress := false }
    if (s.desc irq).disabled then s else s.gpioUnmaskIrq irq

/-! ## The calls of drivers -/

def disableIrqNosync (s : Irqs) (irq : Nat) : Irqs :=
  let d := s.desc irq
  s.setDesc irq { d with depth := d.depth + 1, disabled := d.disabled || d.depth == 0 }

/-- The bit of `irqs_resend` and `tasklet_schedule`. -/
def setResend (s : Irqs) (irq : Nat) : Irqs := { s with irqsResend := Function.update s.irqsResend irq true, tasklet := true }

/-- The status written back is the one from before `enable`. -/
def checkIrqResend (s : Irqs) (irq : Nat) : Irqs :=
  let status := s.desc irq
  let s := s.defaultEnable irq
  if status.pending ∧ ¬status.replay then (s.setDesc irq { status with pending := false, replay := true }).setResend irq else s

def enableIrq (s : Irqs) (irq : Nat) : Irqs :=
  match (s.desc irq).depth with
  | 0 => s
  | 1 =>
    let s := (s.setDesc irq { s.desc irq with disabled := false }).checkIrqResend irq
    s.setDesc irq { s.desc irq with depth := 0 }
  | depth + 2 => s.setDesc irq { s.desc irq with depth := depth + 1 }

/-- `setup_irq` of an interrupt that is not shared, with its type. -/
def setupIrq (s : Irqs) (irq : Nat) (edge : Bool) (new : Action) : Irqs :=
  if (s.desc irq).action = none then
    let s := s.setDesc irq { s.desc irq with action := some new, edge, inProgress := false, depth := 0, disabled := false }
    (s.defaultEnable irq).settle irq
  else s

/-- `free_irq` of the only handler. -/
def freeIrq (s : Irqs) (irq : Nat) : Irqs :=
  if (s.desc irq).action = none then s else s.setDesc irq { s.desc irq with action := none, disabled := true }

/-! ## The steps -/

/-- The line of the pins to the interrupt controller. -/
def Raised (s : Irqs) : Prop := ∃ port < 6, s.ier port &&& s.isr port ≠ 0#32

instance (s : Irqs) : Decidable s.Raised := inferInstanceAs (Decidable (∃ port < 6, s.ier port &&& s.isr port ≠ 0#32))

/-- The processor takes interrupts. -/
def takesIrqs (s : Irqs) : Bool :=
  match s.stack with
  | [] | .resend :: _ => true
  | .isr _ _ _ :: _ => false
  | .event irq :: _ => (s.desc irq).action.all fun a => !a.disabled

/-- A driver runs: one of its handlers, or what is not an interrupt. -/
def runsDriver (s : Irqs) : Bool :=
  match s.stack with
  | [] | .event _ :: _ => true
  | .isr _ _ _ :: _ | .resend :: _ => false

/-- What the processor does next. -/
def advance (s : Irqs) : Option Irqs :=
  match s.stack with
  | [] => none
  | .isr port pin isr :: stack =>
    if isr = 0#32 then
      some (if port + 1 < 6 then { s with stack := .isr (port + 1) 0 (s.isr (port + 1)) :: stack } else { s with stack })
    else
      let s := { s with stack := .isr port (pin + 1) (isr >>> 1) :: stack }
      some (if isr.getLsbD 0 then s.handleIrq (gpioIrq port pin) else s)
  | .event irq :: stack => some ({ s with stack }.handled irq)
  | .resend :: stack =>
    match (List.range nrIrqs).find? s.irqsResend with
    | none => some { s with stack }
    | some irq => some ({ s with irqsResend := Function.update s.irqsResend irq false }.handleIrq irq)

end Irqs

/-- What can happen. -/
inductive Act where
  | edge (irq : Nat)
  | interrupt
  | advance
  | softirq
  | disable (irq : Nat)
  | enable (irq : Nat)
  | request (irq : Nat) (edge : Bool) (new : Action)
  | free (irq : Nat)
deriving DecidableEq, Repr

/-- An interrupt of a pin. -/
def IsPin (irq : Nat) : Prop := intcIrqs ≤ irq ∧ irq < intcIrqs + gpioIrqs

instance (irq : Nat) : Decidable (IsPin irq) := inferInstanceAs (Decidable (_ ∧ _))

/-- Interrupts are requested and freed outside of handlers. -/
def step (s : Irqs) : Act → Option Irqs
  | .edge irq => if IsPin irq then some (s.edge irq) else none
  | .interrupt => if s.takesIrqs ∧ s.Raised then some { s with stack := .isr 0 0 (s.isr 0) :: s.stack } else none
  | .advance => s.advance
  | .softirq => if s.stack = [] ∧ s.tasklet then some { s with stack := [.resend], tasklet := false } else none
  | .disable irq => if s.runsDriver ∧ IsPin irq then some (s.disableIrqNosync irq) else none
  | .enable irq => if s.runsDriver ∧ IsPin irq then some (s.enableIrq irq) else none
  | .request irq edge new => if s.stack = [] ∧ IsPin irq then some (s.setupIrq irq edge new) else none
  | .free irq => if s.stack = [] ∧ IsPin irq then some (s.freeIrq irq) else none

/-- After `magus_init_irq`. -/
def start : Irqs where
  ier := fun _ => 0#32
  isr := fun _ => 0#32
  desc := fun _ => ⟨none, false, 1, true, false, false, false, false⟩
  irqsResend := fun _ => false
  tasklet := false
  stack := []
  owed := fun _ => false

end Emlinux.Gpio
