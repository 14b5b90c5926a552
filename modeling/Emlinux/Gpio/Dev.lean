import Emlinux.Gpio.Edges

/-!
# The device of the pins

A program asks the device for the interrupts of a pin. The switches behind the pins bounce, so an interrupt is not passed on: `gpio_isr_handle`
disables it and schedules a work for half a second later, and the work reads the level of the pin, tells the program when it is what the edge
has led to, and enables the interrupt.

* `GpioIsr`, `GpioDev`: what there is of a pin that was asked for, and the device on top of the interrupts.
* `gpioIsrHandle`, `delayedWorkHandle`: in the parts that interrupts come in between.
* `DevAct`, `devStep`: the interrupts and other drivers, the clock, the work queue, and the calls of programs, in any order.
-/

namespace Emlinux.Gpio

open Lib

def hz : Nat := 100

/-- `DELAY_JIFF`. -/
def delayJiff : Nat := hz >>> 1

/-- `gpio_to_irq`. -/
def gpioToIrq (gpio : Nat) : Nat := intcIrqs + gpio

/-- `IRQ_TYPE_EDGE_FALLING`, `IRQ_TYPE_EDGE_RISING`. -/
inductive IrqType where
  | edgeFalling
  | edgeRising
deriving DecidableEq, Repr

/-- `gpio_isr_st`. While its work is pending, `dwork` is when the timer of it expires. -/
structure GpioIsr where
  irqType : IrqType
  gpioNo : Nat
  irqNo : Nat
  irqFlag : Bool
  dwork : Option Nat
deriving DecidableEq, Repr

/-- How far `gpio_isr_handle` has come. -/
inductive Phase where
  | enter
  | disabled
  | done
deriving DecidableEq, Repr

/-- `gpio_dev_st`. Between `request_irq` and `list_add_tail` a pin is in `adding`. `running` is the interrupt that `delayed_work_handle` has
still to enable, `checks` are the times it read the pin at, the last one first, and `unseen` is set by an edge and reset when the pin is read. -/
structure GpioDev where
  irqs : Irqs
  jiffies : Nat
  gpioIsrHead : List GpioIsr
  adding : List GpioIsr
  phase : Nat → Phase
  running : Option Nat
  sigio : Nat
  checks : Nat → List Nat
  unseen : Nat → Bool

/-- The first node the loop of `list_for_each_entry` stops at. -/
def atFirst (p : GpioIsr → Bool) (f : GpioIsr → GpioIsr) : List GpioIsr → List GpioIsr
  | [] => []
  | n :: l => if p n then f n :: l else n :: atFirst p f l

/-- A work that is pending is not scheduled again. -/
def scheduleDelayedWork (jiffies : Nat) (n : GpioIsr) : GpioIsr :=
  if n.dwork = none then { n with dwork := some (jiffies + delayJiff) } else n

namespace GpioDev

/-- The interrupt is handled by the device. -/
def ours (s : GpioDev) (irq : Nat) : Bool := (s.gpioIsrHead ++ s.adding).any fun n => n.irqNo == irq

def setPhase (s : GpioDev) (irq : Nat) (phase : Phase) : GpioDev := { s with phase := Function.update s.phase irq phase }

/-- `schedule_delayed_work` for the node that is found. -/
def schedule (s : GpioDev) (irq : Nat) : GpioDev :=
  { s with gpioIsrHead := atFirst (fun n => n.irqNo == irq) (scheduleDelayedWork s.jiffies) s.gpioIsrHead }

/-- What `gpio_isr_handle` does next. -/
def gpioIsrHandle (s : GpioDev) (irq : Nat) : GpioDev :=
  match s.phase irq with
  | .enter => { s with irqs := s.irqs.disableIrqNosync irq }.setPhase irq .disabled
  | .disabled =>
    if s.gpioIsrHead.any fun n => n.irqNo == irq then (s.schedule irq).setPhase irq .done
    else { s with irqs := s.irqs.enableIrq irq }.setPhase irq .done
  | .done => s

/-- The level of the pin is what its edge leads to. -/
def flag (n : GpioIsr) (val : Bool) : Bool :=
  match n.irqType with
  | .edgeFalling => !val
  | .edgeRising => val

/-- `delayed_work_handle` up to `enable_irq`; the work is not pending when it is called. -/
def delayedWorkHandle (s : GpioDev) (n : GpioIsr) (val : Bool) : GpioDev :=
  { s with
    gpioIsrHead := atFirst (fun m => m == n) (fun m => { m with dwork := none, irqFlag := m.irqFlag || flag m val }) s.gpioIsrHead
    running := some n.irqNo
    sigio := s.sigio + (flag n val).toNat
    checks := Function.update s.checks n.irqNo (s.jiffies :: s.checks n.irqNo)
    unseen := Function.update s.unseen n.irqNo false }

/-- `REQUEST_ISR` of a pin that has no handler, up to `list_add_tail`. -/
def requestIsr (s : GpioDev) (gpioNo : Nat) (irqType : IrqType) : GpioDev :=
  { s with
    irqs := s.irqs.setupIrq (gpioToIrq gpioNo) true ⟨false⟩
    adding := ⟨irqType, gpioNo, gpioToIrq gpioNo, false, none⟩ :: s.adding }

/-- `list_add_tail`. -/
def addIsr (s : GpioDev) (n : GpioIsr) : GpioDev :=
  { s with adding := s.adding.erase n, gpioIsrHead := s.gpioIsrHead ++ [n], unseen := Function.update s.unseen n.irqNo false }

/-- `REQUEST_ISR` that releases a pin. -/
def releaseIsr (s : GpioDev) (gpioNo : Nat) : GpioDev :=
  match s.gpioIsrHead.find? fun n => n.gpioNo == gpioNo with
  | some n => { s with irqs := s.irqs.freeIrq n.irqNo, gpioIsrHead := s.gpioIsrHead.erase n }
  | none => s

/-- `GET_ISR_INFO`. -/
def getIsrInfo (s : GpioDev) (gpioNo : Nat) : GpioDev × Bool :=
  ({ s with gpioIsrHead := atFirst (fun n => n.gpioNo == gpioNo) (fun n => { n with irqFlag := false }) s.gpioIsrHead },
    (s.gpioIsrHead.find? fun n => n.gpioNo == gpioNo).any GpioIsr.irqFlag)

/-- A handler of the device runs. -/
def handling (s : GpioDev) : Option Nat := (s.irqs.stack.head?.bind Frame.irq).filter s.ours

/-- The handler of the device is done, or another one runs, or none. -/
def mayAdvance (s : GpioDev) : Bool := s.handling.all fun irq => s.phase irq = .done

/-- The next time the handler is called it starts again. -/
def returned (s : GpioDev) : GpioDev :=
  match s.handling with
  | some irq => s.setPhase irq .enter
  | none => s

end GpioDev

/-- What can happen. -/
inductive DevAct where
  | sys (a : Act)
  | tick
  | handle
  | work (n : GpioIsr) (val : Bool)
  | enable
  | request (gpioNo : Nat) (irqType : IrqType)
  | add (n : GpioIsr)
  | release (gpioNo : Nat)
  | info (gpioNo : Nat)
deriving DecidableEq, Repr

/-- The interrupt that a driver calls for. -/
def Act.calls : Act → Option Nat
  | .disable irq | .enable irq | .request irq _ _ | .free irq => some irq
  | .edge _ | .interrupt | .advance | .softirq => none

/-- What comes of the system itself: drivers leave the interrupts of each other alone. -/
def sysStep (s : GpioDev) (a : Act) : Option GpioDev :=
  match a with
  | .edge irq => (step s.irqs (.edge irq)).map fun t => { s with irqs := t, unseen := Function.update s.unseen irq true }
  | .advance =>
    if s.mayAdvance then s.irqs.advance.map fun t => { s.returned with irqs := t } else none
  | a => if a.calls.any s.ours then none else (step s.irqs a).map fun t => { s with irqs := t }

/-- The work queue has one thread, and programs and it run outside of handlers. -/
def devStep (s : GpioDev) : DevAct → Option GpioDev
  | .sys a => sysStep s a
  | .tick => some { s with jiffies := s.jiffies + 1 }
  | .handle => s.handling.map s.gpioIsrHandle
  | .work n val =>
    if s.irqs.stack = [] ∧ s.running = none ∧ n ∈ s.gpioIsrHead ∧ n.dwork.any (· ≤ s.jiffies) then some (s.delayedWorkHandle n val) else none
  | .enable =>
    if s.irqs.stack = [] then s.running.map fun irq => { s with irqs := s.irqs.enableIrq irq, running := none } else none
  | .request gpioNo irqType =>
    if s.irqs.stack = [] ∧ IsPin (gpioToIrq gpioNo) ∧ (s.irqs.desc (gpioToIrq gpioNo)).action = none then some (s.requestIsr gpioNo irqType)
    else none
  | .add n => if s.irqs.stack = [] ∧ n ∈ s.adding then some (s.addIsr n) else none
  | .release gpioNo => if s.irqs.stack = [] then some (s.releaseIsr gpioNo) else none
  | .info gpioNo => if s.irqs.stack = [] then some (s.getIsrInfo gpioNo).1 else none

/-- After `gpio_init_module`, on the interrupts as the system has left them. -/
def devStart (irqs : Irqs) : GpioDev := ⟨irqs, 0, [], [], fun _ => .enter, none, 0, fun _ => [], fun _ => false⟩

end Emlinux.Gpio
