import Mathlib.Tactic

/-!
# The PIU mailbox driver

The mailbox between the host and the DSP (`piu.c`, `piuk.c`), in the build of its makefile: `PIU_ENABLE_TIMEOUT`
and `PIU_NONBLOCK` set, `PIU_SEMAPHORE_MODE_COMPLETE` not set.

Slot 0 (`COM0`/`REP0`) carries commands of the host and their acknowledgements, slot 1 (`COM1`/`REP1`) blocking
commands of the DSP and theirs, slot 2 (`REP2`) the commands of the DSP that expect no reply. The status
register is cleared by writing ones. What the driver does beyond the device is a list of notes: the
acknowledgements it writes to `COM1`, the messages it rejects, the signals to the listeners and the calls into the audio driver.
-/

namespace Emlinux.Piu

abbrev Word := BitVec 32

abbrev Byte := BitVec 8

/-- `PIU_INTERNAL_MEM` (also `PIU_TX_MEM` and `PIU_RX_MEM`). -/
def internalMem : Nat := 64

/-- `PIU_HINTS`. -/
def hints : Word := 0x3F#32

/-- `piu_evt_e`: the reply registers whose writes interrupt the host. -/
inductive Evt where
  | ackIn
  | msgIn
  | nonblockMsgIn
deriving DecidableEq, Repr

namespace Evt

/-- The slot whose reply register raises the event. -/
def slot : Evt → Nat
  | ackIn => 0
  | msgIn => 1
  | nonblockMsgIn => 2

/-- The bit of the event in the mask and status registers: `PIU_WR_RPY0_HINT << slot`. -/
def bit (e : Evt) : Nat := 3 + e.slot

def mask (e : Evt) : Word := 1#32 <<< e.bit

end Evt

/-- `piu_reg_t`, less the semaphore and snoop registers. -/
structure Regs where
  com : Nat → Word
  rep : Nat → Word
  intmask : Word
  status : Word

namespace Regs

variable (r : Regs)

/-- `piu_wr32`. -/
def wr32 (slot : Nat) (isCmd : Bool) (msg : Word) : Regs :=
  if isCmd then { r with com := Function.update r.com slot msg } else { r with rep := Function.update r.rep slot msg }

/-- `piu_rd32`. -/
def rd32 (slot : Nat) (isCmd : Bool) : Word := if isCmd then r.com slot else r.rep slot

/-- A write to the status register clears the bits written as one. -/
def wrStatus (v : Word) : Regs := { r with status := r.status &&& ~~~v }

/-- `piu_init`. -/
def init : Regs := { r with intmask := r.intmask &&& ~~~hints }.wrStatus (r.status &&& hints)

/-- `piu_clr_status`. -/
def clrStatus (imask : Word) : Regs :=
  let stat := r.status &&& (imask &&& hints)
  if stat ≠ 0 then r.wrStatus stat else r

/-- `piu_int_ena`. -/
def intEna (imask : Word) : Regs := { r with intmask := r.intmask ||| (imask &&& hints) }

/-- `piu_int_dis`. -/
def intDis (imask : Word) : Regs := { r with intmask := r.intmask &&& ~~~(imask &&& hints) }

/-- The interrupt of `e` is enabled. -/
def enabled (e : Evt) : Bool := r.intmask.getLsbD e.bit

/-- The interrupt of `e` is raised. -/
def raised (e : Evt) : Bool := r.status.getLsbD e.bit

end Regs

section Bits

variable (r : Regs) (e e' : Evt)

theorem getLsbD_mask : e'.mask.getLsbD e.bit = decide (e = e') := by
  cases e <;> cases e' <;> decide

theorem getLsbD_hints : hints.getLsbD e.bit = true := by
  cases e <;> decide

theorem bit_lt : e.bit < 32 := by
  cases e <;> decide

theorem and_mask_ne_zero (v : Word) : v &&& e.mask ≠ 0 ↔ v.getLsbD e.bit = true := by
  show v &&& BitVec.twoPow 32 e.bit ≠ 0 ↔ _
  rw [BitVec.and_twoPow]
  cases h : v.getLsbD e.bit with
  | false => simp
  | true =>
    simp only [if_true, iff_true]
    cases e <;> decide

@[simp] theorem Regs.enabled_intEna : (r.intEna e'.mask).enabled e = (r.enabled e || decide (e = e')) := by
  simp [Regs.enabled, Regs.intEna, getLsbD_mask, getLsbD_hints]

@[simp] theorem Regs.enabled_intDis : (r.intDis e'.mask).enabled e = (r.enabled e && !decide (e = e')) := by
  simp only [Regs.enabled, Regs.intDis, BitVec.getLsbD_and, BitVec.getLsbD_not, bit_lt, getLsbD_mask, getLsbD_hints,
    decide_true, Bool.and_true, Bool.true_and]

@[simp] theorem Regs.raised_wrStatus (v : Word) : (r.wrStatus v).raised e = (r.raised e && !v.getLsbD e.bit) := by
  simp [Regs.raised, Regs.wrStatus, bit_lt]

@[simp] theorem Regs.enabled_wrStatus (v : Word) : (r.wrStatus v).enabled e = r.enabled e := rfl

@[simp] theorem Regs.enabled_wr32 (k : Nat) (c : Bool) (v : Word) : (r.wr32 k c v).enabled e = r.enabled e := by
  cases c <;> rfl

@[simp] theorem Regs.raised_wr32 (k : Nat) (c : Bool) (v : Word) : (r.wr32 k c v).raised e = r.raised e := by
  cases c <;> rfl

end Bits

/-- `piu_msg_t`. -/
structure Msg where
  type : Word
  len : Word
  p : List Byte
deriving DecidableEq, Repr

/-- `piu_mem_t`: the memory shared with the DSP. -/
structure Mem where
  rxLen : Word
  rxType : Word
  rxArray : List Byte
  txLen : Word
  txType : Word
  txArray : List Byte
  lenS : Word
  typeS : Word
  arrayS : List Byte

/-- `sslpiu_dev` with the module's globals: `mutex` is the count of the semaphore, `timer` says that the
acknowledge timer is pending, `fasyncP` lists the files registered for the signal. -/
structure Dev where
  piuHw : Regs
  mem : Mem
  mutex : Nat
  timer : Bool
  fasyncP : List Nat
  status : Word
  blockFirst : Bool
  raiseBlock : Bool
  raiseNonblock : Bool
  lastCmd : Word
  moduleUser : Int

/-- What the driver does to the outside. -/
inductive Note where
  | acked (msg : Word)
  | rejected (e : Evt)
  | signalled (e : Evt)
  | audioCtl (p : List Byte)
  | pcm (p : List Byte)
deriving DecidableEq, Repr

namespace Dev

variable (t : Dev)

def intEna (e : Evt) : Dev := { t with piuHw := t.piuHw.intEna e.mask }

def intDis (e : Evt) : Dev := { t with piuHw := t.piuHw.intDis e.mask }

/-- The lines common to four of the ioctls: every pending message is forgotten. -/
def resetFlags : Dev := { t with status := 0, raiseBlock := false, raiseNonblock := false, blockFirst := false }

/-! ## Interrupts -/

/-- `piu_handler`, `PIU_ACK_IN`. The acknowledgement is compared with the last command only for a message. -/
def handleAck : Dev := { t with timer := false, mutex := t.mutex + 1 }

/-- The listener's part of `PIU_MSG_IN`. -/
def raiseMsg : Dev :=
  { t.intDis .msgIn with status := t.status ||| 1#32, raiseBlock := true, blockFirst := !t.raiseNonblock }

/-- The listener's part of `PIU_NONBLOCK_MSG_IN`. -/
def raiseNonblockMsg : Dev :=
  { t.intDis .nonblockMsgIn with status := t.status ||| 2#32, raiseNonblock := true, blockFirst := t.raiseBlock }

/-- `piu_handler`, `PIU_MSG_IN`: message 2 is the audio control's, the others go to the listener. -/
def handleMsg : Dev × List Note :=
  let msg := t.piuHw.rd32 1 false
  if msg = 2#32 then
    if t.mem.rxLen.toNat > internalMem then (t, [.rejected .msgIn])
    else ({ t with piuHw := t.piuHw.wr32 1 true msg },
      [.acked msg, .audioCtl (t.mem.rxArray.take t.mem.rxLen.toNat)])
  else if t.fasyncP ≠ [] then (t.raiseMsg, [.signalled .msgIn])
  else (t, [])

/-- `piu_handler`, `PIU_NONBLOCK_MSG_IN`: message 5 is the sound card's. -/
def handleNonblock : Dev × List Note :=
  if t.piuHw.rd32 2 false = 5#32 then
    if t.mem.lenS.toNat > internalMem then (t, [.rejected .nonblockMsgIn])
    else (t, [.pcm (t.mem.arrayS.take t.mem.lenS.toNat)])
  else if t.fasyncP ≠ [] then (t.raiseNonblockMsg, [.signalled .nonblockMsgIn])
  else (t, [])

/-- `piu_handler`. -/
def handler : Evt → Dev × List Note
  | .ackIn => (t.handleAck, [])
  | .msgIn => t.handleMsg
  | .nonblockMsgIn => t.handleNonblock

/-- The enabled and raised interrupts that `piu_isr` serves. -/
def pendingInts : Word := t.piuHw.intmask &&& t.piuHw.status &&& hints

theorem getLsbD_pendingInts (e : Evt) : t.pendingInts.getLsbD e.bit = (t.piuHw.enabled e && t.piuHw.raised e) := by
  simp [pendingInts, Regs.enabled, Regs.raised, getLsbD_hints]

/-- One of the event calls of `piu_isr`. -/
def serve (stat : Word) (e : Evt) (r : Dev × List Note) : Dev × List Note :=
  if stat &&& e.mask ≠ 0 then
    let (t', n) := r.1.handler e
    (t', r.2 ++ n)
  else r

/-- `piu_isr`: the result, the device after it, the notes of the handlers. -/
def piuIsr : Int × Dev × List Note :=
  let stat := t.pendingInts
  if stat = 0 then (0, t, [])
  else
    let t := { t with piuHw := t.piuHw.wrStatus stat }
    (1, serve stat .nonblockMsgIn (serve stat .msgIn (serve stat .ackIn (t, []))))

/-- `piu_release_tx`, the function of the acknowledge timer. `PIU_MSG_OUT` is no host interrupt, so the
`piu_clr_stat` in it changes nothing. -/
def releaseTx : Dev :=
  { { t with piuHw := t.piuHw.clrStatus (1#32 <<< 6) }.intEna .msgIn with timer := false, mutex := t.mutex + 1 }

/-! ## Receiving -/

/-- The critical section of `piu_rx`: the slot it chose. -/
def rxSelect : Dev × Option Evt :=
  if t.blockFirst then
    ({ t with status := t.status &&& ~~~1#32, blockFirst := false, raiseBlock := false }, some .msgIn)
  else if t.raiseNonblock then
    ({ t with status := t.status &&& ~~~2#32, raiseNonblock := false }, some .nonblockMsgIn)
  else if t.raiseBlock then
    ({ t with status := t.status &&& ~~~1#32, raiseBlock := false }, some .msgIn)
  else (t, none)

/-- The length word of a slot's message. -/
def slotLen : Evt → Word
  | .nonblockMsgIn => t.mem.lenS
  | _ => t.mem.rxLen

/-- The message that stands in a slot: the reply register and the body in shared memory. -/
def slotMsg : Evt → Word × Msg
  | .nonblockMsgIn => (t.piuHw.rd32 2 false, ⟨t.mem.typeS, t.mem.lenS, t.mem.arrayS.take t.mem.lenS.toNat⟩)
  | _ => (t.piuHw.rd32 1 false, ⟨t.mem.rxType, t.mem.rxLen, t.mem.rxArray.take t.mem.rxLen.toNat⟩)

/-- `piu_rx`: its return value, and the message it leaves in `*msg` and `*body` when it leaves one. -/
def piuRx : (Int × Option (Word × Msg)) × Dev × List Note :=
  match t.rxSelect with
  | (t, none) => ((0, none), t, [])
  | (t, some e) =>
    if (t.slotLen e).toNat > internalMem then ((-1, none), t, [.rejected e])
    else
      let m := t.slotMsg e
      if e = .msgIn then
        ((0, some m), { t with piuHw := t.piuHw.wr32 1 true m.1 }.intEna e, [.acked m.1])
      else ((0, some m), t.intEna e, [])

/-- The choice of `piu_rx_msg`. -/
def rxMsgStatus (blockFirst raiseNonblock raiseBlock : Bool) : Nat :=
  if blockFirst then 1 else if raiseNonblock then 2 else if raiseBlock then 1 else 0

/-- `piu_rx_msg`. -/
def piuRxMsg : Word :=
  if rxMsgStatus t.blockFirst t.raiseNonblock t.raiseBlock = 2 then t.piuHw.rd32 2 false else t.piuHw.rd32 1 false

/-! ## The character device -/

/-- `PIU_IOCTL_ENA`, `_DIS`, `_NONBLOCK_ENA`, `_NONBLOCK_DIS`. -/
inductive Ioctl where
  | ena
  | dis
  | nonblockEna
  | nonblockDis
deriving DecidableEq, Repr

/-- The four cases of `sslpiu_ioctl` that touch the receiver. -/
def ioctl : Ioctl → Dev
  | .ena => (t.resetFlags.intEna .msgIn).intEna .ackIn
  | .dis => ((t.intDis .msgIn).intDis .ackIn).resetFlags
  | .nonblockEna => t.resetFlags.intEna .nonblockMsgIn
  | .nonblockDis => t.resetFlags.intDis .nonblockMsgIn

/-- `sslpiu_fasync`. -/
def fasync (file : Nat) (mode : Bool) : Dev :=
  { t with fasyncP := if mode then file :: t.fasyncP.filter (· ≠ file) else t.fasyncP.filter (· ≠ file) }

/-- `sslpiu_open`. -/
def openFile : Dev :=
  let t' := if t.moduleUser = 0 then ((t.intEna .ackIn).intEna .msgIn).intEna .nonblockMsgIn
    else t.intEna .nonblockMsgIn
  { t' with moduleUser := t.moduleUser + 1 }

/-- `sslpiu_release`. -/
def release (file : Nat) : Dev :=
  let t := { t.fasync file false with moduleUser := t.moduleUser - 1 }
  if t.moduleUser = 0 then ((t.intDis .ackIn).intDis .msgIn).intDis .nonblockMsgIn
  else t.intEna .nonblockMsgIn

/-- The device after `sslpiu_init`, from the registers and the memory it finds. -/
def init (r : Regs) (mem : Mem) : Dev where
  piuHw := r.init
  mem := mem
  mutex := 1
  timer := false
  fasyncP := []
  status := 0
  blockFirst := false
  raiseBlock := false
  raiseNonblock := false
  lastCmd := 0
  moduleUser := 0

end Dev

/-- Registers and shared memory that read zero. -/
def zeroRegs : Regs := ⟨fun _ => 0, fun _ => 0, 0, 0⟩

def zeroMem : Mem := ⟨0, 0, [], 0, 0, [], 0, 0, []⟩

end Emlinux.Piu
