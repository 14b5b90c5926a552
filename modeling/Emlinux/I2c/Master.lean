import Mathlib.Data.BitVec

/-!
# The I2C master driver

`i2c.c` and the transfer functions of `ssl_i2c.c`: `i2c_cfg`, `i2c_rw`, `i2c_isr`, `ssli2c_do` and `ssli2c_xfer`.
Each write to the operation register starts one operation on the bus, and the bus answers it with one interrupt: a
status word and the byte it read, if any. The registers that are only written (baud rate, configuration) are left out.
-/

namespace Emlinux.I2c

abbrev Word := BitVec 32

abbrev Byte := BitVec 8

/-- `I2C_M_RD`. -/
def mRd : BitVec 16 := 1#16

/-- `I2C_M_IGNORE_NAK`. -/
def mIgnoreNak : BitVec 16 := 0x1000#16

/-- `I2C_M_NOSTART`. -/
def mNostart : BitVec 16 := 0x4000#16

/-- `EREMOTEIO`. -/
def eremoteio : Int := 121

/-- `i2c_cmd_t.cmd`: `I2C_CMD_DONE`, `I2C_CMD_START`, `I2C_CMD_END`, `I2C_CMD_MID`. -/
inductive CmdCode where
  | done
  | start
  | cend
  | mid
deriving DecidableEq, Repr

/-- `I2C_HAS_START`. -/
def CmdCode.hasStart : CmdCode → Bool
  | done => true
  | start => true
  | cend => false
  | mid => false

/-- `I2C_HAS_END`. -/
def CmdCode.hasEnd : CmdCode → Bool
  | done => true
  | start => false
  | cend => true
  | mid => false

/-- `I2C_OPR_ACK`. -/
def oprAck : Word := 1#32 <<< 4

/-- `I2C_OPR_RX`. -/
def oprRx : Word := 1#32 <<< 3

/-- `I2C_OPR_ADDR`. -/
def oprAddr : Word := 1#32 <<< 2

/-- `I2C_OPR_CMD_START`. -/
def oprCmdStart : Word := 1#32

/-- `I2C_OPR_CMD_CONT`. -/
def oprCmdCont : Word := 2#32

/-- `I2C_OPR_CMD_END`. -/
def oprCmdEnd : Word := 3#32

/-- `I2C_INT_CMDERR | I2C_INT_LOST`. -/
def intErr : Word := 0x84#32

/-- `I2C_INT_RDY`. -/
def intRdy : Word := 1#32

/-- `I2C_STA_NAK`. -/
def staNak : Word := 2#32

/-- The interrupts that `i2c_init` enables. -/
def ier : Word := intErr ||| intRdy

/-- `struct i2c_msg`; the length of the message is that of its buffer. -/
structure Msg where
  addr : BitVec 16
  flags : BitVec 16
  buf : List Byte
deriving DecidableEq, Repr

def Msg.isRead (m : Msg) : Bool := m.flags &&& mRd ≠ 0#16

/-- `i2c_td_t`. -/
structure Td where
  buf : List Byte
  len : Nat
  actual : Int
deriving DecidableEq, Repr

/-- `i2c_cmd_t`. -/
structure Cmd where
  wr : Td
  rd : Td
  cmd : CmdCode
  rt : Word
deriving DecidableEq, Repr

/-- An operation on the bus: the operation register, and the address and data registers when it was written. -/
structure Op where
  opr : Word
  saddr : Byte
  data : Byte
deriving DecidableEq, Repr

/-- The operation puts an address on the bus. -/
def Op.isAddr (o : Op) : Bool := o.opr &&& oprAddr ≠ 0#32

/-- The operation reads a byte from the bus. -/
def Op.isRx (o : Op) : Bool := o.opr &&& oprAddr = 0#32 && o.opr &&& oprRx ≠ 0#32

/-- The operation writes a byte to the bus. -/
def Op.isTx (o : Op) : Bool := o.opr &&& oprAddr = 0#32 && o.opr &&& oprRx = 0#32

/-- The interrupt that ends an operation: the status register, and the data register of a read. -/
structure Reply where
  sta : Word
  dat : Byte
  enabled : sta &&& ier ≠ 0#32

/-- `i2c_t` with its registers, the operations of the current command so far, and whether its completion came. -/
structure Master where
  flag : Word
  saddr : Byte
  data : Byte
  cmd : Cmd
  ops : List Op
  comp : Bool
deriving DecidableEq, Repr

namespace Master

variable (t : Master)

/-- A write to the operation register. -/
def opr (v : Word) : Master := { t with ops := t.ops ++ [⟨v, t.saddr, t.data⟩] }

/-- `i2c_cfg`, whose baud rate is a constant in range. -/
def cfg (addr : Byte) (ack : Bool) : Master := { t with flag := if ack then oprAck else 0#32, saddr := addr }

/-- `l_done` in `i2c_isr`. -/
def done (sta : Word) : Master := { t with cmd := { t.cmd with rt := sta }, comp := true }

/-- `i2c_rw`. -/
def rw (cmd : Cmd) : Master :=
  let len := cmd.wr.len
  let cmd := { cmd with wr.actual := 0, rd.actual := -1 }
  if cmd.cmd.hasStart then
    { t with cmd := cmd }.opr (t.flag |||
      (if len ≠ 0 then oprAddr ||| oprCmdStart else oprAddr ||| oprCmdStart ||| oprRx))
  else if len ≠ 0 then
    { t with data := cmd.wr.buf.headD 0#8, cmd := { cmd with wr.actual := 1 } }.opr (t.flag |||
      (if cmd.cmd.hasEnd ∧ len = 1 then oprCmdEnd else oprCmdCont))
  else
    { t with cmd := { cmd with rd.actual := 0 } }.opr (t.flag ||| oprRx |||
      (if cmd.cmd.hasEnd ∧ cmd.rd.len = 1 then oprCmdEnd else oprCmdCont))

/-- The branch of `i2c_isr` that hands over the next byte to write. -/
def isrWrite : Master :=
  let c := t.cmd
  let last := (c.wr.len : Int) - c.wr.actual = 1
  let isEnd := c.cmd.hasEnd ∧ c.rd.len = 0
  { t with
    data := c.wr.buf.getD c.wr.actual.toNat 0#8
    cmd := { c with
      wr.actual := c.wr.actual + 1
      rd.actual := if last ∧ ¬ isEnd then -1 else c.rd.actual } }.opr
    (t.flag ||| (if last ∧ isEnd then oprCmdEnd else oprCmdCont))

/-- The branch of `i2c_isr` that takes the byte read and asks for the next. -/
def isrRead (dat : Byte) : Master :=
  let c := t.cmd
  let len : Int := c.rd.len
  let actual := c.rd.actual
  let t := { t with cmd := { c with
    rd.buf := if 0 ≤ actual then c.rd.buf.set actual.toNat dat else c.rd.buf
    rd.actual := actual + 1 } }
  if len - actual ≤ 1 then t.done 0#32
  else t.opr (t.flag ||| oprRx ||| (if c.cmd.hasEnd ∧ len - actual = 2 then oprCmdEnd else oprCmdCont))

/-- `i2c_isr`. -/
def isr (r : Reply) : Master :=
  let sta := r.sta
  if sta &&& ier = 0#32 then t
  else if sta &&& intErr ≠ 0#32 then t.done sta
  else if sta &&& staNak ≠ 0#32 then t.done sta
  else if sta &&& intRdy ≠ 0#32 then
    if t.cmd.wr.len ≠ 0 ∧ t.cmd.wr.actual < t.cmd.wr.len then t.isrWrite
    else if t.cmd.rd.len ≠ 0 ∧ t.cmd.rd.actual < t.cmd.rd.len then t.isrRead r.dat
    else t.done 0#32
  else t

/-- `wait_for_completion`: the bus answers the operations, each with an interrupt. None when `n` interrupts do not
complete the command. -/
def wait (bus : Nat → Reply) : Nat → Master → Option Master
  | 0, t => if t.comp then some t else none
  | n + 1, t => if t.comp then some t else wait bus n (t.isr (bus (t.ops.length - 1)))

end Master

/-- How a message ended: the return code, its buffer and the operations on the bus. -/
structure Result where
  rc : Int
  buf : List Byte
  ops : List Op
deriving DecidableEq, Repr

/-- An idle controller. -/
def idle : Master := ⟨0#32, 0#8, 0#8, ⟨⟨[], 0, 0⟩, ⟨[], 0, 0⟩, .done, 0#32⟩, [], false⟩

/-- The command of `ssli2c_do`. -/
def cmdOf (m : Msg) (f : CmdCode) : Cmd :=
  let td : Td := ⟨m.buf, m.buf.length, 0⟩
  let none : Td := ⟨[], 0, 0⟩
  if m.isRead then ⟨none, td, f, 0#32⟩ else ⟨td, none, f, 0#32⟩

/-- `ssli2c_do`. -/
def ssli2cDo (m : Msg) (f : CmdCode) (bus : Nat → Reply) : Option Result := do
  let t := (idle.cfg (m.addr.setWidth 8) (m.flags &&& mIgnoreNak = 0#16)).rw (cmdOf m f)
  let t ← t.wait bus (m.buf.length + 2)
  let td := if m.isRead then t.cmd.rd else t.cmd.wr
  pure ⟨if td.actual ≠ m.buf.length then -eremoteio else 0, td.buf, t.ops⟩

/-- The command code of message `i` of `n` in `ssli2c_xfer`. -/
def codeOf (n i : Nat) (m : Msg) : CmdCode :=
  let nstart := m.flags &&& mNostart ≠ 0#16
  if i = 0 then (if n = 1 then .done else .start)
  else if i = n - 1 then (if nstart then .cend else .done)
  else (if nstart then .mid else .start)

/-- The loop of `ssli2c_xfer` from message `i` on: the return value, and how the messages ended. -/
def xferFrom (n : Nat) (bus : Nat → Nat → Reply) : Nat → List Msg → Option (Int × List Result)
  | _, [] => some (n, [])
  | i, m :: ms => do
    let d ← ssli2cDo m (codeOf n i m) (bus i)
    if d.rc < 0 then pure (d.rc, [d])
    else do
      let (rc, ds) ← xferFrom n bus (i + 1) ms
      pure (rc, d :: ds)

/-- `ssli2c_xfer`, when operation `j` of message `i` is answered by `bus i j`. -/
def ssli2cXfer (msgs : List Msg) (bus : Nat → Nat → Reply) : Option (Int × List Result) :=
  xferFrom msgs.length bus 0 msgs

end Emlinux.I2c
