import Emlinux.Lib.Run

/-!
# SPI messages and their completions

`ssl_spi.c` queues messages, and a single worker runs their transfers one after the other: it clears `sta`, sets `busy`,
starts the hardware with `spi_io` and waits for `done`. Two interrupts complete `done`: the one of the SPI controller
(`spi_isr`, `sslspi_event`) and the one of the DMA channel (`sslspi_dma_done`); with DMA the wait is over after one second in
any case.

The worker is a state machine (`Phase`) whose steps interleave with the interrupts. An SPI interrupt comes with a status that the interrupt
mask lets through, a DMA event from a channel that was enabled and has not reported (`dma_isr` reports
once, `dma_free` resets the channel). Every `spi_io` has a serial number; the completion count `done` is kept as the
list of the numbers of the transfers that completed it. The outcome of each transfer is on record: whether it ran
to its end, and whether there was an error or a timeout.
-/

namespace Emlinux.Spi

open Lib

/-- `spi_cfg_t`, as far as `spi_cfg` keeps it outside the hardware. -/
structure Cfg where
  cs : Nat
  word : Nat
  baud : Nat
deriving DecidableEq, Repr

/-- `struct spi_transfer`: which buffers it has, its length and its own settings. -/
structure Transfer where
  rx : Bool
  tx : Bool
  len : Nat
  bits : Nat
  speed : Nat
deriving DecidableEq, Repr

/-- `struct spi_message`. -/
structure Msg where
  id : Nat
  cfg : Cfg
  mapped : Bool
  transfers : List Transfer
deriving DecidableEq, Repr

/-- `spi_xfr_t`. -/
structure Xfr where
  rx : Bool
  tx : Bool
  dma : Bool
  len : Nat
  actual : Nat
deriving DecidableEq, Repr

/-- How a transfer went. -/
structure Outcome where
  ran : Bool
  erred : Bool
  expired : Bool
deriving DecidableEq, Repr

/-- It ran to completion without an error or a timeout. -/
def Outcome.Clean (o : Outcome) : Prop := o.ran = true ∧ o.erred = false ∧ o.expired = false

/-- The transfer the worker is at, the ones after it, and whether it goes by DMA. -/
structure Job where
  msg : Msg
  cur : Transfer
  rest : List Transfer
  dma : Bool
deriving DecidableEq, Repr

/-- Where the worker is. -/
inductive Phase where
  | idle
  /-- at the head of `list_for_each_entry` -/
  | next (m : Msg) (rest : List Transfer)
  /-- `sta` is cleared -/
  | begun (j : Job)
  /-- the channels are enabled and `busy` is set -/
  | armed (j : Job)
  /-- in `spi_io`, after `t->bp = bp` -/
  | loaded (j : Job)
  | waiting (j : Job)
  | woken (j : Job)
  /-- the channels are freed -/
  | freed (j : Job)
  /-- `busy` is cleared -/
  | calm (j : Job)
  /-- after the loop over the transfers -/
  | leave (m : Msg)
deriving DecidableEq, Repr

/-- A message that was completed, with its status and the outcomes of the transfers that were tried. -/
structure Entry where
  msg : Msg
  status : Int
  outs : List Outcome
deriving DecidableEq, Repr

/-- What does not change: the depth of the FIFO and whether there is a DMA request line. -/
structure Dev where
  fifosize : Nat
  dma : Bool
  fifosize_pos : 0 < fifosize

/-- `sslspi_ctx` with its `spi_t`; `chan` says that the channel with `sslspi_dma_done` is enabled and has not reported. -/
structure Ctx where
  bp : Option Xfr
  ier : BitVec 32
  inc : Nat
  sta : Nat
  busy : Nat
  cs : Option Nat
  done : List Nat
  q : List Msg
  phase : Phase
  chan : Bool
  serial : Nat
  out : Outcome
  outs : List Outcome
  log : List Entry
  posted : List Msg
deriving DecidableEq, Repr

/-- After `sslspi_probe`. -/
def init : Ctx := ⟨none, 0, 0, 0, 0, none, [], [], .idle, false, 0, ⟨false, false, false⟩, [], [], []⟩

/-- `SPI_INT_TEMT`. -/
def temt : BitVec 32 := 0x04#32

/-- `SPI_INT_WOVR | SPI_INT_WUNR | SPI_INT_FOVR`. -/
def errs : BitVec 32 := 0x38#32

/-- What the DMA layer answers: is the receive buffer mapped, and is there a channel for each direction. -/
structure Setup where
  mapRx : Bool
  reqRx : Bool
  reqTx : Bool

namespace Ctx

variable (d : Dev) (s : Ctx)

/-- `spi_cfg`. -/
def spiCfg (c : Cfg) : Ctx := if c.baud = 0 then s else { s with inc := min ((c.word - 1) / 8) 2 }

/-- The settings before a transfer. -/
def configure (c : Cfg) (t : Transfer) : Ctx :=
  let s := if t.speed ≠ 0 ∨ t.bits ≠ 0 then
      { s with cs := some c.cs }.spiCfg { c with
        word := if t.bits ≠ 0 then t.bits % 64 else c.word
        baud := if t.speed ≠ 0 then t.speed else c.baud }
    else s
  if s.cs ≠ some c.cs then { s with cs := some c.cs }.spiCfg c else s

/-- Does the transfer go by DMA. A transmit buffer that is not mapped goes to `l_nodma` even after it was mapped. -/
def usesDma (m : Msg) (t : Transfer) (o : Setup) : Bool :=
  d.dma && decide (d.fifosize ≤ t.len / 2 ^ s.inc) && (!t.rx || ((m.mapped || o.mapRx) && o.reqRx)) &&
    (!t.tx || m.mapped) && o.reqTx

/-- `complete`. -/
def complete : Ctx := { s with done := s.done ++ [s.serial] }

/-- `sslspi_event`. -/
def event (e : Nat) : Ctx :=
  let s := { s with out := { s.out with ran := s.out.ran || e == 0, erred := s.out.erred || e != 0 } }
  if s.sta = 0 then
    let s := { s with sta := e }
    if e ≠ 0 ∧ s.busy &&& 2 ≠ 0 then s else s.complete
  else s.complete

/-- `spi_isr`. Only a slave gets past the second test, as a master does not enable the receive interrupts. -/
def isr (st : BitVec 32) : Ctx :=
  if st &&& errs ≠ 0 then { s with ier := 0 }.event 1
  else match s.bp with
    | none => s
    | some b =>
      if st &&& temt ≠ 0 then
        let count := min (d.fifosize * 2 ^ s.inc) (b.len - b.actual)
        let b := { b with actual := b.actual + count }
        if b.len - b.actual = 0 then { s with ier := 0, bp := none }.event 0
        else { s with bp := some b }
      else s

/-- `sslspi_dma_done` with `spi_dmawait`. It dereferences `t->bp`. -/
def dmaDone (e : Nat) : Option Ctx :=
  match s.bp with
  | none => none
  | some b =>
    let s := { s with
      chan := false
      sta := if s.sta = 0 then e else s.sta
      bp := none
      out := { s.out with ran := s.out.ran || (e == 0 && b.rx), erred := s.out.erred || e != 0 } }
    if b.rx then some s.complete else some { s with ier := temt, busy := 1 }

/-- The second part of `spi_io`: the interrupt mask, and the start. Without buffers it returns before. -/
def start (t : Transfer) (dma : Bool) : Ctx :=
  if dma then { s with ier := errs, chan := true }
  else if t.tx then { s with ier := temt }
  else if t.rx then { s with ier := temt ||| errs }
  else s

/-- The worker goes on; in the wait only when `done` is not zero. -/
def work (o : Setup) : Option Ctx :=
  match s.phase with
  | .idle => match s.q with
    | [] => none
    | m :: q => some { s with q := q, phase := .next m m.transfers, outs := [] }
  | .next m [] => some { s with phase := .leave m }
  | .next m (t :: rest) =>
    some { s.configure m.cfg t with sta := 0, out := ⟨false, false, false⟩, phase := .begun ⟨m, t, rest, false⟩ }
  | .begun j =>
    if s.usesDma d j.msg j.cur o then some { s with busy := 3, phase := .armed { j with dma := true } }
    else some { s with busy := 1, phase := .armed { j with dma := false } }
  | .armed j =>
    some { s with bp := some ⟨j.cur.rx, j.cur.tx, j.dma, j.cur.len, 0⟩, serial := s.serial + 1, phase := .loaded j }
  | .loaded j => some { s.start j.cur j.dma with phase := .waiting j }
  | .waiting j => match s.done with
    | [] => none
    | _ :: l => some { s with done := l, phase := .woken j }
  | .woken j => some { s with chan := false, phase := .freed j }
  | .freed j => some { s with busy := 0, phase := .calm j }
  | .calm j =>
    if s.sta ≠ 0 then some { s with outs := s.outs ++ [s.out], phase := .leave j.msg }
    else some { s with outs := s.outs ++ [s.out], phase := .next j.msg j.rest }
  | .leave m => some { s with log := s.log ++ [⟨m, if s.sta ≠ 0 then -22 else 0, s.outs⟩], phase := .idle }

/-- The wait for the DMA is over after a second: there is a message, and the worker goes on. -/
def expire : Option Ctx :=
  match s.phase with
  | .waiting j =>
    if j.dma ∧ s.done = [] then some { s with out := { s.out with expired := true }, phase := .woken j } else none
  | _ => none

end Ctx

inductive Act where
  /-- `sslspi_xfer` -/
  | post (m : Msg)
  | work (o : Setup)
  | expire
  | spi (st : BitVec 32)
  | dma (err : Bool)

def step (d : Dev) (s : Ctx) : Act → Option Ctx
  | .post m => some { s with q := s.q ++ [m], posted := s.posted ++ [m] }
  | .work o => s.work d o
  | .expire => s.expire
  | .spi st => if st &&& s.ier ≠ 0 then some (s.isr d st) else none
  | .dma err => if s.chan then s.dmaDone err.toNat else none

end Emlinux.Spi
