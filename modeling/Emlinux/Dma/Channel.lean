import Emlinux.Lib.Run
import Mathlib.Data.BitVec

/-!
# The DMA channel driver

`dma.c`: `dma_init`, `dma_request`, `dma_cfg`, `dma_enable`, `dma_abort`, `dma_free` and `dma_isr` over the registers
of the controller. A channel is `busy` while its transfer runs; only a busy channel raises its interrupt. What the
hardware does by itself is the actions `finish` and `status`. The interrupt routine is taken apart at its callbacks,
so that a client may call the driver from its callback.
-/

namespace Emlinux.Dma

open Lib

abbrev Word := BitVec 32

abbrev Byte := BitVec 8

/-- `DMA_MAX_CHANNELS`. -/
def maxChannels : Nat := 32

/-- `DMA_ERR_NONE`. -/
def errNone : Int := 0

/-- `DMA_ERR_HW`. -/
def errHw : Int := -1

/-- `DMA_ERR_PARM`. -/
def errParm : Int := -2

/-- `DMA_ERR_CFG`. -/
def errCfg : Int := -3

/-- `DMA_ERR_FULL`. -/
def errFull : Int := -5

/-- `DMA_F_ALL`. -/
def fAll : Word := ~~~0#32

/-- `DMA_CH_IDX`. -/
def chIdx (ch : Nat) : Word := 1#32 <<< ch

/-- `DMA_CFG_RST`. -/
def cfgRst : Word := 4#32

/-- `DMA_CFG_DIS`. -/
def cfgDis : Word := 2#32

/-- `DMA_CFG_EN`. -/
def cfgEn : Word := 1#32

/-- `DMA_IRQ_ERR`. -/
def irqErr : Word := 0x80#32

/-- `DMA_IRQ_DONE`. -/
def irqDone : Word := 1#32

/-! ## The controller -/

/-- `dmar_ch_t`, and whether the transfer of the channel runs. -/
structure Chan where
  cfg : Word
  saddr : Word
  daddr : Word
  count : Word
  ier : Word
  isr : Word
  busy : Bool
deriving DecidableEq, Repr

/-- `dmar_t`. -/
structure Chip where
  id : Word
  cap : Word
  ctl : Word
  ier : Word
  isr : Word
  ch : Nat → Chan

/-- A channel after its reset. -/
def Chan.reset (c : Chan) : Chan := { c with cfg := 0x0C0C0050#32, busy := false }

/-- A write to the configuration register of a channel. -/
def Chan.wrCfg (c : Chan) (v : Word) : Chan :=
  if v.getLsbD 2 then c.reset
  else if v.getLsbD 1 then { c with cfg := v &&& ~~~(cfgDis ||| cfgEn), busy := false }
  else { c with cfg := v, busy := c.busy || v.getLsbD 0 }

namespace Chip

variable (r : Chip)

def setCh (ch : Nat) (f : Chan → Chan) : Chip := { r with ch := Function.update r.ch ch (f (r.ch ch)) }

/-- The module reset: no interrupt is pending and no channel runs. -/
def reset : Chip := { r with ier := 0#32, isr := 0#32, ch := fun i => { (r.ch i).reset with ier := 0#32, isr := 0#32 } }

/-- The hardware ends the transfer of `ch` with the status `v`. -/
def finish (ch : Nat) (v : Word) : Chip :=
  { r.setCh ch (fun c => { c with isr := v, cfg := c.cfg &&& ~~~cfgEn, busy := false }) with isr := r.isr ||| chIdx ch }

end Chip

/-! ## The driver -/

/-- `dma_fifo_t`. -/
structure Fifo where
  width : Byte
  depth : Byte
  req : Byte
deriving DecidableEq, Repr

/-- `dma_cfg_t`, with callbacks from `ε`. -/
structure Cfg (ε : Type) where
  flag : Word
  saddr : Word
  daddr : Word
  count : Word
  src : Fifo
  dst : Fifo
  evt : ε
  flush : Byte

/-- `dma_t`: the context of the driver. -/
structure Context (ε : Type) where
  r : Chip
  waitdelay : Byte
  priority : Byte
  evt : Nat → ε
  channels : Nat
  fifosize : Byte
  used : Word
  active : Word

variable {ε : Type}

/-- `_dma_reset`, when `polls` reads of the control register still show the reset bit (`_TIMEOUT` is 300). -/
def dmaReset (t : Context ε) (polls : Nat) : Int × Context ε :=
  if 300 < polls then (errHw, { t with r := { t.r.reset with ctl := 3#32 } })
  else (errNone, { t with r := { t.r.reset with ctl := 0#32 } })

/-- `DMA_CAP_CHN`. -/
def capChn (cap : Word) : Nat := ((cap &&& 3#32).toNat + 1) * 8

/-- `dma_init`. -/
def dmaInit (t : Context ε) (polls : Nat) : Int × Context ε :=
  if t.r.id >>> 16 ≠ 0x0801#32 ∨ (t.r.id >>> 10) &&& 0x3F#32 ≠ 1#32 then (errHw, t) else
  let (err, t) := dmaReset t polls
  if err ≠ errNone then (err, t) else
  let ctl := t.waitdelay.setWidth 32 <<< 8 ||| (if t.priority ≠ 0#8 then 4#32 else 0#32) ||| 1#32
  (errNone, { t with
    r := { t.r with ctl := ctl }
    channels := if maxChannels < capChn t.r.cap then maxChannels else capChn t.r.cap
    fifosize := (1#32 <<< (((t.r.cap >>> 2) &&& 3#32).toNat + 5)).setWidth 8
    used := 0#32
    active := 0#32 })

/-- `_dma_fifoparm`: the coding of the access size. -/
def dmaFifoparm (fifo : Fifo) (size : Byte) (count : Word) : Except Int Byte :=
  let b := fifo.width
  let w := b >>> 1
  if 4#8 < w then .error errParm else
  let w := if w = 4#8 then 3#8 else w
  if count &&& (b.setWidth 32 - 1#32) ≠ 0#32 then .error errParm else
  if size < b * fifo.depth then .error errParm else .ok w

/-- `DMA_WIDTH_ERR`. -/
def widthErr (w : Byte) : Bool := 8#8 < w || w = 3#8 || (4#8 < w && w < 7#8)

/-- `dma_free`. -/
def dmaFree (t : Context ε) (ch : Nat) : Context ε :=
  { t with r := t.r.setCh ch (·.wrCfg cfgRst), used := t.used &&& ~~~chIdx ch }

/-- The configuration word that `dma_cfg` writes. -/
def cfgWord (cfg : Cfg ε) (swidth dwidth burst : Byte) : Word :=
  (burst.setWidth 32 - 1#32) <<< 8 |||
    (if cfg.flush ≠ 0#8 then 8#32 else 0#32) |||
    (if cfg.src.width ≠ 0#8 then
      1#32 <<< 16 ||| swidth.setWidth 32 <<< 18 ||| cfg.src.req.setWidth 32 <<< 20 else 0#32) |||
    (if cfg.dst.width ≠ 0#8 then
      1#32 <<< 24 ||| dwidth.setWidth 32 <<< 26 ||| cfg.dst.req.setWidth 32 <<< 28 else 0#32)

/-- The checks of a full configuration in `dma_cfg`, and the word it writes. -/
def cfgCheck (fifosize : Byte) (cfg : Cfg ε) : Except Int Word :=
  let swidth := cfg.src.width
  let dwidth := cfg.dst.width
  if widthErr swidth || widthErr dwidth then .error errParm else
  if swidth ≠ 0#8 ∧ dwidth ≠ 0#8 ∧ (swidth ≠ dwidth ∨ cfg.src.depth ≠ cfg.dst.depth) then .error errParm else do
  let (burst, sw) ←
    if swidth ≠ 0#8 then do pure (cfg.src.width * cfg.src.depth, ← dmaFifoparm cfg.src fifosize cfg.count)
    else pure (64#8, swidth)
  let (burst, dw) ←
    if dwidth ≠ 0#8 then do pure (cfg.dst.width * cfg.dst.depth, ← dmaFifoparm cfg.dst fifosize cfg.count)
    else pure (burst, dwidth)
  pure (cfgWord cfg sw dw burst)

/-- The addresses and the count in `dma_cfg`: `DMA_F_SRCADDR`, `DMA_F_DSTADDR`, `DMA_F_COUNT`. -/
def Chan.wrAddr (c : Chan) (cfg : Cfg ε) : Chan :=
  { c with
    saddr := if cfg.flag.getLsbD 0 then cfg.saddr else c.saddr
    daddr := if cfg.flag.getLsbD 1 then cfg.daddr else c.daddr
    count := if cfg.flag.getLsbD 2 then cfg.count else c.count }

/-- `dma_cfg`. -/
def dmaCfg (t : Context ε) (ch : Nat) (cfg : Cfg ε) : Int × Context ε :=
  if cfg.flag = fAll then
    match cfgCheck t.fifosize cfg with
    | .error err => (err, t)
    | .ok v => (errNone, { t with
        r := (t.r.setCh ch (·.wrCfg v)).setCh ch (·.wrAddr cfg), evt := Function.update t.evt ch cfg.evt })
  else (errNone, { t with r := t.r.setCh ch (·.wrAddr cfg) })

/-- `_dma_alloc`: the first channel that is not in use. -/
def dmaAlloc (t : Context ε) : Option Nat := (List.range t.channels).find? (fun ch => t.used &&& chIdx ch = 0#32)

/-- `dma_request`. -/
def dmaRequest (t : Context ε) (cfg : Cfg ε) : Int × Context ε :=
  if cfg.flag ≠ fAll then (errCfg, t) else
  match dmaAlloc t with
  | none => (errFull, t)
  | some ch =>
    match dmaCfg { t with used := t.used ||| chIdx ch } ch cfg with
    | (rt, t) =>
      if rt ≠ 0 then (rt, dmaFree t ch)
      else (ch, { t with r := { t.r with ier := t.r.ier ||| chIdx ch }.setCh ch fun c => { c with ier := irqErr ||| irqDone } })

/-- `dma_enable`. -/
def dmaEnable (t : Context ε) (ch : Nat) : Context ε :=
  { t with r := t.r.setCh ch (fun c => c.wrCfg (c.cfg ||| cfgEn)), active := t.active ||| chIdx ch }

/-- `dma_abort`: the error, the remaining count. -/
def dmaAbort (t : Context ε) (ch : Nat) : Int × Option Word × Context ε :=
  if t.channels ≤ ch then (errParm, none, t) else
  if t.active &&& chIdx ch = 0#32 then (errNone, some 0#32, t) else
  (errNone, some (t.r.ch ch).count,
    { t with r := t.r.setCh ch (fun c => c.wrCfg (c.cfg ||| cfgDis)), active := t.active &&& ~~~chIdx ch })

/-- One channel of the loop in `dma_isr` under the latched status `sta`: whether its callback is called. -/
def isrChannel (t : Context ε) (sta : Word) (ch : Nat) : Bool × Context ε :=
  if sta &&& chIdx ch = 0#32 then (false, t) else
  let csta := (t.r.ch ch).isr
  if csta = 0#32 then (false, t) else
  let t := { t with active := t.active &&& ~~~chIdx ch }
  (true, if csta &&& irqErr ≠ 0#32 then { t with r := t.r.setCh ch (·.wrCfg cfgRst) } else t)

/-! ## The driver among its clients -/

/-- What the clients see: a channel granted by `dma_request`, a channel they free, a callback of a channel. -/
inductive Note (ε : Type) where
  | granted (ch : Nat)
  | freed (ch : Nat)
  | called (ch : Nat) (evt : ε)
deriving DecidableEq, Repr

/-- The channels granted and not yet freed. -/
def owned : List (Note ε) → List Nat :=
  List.foldl (fun own n => match n with
    | .granted ch => ch :: own
    | .freed ch => own.filter (· ≠ ch)
    | .called _ _ => own) []

/-- The driver, the interrupt routine under way (its latched status and the next channel) and the notes. -/
structure Sys (ε : Type) where
  dma : Context ε
  stage : Option (Word × Nat)
  log : List (Note ε)

inductive Action (ε : Type) where
  | request (cfg : Cfg ε)
  | cfg (ch : Nat) (cfg : Cfg ε)
  | enable (ch : Nat)
  | abort (ch : Nat)
  | free (ch : Nat)
  /-- `dma_isr` reads and clears the status -/
  | isr
  /-- the next channel of the loop in `dma_isr` -/
  | isrNext
  /-- the transfer of a running channel ends -/
  | finish (ch : Nat) (v : Word)
  /-- the status of a channel changes -/
  | status (ch : Nat) (v : Word)

/-- One action. Clients enable, abort and free only channels they own. -/
def step (s : Sys ε) : Action ε → Option (Sys ε)
  | .request cfg =>
    let (rt, t) := dmaRequest s.dma cfg
    some { s with dma := t, log := s.log ++ (if 0 ≤ rt then [.granted rt.toNat] else []) }
  | .cfg ch cfg => if ch < maxChannels then some { s with dma := (dmaCfg s.dma ch cfg).2 } else none
  | .enable ch => if ch ∈ owned s.log then some { s with dma := dmaEnable s.dma ch } else none
  | .abort ch => if ch ∈ owned s.log then some { s with dma := (dmaAbort s.dma ch).2.2 } else none
  | .free ch =>
    if ch ∈ owned s.log then some { s with dma := dmaFree s.dma ch, log := s.log ++ [.freed ch] } else none
  | .isr =>
    if s.stage.isSome then none else
    let sta := s.dma.r.isr
    if sta = 0#32 then some s
    else some { s with dma := { s.dma with r := { s.dma.r with isr := s.dma.r.isr &&& ~~~sta } }, stage := some (sta, 0) }
  | .isrNext =>
    match s.stage with
    | none => none
    | some (sta, ch) =>
      if ch < s.dma.channels then
        let (cb, t) := isrChannel s.dma sta ch
        some { dma := t, stage := some (sta, ch + 1), log := s.log ++ (if cb then [.called ch (t.evt ch)] else []) }
      else some { s with stage := none }
  | .finish ch v => if (s.dma.r.ch ch).busy then some { s with dma := { s.dma with r := s.dma.r.finish ch v } } else none
  | .status ch v =>
    some { s with dma := { s.dma with r := s.dma.r.setCh ch fun c => { c with isr := v } } }

/-- The driver after `dma_init`. -/
def start (t : Context ε) (polls : Nat) : Sys ε := ⟨(dmaInit t polls).2, none, []⟩

end Emlinux.Dma
