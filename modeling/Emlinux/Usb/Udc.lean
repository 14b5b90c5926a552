import Emlinux.Usb.Carve
import Emlinux.Usb.Book

/-!
# The USB gadget driver

`ssl_udc.c` keeps for each endpoint a list of requests, and `usbd.c` for each hardware descriptor the one request that is
loaded in it (`tc[].rq`). Endpoint `e` is the entry `e` of `udc->ep`, which is also its descriptor; endpoint 0 has the descriptors 0
(OUT) and 1 (IN), and an internal request (`udc->rq`) for the setup packets and the stages that the driver runs
by itself.

A completion, and the other calls into the class driver, release the lock but keep the interrupts off: the class driver may call back into the
endpoint functions, and no interrupt comes in between. What is left to do after such a call is the list `control`
of the state. `tick` runs its first task; while that is a call, the class driver acts, or returns. An interrupt comes only when
nothing is left to do.
-/

namespace Emlinux.Gadget

open Lib

/-- `struct usb_ctrlrequest`. -/
structure Setup where
  bRequestType : BitVec 8
  bRequest : BitVec 8
  wValue : BitVec 16
  wIndex : BitVec 16
  wLength : BitVec 16
deriving DecidableEq, Repr

/-- What a descriptor refers to: `udc->rq`, or the request of a class driver. -/
inductive Rq where
  | int
  | req (r : Nat)
deriving DecidableEq, Repr

/-- `enum usb_device_speed`. -/
inductive Speed where
  | unknown
  | full
  | high
deriving DecidableEq, Repr

/-- `udc_ep_t`. -/
structure Ep where
  desc : Bool
  queue : List Nat
  fstopped : Bool
  fstall : Bool
  maxpacket : Nat
deriving DecidableEq, Repr

/-- `udc_req_t`: `queued` is that the list node is in a list, `len` the length in the hardware request; the status is `none` while it is `-EINPROGRESS`. The serial
number is that of the last time it was accepted. -/
structure Req where
  ep : Nat
  length : Nat
  zero : Bool
  status : Option Status
  len : Nat
  queued : Bool
  serial : Nat
deriving DecidableEq, Repr

/-- What is left to do. -/
inductive Task where
  /-- a call of `complete`, `disconnect`, `suspend` or `resume` -/
  | callback
  /-- a call of `setup` -/
  | setup
  /-- `ep->fstopped = stopped` -/
  | restore (e : Nat) (stopped : Bool)
  /-- `process next request in queue` -/
  | next (e : Nat)
  /-- the status stage after the data of a class driver -/
  | status
  /-- `l_qsetup`, after a protocol stall or not -/
  | qsetup (stalled : Bool)
  | nuke (e : Nat)
  /-- the loop of `nuke` -/
  | drain (e : Nat)
  /-- `drv->disconnect` is called next -/
  | disconnect
  /-- `udc->gdt.speed = USB_SPEED_FULL` -/
  | fullSpeed
  /-- the signalling events of `usbd_isr` -/
  | evDisc
  | evRst
  | evSusp
  | evRsm
  | evHspd
  /-- a done bit of `usbd_isr`; `pkt` is in the packet memory if it is the one of a setup packet -/
  | bit (i : Nat) (pkt : Setup)
deriving DecidableEq, Repr

/-- An assignment to the stage of endpoint 0, with the setup packet it is for. -/
structure Move where
  src : BitVec 8
  dst : BitVec 8
  pkt : Setup
  stalled : Bool
deriving DecidableEq, Repr

/-- `udc_t` with its `usbd_t`. A descriptor holds its request and the length it was given; `rdy` and `stall` are the registers. `log`, `hist` and `pkt` are the
record of the run: the requests, the stages, and the last setup packet. -/
structure Udc where
  stage : BitVec 8
  setup : Setup
  rqLen : Nat
  ep : Nat → Ep
  reqs : Nat → Req
  tc : Nat → Option (Rq × Nat)
  rdy : Nat → Bool
  stall : Nat → Bool
  speed : Speed
  fwakeup : Bool
  fspower : Bool
  control : List Task
  next : Nat
  log : List Ev
  hist : List Move
  pkt : Setup

/-- `UDC_EP0_XXX`. -/
def stIn : BitVec 8 := 1#8
def stDat : BitVec 8 := 2#8
def stSta : BitVec 8 := 4#8

/-- The stage after a setup packet. -/
def Setup.first (p : Setup) : BitVec 8 :=
  if p.wLength ≠ 0 then (if p.bRequestType &&& 0x80#8 ≠ 0 then stDat ||| stIn else stDat) else stSta ||| stIn

/-- What does not change: the endpoints of `gdt.ep_list`. -/
structure Dev where
  eps : List Nat
  eps_ge : ∀ e ∈ eps, 2 ≤ e

namespace Udc

variable (d : Dev) (s : Udc)

def setEp (e : Nat) (f : Ep → Ep) : Udc := { s with ep := Function.update s.ep e (f (s.ep e)) }

def setReq (r : Nat) (f : Req → Req) : Udc := { s with reqs := Function.update s.reqs r (f (s.reqs r)) }

/-- The length a request has when it is given to the hardware. -/
def rqLength : Rq → Nat
  | .int => s.rqLen
  | .req r => (s.reqs r).len

/-- `usbd_ep_io`. -/
def usbdEpIo (i : Nat) (rq : Rq) : Udc :=
  { s with tc := Function.update s.tc i (some (rq, s.rqLength rq)), rdy := Function.update s.rdy i true }

/-- `usbd_ep_abort`. -/
def usbdEpAbort (i : Nat) : Udc :=
  if (s.tc i).isSome then { s with tc := Function.update s.tc i none, rdy := Function.update s.rdy i false } else s

/-- `usbd_ep_stall`. On endpoint 0 the start of the stall is reported as done. -/
def usbdEpStall (i : Nat) (on : Bool) : Udc :=
  { s with
    stall := Function.update s.stall i on
    rdy := if on ∧ i < 2 then Function.update s.rdy i true else s.rdy }

/-- `udc->stage = v`. -/
def setStage (v : BitVec 8) (stalled : Bool) : Udc :=
  { s with stage := v, hist := s.hist ++ [⟨s.stage, v, s.pkt, stalled⟩] }

/-- `done` up to the callback; `l` is what its caller does next. -/
def done (e r : Nat) (st : Status) (l : List Task) : Udc :=
  let st := ((s.reqs r).status).getD st
  let stopped := (s.ep e).fstopped
  let s := s.setEp e fun x => { x with queue := x.queue.erase r, fstopped := true }
  let s := s.setReq r fun x => { x with queued := false, status := some st }
  { s with control := .callback :: .restore e stopped :: l, log := s.log ++ [Ev.completed e r (s.reqs r).serial st] }

/-- `udc_ep_queue`. -/
def udcEpQueue (e r len : Nat) (zero : Bool) : Udc :=
  if (s.reqs r).queued then s
  else if (s.ep e).desc = false ∧ e ≠ 0 then s
  else if s.speed = .unknown then s
  else
    -- endpoint 0 is two descriptors
    let i := if e = 0 ∧ s.stage &&& stIn ≠ 0 then 1 else e
    let s := s.setReq r fun _ => ⟨e, len, zero, none, len, true, s.next⟩
    let s := { s with next := s.next + 1, log := s.log ++ [Ev.accepted e r s.next] }
    let s := if (s.ep e).queue = [] ∧ (s.ep e).fstopped = false then s.usbdEpIo i (.req r) else s
    s.setEp e fun x => { x with queue := x.queue ++ [r] }

/-- `udc_ep_dequeue`. -/
def udcEpDequeue (e r : Nat) : Udc :=
  if r ∈ (s.ep e).queue then
    let s := if (s.ep e).queue.head? = some r then s.usbdEpAbort e else s
    s.done e r .connreset s.control
  else s

/-- `udc_ep_enable`; `valid` says that the descriptor passes the checks, also those of `usbd_ep_enable`, which refuses endpoint 0. -/
def udcEpEnable (e mps : Nat) (valid : Bool) : Udc :=
  if (s.ep e).desc = true ∨ valid = false ∨ e = 0 ∨ (s.ep e).maxpacket < mps ∨ s.speed = .unknown then s
  else s.setEp e fun x => { x with maxpacket := mps, desc := true, fstopped := false }

/-- `udc_ep_disable`. It clears the descriptor before it calls `nuke`. -/
def udcEpDisable (e : Nat) : Udc :=
  if (s.ep e).desc = false then s
  else { s.setEp e fun x => { x with desc := false, fstopped := true } with control := .nuke e :: s.control }

/-- `udc_ep_set_halt`. -/
def udcEpSetHalt (e : Nat) (on : Bool) : Udc :=
  if on ∧ e % 2 = 1 ∧ (s.ep e).queue ≠ [] then s
  else (s.setEp e fun x => { x with fstall := on }).usbdEpStall e on

/-- `nuke` up to its loop. -/
def nuke (e : Nat) : Udc :=
  if (s.ep e).desc then
    let s := if e ≠ 0 then s.setEp e fun x => { x with fstopped := true } else s
    let s := s.usbdEpAbort e
    if e ≠ 0 then s.setEp e fun x => { x with desc := false } else s
  else s

/-- `udc_quiesce`, and what follows it. -/
def udcQuiesce (l : List Task) : Udc :=
  { s with speed := .unknown, control := .nuke 0 :: (d.eps.map Task.nuke ++ l) }

/-- The descriptor of an endpoint address in `wIndex`, in the byte it is computed in. -/
def hwIndex (a : BitVec 16) : Nat := (Usb.ep2hw (a.truncate 8)).toNat

/-- `l_dat`: the answer goes to the IN descriptor. -/
def answer (len : Nat) : Udc := { s with rqLen := len }.usbdEpIo 1 .int

/-- The status word of `USB_REQ_GET_STATUS`, written over the first two bytes of the packet. -/
def getStatus : Udc :=
  let word (v : BitVec 16) : Setup :=
    { s.setup with bRequestType := v.truncate 8, bRequest := (v >>> 8).truncate 8 }
  let typ := s.setup.bRequestType &&& 0x1F#8
  if typ = 1#8 then { s with setup := word 0 }
  else if typ = 0#8 then { s with setup := word (BitVec.ofNat 16 (2 * s.fwakeup.toNat + s.fspower.toNat)) }
  else if typ = 2#8 then { s with setup := word (BitVec.ofNat 16 (s.ep (hwIndex s.setup.wIndex)).fstall.toNat) }
  else s

/-- `USB_REQ_SET_FEATURE` and `USB_REQ_CLEAR_FEATURE`. -/
def feature (flag : Bool) : Option Udc :=
  let typ := s.setup.bRequestType &&& 0x1F#8
  if typ = 0#8 then
    if s.setup.wValue = 1#16 then some { s with fwakeup := flag }
    -- the test modes: the check of `wIndex` never fails
    else if s.setup.wValue = 2#16 then some s
    else none
  else if typ = 2#8 ∧ s.setup.wValue = 0#16 then
    let i := hwIndex s.setup.wIndex
    some ((s.usbdEpStall i flag).setEp i fun x => { x with fstall := flag })
  else none

/-- `udc_setup`: `none` is passed to the class driver. -/
def udcSetup : Option Udc :=
  if s.setup.bRequest = 5#8 then if s.setup.bRequestType ≠ 0 then none else some (s.answer 0)
  else if s.setup.bRequest = 0#8 then some (s.getStatus.answer 2)
  else if s.setup.bRequest = 3#8 then (s.feature true).map fun s => s.answer 0
  else if s.setup.bRequest = 1#8 then (s.feature false).map fun s => s.answer 0
  else none

/-- `udc_evt` for the internal request. -/
def evtInt : Udc :=
  if s.stage = 0 then
    let s := s.setStage s.setup.first false
    match s.udcSetup with
    | some s => s
    | none => { s with control := .setup :: s.control }
  else if s.stage &&& stDat ≠ 0 then { s.setStage stSta false with rqLen := 0 }.usbdEpIo 0 .int
  else { s with control := .qsetup false :: s.control }

/-- `udc_evt` for a request of the class driver. -/
def evtReq (r : Nat) : Udc :=
  let q := s.reqs r
  let e := q.ep
  if e = 0 then
    if s.stage &&& stSta ≠ 0 then s.done 0 r .ok (.qsetup false :: s.control)
    else if q.zero ∧ q.len ≠ 0 ∧ s.stage &&& stIn ≠ 0 ∧ q.len &&& ((s.ep 0).maxpacket - 1) = 0 then
      (s.setReq r fun x => { x with len := 0 }).usbdEpIo 1 (.req r)
    else
      let s := s.setStage (s.stage ^^^ (stSta ||| stDat ||| stIn)) false
      s.done 0 r .ok (.status :: s.control)
  else if q.zero ∧ q.len ≠ 0 ∧ e % 2 = 1 ∧ q.len % (s.ep e).maxpacket = 0 then
    (s.setReq r fun x => { x with len := 0 }).usbdEpIo e (.req r)
  else s.done e r .ok (.next e :: s.control)

/-- A done bit of `usbd_isr`. -/
def usbdDone (i : Nat) (pkt : Setup) : Udc :=
  let s := { s with rdy := Function.update s.rdy i false }
  match s.tc i with
  | none =>
    if i < 2 ∧ s.stall i then
      { s with stall := Function.update s.stall i false, control := .qsetup true :: s.control }
    else s
  | some (rq, n) =>
    let s := { s with tc := Function.update s.tc i none }
    match rq with
    | .int =>
      -- the internal request of eight bytes is filled with the setup packet
      let s := if i = 0 ∧ n = 8 then { s with setup := pkt, pkt := pkt } else s
      s.evtInt
    | .req r => s.evtReq r

/-- One task; `s` has it taken off already. -/
def run : Task → Option Udc
  | .callback | .setup => none
  | .restore e stopped => some (s.setEp e fun x => { x with fstopped := stopped })
  | .next e => match (s.ep e).queue with
    | [] => some s
    | r :: _ => some (s.usbdEpIo e (.req r))
  | .status => some ({ s with rqLen := 0 }.usbdEpIo (if s.stage &&& stIn ≠ 0 then 1 else 0) .int)
  | .qsetup stalled => some ({ s.setStage 0 stalled with rqLen := 8 }.usbdEpIo 0 .int)
  | .nuke e => some { s.nuke e with control := .drain e :: s.control }
  | .drain e => match (s.ep e).queue with
    | [] => some s
    | r :: _ => some (s.done e r .shutdown (.drain e :: s.control))
  | .disconnect => some { s with speed := .unknown, control := .callback :: s.control }
  | .fullSpeed => some { s with speed := .full }
  | .evDisc => if s.speed ≠ .unknown then some (s.udcQuiesce d (.disconnect :: s.control)) else some s
  | .evRst =>
    -- `usbd_reinit` empties every descriptor
    let s := { s with tc := fun _ => none, rdy := fun _ => false }
    some (s.udcQuiesce d (.disconnect :: .fullSpeed :: .qsetup false :: s.control))
  | .evSusp | .evRsm => if s.speed ≠ .unknown then some { s with control := .callback :: s.control } else some s
  | .evHspd => some { s with speed := .high }
  | .bit i pkt => some (s.usbdDone i pkt)

end Udc

/-- The signalling bits of the status that `usbd_isr` reads. -/
structure Events where
  disc : Bool
  rst : Bool
  susp : Bool
  rsm : Bool
  hspd : Bool
deriving DecidableEq, Repr

/-- The tasks of an interrupt, in the order of `usbd_isr`. -/
def isrTasks (ev : Events) (done : BitVec 32) (pkt : Setup) : List Task :=
  (if ev.disc then [.evDisc] else []) ++ (if ev.rst then [.evRst] else []) ++ (if ev.susp then [.evSusp] else []) ++
    (if ev.rsm then [.evRsm] else []) ++ (if ev.hspd then [.evHspd] else []) ++
    ((List.range 32).filter fun i => done.getLsbD i).map fun i => .bit i pkt

inductive Act where
  | queue (e r len : Nat) (zero : Bool)
  | dequeue (e r : Nat)
  | enable (e mps : Nat) (valid : Bool)
  | disable (e : Nat)
  | setHalt (e : Nat) (on : Bool)
  /-- the call of the class driver returns; `err` is that `setup` returned an error -/
  | ret (err : Bool)
  | tick
  | isr (ev : Events) (done : BitVec 32) (pkt : Setup)

/-- May the class driver act: outside everything, and while it is called. -/
def clientTurn : List Task → Bool
  | [] | .callback :: _ | .setup :: _ => true
  | _ => false

/-- The endpoints there are. -/
def Dev.has (d : Dev) (e : Nat) : Bool := e == 0 || d.eps.contains e

def step (d : Dev) (s : Udc) : Act → Option Udc
  | .queue e r len zero => if clientTurn s.control && d.has e then some (s.udcEpQueue e r len zero) else none
  | .dequeue e r => if clientTurn s.control && d.has e then some (s.udcEpDequeue e r) else none
  | .enable e mps valid => if clientTurn s.control && d.has e then some (s.udcEpEnable e mps valid) else none
  | .disable e => if clientTurn s.control && d.has e then some (s.udcEpDisable e) else none
  | .setHalt e on => if clientTurn s.control && d.has e then some (s.udcEpSetHalt e on) else none
  | .ret err => match s.control with
    | .callback :: l => some { s with control := l }
    | .setup :: l =>
      let s := { s with control := l }
      -- protocol stall
      some (if err then s.usbdEpStall (Usb.ep2hw (s.setup.bRequestType &&& 0x80#8)).toNat true else s)
    | _ => none
  | .tick => match s.control with
    | t :: l => { s with control := l }.run d t
    | [] => none
  | .isr ev done pkt => if s.control = [] then some { s with control := isrTasks ev done pkt } else none

section Step

variable {d : Dev} {s u : Udc}

/-- A call of the class driver comes at its turn, for an endpoint of the device. -/
theorem client_some {c b : Bool} {v : Udc} (hu : (if c && b then some v else none) = some u) : c = true ∧ b = true ∧ v = u := by
  split at hu
  · next hc =>
    rw [Bool.and_eq_true] at hc
    exact ⟨hc.1, hc.2, Option.some.inj hu⟩
  · cases hu

theorem step_ret {err : Bool} (hu : step d s (.ret err) = some u) :
    (∃ l, s.control = .callback :: l ∧ { s with control := l } = u) ∨
    ∃ l, s.control = .setup :: l ∧
      (if err then ({ s with control := l } : Udc).usbdEpStall (Usb.ep2hw (s.setup.bRequestType &&& 0x80#8)).toNat true
        else { s with control := l }) = u := by
  simp only [step] at hu
  split at hu
  · next l hc => exact .inl ⟨l, hc, Option.some.inj hu⟩
  · next l hc => exact .inr ⟨l, hc, Option.some.inj hu⟩
  · cases hu

theorem step_tick (hu : step d s .tick = some u) : ∃ t l, s.control = t :: l ∧ { s with control := l }.run d t = some u := by
  simp only [step] at hu
  split at hu
  · next t l hc => exact ⟨t, l, hc, hu⟩
  · cases hu

theorem step_isr {ev : Events} {done : BitVec 32} {pkt : Setup} (hu : step d s (.isr ev done pkt) = some u) :
    s.control = [] ∧ { s with control := isrTasks ev done pkt } = u := by
  simp only [step] at hu
  split at hu
  · next hc => exact ⟨hc, Option.some.inj hu⟩
  · cases hu

end Step

/-- After `udc_probe`. -/
def init : Udc where
  stage := 0
  setup := ⟨0, 0, 0, 0, 0⟩
  rqLen := 0
  ep e := ⟨false, [], false, false, if e = 0 then 64 else 1024⟩
  reqs _ := ⟨0, 0, false, none, 0, false, 0⟩
  tc _ := none
  rdy _ := false
  stall _ := false
  speed := .unknown
  fwakeup := false
  fspower := false
  control := []
  next := 0
  log := []
  hist := []
  pkt := ⟨0, 0, 0, 0, 0⟩

end Emlinux.Gadget
