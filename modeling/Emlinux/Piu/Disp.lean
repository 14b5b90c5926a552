import Emlinux.Lib.Prog

/-!
# The display commands of the DSP

`disp_handler` (`libcalpiu/disp.c`) with `NEED_RESP`: the DSP sends a command in a message, the host configures and starts the VPP, and
answers. The VPP library is there as a binary only, so that its three calls are parameters: what they return, and what becomes of the
library's state. The blackening of the frame buffer is not modelled.

Of the commands that succeed, exactly the `DISP_GET`s are not answered as they are to be (`answered_iff`): their `piu_tx` stands behind the `return` of the
last case of the `switch`.
-/

namespace Emlinux.Disp

open Lib

/-- `piu_msg_t`. -/
structure PiuMsg where
  type : BitVec 32
  len : BitVec 32
  p : Nat → BitVec 8

namespace PiuMsg

variable (m : PiuMsg)

/-- `DISP_U8_TO_U16(m.p + k)`. -/
def u16 (k : Nat) : BitVec 16 := m.p (k + 1) ++ m.p k

/-- `DISP_U8_TO_U32(m.p + k)`. -/
def u32 (k : Nat) : BitVec 32 := m.u16 (k + 2) ++ m.u16 k

/-- `DISP_U8_TO_U16(m.p + k) = v`. -/
def setU16 (k : Nat) (v : BitVec 16) : PiuMsg :=
  { m with p := Function.update (Function.update m.p k (v.truncate 8)) (k + 1) ((v >>> 8).truncate 8) }

theorem u16_setU16 (k : Nat) (v : BitVec 16) : (m.setU16 k v).u16 k = v := by
  unfold u16 setU16
  dsimp only
  rw [Function.update_self, Function.update_of_ne (by omega), Function.update_self]
  apply BitVec.eq_of_getLsbD_eq
  intro i hi
  rw [BitVec.getLsbD_append]
  split_ifs with h
  · simp [h]
  · simp [show i - 8 < 8 by omega, show 8 + (i - 8) = i by omega]

theorem u16_setU16_of_apart {k j : Nat} (v : BitVec 16) (h : j + 2 ≤ k ∨ k + 2 ≤ j) : (m.setU16 k v).u16 j = m.u16 j := by
  unfold u16 setU16
  dsimp only
  rw [Function.update_of_ne (by omega), Function.update_of_ne (by omega), Function.update_of_ne (by omega),
    Function.update_of_ne (by omega)]

end PiuMsg

/-! ## The VPP -/

/-- `vpp_size_t`. -/
structure Size where
  w : BitVec 16
  h : BitVec 16
deriving DecidableEq, Repr

/-- `vpp_pic_e`. -/
inductive PicFormat where
  | yuv444p
  | yuv422p
  | yuv420p
  | yuv411p
  | yuv400p
  | yuv444i
  | yuv422iYuyv
  | yuv422iUyvy
  | rgb32
  | rgb16
deriving DecidableEq, Repr

/-- `vpp_video_t`, with the first of each pair of buffers: the others are not used. -/
structure Video where
  size : Size
  strideY : BitVec 16
  strideCb : BitVec 16
  strideCr : BitVec 16
  format : PicFormat
  pixel : Size
  ybuf : BitVec 32
  cbbuf : BitVec 32
  crbuf : BitVec 32
deriving DecidableEq, Repr

/-- `vpp_cfg_t`: what `disp.c` sets of it. -/
structure Cfg where
  flag : BitVec 32
  trigger : BitVec 32
  display : BitVec 32
  input : Video
  output : Video
deriving DecidableEq, Repr

def fAddr : BitVec 32 := 3#32

def fIn : BitVec 32 := 1#32 <<< 2

def fOut : BitVec 32 := 1#32 <<< 3

/-- The VPP library over its own state: each call returns 0 or an error. -/
structure Vpp (V : Type) where
  init : V → Int × V
  cfg : Cfg → V → Int × V
  start : V → Int × V

/-- What `disp_handler` does outside. -/
inductive Event where
  | vppInit (rc : Int)
  | vppCfg (cfg : Cfg) (rc : Int)
  | vppStart (rc : Int)
  | piuTx (qid : Nat) (m : PiuMsg)

/-- A VPP call that returned an error. -/
def Event.Failed : Event → Prop
  | vppInit rc | vppCfg _ rc | vppStart rc => rc ≠ 0
  | piuTx _ _ => False

/-- `PIU_DISP_QID`. -/
def piuDispQid : Nat := 3

/-- The message sent with `piu_tx(PIU_DISP_QID)`. -/
def Event.response : Event → Option PiuMsg
  | piuTx qid m => if qid = piuDispQid then some m else none
  | _ => none

/-! ## The handler -/

/-- There are three output buffers. -/
instance outputs_pos : NeZero 3 := ⟨by decide⟩

/-- The static and global variables of `disp.c`. -/
structure Display (V : Type) where
  vpp : V
  cfg : Cfg
  /-- `fbp[0]`, `fbp[1]` -/
  window : Size
  /-- `fbp[2]` -/
  stride : BitVec 16
  /-- `vpp_output[]` -/
  vppOutput : Fin 3 → BitVec 32
  jpgHeight : BitVec 16
  jpgSlicesHeight : BitVec 16
  jpgSlicesIndex : BitVec 32
  dispMode : BitVec 16
  partialDispMode : BitVec 16
  rgbElemSize : BitVec 16
  dispDone : BitVec 32
  dispTx : PiuMsg
  dispRx : PiuMsg

def dispVideoMode : BitVec 16 := 0#16

def dispImageMode : BitVec 16 := 1#16

/-- The lower byte of a command id. -/
def dispInit : BitVec 16 := 1#16

def dispSet : BitVec 16 := 2#16

def dispGet : BitVec 16 := 3#16

def dispStart : BitVec 16 := 4#16

def dispCfg : BitVec 16 := 5#16

def dispClose : BitVec 16 := 6#16

/-- The higher byte of a command id. -/
def dispImageProperty : BitVec 16 := 0#16

def dispImageStart : BitVec 16 := 5#16 <<< 8

def dispCfgAll : BitVec 16 := 7#16 <<< 8

def dispCfgBuf : BitVec 16 := 8#16 <<< 8

def dispCfgWidth : BitVec 16 := 9#16 <<< 8

def dispCfgHeight : BitVec 16 := 10#16 <<< 8

def dispCfgScreenSz : BitVec 16 := 11#16 <<< 8

/-- `cmd_id & 0xFF`. -/
def cmdOf (id : BitVec 16) : BitVec 16 := id &&& 0xFF#16

/-- `cmd_id & 0xFF00`. -/
def subOf (id : BitVec 16) : BitVec 16 := id &&& 0xFF00#16

section handler

variable {V : Type} (t : Vpp V)

/-- The programs of the handler. -/
abbrev Handler (V α : Type) : Type := Prog Empty (Display V) Event α

def vppInit : Handler V Int := fun s => ⟨.ok (t.init s.vpp).1, { s with vpp := (t.init s.vpp).2 }, [.vppInit (t.init s.vpp).1]⟩

def vppCfg : Handler V Int := fun s =>
  ⟨.ok (t.cfg s.cfg s.vpp).1, { s with vpp := (t.cfg s.cfg s.vpp).2 }, [.vppCfg s.cfg (t.cfg s.cfg s.vpp).1]⟩

def vppStart : Handler V Int := fun s =>
  ⟨.ok (t.start s.vpp).1, { s with vpp := (t.start s.vpp).2 }, [.vppStart (t.start s.vpp).1]⟩

/-- `piu_tx(PIU_DISP_QID, &disp_tx)`. -/
def piuTx : Handler V Unit := fun s => ⟨.ok (), s, [.piuTx piuDispQid s.dispTx]⟩

/-- `disp_tx.len = 2`, and the command id into `disp_tx.p`. -/
def Display.putId (s : Display V) (id : BitVec 16) : Display V :=
  { s with dispTx := { s.dispTx with len := 2#32 }.setU16 0 id }

/-- `disp_tx.len = 6`, and the command id and two values into `disp_tx.p`. -/
def Display.putSize (s : Display V) (id : BitVec 16) (z : Size) : Display V :=
  { s with dispTx := (({ s.dispTx with len := 6#32 }.setU16 0 id).setU16 2 z.w).setU16 4 z.h }

def Display.withInput (s : Display V) (v : Video) (flag : BitVec 32) : Display V :=
  { s with cfg := { s.cfg with input := v, flag := flag } }

def Display.withOutput (s : Display V) (v : Video) (flag : BitVec 32) : Display V :=
  { s with cfg := { s.cfg with output := v, flag := flag } }

/-- Image mode and a partial display. -/
def Display.Partial (s : Display V) : Prop := s.dispMode = dispImageMode ∧ s.partialDispMode = 1#16

instance (s : Display V) : Decidable s.Partial :=
  inferInstanceAs (Decidable (s.dispMode = dispImageMode ∧ s.partialDispMode = 1#16))

/-- The strides of the output in `piu_vpp_init`. -/
def outputStrides (v : Video) (stride : BitVec 16) : Video :=
  match v.format with
  | .rgb16 | .yuv422iYuyv | .yuv422iUyvy => { v with strideY := stride * 2#16 }
  | .rgb32 => { v with strideY := stride * 4#16 }
  | _ => { v with strideY := stride, strideCb := stride, strideCr := stride }

/-- What `piu_vpp_init` sets before `vpp_init`. -/
def Display.initVars (s : Display V) : Display V :=
  let output := outputStrides { s.cfg.output with size := s.window } s.stride
  { s with
    partialDispMode := 0#16, jpgSlicesHeight := 0#16, jpgSlicesIndex := 0#32
    cfg :=
      { flag := fIn ||| fOut, trigger := 3#32, display := 0#32
        input := { s.cfg.input with pixel := ⟨1#16, 1#16⟩, format := .yuv420p }
        output := { output with pixel := ⟨1#16, 1#16⟩, ybuf := s.vppOutput 0, cbbuf := s.vppOutput 1, crbuf := s.vppOutput 2 } } }

def piuVppInit : Handler V Int := do
  Prog.modify Display.initVars
  vppInit t

/-- The changes of `piu_vpp_cfg`; `none` for an unknown flag. -/
def Display.applyCfg (s : Display V) (flag : BitVec 16) : Option (Display V) :=
  if flag = dispCfgAll then
    let s := s.withInput { s.cfg.input with ybuf := 1#32, cbbuf := 1#32, crbuf := 1#32 } s.cfg.flag
    let h := if s.Partial then s.jpgSlicesHeight else s.cfg.output.size.h
    some (s.withOutput { s.cfg.output with size := ⟨s.cfg.output.size.w, h⟩ } (fIn ||| fOut ||| fAddr))
  else if flag = dispCfgWidth then
    some (s.withInput { s.cfg.input with size := ⟨s.dispRx.u16 4, s.cfg.input.size.h⟩ } fIn)
  else if flag = dispCfgHeight then
    some (s.withInput { s.cfg.input with size := ⟨s.cfg.input.size.w, s.dispRx.u16 4⟩ } fIn)
  else if flag = dispCfgScreenSz then
    some (s.withOutput { s.cfg.output with size := ⟨s.dispRx.u16 4, s.dispRx.u16 6⟩ } fOut)
  else none

def piuVppCfg (flag : BitVec 16) : Handler V Int := do
  let s ← Prog.get
  match s.applyCfg flag with
  | none => pure (-6)
  | some s' =>
    Prog.modify fun _ => s'
    vppCfg t

/-- The `DISP_GET` commands. -/
def getCommand (id : BitVec 16) : Handler V Unit := do
  if subOf id = dispImageProperty then Prog.modify fun s => s.putSize id s.cfg.output.size
  else if subOf id = dispImageStart then Prog.modify fun s => s.putSize id ⟨0#16, 0#16⟩
  else
    -- only this case comes to the end of the switch, where `piu_tx` stands, and it returns before
    pure ()

/-- The buffers of the input that `DISP_CFG_BUF` brings. -/
def Display.inputBufs (s : Display V) : Display V :=
  s.withInput { s.cfg.input with ybuf := s.dispRx.u32 4, cbbuf := s.dispRx.u32 8, crbuf := s.dispRx.u32 12 } fAddr

/-- The output behind the slices before, with `g_jpg_slices_index` moved on. -/
def Display.placeSlice (s : Display V) : Display V :=
  let output := { s.cfg.output with ybuf := s.vppOutput 0 + s.jpgSlicesIndex, cbbuf := 0#32, crbuf := 0#32 }
  { s.withOutput output s.cfg.flag with
    jpgSlicesIndex := s.jpgSlicesIndex +
      s.jpgSlicesHeight.setWidth 32 * s.rgbElemSize.setWidth 32 * s.cfg.output.size.w.setWidth 32 }

/-- What `DISP_CFG | DISP_CFG_BUF` sets. -/
def Display.nextBuf (s : Display V) : Display V := if s.Partial then s.inputBufs.placeSlice else s.inputBufs

def bufCommand : Handler V Unit := do
  Prog.modify Display.nextBuf
  if (← vppCfg t) ≠ 0 then pure ()
  else
    let _ ← vppStart t
    pure ()

/-- `(fbp[1] * cfg.input.size.h) / g_jpg_height`, in `int`. -/
def slicesHeight (window height jpgHeight : BitVec 16) : BitVec 16 :=
  ((window.setWidth 32 * height.setWidth 32).sdiv (jpgHeight.setWidth 32)).setWidth 16

/-- The formats of the sixth value of `DISP_SET`. -/
def inputFormat (k : BitVec 16) (old : PicFormat) : PicFormat :=
  if k = 0#16 then .yuv444p
  else if k = 1#16 then .yuv422p
  else if k = 2#16 then .yuv420p
  else if k = 3#16 then .yuv411p
  else if k = 4#16 then .yuv400p
  else old

/-- The input in `DISP_SET` of the image property. -/
def PiuMsg.input (m : PiuMsg) (v : Video) : Video :=
  let p := fun k => m.u16 (2 + 2 * k)
  { v with
    size := ⟨p 0, p 1⟩, strideY := p 2, strideCb := p 3, strideCr := p 3
    format := if 12 ≤ m.len.toNat then inputFormat (p 4) v.format else v.format
    pixel := if m.len = 16#32 then if p 5 = 0#16 ∨ p 6 = 0#16 then ⟨1#16, 1#16⟩ else ⟨p 5, p 6⟩ else v.pixel }

/-- `DISP_SET` of the image property. -/
def Display.setProperty (s : Display V) : Display V :=
  let s := s.withInput (s.dispRx.input s.cfg.input) (s.cfg.flag ||| fIn)
  if s.dispMode = dispImageMode ∧ s.cfg.input.size.h.toNat < s.jpgHeight.toNat then
    { s with partialDispMode := 1#16, jpgSlicesHeight := slicesHeight s.window.h s.cfg.input.size.h s.jpgHeight }
  else s

/-- The commands other than `DISP_GET` and `DISP_CFG_BUF`; `true` when the response is still to be sent. -/
def otherCommand (id : BitVec 16) : Handler V Bool :=
  if cmdOf id = dispCfg then do
    let _ ← piuVppCfg t (subOf id)
    pure true
  else if cmdOf id = dispSet then
    if subOf id = dispImageProperty then do
      Prog.modify Display.setProperty
      pure true
    else pure false
  else if id = dispInit then do
    if (← piuVppInit t) ≠ 0 then pure false
    else
      Prog.modify fun s => s.putSize id s.cfg.output.size
      piuTx
      pure false
  else if id = dispStart then do
    if (← vppStart t) ≠ 0 then pure false
    else pure true
  else if id = dispClose then do
    Prog.modify fun s => { s with dispMode := dispVideoMode, partialDispMode := 0#16, jpgSlicesIndex := 0#32, dispDone := 1#32 }
    pure true
  else pure false

def dispHandler (msg : PiuMsg) : Handler V Unit := do
  Prog.modify fun s => { s with dispRx := msg }
  let id := msg.u16 0
  if cmdOf id = dispGet then getCommand id
  else if id = dispCfg ||| dispCfgBuf then bufCommand t
  else if ← otherCommand t id then
    Prog.modify fun s => s.putId id
    piuTx
  else pure ()

end handler

/-! ## Answers -/

/-- The responses among the events. -/
def responses (log : List Event) : List PiuMsg := log.filterMap Event.response

/-- A `DISP_GET` with a property that there is. -/
def KnownGet (id : BitVec 16) : Prop := cmdOf id = dispGet ∧ (subOf id = dispImageProperty ∨ subOf id = dispImageStart)

/-- The commands that the DSP waits to be answered. -/
def Known (id : BitVec 16) : Prop :=
  id = dispInit ∨ id = dispStart ∨ id = dispClose ∨ KnownGet id ∨ (cmdOf id = dispSet ∧ subOf id = dispImageProperty) ∨
    (cmdOf id = dispCfg ∧ subOf id ≠ dispCfgBuf)

/-- The values that follow the command id in the answer: the size of the display, the size of the output, the start of the image. -/
def requested {V : Type} (s : Display V) (id : BitVec 16) : List (BitVec 16) :=
  if id = dispInit then [s.window.w, s.window.h]
  else if cmdOf id = dispGet then
    if subOf id = dispImageProperty then [s.cfg.output.size.w, s.cfg.output.size.h] else [0#16, 0#16]
  else []

/-- The answer is the command id with the values behind it. -/
structure Echoes (m : PiuMsg) (id : BitVec 16) (values : List (BitVec 16)) : Prop where
  len : m.len.toNat = 2 + 2 * values.length
  id : m.u16 0 = id
  values : ∀ k (hk : k < values.length), m.u16 (2 + 2 * k) = values[k]

/-- When no VPP call fails, a known command is answered once, and `DISP_CFG | DISP_CFG_BUF` is not. -/
def Answered {V : Type} (t : Vpp V) (s : Display V) (msg : PiuMsg) : Prop :=
  let id := msg.u16 0
  let log := (dispHandler t msg s).log
  (∀ e ∈ log, ¬ e.Failed) →
    (id = dispCfg ||| dispCfgBuf → responses log = []) ∧
    (Known id → ∃ m, responses log = [m] ∧ Echoes m id (requested s id))

section answers

variable {V : Type} {t : Vpp V} {s : Display V} {msg : PiuMsg} {id : BitVec 16}

theorem echoes_putId : Echoes (s.putId id).dispTx id [] :=
  ⟨rfl, PiuMsg.u16_setU16 _ _ _, nofun⟩

theorem echoes_putSize (z : Size) : Echoes (s.putSize id z).dispTx id [z.w, z.h] := by
  unfold Display.putSize
  refine ⟨rfl, ?_, fun k hk => ?_⟩
  · rw [PiuMsg.u16_setU16_of_apart _ _ (by omega), PiuMsg.u16_setU16_of_apart _ _ (by omega), PiuMsg.u16_setU16]
  · match k with
    | 0 => rw [PiuMsg.u16_setU16_of_apart _ _ (by omega), PiuMsg.u16_setU16]; rfl
    | 1 => rw [PiuMsg.u16_setU16]; rfl

theorem getCommand_log (s : Display V) : (getCommand id s).log = [] := by
  unfold getCommand
  split_ifs <;> rfl

/-- A `DISP_GET` sends nothing. -/
theorem dispHandler_get (h : cmdOf (msg.u16 0) = dispGet) : (dispHandler t msg s).log = [] := by
  unfold dispHandler
  rw [Prog.modify_bind, if_pos h]
  exact getCommand_log _

theorem bufCommand_responses (s : Display V) : responses (bufCommand t s).log = [] := by
  unfold bufCommand
  rw [Prog.modify_bind, Prog.bind_ok (vppCfg t) _ rfl]
  split_ifs
  · rfl
  · rw [Prog.bind_ok (vppStart t) _ rfl]
    rfl

theorem piuVppCfg_run (flag : BitVec 16) (s : Display V) :
    ∃ rc s' l, piuVppCfg t flag s = ⟨.ok rc, s', l⟩ ∧ responses l = [] := by
  unfold piuVppCfg
  rw [Prog.get_bind]
  cases s.applyCfg flag with
  | none => exact ⟨-6, s, [], rfl, rfl⟩
  | some s' =>
    dsimp only
    rw [Prog.modify_bind]
    exact ⟨_, _, _, rfl, rfl⟩

/-- The commands that are answered at the end of the handler. -/
def AnsweredLast (id : BitVec 16) : Prop :=
  id = dispStart ∨ id = dispClose ∨ (cmdOf id = dispSet ∧ subOf id = dispImageProperty) ∨ cmdOf id = dispCfg

theorem otherCommand_last (h : AnsweredLast id) (s : Display V) (hok : ∀ e ∈ (otherCommand t id s).log, ¬ e.Failed) :
    ∃ s' l, otherCommand t id s = ⟨.ok true, s', l⟩ ∧ responses l = [] := by
  unfold otherCommand at hok ⊢
  by_cases hcfg : cmdOf id = dispCfg
  · rw [if_pos hcfg]
    obtain ⟨rc, s', l, hrun, hl⟩ := piuVppCfg_run (t := t) (subOf id) s
    rw [Prog.bind_ok _ _ hrun]
    refine ⟨_, _, rfl, ?_⟩
    rw [show (pure true : Handler V Bool) s' = ⟨.ok true, s', []⟩ from rfl, List.append_nil]
    exact hl
  rw [if_neg hcfg] at hok ⊢
  by_cases hset : cmdOf id = dispSet ∧ subOf id = dispImageProperty
  · rw [if_pos hset.1, if_pos hset.2]
    exact ⟨_, _, rfl, rfl⟩
  have hnset : cmdOf id ≠ dispSet := by
    rcases h with rfl | rfl | h | h
    · decide
    · decide
    · exact absurd h hset
    · exact absurd h hcfg
  rw [if_neg hnset] at hok ⊢
  rcases h with rfl | rfl | h | h
  · rw [if_neg (by decide), if_pos rfl] at hok ⊢
    rw [Prog.bind_ok (vppStart t) _ rfl] at hok ⊢
    have hrc : (t.start s.vpp).1 = 0 := not_not.mp (hok _ (List.mem_append_left _ (List.mem_singleton_self _)))
    rw [if_neg (not_not.mpr hrc)]
    exact ⟨_, _, rfl, rfl⟩
  · rw [if_neg (by decide), if_neg (by decide), if_pos rfl]
    exact ⟨_, _, rfl, rfl⟩
  · exact absurd h hset
  · exact absurd h hcfg

theorem otherCommand_init (s : Display V) (hok : ∀ e ∈ (otherCommand t dispInit s).log, ¬ e.Failed) :
    ∃ s' l m, otherCommand t dispInit s = ⟨.ok false, s', l⟩ ∧ responses l = [m] ∧
      Echoes m dispInit [s.window.w, s.window.h] := by
  unfold otherCommand piuVppInit at hok ⊢
  rw [if_neg (by decide), if_neg (by decide), if_pos rfl] at hok ⊢
  rw [Prog.bind_assoc, Prog.modify_bind, Prog.bind_ok (vppInit t) _ rfl] at hok ⊢
  have hrc : (t.init s.initVars.vpp).1 = 0 := not_not.mp (hok _ (List.mem_append_left _ (List.mem_singleton_self _)))
  rw [if_neg (not_not.mpr hrc)]
  refine ⟨_, _, _, rfl, rfl, ?_⟩
  have hsize : s.initVars.cfg.output.size = s.window := by
    unfold Display.initVars outputStrides
    dsimp only
    split <;> rfl
  show Echoes (Display.putSize _ dispInit s.initVars.cfg.output.size).dispTx dispInit _
  rw [hsize]
  exact echoes_putSize s.window

theorem dispHandler_buf (h : msg.u16 0 = dispCfg ||| dispCfgBuf) (s : Display V) :
    dispHandler t msg s = bufCommand t { s with dispRx := msg } := by
  unfold dispHandler
  rw [Prog.modify_bind, h, if_neg (by decide), if_pos rfl]

/-- The other commands: what is left to do is to send the response. -/
theorem dispHandler_other (hget : cmdOf (msg.u16 0) ≠ dispGet) (hbuf : msg.u16 0 ≠ dispCfg ||| dispCfgBuf) (s : Display V) :
    dispHandler t msg s = (otherCommand t (msg.u16 0) >>= fun last => if last then do
      Prog.modify fun s => s.putId (msg.u16 0)
      piuTx
    else pure ()) { s with dispRx := msg } := by
  unfold dispHandler
  rw [Prog.modify_bind, if_neg hget, if_neg hbuf]

theorem otherCommand_ok (hget : cmdOf (msg.u16 0) ≠ dispGet) (hbuf : msg.u16 0 ≠ dispCfg ||| dispCfgBuf)
    (hok : ∀ e ∈ (dispHandler t msg s).log, ¬ e.Failed) :
    ∀ e ∈ (otherCommand t (msg.u16 0) { s with dispRx := msg }).log, ¬ e.Failed := by
  rw [dispHandler_other hget hbuf] at hok
  exact fun e he => hok e (Prog.mem_log_bind _ _ he)

theorem dispHandler_last (hl : AnsweredLast (msg.u16 0)) (hget : cmdOf (msg.u16 0) ≠ dispGet)
    (hbuf : msg.u16 0 ≠ dispCfg ||| dispCfgBuf) (hok : ∀ e ∈ (dispHandler t msg s).log, ¬ e.Failed) :
    ∃ m, responses (dispHandler t msg s).log = [m] ∧ Echoes m (msg.u16 0) [] := by
  obtain ⟨s', l, hrun, hl⟩ := otherCommand_last (t := t) hl _ (otherCommand_ok hget hbuf hok)
  rw [dispHandler_other hget hbuf, Prog.bind_ok _ _ hrun, if_pos rfl]
  refine ⟨(s'.putId (msg.u16 0)).dispTx, ?_, echoes_putId⟩
  show responses (l ++ [.piuTx piuDispQid (s'.putId (msg.u16 0)).dispTx]) = _
  unfold responses at hl ⊢
  rw [List.filterMap_append, hl]
  rfl

theorem dispHandler_init (hi : msg.u16 0 = dispInit) (hok : ∀ e ∈ (dispHandler t msg s).log, ¬ e.Failed) :
    ∃ m, responses (dispHandler t msg s).log = [m] ∧ Echoes m dispInit [s.window.w, s.window.h] := by
  have hget : cmdOf (msg.u16 0) ≠ dispGet := by rw [hi]; decide
  have hbuf : msg.u16 0 ≠ dispCfg ||| dispCfgBuf := by rw [hi]; decide
  have hother := otherCommand_ok hget hbuf hok
  rw [hi] at hother
  obtain ⟨s', l, m, hrun, hl, hm⟩ := otherCommand_init _ hother
  rw [dispHandler_other hget hbuf, hi, Prog.bind_ok _ _ hrun, if_neg Bool.false_ne_true]
  refine ⟨m, ?_, hm⟩
  show responses (l ++ []) = [m]
  rw [List.append_nil]
  exact hl

end answers

theorem buf_not_known {id : BitVec 16} (h : id = dispCfg ||| dispCfgBuf) : ¬ Known id := by
  subst h
  unfold Known KnownGet
  decide

/-- A known command that leaves no event is not answered. -/
theorem not_answered {V : Type} {t : Vpp V} {s : Display V} {msg : PiuMsg} (hlog : (dispHandler t msg s).log = [])
    (hk : Known (msg.u16 0)) : ¬ Answered t s msg := by
  intro h
  have hres := h fun e he => absurd (hlog ▸ he) List.not_mem_nil
  obtain ⟨m, hm, -⟩ := hres.2 hk
  rw [hlog] at hm
  cases hm

/-- The commands of the DSP that succeed are answered as they are to be, exactly when they are not `DISP_GET`s. -/
theorem answered_iff {V : Type} (t : Vpp V) (s : Display V) (msg : PiuMsg) :
    Answered t s msg ↔ ¬ KnownGet (msg.u16 0) := by
  constructor
  · intro h hget
    exact not_answered (dispHandler_get hget.1) (Or.inr (Or.inr (Or.inr (Or.inl hget)))) h
  · intro hnot hok
    by_cases hbuf : msg.u16 0 = dispCfg ||| dispCfgBuf
    · rw [dispHandler_buf hbuf]
      exact ⟨fun _ => bufCommand_responses _, fun hk => absurd hk (buf_not_known hbuf)⟩
    refine ⟨fun hx => absurd hx hbuf, fun hk => ?_⟩
    by_cases hi : msg.u16 0 = dispInit
    · rw [hi, requested, if_pos rfl]
      exact dispHandler_init hi hok
    have hl : AnsweredLast (msg.u16 0) := by
      rcases hk with hk | hk | hk | hk | hk | hk
      · exact absurd hk hi
      · exact Or.inl hk
      · exact Or.inr (Or.inl hk)
      · exact absurd hk hnot
      · exact Or.inr (Or.inr (Or.inl hk))
      · exact Or.inr (Or.inr (Or.inr hk.1))
    have hget : cmdOf (msg.u16 0) ≠ dispGet := by
      intro hx
      rcases hl with h | h | h | h
      · rw [h] at hx; exact absurd hx (by decide)
      · rw [h] at hx; exact absurd hx (by decide)
      · exact absurd (h.1.symm.trans hx) (by decide)
      · exact absurd (h.symm.trans hx) (by decide)
    rw [requested, if_neg hi, if_neg hget]
    exact dispHandler_last hl hget hbuf hok

/-! ## A command without an answer -/

/-- The VPP at its best. -/
def readyVpp : Vpp Unit := ⟨fun v => (0, v), fun _ v => (0, v), fun v => (0, v)⟩

def zeroMsg : PiuMsg := ⟨0#32, 0#32, fun _ => 0#8⟩

def zeroVideo : Video := ⟨⟨0#16, 0#16⟩, 0#16, 0#16, 0#16, .rgb16, ⟨0#16, 0#16⟩, 0#32, 0#32, 0#32⟩

/-- After `disp_init(w, h, stride, {base}, 16)`, in image mode. -/
def imageDisplay (w h stride : BitVec 16) (base : BitVec 32) (jpgHeight : BitVec 16) : Display Unit where
  vpp := ()
  cfg := ⟨0#32, 0#32, 0#32, zeroVideo, zeroVideo⟩
  window := ⟨w, h⟩
  stride := stride
  vppOutput := fun i => if i = 0 then base else 0#32
  jpgHeight := jpgHeight
  jpgSlicesHeight := 0#16
  jpgSlicesIndex := 0#32
  dispMode := dispImageMode
  partialDispMode := 0#16
  rgbElemSize := 2#16
  dispDone := 0#32
  dispTx := { zeroMsg with type := 2#32 }
  dispRx := { zeroMsg with type := 1#32 }

/-- The message of a command with these values. -/
def command (id : BitVec 16) (values : List (BitVec 16)) : PiuMsg :=
  (id :: values).zipIdx.foldl (fun m x => m.setU16 (2 * x.2) x.1) { zeroMsg with type := 1#32 }

/-- The DSP asks for the size of the output, and gets no answer. -/
theorem get_unanswered : ¬ Answered readyVpp (imageDisplay 800 480 800 0x04000000 0) (command dispGet []) := by
  have hknown : Known ((command dispGet []).u16 0) := by
    unfold Known KnownGet
    decide
  exact not_answered (dispHandler_get (by decide)) hknown

end Emlinux.Disp
