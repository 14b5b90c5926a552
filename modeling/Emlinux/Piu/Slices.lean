import Emlinux.Lib.Laid
import Emlinux.Piu.Disp

/-!
# The slices of an image

An image that is sent in parts is scaled into the display window part by part. `DISP_SET` computes the height of a slice as the share of the
window that the part has of the image, rounded down, and each `DISP_CFG_BUF` places a slice behind those before.

A `DISP_SET` of a part that is as high as the image keeps the slice height of an earlier one, which is smaller. With that the rounded
shares never exceed the window, so that the slices lie one behind the other inside it (`slices_inside_window`).
-/

namespace Emlinux.Disp

open Lib

/-- The display window, and the height of the image that is to fill it. -/
structure Frame where
  window : Size
  /-- `vpp_output[0]` -/
  base : BitVec 32
  elemSize : BitVec 16
  jpgHeight : BitVec 16

/-- The bytes of a row of the window. -/
def Frame.rowBytes (f : Frame) : Nat := f.elemSize.toNat * f.window.w.toNat

/-- `fbp[0] * fbp[1] * elem`. -/
def Frame.bytes (f : Frame) : Nat := f.window.h.toNat * f.rowBytes

/-- What the places of the slices depend on. -/
structure Layout where
  frame : Frame
  slicesHeight : BitVec 16
  slicesIndex : BitVec 32
  dispMode : BitVec 16
  partialDispMode : BitVec 16
  /-- the height of the input in effect -/
  height : BitVec 16
  /-- the width of the output -/
  width : BitVec 16

/-- A part of the output, with the height of the input that is scaled into it. -/
structure Slice where
  addr : BitVec 32
  rows : BitVec 16
  width : BitVec 16
  elemSize : BitVec 16
  height : BitVec 16
deriving DecidableEq, Repr

/-- `slice_height * elem * width`. -/
def Slice.bytes (x : Slice) : Nat := x.rows.toNat * (x.elemSize.toNat * x.width.toNat)

namespace Layout

variable (l : Layout)

def Partial : Prop := l.dispMode = dispImageMode ∧ l.partialDispMode = 1#16

instance : Decidable l.Partial := inferInstanceAs (Decidable (l.dispMode = dispImageMode ∧ l.partialDispMode = 1#16))

/-- The part of height `h` is smaller than the image. -/
def IsPart (h : BitVec 16) : Prop := l.dispMode = dispImageMode ∧ h.toNat < l.frame.jpgHeight.toNat

instance (h : BitVec 16) : Decidable (l.IsPart h) :=
  inferInstanceAs (Decidable (l.dispMode = dispImageMode ∧ h.toNat < l.frame.jpgHeight.toNat))

/-- A part of height `h` is announced. -/
def setHeight (h : BitVec 16) : Layout :=
  if l.IsPart h then
    { l with height := h, partialDispMode := 1#16, slicesHeight := Disp.slicesHeight l.frame.window.h h l.frame.jpgHeight }
  else { l with height := h }

/-- The next slice. -/
def slice : Slice := ⟨l.frame.base + l.slicesIndex, l.slicesHeight, l.width, l.frame.elemSize, l.height⟩

/-- `DISP_CFG_BUF` in image mode with a partial display. -/
def nextSlice : Layout :=
  { l with slicesIndex := l.slicesIndex + l.slicesHeight.setWidth 32 * l.frame.elemSize.setWidth 32 * l.width.setWidth 32 }

/-- The message places a slice. -/
def Places (msg : PiuMsg) : Prop := msg.u16 0 = dispCfg ||| dispCfgBuf ∧ l.Partial

instance (msg : PiuMsg) : Decidable (l.Places msg) :=
  inferInstanceAs (Decidable (msg.u16 0 = dispCfg ||| dispCfgBuf ∧ l.Partial))

/-- What a message does to the layout. -/
def step (msg : PiuMsg) : Layout :=
  if msg.u16 0 = dispSet then l.setHeight (msg.u16 4)
  else if l.Places msg then l.nextSlice
  else l

end Layout

/-- The commands that start or end no image, and change neither the height of the input nor the size of the screen by themselves. -/
def KeepsLayout (id : BitVec 16) : Prop :=
  id ≠ dispInit ∧ id ≠ dispClose ∧ id ≠ dispCfg ||| dispCfgHeight ∧ id ≠ dispCfg ||| dispCfgScreenSz

instance (id : BitVec 16) : Decidable (KeepsLayout id) :=
  inferInstanceAs (Decidable (id ≠ dispInit ∧ id ≠ dispClose ∧ id ≠ dispCfg ||| dispCfgHeight ∧ id ≠ dispCfg ||| dispCfgScreenSz))

section code

variable {V : Type} (t : Vpp V) {msg : PiuMsg}

def Display.layout (s : Display V) : Layout where
  frame := ⟨s.window, s.vppOutput 0, s.rgbElemSize, s.jpgHeight⟩
  slicesHeight := s.jpgSlicesHeight
  slicesIndex := s.jpgSlicesIndex
  dispMode := s.dispMode
  partialDispMode := s.partialDispMode
  height := s.cfg.input.size.h
  width := s.cfg.output.size.w

/-- The slice that a message places: where the VPP was told to put its output. -/
def sliceAt (msg : PiuMsg) (s : Display V) : Option Slice :=
  if msg.u16 0 = dispCfg ||| dispCfgBuf ∧ s.Partial then
    some ⟨(dispHandler t msg s).st.cfg.output.ybuf, s.jpgSlicesHeight, s.cfg.output.size.w, s.rgbElemSize, s.cfg.input.size.h⟩
  else none

/-- The slices that the messages place, in their order. -/
def slices : List PiuMsg → Display V → List Slice
  | [], _ => []
  | msg :: msgs, s => (sliceAt t msg s).toList ++ slices msgs (dispHandler t msg s).st

end code

/-! ## The effect of a message -/

section effect

variable {V : Type} {t : Vpp V} {msg : PiuMsg} {id : BitVec 16} (s : Display V)

theorem cmdOf_or_subOf (id : BitVec 16) : cmdOf id ||| subOf id = id := by
  unfold cmdOf subOf
  rw [← BitVec.and_or_distrib_left]
  exact BitVec.and_allOnes

theorem eq_of_parts {a b : BitVec 16} (hc : cmdOf id = a) (hs : subOf id = b) : id = a ||| b := by
  rw [← hc, ← hs, cmdOf_or_subOf]

theorem getCommand_layout : (getCommand id s).st.layout = s.layout := by
  unfold getCommand
  split_ifs <;> rfl

theorem nextBuf_layout : s.nextBuf.layout = if s.Partial then s.layout.nextSlice else s.layout := by
  unfold Display.nextBuf
  split_ifs <;> rfl

theorem bufCommand_layout : (bufCommand t s).st.layout = if s.Partial then s.layout.nextSlice else s.layout := by
  rw [← nextBuf_layout]
  unfold bufCommand
  rw [Prog.modify_bind, Prog.bind_ok (vppCfg t) _ rfl]
  split_ifs <;> rfl

theorem bufCommand_ybuf (h : s.Partial) : (bufCommand t s).st.cfg.output.ybuf = s.vppOutput 0 + s.jpgSlicesIndex := by
  have hbuf : s.nextBuf.cfg.output.ybuf = s.vppOutput 0 + s.jpgSlicesIndex := by
    unfold Display.nextBuf
    rw [if_pos h]
    rfl
  rw [← hbuf]
  unfold bufCommand
  rw [Prog.modify_bind, Prog.bind_ok (vppCfg t) _ rfl]
  split_ifs <;> rfl

theorem setProperty_layout : s.setProperty.layout = s.layout.setHeight (s.dispRx.u16 4) := by
  unfold Display.setProperty Layout.setHeight
  by_cases h : s.dispMode = dispImageMode ∧ (s.dispRx.u16 4).toNat < s.jpgHeight.toNat
  · exact (congrArg Display.layout (if_pos h)).trans (if_pos h).symm
  · exact (congrArg Display.layout (if_neg h)).trans (if_neg h).symm

theorem putId_layout (id : BitVec 16) : (s.putId id).layout = s.layout := rfl

theorem applyCfg_layout {flag : BitVec 16} (hh : flag ≠ dispCfgHeight) (hs : flag ≠ dispCfgScreenSz) {s' : Display V}
    (h : s.applyCfg flag = some s') : s'.layout = s.layout := by
  unfold Display.applyCfg at h
  rw [if_neg hh, if_neg hs] at h
  split_ifs at h <;> cases h <;> rfl

theorem piuVppCfg_layout {flag : BitVec 16} (hh : flag ≠ dispCfgHeight) (hs : flag ≠ dispCfgScreenSz) :
    ∃ rc s' l, piuVppCfg t flag s = ⟨.ok rc, s', l⟩ ∧ s'.layout = s.layout := by
  unfold piuVppCfg
  rw [Prog.get_bind]
  cases h : s.applyCfg flag with
  | none => exact ⟨-6, s, [], rfl, rfl⟩
  | some s' =>
    dsimp only
    rw [Prog.modify_bind]
    have hl := applyCfg_layout s hh hs h
    exact ⟨_, _, _, rfl, hl⟩

/-- Of the other commands that keep the layout, `DISP_SET` alone announces a part. -/
theorem otherCommand_layout (hk : KeepsLayout id) : ∃ last s' log, otherCommand t id s = ⟨.ok last, s', log⟩ ∧
    s'.layout = if id = dispSet then s.layout.setHeight (s.dispRx.u16 4) else s.layout := by
  obtain ⟨hinit, hclose, hheight, hscreen⟩ := hk
  unfold otherCommand
  by_cases hcfg : cmdOf id = dispCfg
  · have hset : id ≠ dispSet := by
      rintro rfl
      exact absurd hcfg (by decide)
    obtain ⟨rc, s', log, hrun, hl⟩ := piuVppCfg_layout (t := t) s (fun h => hheight (eq_of_parts hcfg h))
      (fun h => hscreen (eq_of_parts hcfg h))
    rw [if_pos hcfg, if_neg hset, Prog.bind_ok _ _ hrun]
    exact ⟨_, _, _, rfl, hl⟩
  rw [if_neg hcfg]
  by_cases hset : cmdOf id = dispSet
  · rw [if_pos hset]
    by_cases hsub : subOf id = dispImageProperty
    · have hid : id = dispSet := eq_of_parts hset hsub
      rw [if_pos hsub, if_pos hid]
      exact ⟨_, _, _, rfl, setProperty_layout s⟩
    · have hid : id ≠ dispSet := by
        rintro rfl
        exact hsub (by decide)
      rw [if_neg hsub, if_neg hid]
      exact ⟨_, _, _, rfl, rfl⟩
  have hid : id ≠ dispSet := by
    rintro rfl
    exact hset (by decide)
  rw [if_neg hset, if_neg hinit, if_neg hclose, if_neg hid]
  by_cases hstart : id = dispStart
  · rw [if_pos hstart, Prog.bind_ok (vppStart t) _ rfl]
    split_ifs
    · exact ⟨_, _, _, rfl, rfl⟩
    · exact ⟨_, _, _, rfl, rfl⟩
  · rw [if_neg hstart]
    exact ⟨_, _, _, rfl, rfl⟩

theorem dispHandler_layout (hk : KeepsLayout (msg.u16 0)) : (dispHandler t msg s).st.layout = s.layout.step msg := by
  unfold Layout.step
  by_cases hget : cmdOf (msg.u16 0) = dispGet
  · have hset : msg.u16 0 ≠ dispSet := by
      intro h
      rw [h] at hget
      exact absurd hget (by decide)
    have hbuf : msg.u16 0 ≠ dispCfg ||| dispCfgBuf := by
      intro h
      rw [h] at hget
      exact absurd hget (by decide)
    rw [if_neg hset, if_neg fun h : s.layout.Places msg => hbuf h.1]
    unfold dispHandler
    rw [Prog.modify_bind, if_pos hget]
    exact getCommand_layout _
  by_cases hbuf : msg.u16 0 = dispCfg ||| dispCfgBuf
  · rw [if_neg (by rw [hbuf]; decide), dispHandler_buf hbuf]
    refine (bufCommand_layout _).trans (if_congr ?_ rfl rfl)
    exact ⟨fun h => ⟨hbuf, h⟩, And.right⟩
  · obtain ⟨last, s', log, hrun, hl⟩ := otherCommand_layout (t := t) { s with dispRx := msg } hk
    rw [if_neg fun h : s.layout.Places msg => hbuf h.1, dispHandler_other hget hbuf, Prog.bind_ok _ _ hrun]
    refine Eq.trans ?_ hl
    cases last with
    | false => rfl
    | true => exact putId_layout s' (msg.u16 0)

theorem sliceAt_eq (msg : PiuMsg) : sliceAt t msg s = if s.layout.Places msg then some s.layout.slice else none := by
  unfold sliceAt
  by_cases h : msg.u16 0 = dispCfg ||| dispCfgBuf ∧ s.Partial
  · rw [if_pos h, if_pos (show s.layout.Places msg from h), dispHandler_buf h.1,
      bufCommand_ybuf ({ s with dispRx := msg } : Display V) h.2]
    rfl
  · rw [if_neg h, if_neg (show ¬ s.layout.Places msg from h)]

/-- `DISP_INIT` starts an image, also when the VPP fails. -/
theorem dispHandler_start (hi : msg.u16 0 = dispInit) : (dispHandler t msg s).st.layout =
    { s.layout with slicesHeight := 0#16, slicesIndex := 0#32, partialDispMode := 0#16, width := s.window.w } := by
  have hvars : ∀ s : Display V, s.initVars.layout =
      { s.layout with slicesHeight := 0#16, slicesIndex := 0#32, partialDispMode := 0#16, width := s.window.w } := by
    intro s
    unfold Display.initVars outputStrides
    dsimp only
    split <;> rfl
  rw [dispHandler_other (by rw [hi]; decide) (by rw [hi]; decide), hi]
  unfold otherCommand piuVppInit
  rw [if_neg (by decide), if_neg (by decide), if_pos rfl, Prog.bind_assoc, Prog.bind_assoc, Prog.modify_bind,
    Prog.bind_ok (vppInit t) _ rfl]
  refine Eq.trans ?_ (hvars { s with dispRx := msg })
  split_ifs <;> rfl

end effect

/-! ## The window is not left -/

theorem slicesHeight_toNat {H h J : BitVec 16} (hlt : h.toNat < J.toNat) (hint : H.toNat * h.toNat < 2 ^ 31) :
    (slicesHeight H h J).toNat = H.toNat * h.toNat / J.toNat := by
  have hH : (H.setWidth 32).toNat = H.toNat := BitVec.toNat_setWidth_of_le (by omega)
  have hh : (h.setWidth 32).toNat = h.toNat := BitVec.toNat_setWidth_of_le (by omega)
  have hJ : (J.setWidth 32).toNat = J.toNat := BitVec.toNat_setWidth_of_le (by omega)
  have hmul : (H.setWidth 32 * h.setWidth 32).toNat = H.toNat * h.toNat := by
    rw [BitVec.toNat_mul, hH, hh, Nat.mod_eq_of_lt (by omega)]
  have hmsb : (H.setWidth 32 * h.setWidth 32).msb = false := by
    rw [BitVec.msb_eq_false_iff_two_mul_lt, hmul]
    omega
  have hmsbJ : (J.setWidth 32).msb = false := by
    rw [BitVec.msb_eq_false_iff_two_mul_lt, hJ]
    have := J.isLt
    omega
  have hle : H.toNat * h.toNat / J.toNat ≤ H.toNat := by
    apply Nat.div_le_of_le_mul
    rw [Nat.mul_comm]
    exact Nat.mul_le_mul_right _ hlt.le
  unfold slicesHeight
  rw [BitVec.toNat_setWidth, BitVec.toNat_sdiv, hmsb, hmsbJ]
  show ((H.setWidth 32 * h.setWidth 32) / J.setWidth 32).toNat % 2 ^ 16 = _
  rw [BitVec.toNat_udiv, hmul, hJ, Nat.mod_eq_of_lt (hle.trans_lt H.isLt)]

/-- `rows` rows of the window are used, at most the share of the `used` rows of the image that are in them. The height of the next slice is
at most the share of the part in effect. -/
structure Filled (l : Layout) (rows used : Nat) : Prop where
  width : l.width = l.frame.window.w
  index : l.slicesIndex = BitVec.ofNat 32 (rows * l.frame.rowBytes)
  share : rows * l.frame.jpgHeight.toNat ≤ l.frame.window.h.toNat * used
  next : l.Partial → l.slicesHeight.toNat * l.frame.jpgHeight.toNat ≤ l.frame.window.h.toNat * l.height.toNat
  next_le : l.slicesHeight.toNat ≤ l.frame.window.h.toNat

section filled

variable {l : Layout} {rows used : Nat}

theorem Filled.setHeight (hf : Filled l rows used) {h : BitVec 16}
    (hint : l.IsPart h → l.frame.window.h.toNat * h.toNat < 2 ^ 31) : Filled (l.setHeight h) rows used := by
  unfold Layout.setHeight
  by_cases hp : l.IsPart h
  · rw [if_pos hp]
    have hrows := slicesHeight_toNat hp.2 (hint hp)
    refine ⟨hf.width, hf.index, hf.share, fun _ => ?_, ?_⟩
    · dsimp only
      rw [hrows]
      exact Nat.div_mul_le_self _ _
    · dsimp only
      rw [hrows]
      apply Nat.div_le_of_le_mul
      rw [Nat.mul_comm]
      exact Nat.mul_le_mul_right _ hp.2.le
  · rw [if_neg hp]
    refine ⟨hf.width, hf.index, hf.share, fun hpart => ?_, hf.next_le⟩
    -- the height of the slices is still that of a smaller part
    have hge : l.frame.jpgHeight.toNat ≤ h.toNat := Nat.le_of_not_lt fun hlt => hp ⟨hpart.1, hlt⟩
    exact Nat.mul_le_mul hf.next_le hge

theorem Filled.nextSlice (hf : Filled l rows used) (hp : l.Partial) :
    Filled l.nextSlice (rows + l.slicesHeight.toNat) (used + l.height.toNat) := by
  refine ⟨hf.width, ?_, ?_, hf.next, hf.next_le⟩
  · show l.slicesIndex + l.slicesHeight.setWidth 32 * l.frame.elemSize.setWidth 32 * l.width.setWidth 32 =
      BitVec.ofNat 32 ((rows + l.slicesHeight.toNat) * l.frame.rowBytes)
    rw [hf.index, hf.width, ← BitVec.ofNat_toNat, ← BitVec.ofNat_toNat, ← BitVec.ofNat_toNat, BitVec.ofNat_mul_ofNat,
      BitVec.ofNat_mul_ofNat, BitVec.ofNat_add_ofNat, Nat.mul_assoc, ← Frame.rowBytes, ← Nat.add_mul]
  · show (rows + l.slicesHeight.toNat) * l.frame.jpgHeight.toNat ≤ l.frame.window.h.toNat * (used + l.height.toNat)
    rw [Nat.add_mul, Nat.mul_add]
    exact Nat.add_le_add hf.share (hf.next hp)

/-- Where the next slice is put. -/
theorem Filled.addr (hf : Filled l rows used) (hlt : l.frame.base.toNat + rows * l.frame.rowBytes < 2 ^ 32) :
    l.slice.addr.toNat = l.frame.base.toNat + rows * l.frame.rowBytes := by
  show (l.frame.base + l.slicesIndex).toNat = _
  rw [hf.index, BitVec.toNat_add, BitVec.toNat_ofNat, Nat.add_mod_mod, Nat.mod_eq_of_lt hlt]

theorem Filled.bytes (hf : Filled l rows used) : l.slice.bytes = l.slicesHeight.toNat * l.frame.rowBytes := by
  show l.slicesHeight.toNat * (l.frame.elemSize.toNat * l.width.toNat) = _
  rw [hf.width]
  rfl

/-- The rounded shares of parts that make up the image at most are together no higher than the window. -/
theorem Filled.rows_le (hf : Filled l rows used) (hJ : 0 < l.frame.jpgHeight.toNat) (hused : used ≤ l.frame.jpgHeight.toNat) :
    rows ≤ l.frame.window.h.toNat :=
  Nat.le_of_mul_le_mul_right (hf.share.trans (Nat.mul_le_mul_left _ hused)) hJ

end filled

theorem Layout.step_frame (l : Layout) (msg : PiuMsg) : (l.step msg).frame = l.frame := by
  unfold Layout.step Layout.setHeight
  split_ifs <;> rfl

/-- The product in `DISP_SET` is an `int`. -/
def IntHeight (f : Frame) (msg : PiuMsg) : Prop :=
  msg.u16 0 = dispSet → (msg.u16 4).toNat < f.jpgHeight.toNat → f.window.h.toNat * (msg.u16 4).toNat < 2 ^ 31

instance (f : Frame) (msg : PiuMsg) : Decidable (IntHeight f msg) :=
  inferInstanceAs (Decidable (msg.u16 0 = dispSet → (msg.u16 4).toNat < f.jpgHeight.toNat →
    f.window.h.toNat * (msg.u16 4).toNat < 2 ^ 31))

theorem Layout.step_of_places {l : Layout} {msg : PiuMsg} (h : l.Places msg) : l.step msg = l.nextSlice := by
  unfold Layout.step
  rw [if_neg (by rw [h.1]; decide), if_pos h]

theorem Filled.step {l : Layout} {rows used : Nat} {msg : PiuMsg} (hf : Filled l rows used) (hint : IntHeight l.frame msg)
    (h : ¬ l.Places msg) : Filled (l.step msg) rows used := by
  unfold Layout.step
  by_cases hset : msg.u16 0 = dispSet
  · rw [if_pos hset]
    exact hf.setHeight fun hp => hint hset hp.2
  · rw [if_neg hset, if_neg h]
    exact hf

section run

variable {V : Type} {t : Vpp V} {msg : PiuMsg}

theorem slices_places {s : Display V} (h : s.layout.Places msg) (msgs : List PiuMsg) :
    slices t (msg :: msgs) s = s.layout.slice :: slices t msgs (dispHandler t msg s).st := by
  rw [slices, sliceAt_eq, if_pos h]
  rfl

theorem slices_keeps {s : Display V} (h : ¬ s.layout.Places msg) (msgs : List PiuMsg) :
    slices t (msg :: msgs) s = slices t msgs (dispHandler t msg s).st := by
  rw [slices, sliceAt_eq, if_neg h]
  rfl

/-- From a layout that is filled so far, the slices are laid from there to the end of the window. -/
theorem slices_laid (msgs : List PiuMsg) : ∀ {s : Display V} {rows used : Nat}, Filled s.layout rows used →
    0 < s.layout.frame.jpgHeight.toNat → s.layout.frame.base.toNat + s.layout.frame.bytes < 2 ^ 32 →
    (∀ msg ∈ msgs, KeepsLayout (msg.u16 0) ∧ IntHeight s.layout.frame msg) →
    used + ((slices t msgs s).map (·.height.toNat)).sum ≤ s.layout.frame.jpgHeight.toNat →
    Laid (s.layout.frame.base.toNat + rows * s.layout.frame.rowBytes) (s.layout.frame.base.toNat + s.layout.frame.bytes)
      ((slices t msgs s).map fun x => (x.addr.toNat, x.bytes)) := by
  induction msgs with
  | nil =>
    intro s rows used hf hJ _ _ hsum
    exact .nil (Nat.add_le_add_left (Nat.mul_le_mul_right _ (hf.rows_le hJ hsum)) _)
  | cons msg msgs ih =>
    intro s rows used hf hJ haddr hmsgs hsum
    obtain ⟨hk, hint⟩ := hmsgs msg List.mem_cons_self
    have hrest : ∀ msg ∈ msgs, KeepsLayout (msg.u16 0) ∧ IntHeight s.layout.frame msg := fun m hm =>
      hmsgs m (List.mem_cons_of_mem _ hm)
    have hl := dispHandler_layout (t := t) s hk
    have hframe : (dispHandler t msg s).st.layout.frame = s.layout.frame := by
      rw [hl]
      exact Layout.step_frame _ msg
    have hnext := @ih (dispHandler t msg s).st
    rw [hframe] at hnext
    by_cases hp : s.layout.Places msg
    · rw [slices_places hp] at hsum ⊢
      rw [List.map_cons, List.sum_cons, ← Nat.add_assoc] at hsum
      have hf' : Filled (dispHandler t msg s).st.layout (rows + s.layout.slicesHeight.toNat) (used + s.layout.height.toNat) := by
        rw [hl, Layout.step_of_places hp]
        exact hf.nextSlice hp.2
      have hend := hnext hf' hJ haddr hrest hsum
      have hrows : rows * s.layout.frame.rowBytes ≤ s.layout.frame.bytes :=
        Nat.mul_le_mul_right _ (hf.rows_le hJ (by omega))
      rw [List.map_cons, hf.addr (by omega), hf.bytes]
      apply Laid.cons
      rw [Nat.add_assoc, ← Nat.add_mul]
      exact hend
    · rw [slices_keeps hp] at hsum ⊢
      have hf' : Filled (dispHandler t msg s).st.layout rows used := by
        rw [hl]
        exact hf.step hint hp
      exact hnext hf' hJ haddr hrest hsum

theorem Filled.start (s : Display V) {init : PiuMsg} (hi : init.u16 0 = dispInit) :
    Filled (dispHandler t init s).st.layout 0 0 := by
  rw [dispHandler_start s hi]
  refine ⟨rfl, ?_, ?_, fun hp => absurd hp.2 (show 0#16 ≠ 1#16 by decide), Nat.zero_le _⟩
  · dsimp only
    rw [Nat.zero_mul]
  · rw [Nat.zero_mul]
    exact Nat.zero_le _

end run

/-- From `DISP_INIT`, the slices of parts that are together no higher than the image lie in the display window one behind the other:
each at the sizes of those before, and none on another. -/
theorem slices_inside_window {V : Type} (t : Vpp V) (s : Display V) {init : PiuMsg} (hi : init.u16 0 = dispInit)
    {msgs : List PiuMsg} (hmsgs : ∀ msg ∈ msgs, KeepsLayout (msg.u16 0) ∧ IntHeight s.layout.frame msg)
    (hJ : 0 < s.layout.frame.jpgHeight.toNat) (haddr : s.layout.frame.base.toNat + s.layout.frame.bytes < 2 ^ 32)
    (hsum : ((slices t msgs (dispHandler t init s).st).map (·.height.toNat)).sum ≤ s.layout.frame.jpgHeight.toNat) :
    let l := slices t msgs (dispHandler t init s).st
    ∀ k (hk : k < l.length),
      l[k].addr.toNat = s.layout.frame.base.toNat + ((l.take k).map Slice.bytes).sum ∧
      ((l.take k).map Slice.bytes).sum + l[k].bytes ≤ s.layout.frame.bytes ∧
      ∀ j (hj : j < k), l[j].addr.toNat + l[j].bytes ≤ l[k].addr.toNat := by
  intro l k hk
  have hframe : (dispHandler t init s).st.layout.frame = s.layout.frame := by
    rw [dispHandler_start s hi]
  have hlaid := slices_laid msgs (Filled.start (t := t) s hi) (hframe ▸ hJ) (hframe ▸ haddr) (hframe ▸ hmsgs)
    (by rw [hframe, Nat.zero_add]; exact hsum)
  rw [hframe, Nat.zero_mul, Nat.add_zero] at hlaid
  have hlen : k < (l.map fun x => (x.addr.toNat, x.bytes)).length := by rwa [List.length_map]
  have hstart : l[k].addr.toNat = s.layout.frame.base.toNat + ((l.take k).map Slice.bytes).sum := by
    have h := hlaid.start_eq k hlen
    rw [List.getElem_map, ← List.map_take, List.map_map] at h
    exact h
  have hend : l[k].addr.toNat + l[k].bytes ≤ s.layout.frame.base.toNat + s.layout.frame.bytes := by
    have h := hlaid.end_le k hlen
    rw [List.getElem_map] at h
    exact h
  refine ⟨hstart, by omega, fun j hj => ?_⟩
  · have hapart := hlaid.apart j k hlen hj
    rw [List.getElem_map, List.getElem_map] at hapart
    exact hapart

/-- The parts of 3, 3 and 1 rows of an image of 7, for a window of 4 × 5. -/
def smallSlices : List Slice :=
  slices readyVpp
    [command dispSet [64, 3, 64, 32], command (dispCfg ||| dispCfgBuf) [], command (dispCfg ||| dispCfgBuf) [],
      command dispSet [64, 1, 64, 32], command (dispCfg ||| dispCfgBuf) []]
    (dispHandler readyVpp (command dispInit []) (imageDisplay 4 5 4 0x04000000 7)).st

/-- They become slices of 2, 2 and no rows. -/
theorem slices_inside_small :
    smallSlices.map (fun x => (x.addr.toNat - 0x04000000, x.bytes)) = [(0, 16), (16, 16), (32, 0)] ∧
    ∀ k (hk : k < smallSlices.length),
      smallSlices[k].addr.toNat = 0x04000000 + ((smallSlices.take k).map Slice.bytes).sum ∧
      ((smallSlices.take k).map Slice.bytes).sum + smallSlices[k].bytes ≤ 40 ∧
      ∀ j (hj : j < k), smallSlices[j].addr.toNat + smallSlices[j].bytes ≤ smallSlices[k].addr.toNat :=
  ⟨by decide +kernel, slices_inside_window readyVpp _ (by decide) (by decide +kernel) (by decide) (by decide) (by decide +kernel)⟩

end Emlinux.Disp
