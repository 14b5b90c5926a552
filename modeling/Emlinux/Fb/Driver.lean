import Emlinux.Fb.Lcdc

/-!
# The frame buffer driver

`ssl_fb.c` gives each of the three windows a frame buffer. The configuration of a window is in its `sslfb_par`, its mode and its memory in the
`fb_info`; the effects, with the rotation in the low two bits, are in `sslfb.effect` for all windows and are changed through the main one.

* `probe`: a window by its platform data, with the memory it gets. The panel, its clock and the enable bits are left out.
* `varToPar`, `checkVar`, `setPar` and `panDisplay`: the operations that the frame buffer core calls.
* `setWin` and `setEff`: the commands `SSLFBIOSET_WIN` and `SSLFBIOSET_EFF`.
* `Sslfb.put`: a window's record and registers after an operation, with `put_same` and `put_other`.
-/

namespace Emlinux.Fb

/-- `-EINVAL`. -/
def einval : Int := -22

/-- The fields of `fb_var_screeninfo` that the driver reads. -/
structure Var where
  xres : Word
  yres : Word
  xresVirtual : Word
  yresVirtual : Word
  xoffset : Word
  yoffset : Word
  bitsPerPixel : Word
  rotate : Word
deriving DecidableEq, Repr

/-- `sslfb_par`. -/
structure Par where
  cfg : Flt
  vheight : BitVec 16
  offset : Word
deriving DecidableEq, Repr

/-- `fb_info` of a window: `var`, the fields of `fix`, `screen_size` and `par`. -/
structure Info where
  var : Var
  smemStart : Word
  smemLen : Word
  lineLength : Word
  screenSize : Word
  par : Par
deriving DecidableEq, Repr

/-- `sslfb_t`, with the version in `hw`, the `fb_info` of the three windows, and the registers of the controller. -/
structure Sslfb where
  ver : BitVec 16
  effect : Word
  info : Fin 3 → Info
  regs : Lcdcr

/-- `PAGE_ALIGN`. -/
def pageAlign (n : Word) : Word := (n + 4096#32 - 1#32) &&& ~~~(4096#32 - 1#32)

/-! ## Modes -/

/-- The steps of the loop that halves `v` until it is 0, at most `n`. -/
def halvings : Nat → Word → Nat
  | 0, _ => 0
  | n + 1, v => if v = 0#32 then 0 else halvings n (v >>> 1) + 1

/-- The loop has ended when `v` is below the power of two of its steps: a word is 0 after 32 halvings. -/
theorem halvings_enough (k : Nat) : ∀ (n : Nat) (v : Word), v.toNat < 2 ^ k → k ≤ n → halvings n v = halvings k v := by
  induction k with
  | zero =>
    intro n v hv _
    obtain rfl : v = 0#32 := BitVec.eq_of_toNat_eq (Nat.lt_one_iff.mp hv)
    cases n with
    | zero => rfl
    | succ n => exact if_pos rfl
  | succ k ih =>
    intro n v hv hn
    obtain ⟨m, rfl⟩ := Nat.exists_eq_add_of_le' (Nat.le_trans (Nat.succ_pos k) hn)
    have hhalf : (v >>> 1).toNat < 2 ^ k := by
      rw [BitVec.toNat_ushiftRight, Nat.shiftRight_eq_div_pow]
      rw [Nat.pow_succ] at hv
      omega
    rw [halvings, halvings, ih m (v >>> 1) hhalf (by omega)]

/-- `win->pixel` for `bits_per_pixel`. -/
def pixelOf (bitsPerPixel : Word) : BitVec 8 :=
  BitVec.ofNat 8 (halvings 32 (if bitsPerPixel = 15#32 then 16#32 else bitsPerPixel)) - 1#8

/-- `var_to_par`: the result, the `par`, and `sslfb.effect`. -/
def varToPar (wid : Fin 3) (par : Par) (effect : Word) (var : Var) : Int × Par × Word :=
  (0,
    { par with
      vheight := var.xresVirtual.setWidth 16
      cfg := { par.cfg with
        width := var.xres.setWidth 16
        stride := var.xresVirtual.setWidth 16
        height := var.yres.setWidth 16
        pixel := pixelOf var.bitsPerPixel
        x := var.xoffset.setWidth 16
        y := var.yoffset.setWidth 16 } },
    if wid = 0 then effect &&& ~~~3#32 ||| var.rotate else effect)

/-- `sslfb_check_var`: the mode goes to a `par` of its own, which is dropped. -/
def checkVar (s : Sslfb) (wid : Fin 3) (var : Var) : Int × Sslfb :=
  let (rt, _, effect) := varToPar wid (s.info wid).par s.effect var
  (rt, { s with effect := effect })

/-! ## Windows -/

/-- `s` with the record of a window, whose `par` is written to the registers. -/
def Sslfb.put (behind : Nat → BitVec 8) (s : Sslfb) (wid : Fin 3) (info : Info) : Sslfb :=
  { s with info := Function.update s.info wid info, regs := lcdcWinCfg behind s.regs wid info.par.cfg }

/-- What `sslfb_set_par` makes of `fix` and `screen_size` for a mode. -/
def Info.setMode (info : Info) (par : Par) (var : Var) : Info :=
  let lineLength := var.xres <<< (par.cfg.pixel.toNat - 3)
  let smemLen := lineLength * var.yres
  { info with var := var, par := par, lineLength := lineLength, smemLen := smemLen, screenSize := pageAlign smemLen }

/-- `sslfb_set_par`, for the mode that the core has put in `info->var`. `lcdc_win_cfg` and `lcdc_effect` do not fail. -/
def setPar (behind : Nat → BitVec 8) (s : Sslfb) (wid : Fin 3) (var : Var) : Int × Sslfb :=
  let info := s.info wid
  let (rt, par, effect) := varToPar wid info.par s.effect var
  if rt ≠ 0 then (-1, s)
  else
    let s := { s with effect := effect }.put behind wid (info.setMode par var)
    (0, if wid = 0 then { s with regs := lcdcEffect s.ver s.regs s.effect } else s)

/-- `sslfb_pan_display`. -/
def panDisplay (behind : Nat → BitVec 8) (s : Sslfb) (wid : Fin 3) (var : Var) : Sslfb :=
  let info := s.info wid
  let offset := (var.xresVirtual * var.yoffset + var.xoffset) <<< (info.par.cfg.pixel.toNat - 3)
  s.put behind wid { info with
    par := { info.par with offset := offset, cfg := { info.par.cfg with addr := info.smemStart + offset } } }

/-- `sslfb_win_t`. -/
structure SslfbWin where
  x : BitVec 16
  y : BitVec 16
  alpha : BitVec 8
deriving DecidableEq, Repr

/-- `SSLFBIOSET_WIN`. -/
def setWin (behind : Nat → BitVec 8) (s : Sslfb) (wid : Fin 3) (win : SslfbWin) : Int × Sslfb :=
  if wid = 0 then (einval, s)
  else
    let info := s.info wid
    (0, s.put behind wid { info with
      par := { info.par with cfg := { info.par.cfg with x := win.x, y := win.y, alpha := win.alpha } } })

/-- The windows are configured again, all that are probed. -/
def recfg (behind : Nat → BitVec 8) (s : Sslfb) : Sslfb :=
  { s with regs := [0, 1, 2].foldl (fun r wid => lcdcWinCfg behind r wid (s.info wid).par.cfg) s.regs }

/-- `SSLFBIOSET_EFF`. -/
def setEff (behind : Nat → BitVec 8) (s : Sslfb) (wid : Fin 3) (arg : Word) : Int × Sslfb :=
  if wid ≠ 0 then (einval, s)
  else if arg = s.effect then (0, s)
  else
    let rot := s.effect &&& 3#32
    let s := { s with effect := arg, regs := lcdcEffect s.ver s.regs arg }
    (0, if rot ≠ arg &&& 3#32 then recfg behind s else s)

section

variable (behind : Nat → BitVec 8) (s : Sslfb) (wid : Fin 3)

theorem put_same (info : Info) : (s.put behind wid info).info wid = info := Function.update_self ..

variable {wid} in
theorem put_other {w : Fin 3} (h : w ≠ wid) (info : Info) :
    (s.put behind wid info).info w = s.info w ∧ (s.put behind wid info).regs.win w = s.regs.win w :=
  ⟨Function.update_of_ne h _ _, lcdcWinCfg_other _ _ _ h⟩

/-- The `par` of a window by a mode. -/
def parBy (var : Var) : Par := (varToPar wid (s.info wid).par s.effect var).2.1

/-- The windows after `sslfb_set_par`. -/
theorem setPar_windows (var : Var) : (setPar behind s wid var).2.info =
      Function.update s.info wid ((s.info wid).setMode (parBy s wid var) var) ∧
    (setPar behind s wid var).2.regs.win = (lcdcWinCfg behind s.regs wid (parBy s wid var).cfg).win := by
  unfold setPar
  dsimp only
  rw [if_neg (by exact not_not.mpr rfl)]
  split_ifs <;> exact ⟨rfl, rfl⟩

end

/-! ## Probing -/

/-- The platform data of a window: `sslfb_plt_t`, or `sslfbw_plt_t` without effects, in pixels of 8, 16 or 32 bits. -/
structure Plt where
  extramem : Word
  vheight : BitVec 16
  win : Flt
  effect : BitVec 8
  bytes : 3 ≤ win.pixel.toNat ∧ win.pixel.toNat ≤ 5

/-- The configuration with the default stride; the main window, an `lcdc_win_t`, has no offsets and no alpha. -/
def Plt.cfg (plt : Plt) (wid : Fin 3) : Flt :=
  let win := if wid = 0 then { plt.win with x := 0#16, y := 0#16, alpha := 0#8 } else plt.win
  { win with stride := if win.stride = 0#16 then win.width else win.stride }

/-- `vheight`, with its default. -/
def Plt.height (plt : Plt) : BitVec 16 := if plt.vheight = 0#16 then plt.win.height else plt.vheight

/-- `var_from_par`. -/
def varFromPar (wid : Fin 3) (par : Par) (effect : Word) : Var where
  yresVirtual := par.vheight.setWidth 32
  xresVirtual := par.cfg.stride.setWidth 32
  xres := par.cfg.width.setWidth 32
  yres := par.cfg.height.setWidth 32
  xoffset := par.cfg.x.setWidth 32
  yoffset := par.cfg.y.setWidth 32
  bitsPerPixel := 1#32 <<< par.cfg.pixel.toNat
  rotate := if wid = 0 then effect &&& 3#32 else 0#32

/-- The record that `sslfb_probe` makes of a window: `dma` is where memory is allocated, when the platform has none for it. -/
def Plt.info (plt : Plt) (wid : Fin 3) (effect : Word) (dma : Word) : Info :=
  let par : Par := ⟨plt.cfg wid, plt.height, 0#32⟩
  let var := varFromPar wid par effect
  let lineLength := var.xresVirtual * (var.bitsPerPixel >>> 3)
  let smemLen := var.yresVirtual * lineLength + plt.extramem
  let addr := if plt.win.addr = 0#32 then dma else plt.win.addr
  { var := var, smemStart := addr, smemLen := smemLen, lineLength := lineLength, screenSize := smemLen,
    par := { par with cfg := { par.cfg with addr := addr } } }

/-- The main window sets the effects and finds the controller. -/
def Sslfb.attach (s : Sslfb) (wid : Fin 3) (plt : Plt) : Sslfb :=
  if wid = 0 then
    { s with effect := plt.effect.setWidth 32, ver := (lcdcInit s.regs).1, regs := (lcdcInit s.regs).2 }
  else s

/-- `sslfb_probe` of a window. -/
def probe (behind : Nat → BitVec 8) (s : Sslfb) (wid : Fin 3) (plt : Plt) (dma : Word) : Sslfb :=
  let s := s.attach wid plt
  s.put behind wid (plt.info wid s.effect dma)

/-- The three windows are probed, from the main one on. -/
def probed (behind : Nat → BitVec 8) (s : Sslfb) (plt : Fin 3 → Plt) (dma : Fin 3 → Word) : Sslfb :=
  [0, 1, 2].foldl (fun s wid => probe behind s wid (plt wid) (dma wid)) s

section

variable (s : Sslfb) (wid : Fin 3) (plt : Plt)

theorem getRot_attach : getRot (s.attach wid plt).regs.effect = getRot s.regs.effect := by
  unfold Sslfb.attach
  split_ifs
  · exact getRot_lcdcInit _
  · rfl

theorem attach_windows : (s.attach wid plt).info = s.info ∧ (s.attach wid plt).regs.win = s.regs.win := by
  unfold Sslfb.attach
  split_ifs
  · exact ⟨rfl, lcdcInit_win _⟩
  · exact ⟨rfl, rfl⟩

variable (behind : Nat → BitVec 8) (dma : Word)

theorem getRot_probe : getRot (probe behind s wid plt dma).regs.effect = getRot s.regs.effect :=
  (congrArg getRot (lcdcWinCfg_effect ..)).trans (getRot_attach s wid plt)

/-- A window keeps its record and its registers when another one is probed. -/
theorem probe_other {w : Fin 3} (h : w ≠ wid) :
    (probe behind s wid plt dma).info w = s.info w ∧ (probe behind s wid plt dma).regs.win w = s.regs.win w := by
  obtain ⟨hinfo, hwin⟩ := put_other behind (s.attach wid plt) h (plt.info wid (s.attach wid plt).effect dma)
  rw [(attach_windows s wid plt).1] at hinfo
  rw [(attach_windows s wid plt).2] at hwin
  exact ⟨hinfo, hwin⟩

end

/-! ## A board -/

/-- A window of 480 by 272 pixels of 16 bits. -/
def boardPlt (addr : Word) : Plt where
  extramem := 0#32
  vheight := 272#16
  win := ⟨addr, 480#16, 272#16, 480#16, 4#8, 0#16, 0#16, 255#8⟩
  effect := 0#8
  bytes := by
    show 3 ≤ (4#8).toNat ∧ (4#8).toNat ≤ 5
    decide

/-- The driver before the windows are probed, with a controller of version 1. -/
def boardStart : Sslfb where
  ver := 0#16
  effect := 0#32
  info := fun _ => ⟨⟨0, 0, 0, 0, 0, 0, 0, 0⟩, 0, 0, 0, 0, ⟨⟨0, 0, 0, 0, 0, 0, 0, 0⟩, 0, 0⟩⟩
  regs := ⟨0x3810001#32, 0#32, 0#32, 0#32, 0#32, fun _ => ⟨0#32, 0#32, 0#32, 0#32⟩⟩

end Emlinux.Fb
