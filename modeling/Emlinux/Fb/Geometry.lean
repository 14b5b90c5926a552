import Emlinux.Fb.Driver
import Emlinux.Lib.Field
import Emlinux.Lib.Raster
import Emlinux.Lib.Run

/-!
# The geometry of the frame buffers

`sslfb_probe` gives a window memory for its virtual size. `sslfb_check_var` accepts every mode, `sslfb_set_par` takes the line and the memory
lengths from the visible size and the stride from the virtual width, and `sslfb_pan_display` moves the address by the virtual width it gets.

* `Sslfb.change`: a mode change or a pan by the frame buffer core, on any of the windows, without rotation.
* `Consistent`: the line length is the stride of the window, and its lengths and what it scans out are within its memory.
* `Change.Fits`: the modes and the pans that keep this, and `Plt.Fits` the platform data from which it holds.
* `geometry_iff`: the runs in which it always holds. `virtual_width_splits` is a mode that is wider than it is visible.
-/

namespace Emlinux.Fb

open Lib

variable (behind : Nat → BitVec 8)

/-! ## Changes -/

/-- A mode change by the core: `sslfb_set_par` when `sslfb_check_var` returns 0. -/
def modeChange (s : Sslfb) (wid : Fin 3) (var : Var) : Sslfb :=
  let (rt, s) := checkVar s wid var
  if rt = 0 then (setPar behind s wid var).2 else s

/-- A pan by the core, which keeps the offsets in `info->var`. -/
def fbPan (s : Sslfb) (wid : Fin 3) (var : Var) : Sslfb :=
  let s := panDisplay behind s wid var
  let info := s.info wid
  { s with info := Function.update s.info wid { info with
    var := { info.var with xoffset := var.xoffset, yoffset := var.yoffset } } }

inductive Change where
  | mode (wid : Fin 3) (var : Var)
  | pan (wid : Fin 3) (var : Var)

/-- A mode without rotation, of 8, 16 or 32 bits per pixel. -/
def Var.Plain (var : Var) : Prop :=
  var.rotate = 0#32 ∧ (var.bitsPerPixel = 8#32 ∨ var.bitsPerPixel = 16#32 ∨ var.bitsPerPixel = 32#32)

instance (var : Var) : Decidable var.Plain := inferInstanceAs (Decidable (_ ∧ _))

/-- The offsets leave the visible size within the virtual one: what the core checks before it pans. -/
def Info.Shows (info : Info) (var : Var) : Prop :=
  var.xoffset.toNat + info.var.xres.toNat ≤ info.var.xresVirtual.toNat ∧
    var.yoffset.toNat + info.var.yres.toNat ≤ info.var.yresVirtual.toNat

instance (info : Info) (var : Var) : Decidable (info.Shows var) := inferInstanceAs (Decidable (_ ∧ _))

def Sslfb.change (s : Sslfb) : Change → Option Sslfb
  | .mode wid var => if var.Plain then some (modeChange behind s wid var) else none
  | .pan wid var => if (s.info wid).Shows var then some (fbPan behind s wid var) else none

/-! ## Memory -/

/-- The memory of a window. -/
structure Memory where
  start : Nat
  len : Nat

/-- `smem_len` bytes from `smem_start` on, in whole pages. -/
def Info.memory (i : Info) : Memory := ⟨i.smemStart.toNat, alignUp i.smemLen.toNat 4096⟩

/-- The bytes of a pixel. -/
def Flt.bytes (c : Flt) : Nat := 2 ^ (c.pixel.toNat - 3)

/-- The bytes that a window scans out: its lines of its pixels, from its registers. -/
def scanOut (r : WinRegs) (c : Flt) : Set Nat :=
  raster r.addr.toNat r.stride.toNat c.height.toNat (c.width.toNat * c.bytes)

structure Consistent (m : Memory) (r : WinRegs) (i : Info) : Prop where
  line : i.lineLength = r.stride
  smem : i.smemLen.toNat ≤ m.len
  screen : i.screenSize.toNat ≤ m.len
  inside : scanOut r i.par.cfg ⊆ Set.Ico m.start (m.start + m.len)

/-- The geometry of all windows, each in its memory. -/
def AllConsistent (mem : Fin 3 → Memory) (s : Sslfb) : Prop := ∀ w, Consistent (mem w) (s.regs.win w) (s.info w)

/-- Lines of `len` bytes, `stride` apart, from an offset on in a memory. -/
def Memory.Fits (m : Memory) (offset stride rows len : Nat) : Prop :=
  rows = 0 ∨ len = 0 ∨ offset + (rows - 1) * stride + len ≤ m.len

instance (m : Memory) (offset stride rows len : Nat) : Decidable (m.Fits offset stride rows len) :=
  inferInstanceAs (Decidable (_ ∨ _))

/-- The bytes of a pixel by a mode. -/
def Var.bytes (var : Var) : Nat := var.bitsPerPixel.toNat / 8

/-- The width of the mode needs no more than 16 bits (but for bits that a line in bytes loses), its virtual width is the same in 16 bits, or
0, and its lines are within the memory, all from its start and those that are scanned from where the window was panned to. -/
def Info.ModeFits (m : Memory) (i : Info) (var : Var) : Prop :=
  let width := var.xres.toNat % 2 ^ 16
  var.xres.toNat % (2 ^ 32 / var.bytes) < 2 ^ 16 ∧
    (var.xresVirtual.toNat % 2 ^ 16 = 0 ∨ var.xresVirtual.toNat % 2 ^ 16 = width) ∧
    width * var.bytes * var.yres.toNat % 2 ^ 32 ≤ m.len ∧
    m.Fits i.par.offset.toNat (width * var.bytes) (var.yres.toNat % 2 ^ 16) (width * var.bytes)

/-- The window fits from the offsets of the pan on, by the virtual width that comes with them. -/
def Info.PanFits (m : Memory) (i : Info) (var : Var) : Prop :=
  let c := i.par.cfg
  m.Fits ((var.xresVirtual.toNat * var.yoffset.toNat + var.xoffset.toNat) * c.bytes % 2 ^ 32) i.lineLength.toNat c.height.toNat
    (c.width.toNat * c.bytes)

def Change.Fits (mem : Fin 3 → Memory) (s : Sslfb) : Change → Prop
  | .mode wid var => (s.info wid).ModeFits (mem wid) var
  | .pan wid var => (s.info wid).PanFits (mem wid) var

instance (mem : Fin 3 → Memory) (s : Sslfb) : ∀ a : Change, Decidable (a.Fits mem s)
  | .mode _ _ => inferInstanceAs (Decidable (_ ∧ _ ∧ _ ∧ _))
  | .pan wid _ => inferInstanceAs (Decidable ((mem wid).Fits _ _ _ _))

/-- The visible size is within the memory for the virtual size and the extra bytes. -/
def Plt.Fits (plt : Plt) : Prop :=
  let stride := if plt.win.stride = 0#16 then plt.win.width.toNat else plt.win.stride.toNat
  let len := (plt.height.toNat * (stride * plt.win.bytes) + plt.extramem.toNat) % 2 ^ 32
  (⟨0, alignUp len 4096⟩ : Memory).Fits 0 (stride * plt.win.bytes) plt.win.height.toNat (plt.win.width.toNat * plt.win.bytes)

instance (plt : Plt) : Decidable plt.Fits := inferInstanceAs (Decidable (Memory.Fits ⟨_, _⟩ _ _ _ _))

/-! ## Bytes -/

section Bytes

variable {c : Flt}

theorem Flt.bytes_cases (h : c.pixel.toNat ≤ 5) : c.bytes = 1 ∨ c.bytes = 2 ∨ c.bytes = 4 := by
  have hle : c.pixel.toNat - 3 ≤ 2 := by omega
  unfold Flt.bytes
  interval_cases c.pixel.toNat - 3
  · exact .inl rfl
  · exact .inr (.inl rfl)
  · exact .inr (.inr rfl)

theorem toNat_shl_bytes (w : Word) (c : Flt) : (w <<< (c.pixel.toNat - 3)).toNat = w.toNat * c.bytes % 2 ^ 32 := by
  rw [BitVec.toNat_shiftLeft, Nat.shiftLeft_eq]
  rfl

theorem strideBytes_toNat (h : c.pixel.toNat ≤ 5) :
    c.strideBytes.toNat = (if c.stride = 0#16 then c.width.toNat else c.stride.toNat) * c.bytes := by
  have hval : ∀ v : BitVec 16, (v.setWidth 32 <<< (c.pixel.toNat - 3)).toNat = v.toNat * c.bytes := by
    intro v
    have hv := v.isLt
    rw [toNat_shl_bytes, BitVec.toNat_setWidth_of_le (by decide)]
    rcases Flt.bytes_cases h with hb | hb | hb <;> rw [hb] <;> omega
  unfold Flt.strideBytes
  split_ifs
  · exact hval _
  · exact hval _

/-- The pixel size of a mode. -/
theorem Var.Plain.pixel {var : Var} (h : var.Plain) :
    (pixelOf var.bitsPerPixel).toNat ≤ 5 ∧ 2 ^ ((pixelOf var.bitsPerPixel).toNat - 3) = var.bytes := by
  unfold Var.bytes
  rcases h.2 with hb | hb | hb <;> rw [hb] <;> decide

/-- A length in whole pages is no higher than a limit in whole pages that it is within. -/
theorem pageAlign_le {n : Word} {len : Nat} (hd : 4096 ∣ len) (h : n.toNat ≤ len) (hlen : len ≤ 2 ^ 32) : (pageAlign n).toNat ≤ len := by
  have hn := n.isLt
  have hval : (pageAlign n).toNat = (n.toNat + 4095) % 2 ^ 32 / 2 ^ 12 * 2 ^ 12 := by
    have hword : n + 4096#32 - 1#32 = n + 4095#32 := add_sub_assoc n 4096#32 1#32
    have hlow := toNat_and_not_low (n + 4095#32) 12 (by decide)
    rw [BitVec.toNat_add] at hlow
    rw [pageAlign, hword]
    exact hlow
  obtain ⟨k, rfl⟩ := hd
  rw [hval]
  omega

end Bytes

/-! ## Programmed windows -/

/-- The record of a window with memory from `start` on. -/
structure Info.Sound (start : Word) (i : Info) : Prop where
  start : i.smemStart = start
  addr : i.par.cfg.addr = i.smemStart + i.par.offset
  pixel : i.par.cfg.pixel.toNat ≤ 5

/-- And the registers, without rotation. -/
structure Programmed (start : Word) (r : WinRegs) (i : Info) : Prop extends i.Sound start where
  regAddr : r.addr = i.par.cfg.addr
  regStride : r.stride = i.par.cfg.strideBytes

section Windows

variable {behind} {m : Memory} {start : Word} {r : WinRegs} {i : Info} {s : Sslfb} {wid : Fin 3} {var : Var}

theorem Info.Sound.programmed {regs : Lcdcr} (hrot : getRot regs.effect = 0#32) (h : i.Sound start) :
    Programmed start ((lcdcWinCfg behind regs wid i.par.cfg).win wid) i := by
  obtain ⟨haddr, hstride, -⟩ := lcdcWinCfg_same behind regs wid i.par.cfg
  refine ⟨h, ?_, hstride⟩
  rw [haddr, hrot]
  exact BitVec.add_zero _

/-- What a window scans out is within its memory, by its offset there. -/
theorem Programmed.scanOut_iff (h : Programmed start r i) (hm : m.start = start.toNat) (hlen : m.start + m.len ≤ 2 ^ 32) :
    scanOut r i.par.cfg ⊆ Set.Ico m.start (m.start + m.len) ↔
      m.Fits i.par.offset.toNat r.stride.toNat i.par.cfg.height.toNat (i.par.cfg.width.toNat * i.par.cfg.bytes) := by
  have haddr : r.addr.toNat = (m.start + i.par.offset.toNat) % 2 ^ 32 := by
    rw [h.regAddr, h.addr, h.start, BitVec.toNat_add, hm]
  have hoff := i.par.offset.isLt
  have hstart : m.start < 2 ^ 32 := hm ▸ start.isLt
  rw [scanOut, raster_subset_Ico_iff, Memory.Fits, haddr]
  generalize i.par.cfg.width.toNat * i.par.cfg.bytes = len
  generalize (i.par.cfg.height.toNat - 1) * r.stride.toNat = rest
  omega

/-- The line of a mode and the stride for it. -/
theorem line_iff {x v b : Nat} (hx : x < 2 ^ 32) (hb : b = 1 ∨ b = 2 ∨ b = 4) :
    x * b % 2 ^ 32 = (if v % 2 ^ 16 = 0 then x % 2 ^ 16 else v % 2 ^ 16) * b ↔
      x % (2 ^ 32 / b) < 2 ^ 16 ∧ (v % 2 ^ 16 = 0 ∨ v % 2 ^ 16 = x % 2 ^ 16) := by
  rcases hb with rfl | rfl | rfl <;> split_ifs <;> omega

theorem Info.Sound.setMode (h : (s.info wid).Sound start) (hv : var.Plain) :
    ((s.info wid).setMode (parBy s wid var) var).Sound start := ⟨h.start, h.addr, hv.pixel.1⟩

/-- The stride register and the line length of a window that got a mode. -/
theorem mode_stride (hv : var.Plain) (hr : Programmed start r ((s.info wid).setMode (parBy s wid var) var)) :
    r.stride.toNat = (if var.xresVirtual.toNat % 2 ^ 16 = 0 then var.xres.toNat % 2 ^ 16 else var.xresVirtual.toNat % 2 ^ 16) *
        var.bytes ∧
      ((s.info wid).setMode (parBy s wid var) var).lineLength.toNat = var.xres.toNat * var.bytes % 2 ^ 32 := by
  have hbytes : (parBy s wid var).cfg.bytes = var.bytes := hv.pixel.2
  have hzero : var.xresVirtual.setWidth 16 = 0#16 ↔ var.xresVirtual.toNat % 2 ^ 16 = 0 := by
    rw [← BitVec.toNat_inj, BitVec.toNat_setWidth]
    rfl
  constructor
  · rw [hr.regStride, strideBytes_toNat hr.pixel]
    show (if var.xresVirtual.setWidth 16 = 0#16 then (var.xres.setWidth 16).toNat else (var.xresVirtual.setWidth 16).toNat) *
      (parBy s wid var).cfg.bytes = _
    rw [hbytes, BitVec.toNat_setWidth, BitVec.toNat_setWidth]
    simp only [hzero]
  · rw [← hbytes]
    exact toNat_shl_bytes var.xres (parBy s wid var).cfg

/-- What is scanned out in a mode whose stride is its width. -/
theorem mode_scan_iff (hv : var.Plain) (hr : Programmed start r ((s.info wid).setMode (parBy s wid var) var))
    (hm : m.start = start.toNat) (hlen : m.start + m.len ≤ 2 ^ 32) (hs : r.stride.toNat = var.xres.toNat % 2 ^ 16 * var.bytes) :
    scanOut r ((s.info wid).setMode (parBy s wid var) var).par.cfg ⊆ Set.Ico m.start (m.start + m.len) ↔
      m.Fits (s.info wid).par.offset.toNat (var.xres.toNat % 2 ^ 16 * var.bytes) (var.yres.toNat % 2 ^ 16)
        (var.xres.toNat % 2 ^ 16 * var.bytes) := by
  have hbytes : (parBy s wid var).cfg.bytes = var.bytes := hv.pixel.2
  rw [hr.scanOut_iff hm hlen, hs]
  show m.Fits (s.info wid).par.offset.toNat _ (var.yres.setWidth 16).toNat
    ((var.xres.setWidth 16).toNat * (parBy s wid var).cfg.bytes) ↔ _
  rw [hbytes, BitVec.toNat_setWidth, BitVec.toNat_setWidth]

theorem consistent_mode_iff (hv : var.Plain) (hr : Programmed start r ((s.info wid).setMode (parBy s wid var) var))
    (hm : m.start = start.toNat) (hlen : m.start + m.len ≤ 2 ^ 32) (hd : 4096 ∣ m.len) :
    Consistent m r ((s.info wid).setMode (parBy s wid var) var) ↔ (s.info wid).ModeFits m var := by
  obtain ⟨hstride, hlineLength⟩ := mode_stride hv hr
  have hb : var.bytes = 1 ∨ var.bytes = 2 ∨ var.bytes = 4 := hv.pixel.2 ▸ Flt.bytes_cases (c := (parBy s wid var).cfg) hv.pixel.1
  have hline : ((s.info wid).setMode (parBy s wid var) var).lineLength = r.stride ↔ var.xres.toNat % (2 ^ 32 / var.bytes) < 2 ^ 16 ∧
      (var.xresVirtual.toNat % 2 ^ 16 = 0 ∨ var.xresVirtual.toNat % 2 ^ 16 = var.xres.toNat % 2 ^ 16) := by
    rw [← BitVec.toNat_inj, hlineLength, hstride]
    exact line_iff var.xres.isLt hb
  have hwidth : (var.xresVirtual.toNat % 2 ^ 16 = 0 ∨ var.xresVirtual.toNat % 2 ^ 16 = var.xres.toNat % 2 ^ 16) →
      r.stride.toNat = var.xres.toNat % 2 ^ 16 * var.bytes := by
    intro hx
    rw [hstride]
    split_ifs with h0
    · rfl
    · rw [hx.resolve_left h0]
  have hsmem : ((s.info wid).setMode (parBy s wid var) var).smemLen.toNat =
      ((s.info wid).setMode (parBy s wid var) var).lineLength.toNat * var.yres.toNat % 2 ^ 32 := BitVec.toNat_mul ..
  constructor
  · intro hc
    obtain ⟨hx, hxv⟩ := hline.mp hc.line
    have hlen' := hc.smem
    rw [hsmem, hc.line, hwidth hxv] at hlen'
    exact ⟨hx, hxv, hlen', (mode_scan_iff hv hr hm hlen (hwidth hxv)).mp hc.inside⟩
  · rintro ⟨hx, hxv, hlen', hscan⟩
    have heq := hline.mpr ⟨hx, hxv⟩
    have hle : ((s.info wid).setMode (parBy s wid var) var).smemLen.toNat ≤ m.len := by
      rw [hsmem, heq, hwidth hxv]
      exact hlen'
    exact ⟨heq, hle, pageAlign_le hd hle (by omega), (mode_scan_iff hv hr hm hlen (hwidth hxv)).mpr hscan⟩

/-! ## Pans -/

/-- The record of a window that was panned. -/
def Info.pan (i : Info) (var : Var) : Info :=
  let offset := (var.xresVirtual * var.yoffset + var.xoffset) <<< (i.par.cfg.pixel.toNat - 3)
  { i with
    var := { i.var with xoffset := var.xoffset, yoffset := var.yoffset }
    par := { i.par with offset := offset, cfg := { i.par.cfg with addr := i.smemStart + offset } } }

theorem Info.Sound.pan (h : i.Sound start) (var : Var) : (i.pan var).Sound start := ⟨h.start, rfl, h.pixel⟩

theorem pan_offset (i : Info) (var : Var) : (i.pan var).par.offset.toNat =
    (var.xresVirtual.toNat * var.yoffset.toNat + var.xoffset.toNat) * i.par.cfg.bytes % 2 ^ 32 := by
  refine (toNat_shl_bytes _ i.par.cfg).trans ?_
  rw [BitVec.toNat_add, BitVec.toNat_mul, Nat.mod_add_mod, Nat.mod_mul_mod]

/-- The stride does not change by a pan, and with it only what is scanned out may leave the memory. -/
theorem consistent_pan_iff {r' : WinRegs} (hc : Consistent m r i) (hr : Programmed start r i) (hr' : Programmed start r' (i.pan var))
    (hm : m.start = start.toNat) (hlen : m.start + m.len ≤ 2 ^ 32) : Consistent m r' (i.pan var) ↔ i.PanFits m var := by
  have hstride : r'.stride = i.lineLength := by
    rw [hr'.regStride, hc.line, hr.regStride]
    rfl
  have hscan := hr'.scanOut_iff hm hlen
  rw [pan_offset, hstride] at hscan
  constructor
  · exact fun h => hscan.mp h.inside
  · exact fun h => ⟨hstride.symm, hc.smem, hc.screen, hscan.mpr h⟩

end Windows

/-! ## Steps -/

/-- A step that replaced the record of a window and programmed it, without rotation. -/
structure Rewritten (s t : Sslfb) (wid : Fin 3) (i : Info) : Prop where
  info : t.info = Function.update s.info wid i
  win : t.regs.win = (lcdcWinCfg behind s.regs wid i.par.cfg).win
  rot : getRot t.regs.effect = 0#32

/-- The windows of a display without rotation, each with its memory from where it starts. -/
structure Ready (start : Fin 3 → Word) (s : Sslfb) : Prop where
  rot : getRot s.regs.effect = 0#32
  windows : ∀ w, Programmed (start w) (s.regs.win w) (s.info w)

/-- Whole pages from the starts on, within the addresses. -/
structure Backed (start : Fin 3 → Word) (mem : Fin 3 → Memory) : Prop where
  start : ∀ w, (mem w).start = (start w).toNat
  len : ∀ w, (mem w).start + (mem w).len ≤ 2 ^ 32
  pages : ∀ w, 4096 ∣ (mem w).len

section Steps

variable {behind} {start : Fin 3 → Word} {mem : Fin 3 → Memory} {s t : Sslfb} {wid : Fin 3} {i : Info} {var : Var}

theorem Rewritten.same (h : Rewritten behind s t wid i) :
    t.info wid = i ∧ t.regs.win wid = (lcdcWinCfg behind s.regs wid i.par.cfg).win wid := by
  rw [h.info, h.win]
  exact ⟨Function.update_self .., rfl⟩

theorem Rewritten.other (h : Rewritten behind s t wid i) {w : Fin 3} (hw : w ≠ wid) :
    t.info w = s.info w ∧ t.regs.win w = s.regs.win w := by
  rw [h.info, h.win]
  exact ⟨Function.update_of_ne hw _ _, lcdcWinCfg_other _ _ _ hw⟩

theorem Rewritten.ready (h : Rewritten behind s t wid i) (hs : Ready start s) (hi : i.Sound (start wid)) : Ready start t := by
  refine ⟨h.rot, fun w => ?_⟩
  by_cases hw : w = wid
  · subst hw
    rw [h.same.1, h.same.2]
    exact hi.programmed hs.rot
  · rw [(h.other hw).1, (h.other hw).2]
    exact hs.windows w

/-- Only the geometry of that window may change. -/
theorem Rewritten.allConsistent_iff (h : Rewritten behind s t wid i) (hs : AllConsistent mem s) :
    AllConsistent mem t ↔ Consistent (mem wid) (t.regs.win wid) i := by
  constructor
  · intro ht
    have hw := ht wid
    rwa [h.same.1] at hw
  · intro hc w
    by_cases hw : w = wid
    · subst hw
      rw [h.same.1]
      exact hc
    · rw [(h.other hw).1, (h.other hw).2]
      exact hs w

variable (behind wid) in
theorem modeChange_rewritten (hrot : getRot s.regs.effect = 0#32) (hv : var.Plain) :
    Rewritten behind s (modeChange behind s wid var) wid ((s.info wid).setMode (parBy s wid var) var) := by
  have hmode : modeChange behind s wid var = (setPar behind (checkVar s wid var).2 wid var).2 := by
    unfold modeChange
    exact if_pos rfl
  obtain ⟨hinfo, hwin⟩ := setPar_windows behind (checkVar s wid var).2 wid var
  refine ⟨hmode ▸ hinfo, hmode ▸ hwin, ?_⟩
  rw [hmode]
  by_cases hw : wid = 0
  · subst hw
    exact (getRot_effectWord ..).trans ((getRot_replaced (by rw [hv.1]; decide)).trans hv.1)
  · have heff : (setPar behind (checkVar s wid var).2 wid var).2.regs.effect = s.regs.effect := by
      simp only [setPar, checkVar, varToPar, Sslfb.put, if_neg hw, ne_eq, not_true_eq_false, if_false, lcdcWinCfg_effect]
    rw [heff]
    exact hrot

variable (behind wid var) in
theorem fbPan_rewritten (hrot : getRot s.regs.effect = 0#32) :
    Rewritten behind s (fbPan behind s wid var) wid ((s.info wid).pan var) := by
  refine ⟨?_, rfl, ?_⟩
  · simp only [fbPan, panDisplay, Sslfb.put, Function.update_idem, Function.update_self]
    rfl
  · rw [← hrot]
    exact congrArg getRot (lcdcWinCfg_effect ..)

/-- From windows with consistent geometry, exactly the changes that fit lead to such windows. -/
theorem Ready.step_iff {a : Change} (hb : Backed start mem) (hs : Ready start s) (ht : s.change behind a = some t) :
    Ready start t ∧ (AllConsistent mem s → (AllConsistent mem t ↔ a.Fits mem s)) := by
  cases a with
  | mode wid var =>
    simp only [Sslfb.change, Option.ite_none_right_eq_some, Option.some.injEq] at ht
    obtain ⟨hv, rfl⟩ := ht
    have hrw := modeChange_rewritten behind wid hs.rot hv
    have hready := hrw.ready hs ((hs.windows wid).toSound.setMode hv)
    have hwin := hready.windows wid
    rw [hrw.same.1] at hwin
    refine ⟨hready, fun hc => (hrw.allConsistent_iff hc).trans ?_⟩
    exact consistent_mode_iff hv hwin (hb.start wid) (hb.len wid) (hb.pages wid)
  | pan wid var =>
    simp only [Sslfb.change, Option.ite_none_right_eq_some, Option.some.injEq] at ht
    obtain ⟨-, rfl⟩ := ht
    have hrw := fbPan_rewritten behind wid var hs.rot
    have hready := hrw.ready hs ((hs.windows wid).toSound.pan var)
    have hwin := hready.windows wid
    rw [hrw.same.1] at hwin
    refine ⟨hready, fun hc => (hrw.allConsistent_iff hc).trans ?_⟩
    exact consistent_pan_iff (hc wid) (hs.windows wid) hwin (hb.start wid) (hb.len wid)

end Steps

/-! ## Probing -/

section Start

variable {s : Sslfb} {plt : Plt} {wid : Fin 3} {effect dma : Word} {r : WinRegs}

theorem Plt.cfg_fields (plt : Plt) (wid : Fin 3) : (plt.cfg wid).width = plt.win.width ∧ (plt.cfg wid).height = plt.win.height ∧
    (plt.cfg wid).pixel = plt.win.pixel ∧
    (plt.cfg wid).stride = if plt.win.stride = 0#16 then plt.win.width else plt.win.stride := by
  unfold Plt.cfg
  by_cases hw : wid = 0
  · rw [if_pos hw]
    exact ⟨rfl, rfl, rfl, rfl⟩
  · rw [if_neg hw]
    exact ⟨rfl, rfl, rfl, rfl⟩

theorem Plt.info_sound (plt : Plt) (wid : Fin 3) (effect dma : Word) :
    (plt.info wid effect dma).Sound (plt.info wid effect dma).smemStart := by
  refine ⟨rfl, (BitVec.add_zero _).symm, ?_⟩
  show (plt.cfg wid).pixel.toNat ≤ 5
  rw [(plt.cfg_fields wid).2.2.1]
  exact plt.bytes.2

/-- The line length of a probed window is its stride, which is not 0 for a window that has a width. -/
theorem Plt.lineLength (plt : Plt) (wid : Fin 3) (effect dma : Word) :
    (plt.info wid effect dma).lineLength = (plt.cfg wid).strideBytes := by
  obtain ⟨hwidth, -, hpixel, hstride⟩ := plt.cfg_fields wid
  have hdefault : (if (plt.cfg wid).stride = 0#16 then (plt.cfg wid).width else (plt.cfg wid).stride) = (plt.cfg wid).stride := by
    split_ifs with h0
    · rw [hstride] at h0 ⊢
      rw [hwidth]
      split_ifs at h0 ⊢ with hs
      · rfl
      · exact absurd h0 hs
    · rfl
  have hpow : ∀ p, 3 ≤ p → p ≤ 5 → ((1#32 <<< p : Word) >>> 3).toNat = 2 ^ (p - 3) := by
    intro p hlo hhi
    interval_cases p <;> decide
  show (plt.cfg wid).stride.setWidth 32 * ((1#32 <<< (plt.cfg wid).pixel.toNat : Word) >>> 3) = _
  rw [Flt.strideBytes, hdefault, hpixel]
  apply BitVec.eq_of_toNat_eq
  rw [BitVec.toNat_mul, hpow _ plt.bytes.1 plt.bytes.2, BitVec.toNat_shiftLeft, Nat.shiftLeft_eq]

/-- The stride of a probed window, in bytes. -/
theorem Plt.strideBytes (plt : Plt) (wid : Fin 3) : (plt.cfg wid).strideBytes.toNat =
    (if plt.win.stride = 0#16 then plt.win.width.toNat else plt.win.stride.toNat) * plt.win.bytes := by
  obtain ⟨hwidth, -, hpixel, hstride⟩ := plt.cfg_fields wid
  have hbytes : (plt.cfg wid).bytes = plt.win.bytes := congrArg (fun p : BitVec 8 => 2 ^ (p.toNat - 3)) hpixel
  rw [strideBytes_toNat (by rw [hpixel]; exact plt.bytes.2), hbytes, hwidth, hstride]
  split_ifs <;> rfl

theorem Plt.consistent_iff {m : Memory} (hr : Programmed (plt.info wid effect dma).smemStart r (plt.info wid effect dma))
    (hm : m = (plt.info wid effect dma).memory) (hlen : m.start + m.len ≤ 2 ^ 32) :
    Consistent m r (plt.info wid effect dma) ↔ plt.Fits := by
  obtain ⟨hwidth, hheight, hpixel, -⟩ := plt.cfg_fields wid
  have hbytes : (plt.cfg wid).bytes = plt.win.bytes := congrArg (fun p : BitVec 8 => 2 ^ (p.toNat - 3)) hpixel
  have hline : (plt.info wid effect dma).lineLength = r.stride := (plt.lineLength ..).trans hr.regStride.symm
  have hstride : r.stride.toNat = (if plt.win.stride = 0#16 then plt.win.width.toNat else plt.win.stride.toNat) * plt.win.bytes := by
    rw [hr.regStride]
    exact plt.strideBytes wid
  have hsmem : (plt.info wid effect dma).smemLen.toNat =
      (plt.height.toNat * ((if plt.win.stride = 0#16 then plt.win.width.toNat else plt.win.stride.toNat) * plt.win.bytes) +
        plt.extramem.toNat) % 2 ^ 32 := by
    have hle : plt.height.toNat ≤ 2 ^ 32 := by omega
    show (plt.height.setWidth 32 * (plt.info wid effect dma).lineLength + plt.extramem).toNat = _
    rw [hline, BitVec.toNat_add, BitVec.toNat_mul, BitVec.toNat_setWidth_of_le (by decide), hstride, Nat.mod_add_mod]
  have hscan := hr.scanOut_iff (m := m) (hm ▸ rfl) hlen
  have hfits : m.Fits 0 r.stride.toNat (plt.cfg wid).height.toNat ((plt.cfg wid).width.toNat * (plt.cfg wid).bytes) ↔ plt.Fits := by
    rw [hstride, hwidth, hheight, hbytes, Plt.Fits, ← hsmem, hm]
    rfl
  constructor
  · exact fun hc => hfits.mp (hscan.mp hc.inside)
  · intro hf
    have hle : (plt.info wid effect dma).smemLen.toNat ≤ m.len := hm ▸ le_alignUp (by decide)
    exact ⟨hline, hle, hle, hscan.mpr (hfits.mpr hf)⟩

end Start

section Probed

variable (plt : Fin 3 → Plt) (dma : Fin 3 → Word)

/-- A window as it was probed, when the controller does not rotate. -/
def ProbedAs (s : Sslfb) (w : Fin 3) : Prop :=
  getRot s.regs.effect = 0#32 → (∃ effect, s.info w = (plt w).info w effect (dma w)) ∧
    Programmed (s.info w).smemStart (s.regs.win w) (s.info w)

theorem probedAs_same (s : Sslfb) (wid : Fin 3) : ProbedAs plt dma (probe behind s wid (plt wid) (dma wid)) wid := by
  intro hrot
  rw [getRot_probe, ← getRot_attach s wid (plt wid)] at hrot
  unfold probe
  dsimp only
  rw [put_same]
  exact ⟨⟨_, rfl⟩, ((plt wid).info_sound ..).programmed hrot⟩

variable {plt dma} in
theorem probedAs_other (s : Sslfb) (wid w : Fin 3) (hw : w ≠ wid) (h : ProbedAs plt dma s w) :
    ProbedAs plt dma (probe behind s wid (plt wid) (dma wid)) w := by
  intro hrot
  obtain ⟨hinfo, hwin⟩ := probe_other s wid (plt wid) behind (dma wid) hw
  rw [hinfo, hwin]
  rw [getRot_probe] at hrot
  exact h hrot

theorem getRot_probed (s : Sslfb) : getRot (probed behind s plt dma).regs.effect = getRot s.regs.effect := by
  simp only [probed, List.foldl_cons, List.foldl_nil, getRot_probe]

theorem probedAs_probed (s : Sslfb) (w : Fin 3) : ProbedAs plt dma (probed behind s plt dma) w := by
  have hmem : w ∈ [0, 1, 2] := by
    revert w
    decide
  exact foldl_each (probedAs_same behind plt dma) (probedAs_other behind) s [0, 1, 2] w hmem

theorem Ready.probed {s : Sslfb} (hrot : getRot s.regs.effect = 0#32) :
    Ready (fun w => ((probed behind s plt dma).info w).smemStart) (probed behind s plt dma) := by
  have hrot' := (getRot_probed behind plt dma s).trans hrot
  exact ⟨hrot', fun w => (probedAs_probed behind plt dma s w hrot').2⟩

end Probed

/-- In the runs under any guard, after the windows were probed without rotation and with their memory within the addresses, their geometry is
always consistent exactly when the platform data fits, and so do all modes that are set and all pans. -/
theorem geometry_iff (s : Sslfb) (plt : Fin 3 → Plt) (dma : Fin 3 → Word) (ok : Sslfb → Change → Prop)
    (hrot : getRot s.regs.effect = 0#32)
    (hmem : ∀ w, ((probed behind s plt dma).info w).memory.start + ((probed behind s plt dma).info w).memory.len ≤ 2 ^ 32) :
    (∀ t, Run (Sslfb.change behind) ok (probed behind s plt dma) t →
        AllConsistent (fun w => ((probed behind s plt dma).info w).memory) t) ↔
      (∀ w, (plt w).Fits) ∧ ∀ t a u, Run (Sslfb.change behind) ok (probed behind s plt dma) t → ok t a → t.change behind a = some u →
        a.Fits (fun w => ((probed behind s plt dma).info w).memory) t := by
  have hready := Ready.probed behind plt dma hrot
  have hbacked : Backed (fun w => ((probed behind s plt dma).info w).smemStart)
      (fun w => ((probed behind s plt dma).info w).memory) := ⟨fun _ => rfl, hmem, fun _ => dvd_alignUp _ _⟩
  have hstart : AllConsistent (fun w => ((probed behind s plt dma).info w).memory) (probed behind s plt dma) ↔ ∀ w, (plt w).Fits := by
    refine forall_congr' fun w => ?_
    obtain ⟨⟨effect, hinfo⟩, hprog⟩ := probedAs_probed behind plt dma s w hready.rot
    have hlen := hmem w
    show Consistent ((probed behind s plt dma).info w).memory _ ((probed behind s plt dma).info w) ↔ _
    rw [hinfo] at hprog hlen ⊢
    exact (plt w).consistent_iff hprog rfl hlen
  constructor
  · intro h
    have hI := h _ .start
    exact ⟨hstart.mp hI, (Run.invariant_iff_of hready hI (Ready.step_iff hbacked)).mp h⟩
  · rintro ⟨hfits, hall⟩
    exact (Run.invariant_iff_of hready (hstart.mpr hfits) (Ready.step_iff hbacked)).mpr hall

/-! ## A wider mode -/

/-- A board that allocates the memory of its windows. -/
def allocated : Sslfb := probed (fun _ => 0#8) boardStart (fun _ => boardPlt 0#32)
  fun wid => 0x53f80000#32 - BitVec.ofNat 32 (0x80000 * wid.val)

/-- A mode of 480 by 136 pixels, in a virtual size of twice the height, is panned by 100 lines. -/
theorem panned_consistent : ∃ t, Run (Sslfb.change fun _ => 0#8) (Change.Fits fun w => (allocated.info w).memory) allocated t ∧
    (t.info 0).par.offset = 96000#32 ∧ AllConsistent (fun w => (allocated.info w).memory) t := by
  have h : Run (Sslfb.change fun _ => 0#8) (Change.Fits fun w => (allocated.info w).memory) allocated _ :=
    .of_isSome [.mode 0 ⟨480#32, 136#32, 480#32, 272#32, 0#32, 0#32, 16#32, 0#32⟩,
      .pan 0 ⟨480#32, 136#32, 480#32, 272#32, 0#32, 100#32, 16#32, 0#32⟩] (by decide +kernel)
  have hall := (geometry_iff (fun _ => 0#8) boardStart (fun _ => boardPlt 0#32)
    (fun wid => 0x53f80000#32 - BitVec.ofNat 32 (0x80000 * wid.val)) (Change.Fits fun w => (allocated.info w).memory)
    (by decide +kernel) (by decide +kernel)).mpr ⟨by decide +kernel, fun _ _ _ _ ha _ => ha⟩
  exact ⟨_, h, by decide +kernel, hall _ h⟩

/-- A mode with a virtual width of twice the visible one: the line length is half of the stride. -/
theorem virtual_width_splits : ∃ t, Run (Sslfb.change fun _ => 0#8) free allocated t ∧
    (t.info 0).lineLength = 960#32 ∧ (t.regs.win 0).stride = 1920#32 ∧
    ¬ AllConsistent (fun w => (allocated.info w).memory) t := by
  have h : Run (Sslfb.change fun _ => 0#8) free allocated _ :=
    .of_isSome [.mode 0 ⟨480#32, 272#32, 960#32, 272#32, 0#32, 0#32, 16#32, 0#32⟩] (by decide +kernel)
  refine ⟨_, h, by decide +kernel, by decide +kernel, fun hc => ?_⟩
  exact absurd (hc 0).line (by decide +kernel)

end Emlinux.Fb
