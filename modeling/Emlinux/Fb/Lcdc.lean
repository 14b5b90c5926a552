import Mathlib.Data.BitVec
import Mathlib.Tactic

/-!
# The display controller

The controller scans out a main window and two floating ones. Each has registers for its address, its stride in bytes and its size; one effect
register holds the rotation of all three. `lcdc_win_cfg` programs a window, with the address moved to where a rotated scan starts, and
`lcdc_effect` the effects.

* `lcdcInit`, `lcdcWinCfg` and `lcdcEffect`: the functions over the registers.
* `adjustment`: where the scan of a window starts, by the rotation; `rotOffset_eq` says that `lcdc_win_cfg` computes it.
* `lcdcWinCfg_win`: a configured window has its address, stride and size, and the other windows keep theirs.
-/

namespace Emlinux.Fb

abbrev Word := BitVec 32

/-- `lcdcr_win_t`, and `maddr`, `mstride` and `msize` of the main window, which has no offset. -/
structure WinRegs where
  addr : Word
  stride : Word
  offset : Word
  size : Word
deriving DecidableEq, Repr

/-- There are three windows. -/
instance windows_pos : NeZero 3 := ⟨by decide⟩

/-- The registers of `lcdcr_p` that the windows and the effects use. -/
structure Lcdcr where
  id : Word
  cap : Word
  cfg : Word
  window : Word
  effect : Word
  win : Fin 3 → WinRegs

/-- `lcdc_flt_t`. -/
structure Flt where
  addr : Word
  width : BitVec 16
  height : BitVec 16
  stride : BitVec 16
  pixel : BitVec 8
  x : BitVec 16
  y : BitVec 16
  alpha : BitVec 8
deriving DecidableEq, Repr

/-! ## Effects -/

/-- `LCDC_EFF_SWAP_4 | LCDC_EFF_SWAP_2`. -/
def swapBits : Word := 1#32 <<< 6 ||| 1#32 <<< 5

/-- `LCDC_EFF_GETROT`. -/
def getRot (e : Word) : Word := e &&& 3#32

/-- The effects as `lcdc_effect` writes them on a controller of version `ver`. -/
def effectWord (ver : BitVec 16) (e : Word) : Word := if ver < 1#16 then e ||| swapBits else e

def lcdcEffect (ver : BitVec 16) (r : Lcdcr) (e : Word) : Lcdcr := { r with effect := effectWord ver e }

/-- `LCDC_CAP_AMBILIGHT | LCDC_CAP_DYNALIGHT | LCDC_CAP_RDBACK`. -/
def capsTO2 : Word := 1#32 <<< 6 ||| 1#32 <<< 5 ||| 1#32 <<< 4

/-- The version that `lcdc_init` finds: the second controller did not update its number. -/
def lcdcVer (r : Lcdcr) : BitVec 16 :=
  let ver := (r.id &&& 0x3ff#32).setWidth 16
  if ver = 0#16 ∧ r.cap &&& capsTO2 = capsTO2 then 1#16 else ver

def lcdcInit (r : Lcdcr) : BitVec 16 × Lcdcr :=
  (lcdcVer r, if lcdcVer r = 0#16 then { r with effect := r.effect ||| swapBits } else r)

@[simp] theorem getRot_effectWord (ver : BitVec 16) (e : Word) : getRot (effectWord ver e) = getRot e := by
  have hswap : swapBits &&& 3#32 = 0#32 := by decide
  unfold effectWord getRot
  split_ifs with h
  · rw [BitVec.and_or_distrib_right, hswap, BitVec.or_zero]
  · rfl

/-- `lcdc_init` leaves the rotation and the windows as they are. -/
theorem getRot_lcdcInit (r : Lcdcr) : getRot (lcdcInit r).2.effect = getRot r.effect := by
  unfold lcdcInit
  split_ifs
  · exact getRot_effectWord 0#16 r.effect
  · rfl

theorem lcdcInit_win (r : Lcdcr) : (lcdcInit r).2.win = r.win := by
  unfold lcdcInit
  split_ifs <;> rfl

section

variable {e r : Word}

theorem and_three (h : r.toNat ≤ 3) : r &&& 3#32 = r := by
  apply BitVec.eq_of_toNat_eq
  rw [BitVec.toNat_and]
  calc r.toNat &&& 3 = r.toNat % 2 ^ 2 := Nat.and_two_pow_sub_one_eq_mod r.toNat 2
    _ = r.toNat := Nat.mod_eq_of_lt (by omega)

/-- The rotation that `var_to_par` puts into the effects. -/
theorem getRot_replaced (h : r.toNat ≤ 3) : getRot (e &&& ~~~3#32 ||| r) = r := by
  have hclear : e &&& ~~~3#32 &&& 3#32 = 0#32 := by
    rw [BitVec.and_assoc, show ~~~3#32 &&& 3#32 = 0#32 from by decide, BitVec.and_zero]
  rw [getRot, BitVec.and_or_distrib_right, hclear, BitVec.zero_or, and_three h]

theorem replaced_getRot (e : Word) : e &&& ~~~3#32 ||| getRot e = e := by
  rw [getRot, ← BitVec.and_or_distrib_left, show ~~~3#32 ||| 3#32 = BitVec.allOnes 32 from by decide, BitVec.and_allOnes]

end

/-! ## Windows -/

/-- `_bppset`, and what is behind it in the memory. -/
def bppset (behind : Nat → BitVec 8) : Nat → BitVec 8
  | 0 => 0#8
  | 1 => 1#8
  | 2 => 2#8
  | 3 => 3#8
  | 4 => 5#8
  | 5 => 6#8
  | i + 6 => behind i

/-- `LCDC_SIZE`. -/
def sizeWord (c : Flt) : Word := (c.width.setWidth 32 - 1#32) ||| (c.height.setWidth 32 - 1#32) <<< 16

/-- `stride`, in bytes. -/
def Flt.strideBytes (c : Flt) : Word := (if c.stride = 0#16 then c.width else c.stride).setWidth 32 <<< (c.pixel.toNat - 3)

/-- `rot`, where the rotation becomes what is added to the address. -/
def Flt.rotOffset (c : Flt) (rot : Word) : Word :=
  if rot ≠ 0#32 then
    if rot > 1#32 then c.strideBytes * (c.height.setWidth 32 - 1#32)
    else (c.width.setWidth 32 - 1#32) <<< (c.pixel.toNat - 3)
  else rot

/-- The blending and the pixel format of the floating window `id`, from 0, in the window register. -/
def blendWord (behind : Nat → BitVec 8) (v : Word) (id : Nat) (c : Flt) : Word :=
  let fblend := 1#32 <<< (5 + 2 * id)
  let fglba := 1#32 <<< (4 + 2 * id)
  let v :=
    if c.alpha = 0#8 then v &&& ~~~fblend
    else
      let v := v ||| fblend
      if c.alpha ≠ 255#8 then v &&& ~~~(255#32 <<< (16 + 8 * id)) ||| (c.alpha.setWidth 32 <<< (16 + 8 * id) ||| fglba)
      else v &&& ~~~fglba
  v &&& ~~~(7#32 <<< (8 + 3 * id)) ||| (bppset behind c.pixel.toNat).setWidth 32 <<< (8 + 3 * id)

/-- `lcdc_win_cfg` for the windows, the ids below 3. -/
def lcdcWinCfg (behind : Nat → BitVec 8) (r : Lcdcr) (id : Fin 3) (c : Flt) : Lcdcr :=
  let rot := c.rotOffset (getRot r.effect)
  if id = 0 then
    { r with
      win := Function.update r.win 0 { r.win 0 with stride := c.strideBytes, size := sizeWord c, addr := c.addr + rot }
      cfg := r.cfg &&& ~~~(7#32 ||| 7#32 <<< 16) ||| (bppset behind c.pixel.toNat).setWidth 32 ||| 6#32 <<< 16 }
  else
    { r with
      win := Function.update r.win id ⟨c.addr + rot, c.strideBytes, c.x.setWidth 32 ||| c.y.setWidth 32 <<< 16, sizeWord c⟩
      window := blendWord behind r.window (id.val - 1) c }

section

variable (behind : Nat → BitVec 8) (r : Lcdcr) (id : Fin 3) (c : Flt)

@[simp] theorem lcdcWinCfg_effect : (lcdcWinCfg behind r id c).effect = r.effect := by
  unfold lcdcWinCfg
  split_ifs <;> rfl

theorem lcdcWinCfg_same : ((lcdcWinCfg behind r id c).win id).addr = c.addr + c.rotOffset (getRot r.effect) ∧
    ((lcdcWinCfg behind r id c).win id).stride = c.strideBytes ∧ ((lcdcWinCfg behind r id c).win id).size = sizeWord c := by
  unfold lcdcWinCfg
  split_ifs with h
  · subst h
    simp only [Function.update_self, and_self]
  · simp only [Function.update_self, and_self]

variable {id}

theorem lcdcWinCfg_other {w : Fin 3} (h : w ≠ id) : (lcdcWinCfg behind r id c).win w = r.win w := by
  unfold lcdcWinCfg
  split_ifs with h0
  · subst h0
    exact Function.update_of_ne h _ _
  · exact Function.update_of_ne h _ _

end

/-! ## Rotation -/

/-- What is added to the address of a window for a rotation: nothing, all but one pixel of a line for 90 degrees, and all but one line for
180 and 270 degrees. -/
def adjustment (c : Flt) : Nat → Word
  | 0 => 0#32
  | 1 => (c.width.setWidth 32 - 1#32) <<< (c.pixel.toNat - 3)
  | _ => c.strideBytes * (c.height.setWidth 32 - 1#32)

theorem rotOffset_eq (c : Flt) (rot : Word) : c.rotOffset rot = adjustment c rot.toNat := by
  unfold Flt.rotOffset
  split_ifs with h0 h1
  · have hlt : 1 < rot.toNat := h1
    obtain ⟨n, hn⟩ := Nat.exists_eq_add_of_le' hlt
    rw [hn]
    rfl
  · have hle : ¬ 1 < rot.toNat := h1
    have hne : rot.toNat ≠ 0 := fun hz => h0 (BitVec.eq_of_toNat_eq hz)
    have hone : rot.toNat = 1 := by omega
    rw [hone]
    rfl
  · rw [not_not] at h0
    rw [h0]
    rfl

end Emlinux.Fb
