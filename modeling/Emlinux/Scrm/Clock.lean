import Emlinux.Lib.Divider
import Emlinux.Lib.Field

/-!
# The system clocks

The PLL register says the output of the PLL, and the fields of CSDR and PSDR divide it: the system clock, HCLK and PCLK one after the
other, and the two peripheral clocks. A setter computes its divider as an unsigned quotient less one. For a request above the source clock
the quotient is 0, and less one it is the largest number, so that the clamp takes the largest divider.

* `divOf`: the divider that the setters compute.
* `Sound`: the setter is monotone and local, and gives the source clock to a request that is not below it.
* `sound_iff`: when it is.
-/

namespace Emlinux.Scrm

open Lib

/-! ## The registers -/

/-- `SCRM_PLLR_REFDIV`. -/
def pllrRefdiv (p : BitVec 32) : BitVec 32 := (p >>> 8) &&& 0x1f#32

/-- `SCRM_PLLR_OPDIV`. -/
def pllrOpdiv (p : BitVec 32) : BitVec 32 := (p >>> 16) &&& 0x3#32

/-- `SCRM_PLLR_FBDIV`. -/
def pllrFbdiv (p : BitVec 32) : BitVec 32 := (p >>> 24) &&& 0xff#32

/-- `SCRM_CSDR_PSCLR`. -/
def csdrPsclr (c : BitVec 32) : BitVec 32 := (c >>> 12) &&& 0x7#32

/-- `SCRM_CSDR_HCLKDIV`. -/
def csdrHclkdiv (c : BitVec 32) : BitVec 32 := (c >>> 8) &&& 0xf#32

/-- `SCRM_CSDR_APBDIV`. -/
def csdrApbdiv (c : BitVec 32) : BitVec 32 := (c >>> 4) &&& 0x3#32

/-- `SCRM_PSDR_PDIV1`. -/
def psdrPdiv1 (p : BitVec 32) : BitVec 32 := (p >>> 12) &&& 0xf#32

/-- `SCRM_PSDR_PDIV2`. -/
def psdrPdiv2 (p : BitVec 32) : BitVec 32 := (p >>> 8) &&& 0xf#32

/-- `CLKSRC_USBOTG_XTAL_IN`. -/
def xtalIn : BitVec 32 := 12000000#32

/-- A value of the PLL register whose dividers are not zero. -/
structure Pllr where
  val : BitVec 32
  refdiv_ne : pllrRefdiv val ≠ 0#32
  opdiv_ne : pllrOpdiv val ≠ 0#32
deriving DecidableEq

structure Regs where
  pllr : Pllr
  csdr : BitVec 32
  psdr : BitVec 32
deriving DecidableEq

/-! ## The clocks -/

def scrmDecodePll (pll fIn : BitVec 32) : BitVec 32 :=
  let refdiv := pllrRefdiv pll
  let opdiv := pllrOpdiv pll
  let fbdiv := 2#32 * pllrFbdiv pll
  let fRef := fIn / refdiv
  fRef * fbdiv / opdiv

def scrmGetPllOut (r : Regs) : BitVec 32 := scrmDecodePll r.pllr.val xtalIn

def scrmGetSystemClk (r : Regs) : BitVec 32 :=
  scrmDecodePll r.pllr.val xtalIn / (csdrPsclr r.csdr + 1#32)

def scrmGetHclk (r : Regs) : BitVec 32 := scrmGetSystemClk r / (csdrHclkdiv r.csdr + 1#32)

def scrmGetPclk (r : Regs) : BitVec 32 := scrmGetHclk r / (csdrApbdiv r.csdr + 1#32)

def scrmGetPerclk1 (r : Regs) : BitVec 32 :=
  scrmDecodePll r.pllr.val xtalIn / (psdrPdiv1 r.psdr + 1#32)

def scrmGetPerclk2 (r : Regs) : BitVec 32 :=
  scrmDecodePll r.pllr.val xtalIn / (psdrPdiv2 r.psdr + 1#32)

/-- The divider for a request: the quotient less one, the test for a negative value, and the clamp to the field. -/
def divOf (src freq max : BitVec 32) : BitVec 32 :=
  let div := src / freq - 1#32
  let div := if div < 0#32 then 0#32 else div
  if div > max then max else div

def scrmSetPclk (r : Regs) (pclk : BitVec 32) : BitVec 32 × Regs :=
  let apbdiv := divOf (scrmGetHclk r) pclk 3#32
  let r := { r with csdr := r.csdr &&& ~~~(0x3#32 <<< 4) ||| (apbdiv &&& 0x3#32) <<< 4 }
  (scrmGetPclk r, r)

def scrmSetPerclk1 (r : Regs) (perclk1 : BitVec 32) : BitVec 32 × Regs :=
  let pdiv1 := divOf (scrmDecodePll r.pllr.val xtalIn) perclk1 15#32
  let r := { r with psdr := r.psdr &&& ~~~(0xf#32 <<< 12) ||| (pdiv1 &&& 0xf#32) <<< 12 }
  (scrmGetPerclk1 r, r)

def scrmSetPerclk2 (r : Regs) (perclk2 : BitVec 32) : BitVec 32 × Regs :=
  let pdiv2 := divOf (scrmDecodePll r.pllr.val xtalIn) perclk2 15#32
  let r := { r with psdr := r.psdr &&& ~~~(0xf#32 <<< 8) ||| (pdiv2 &&& 0xf#32) <<< 8 }
  (scrmGetPerclk2 r, r)

/-! ## What the setters promise -/

inductive Clock where
  | pllOut
  | system
  | hclk
  | pclk
  | perclk1
  | perclk2
deriving DecidableEq, Repr

def Clock.get : Clock → Regs → BitVec 32
  | .pllOut => scrmGetPllOut
  | .system => scrmGetSystemClk
  | .hclk => scrmGetHclk
  | .pclk => scrmGetPclk
  | .perclk1 => scrmGetPerclk1
  | .perclk2 => scrmGetPerclk2

/-- The setters. -/
inductive Setter where
  | pclk
  | perclk1
  | perclk2
deriving DecidableEq, Repr

namespace Setter

def clock : Setter → Clock
  | .pclk => .pclk
  | .perclk1 => .perclk1
  | .perclk2 => .perclk2

/-- The clock that is divided. -/
def source : Setter → Clock
  | .pclk => .hclk
  | .perclk1 => .pllOut
  | .perclk2 => .pllOut

def set : Setter → Regs → BitVec 32 → BitVec 32 × Regs
  | .pclk => scrmSetPclk
  | .perclk1 => scrmSetPerclk1
  | .perclk2 => scrmSetPerclk2

/-- The clock that is read back after a request. -/
def readBack (d : Setter) (r : Regs) (f : BitVec 32) : BitVec 32 := d.clock.get (d.set r f).2

/-- Bit `i` of CSDR is of the field of `d`. -/
def ownsCsdr (d : Setter) (i : Nat) : Prop := d = .pclk ∧ 4 ≤ i ∧ i < 6

/-- Bit `i` of PSDR is of the field of `d`. -/
def ownsPsdr (d : Setter) (i : Nat) : Prop := d = .perclk1 ∧ 12 ≤ i ∧ i < 16 ∨ d = .perclk2 ∧ 8 ≤ i ∧ i < 12

end Setter

/-- From `r` to `u` only the field of `d` changed, and no clock but its own. -/
structure Local (d : Setter) (r u : Regs) : Prop where
  pllr : u.pllr = r.pllr
  csdr : ∀ i < 32, ¬ d.ownsCsdr i → u.csdr.getLsbD i = r.csdr.getLsbD i
  psdr : ∀ i < 32, ¬ d.ownsPsdr i → u.psdr.getLsbD i = r.psdr.getLsbD i
  clocks : ∀ c, c ≠ d.clock → c.get u = c.get r

/-- The setter for two requests, the second one not lower. -/
structure Sound (d : Setter) (r : Regs) (f₁ f₂ : BitVec 32) : Prop where
  mono : d.readBack r f₁ ≤ d.readBack r f₂
  full : ∀ f, f = f₁ ∨ f = f₂ → d.source.get r ≤ f → d.readBack r f = d.source.get r
  keeps : ∀ f, f = f₁ ∨ f = f₂ → Local d r (d.set r f).2

/-! ## The fields -/

theorem toNat_pllrRefdiv (p : BitVec 32) : (pllrRefdiv p).toNat = field p 8 5 := toNat_shr_and_mask p 8 5 (by decide)

theorem toNat_pllrOpdiv (p : BitVec 32) : (pllrOpdiv p).toNat = field p 16 2 := toNat_shr_and_mask p 16 2 (by decide)

theorem toNat_pllrFbdiv (p : BitVec 32) : (pllrFbdiv p).toNat = field p 24 8 := toNat_shr_and_mask p 24 8 (by decide)

theorem toNat_csdrPsclr (c : BitVec 32) : (csdrPsclr c).toNat = field c 12 3 := toNat_shr_and_mask c 12 3 (by decide)

theorem toNat_csdrHclkdiv (c : BitVec 32) : (csdrHclkdiv c).toNat = field c 8 4 := toNat_shr_and_mask c 8 4 (by decide)

theorem toNat_csdrApbdiv (c : BitVec 32) : (csdrApbdiv c).toNat = field c 4 2 := toNat_shr_and_mask c 4 2 (by decide)

theorem toNat_psdrPdiv1 (p : BitVec 32) : (psdrPdiv1 p).toNat = field p 12 4 := toNat_shr_and_mask p 12 4 (by decide)

theorem toNat_psdrPdiv2 (p : BitVec 32) : (psdrPdiv2 p).toNat = field p 8 4 := toNat_shr_and_mask p 8 4 (by decide)

/-- A clock divided by a field. -/
theorem toNat_div_field (s v : BitVec 32) {w : BitVec 32} {pos len : Nat} (hv : v.toNat = field w pos len) (hl : len < 32) :
    (s / (v + 1#32)).toNat = s.toNat / (field w pos len + 1) := by
  have hlt := field_lt w pos len
  have hpow : 2 ^ len < 2 ^ 32 := Nat.pow_lt_pow_right (by decide) hl
  rw [BitVec.toNat_udiv, BitVec.toNat_add, hv, Nat.mod_eq_of_lt (show field w pos len + (1#32).toNat < 2 ^ 32 by simp; omega)]
  rfl

/-- Clocks from one source, divided by equal fields. -/
theorem div_field_congr {s s' v v' w w' : BitVec 32} {pos len : Nat} (hv : v.toNat = field w pos len) (hv' : v'.toNat = field w' pos len)
    (hs : s' = s) (hw : field w' pos len = field w pos len) : s' / (v' + 1#32) = s / (v + 1#32) := by
  have heq : v' = v := BitVec.eq_of_toNat_eq (by rw [hv, hv', hw])
  rw [hs, heq]

/-- The system clock depends on two registers only through one field. -/
theorem scrmGetSystemClk_congr {r u : Regs} (hp : u.pllr = r.pllr) (hc : field u.csdr 12 3 = field r.csdr 12 3) :
    scrmGetSystemClk u = scrmGetSystemClk r :=
  div_field_congr (toNat_csdrPsclr _) (toNat_csdrPsclr _) (by rw [hp]) hc

theorem scrmGetHclk_congr {r u : Regs} (hs : scrmGetSystemClk u = scrmGetSystemClk r) (hc : field u.csdr 8 4 = field r.csdr 8 4) :
    scrmGetHclk u = scrmGetHclk r :=
  div_field_congr (toNat_csdrHclkdiv _) (toNat_csdrHclkdiv _) hs hc

theorem scrmGetPerclk1_congr {r u : Regs} (hp : u.pllr = r.pllr) (hc : field u.psdr 12 4 = field r.psdr 12 4) :
    scrmGetPerclk1 u = scrmGetPerclk1 r :=
  div_field_congr (toNat_psdrPdiv1 _) (toNat_psdrPdiv1 _) (by rw [hp]) hc

theorem scrmGetPerclk2_congr {r u : Regs} (hp : u.pllr = r.pllr) (hc : field u.psdr 8 4 = field r.psdr 8 4) :
    scrmGetPerclk2 u = scrmGetPerclk2 r :=
  div_field_congr (toNat_psdrPdiv2 _) (toNat_psdrPdiv2 _) (by rw [hp]) hc

/-! ## The divider -/

variable {s f lim : BitVec 32}

/-- Of a request that is not above the source. -/
theorem toNat_divOf (h0 : 0 < f.toNat) (h : f.toNat ≤ s.toNat) :
    (divOf s f lim).toNat = min (s.toNat / f.toNat - 1) lim.toNat := by
  have hquot : 1 ≤ s.toNat / f.toNat := (Nat.one_le_div_iff h0).mpr h
  have hsub : (s / f - 1#32).toNat = s.toNat / f.toNat - 1 := by
    rw [BitVec.toNat_sub_of_le (by rw [BitVec.le_def, BitVec.toNat_udiv]; exact hquot), BitVec.toNat_udiv]
    rfl
  have hneg : ¬ s / f - 1#32 < 0#32 := BitVec.not_lt_zero
  unfold divOf
  dsimp only
  rw [if_neg hneg, ← hsub]
  split_ifs with hm
  · rw [gt_iff_lt, BitVec.lt_def] at hm
    omega
  · rw [gt_iff_lt, BitVec.lt_def] at hm
    omega

/-- A quotient of zero, less one, is cut to the largest divider. -/
theorem divOf_of_quot (h : s / f = 0#32) : divOf s f lim = lim := by
  have hquot : s / f - 1#32 = BitVec.allOnes 32 := by
    rw [h]
    decide
  have hneg : ¬ s / f - 1#32 < 0#32 := BitVec.not_lt_zero
  unfold divOf
  dsimp only
  rw [if_neg hneg, hquot]
  split_ifs with hm
  · rfl
  · have hmax := lim.isLt
    have hall : (BitVec.allOnes 32).toNat = 2 ^ 32 - 1 := rfl
    rw [gt_iff_lt, BitVec.lt_def, hall] at hm
    apply BitVec.eq_of_toNat_eq
    omega

/-- A request above the source gets the largest divider. -/
theorem divOf_above (h : s.toNat < f.toNat) : divOf s f lim = lim := by
  apply divOf_of_quot
  apply BitVec.eq_of_toNat_eq
  rw [BitVec.toNat_udiv, Nat.div_eq_of_lt h]
  rfl

theorem divOf_le (s f lim : BitVec 32) : (divOf s f lim).toNat ≤ lim.toNat := by
  unfold divOf
  dsimp only
  generalize (if s / f - 1#32 < 0#32 then 0#32 else s / f - 1#32) = v
  split_ifs with hm
  · exact le_rfl
  · rw [gt_iff_lt, BitVec.lt_def] at hm
    omega

/-! ## The setters -/

section Setters

variable {r : Regs}

theorem csdr_setPclk (r : Regs) (f : BitVec 32) :
    (scrmSetPclk r f).2.csdr = setField r.csdr 4 2 (divOf (scrmGetHclk r) f 3#32) := rfl

theorem psdr_setPerclk1 (r : Regs) (f : BitVec 32) :
    (scrmSetPerclk1 r f).2.psdr = setField r.psdr 12 4 (divOf (scrmGetPllOut r) f 15#32) := rfl

theorem psdr_setPerclk2 (r : Regs) (f : BitVec 32) :
    (scrmSetPerclk2 r f).2.psdr = setField r.psdr 8 4 (divOf (scrmGetPllOut r) f 15#32) := rfl

theorem hclk_setPclk (r : Regs) (f : BitVec 32) : scrmGetHclk (scrmSetPclk r f).2 = scrmGetHclk r := by
  apply scrmGetHclk_congr
  · refine scrmGetSystemClk_congr (r := r) rfl ?_
    rw [csdr_setPclk, field_setField_of_disjoint _ _ (by decide) (by decide)]
  · rw [csdr_setPclk, field_setField_of_disjoint _ _ (by decide) (by decide)]

/-- The largest value of the field. -/
def Setter.max : Setter → BitVec 32
  | .pclk => 3#32
  | .perclk1 => 15#32
  | .perclk2 => 15#32

theorem Setter.max_pos (d : Setter) : 0 < d.max.toNat := by cases d <;> decide

/-- A clock divided by a field that was just set. -/
theorem toNat_div_setField (s w : BitVec 32) {v div : BitVec 32} {pos len : Nat} (hv : v.toNat = field (setField w pos len div) pos len)
    (hn : pos + len ≤ 32) (hl : len < 32) (hdiv : div.toNat < 2 ^ len) : (s / (v + 1#32)).toNat = s.toNat / (div.toNat + 1) := by
  rw [toNat_div_field _ _ hv hl, field_setField _ _ hn, Nat.mod_eq_of_lt hdiv]

/-- The clock that is read back is the source divided as the setter computed. -/
theorem Setter.toNat_readBack (d : Setter) (r : Regs) (f : BitVec 32) :
    (d.readBack r f).toNat = (d.source.get r).toNat / ((divOf (d.source.get r) f d.max).toNat + 1) := by
  have hle := divOf_le (d.source.get r) f d.max
  cases d with
  | pclk =>
    have hlt : (divOf (scrmGetHclk r) f 3#32).toNat < 2 ^ 2 := Nat.lt_succ_of_le hle
    show (scrmGetHclk (scrmSetPclk r f).2 / (csdrApbdiv (setField r.csdr 4 2 (divOf (scrmGetHclk r) f 3#32)) + 1#32)).toNat = _
    rw [hclk_setPclk, toNat_div_setField _ _ (toNat_csdrApbdiv _) (by decide) (by decide) hlt]
    rfl
  | perclk1 =>
    have hlt : (divOf (scrmGetPllOut r) f 15#32).toNat < 2 ^ 4 := Nat.lt_succ_of_le hle
    show (scrmGetPllOut r / (psdrPdiv1 (setField r.psdr 12 4 (divOf (scrmGetPllOut r) f 15#32)) + 1#32)).toNat = _
    rw [toNat_div_setField _ _ (toNat_psdrPdiv1 _) (by decide) (by decide) hlt]
    rfl
  | perclk2 =>
    have hlt : (divOf (scrmGetPllOut r) f 15#32).toNat < 2 ^ 4 := Nat.lt_succ_of_le hle
    show (scrmGetPllOut r / (psdrPdiv2 (setField r.psdr 8 4 (divOf (scrmGetPllOut r) f 15#32)) + 1#32)).toNat = _
    rw [toNat_div_setField _ _ (toNat_psdrPdiv2 _) (by decide) (by decide) hlt]
    rfl

theorem local_setPclk (r : Regs) (f : BitVec 32) : Local .pclk r (scrmSetPclk r f).2 where
  pllr := rfl
  csdr := by
    intro i hi hn
    rw [csdr_setPclk, getLsbD_setField _ _ _ _ hi, if_neg]
    exact fun h => hn ⟨rfl, h⟩
  psdr := fun _ _ _ => rfl
  clocks := by
    intro c hc
    cases c with
    | pllOut => rfl
    | system =>
      refine scrmGetSystemClk_congr (r := r) rfl ?_
      rw [csdr_setPclk, field_setField_of_disjoint _ _ (by decide) (by decide)]
    | hclk => exact hclk_setPclk r f
    | pclk => exact absurd rfl hc
    | perclk1 => rfl
    | perclk2 => rfl

theorem local_setPerclk1 (r : Regs) (f : BitVec 32) : Local .perclk1 r (scrmSetPerclk1 r f).2 where
  pllr := rfl
  csdr := fun _ _ _ => rfl
  psdr := by
    intro i hi hn
    rw [psdr_setPerclk1, getLsbD_setField _ _ _ _ hi, if_neg]
    exact fun h => hn (Or.inl ⟨rfl, h⟩)
  clocks := by
    intro c hc
    cases c with
    | pllOut => rfl
    | system => rfl
    | hclk => rfl
    | pclk => rfl
    | perclk1 => exact absurd rfl hc
    | perclk2 =>
      refine scrmGetPerclk2_congr (r := r) rfl ?_
      rw [psdr_setPerclk1, field_setField_of_disjoint _ _ (by decide) (by decide)]

theorem local_setPerclk2 (r : Regs) (f : BitVec 32) : Local .perclk2 r (scrmSetPerclk2 r f).2 where
  pllr := rfl
  csdr := fun _ _ _ => rfl
  psdr := by
    intro i hi hn
    rw [psdr_setPerclk2, getLsbD_setField _ _ _ _ hi, if_neg]
    exact fun h => hn (Or.inr ⟨rfl, h⟩)
  clocks := by
    intro c hc
    cases c with
    | pllOut => rfl
    | system => rfl
    | hclk => rfl
    | pclk => rfl
    | perclk1 =>
      refine scrmGetPerclk1_congr (r := r) rfl ?_
      rw [psdr_setPerclk2, field_setField_of_disjoint _ _ (by decide) (by decide)]
    | perclk2 => exact absurd rfl hc

theorem Setter.local_set (d : Setter) (r : Regs) (f : BitVec 32) : Local d r (d.set r f).2 := by
  cases d with
  | pclk => exact local_setPclk r f
  | perclk1 => exact local_setPerclk1 r f
  | perclk2 => exact local_setPerclk2 r f

variable {d : Setter} {f f₁ f₂ : BitVec 32}

/-- A request that is not above the source divides it. -/
theorem Setter.readBack_le (h0 : 0#32 < f) (h : f ≤ d.source.get r) :
    (d.readBack r f).toNat = divided (d.source.get r).toNat d.max.toNat f.toNat := by
  rw [d.toNat_readBack, toNat_divOf h0 h]
  rfl

/-- One above it gets the largest divider. -/
theorem Setter.readBack_above (h : d.source.get r < f) :
    (d.readBack r f).toNat = (d.source.get r).toNat / (d.max.toNat + 1) := by
  rw [d.toNat_readBack, divOf_above h]

/-- A source clock of zero reads back as it is. -/
theorem Setter.readBack_zero (h : d.source.get r = 0#32) (f : BitVec 32) : d.readBack r f = 0#32 := by
  apply BitVec.eq_of_toNat_eq
  rw [d.toNat_readBack, h]
  exact Nat.zero_div _

/-- A setter keeps its promise for two requests exactly when none of them is above the source clock, or the source clock is off. -/
theorem sound_iff (d : Setter) (r : Regs) (f₁ f₂ : BitVec 32) (h0 : 0#32 < f₁) (h : f₁ ≤ f₂) :
    Sound d r f₁ f₂ ↔ f₂ ≤ d.source.get r ∨ d.source.get r = 0#32 := by
  constructor
  · intro hs
    by_contra hn
    rw [not_or, BitVec.not_le] at hn
    have hfull := congrArg BitVec.toNat (hs.full f₂ (Or.inr rfl) (BitVec.le_of_lt hn.1))
    rw [Setter.readBack_above hn.1, div_succ_eq_self_iff d.max_pos] at hfull
    exact hn.2 (BitVec.eq_of_toNat_eq hfull)
  · rintro (hle | hz)
    · have h0' : 0#32 < f₂ := Nat.lt_of_lt_of_le h0 h
      have hle' : f₁ ≤ d.source.get r := BitVec.le_trans h hle
      refine ⟨?_, ?_, fun f _ => d.local_set r f⟩
      · rw [BitVec.le_def, Setter.readBack_le h0 hle', Setter.readBack_le h0' hle]
        exact divided_mono _ h0 h
      · rintro f hf hsf
        obtain ⟨hf0, hfle⟩ : 0#32 < f ∧ f ≤ d.source.get r := by
          rcases hf with rfl | rfl
          · exact ⟨h0, hle'⟩
          · exact ⟨h0', hle⟩
        obtain rfl : d.source.get r = f := BitVec.le_antisymm hsf hfle
        apply BitVec.eq_of_toNat_eq
        rw [Setter.readBack_le hf0 hfle, divided_self _ hf0]
    · refine ⟨?_, ?_, fun f _ => d.local_set r f⟩
      · rw [Setter.readBack_zero hz, Setter.readBack_zero hz]
        exact BitVec.le_refl _
      · intro f _ _
        rw [Setter.readBack_zero hz, hz]

/-- The PLL at 240 MHz. -/
def at240 : Pllr := ⟨0x1e010300#32, by decide, by decide⟩

/-- The first peripheral clock at 12 MHz and at 100 MHz. -/
theorem sound_iff_perclk1 : Sound .perclk1 ⟨at240, 0#32, 0#32⟩ 12000000#32 100000000#32 :=
  (sound_iff .perclk1 ⟨at240, 0#32, 0#32⟩ 12000000#32 100000000#32 (by decide) (by decide)).mpr (Or.inl (by decide))

/-- A request for 241 MHz gives 15 MHz, one for 240 MHz gives 240 MHz. -/
theorem above_source_slowest : ¬ Sound .perclk1 ⟨at240, 0#32, 0#32⟩ 240000000#32 241000000#32 := by
  intro h
  exact absurd h.mono (by decide)

end Setters

end Emlinux.Scrm
