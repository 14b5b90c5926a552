import Mathlib.Data.BitVec
import Mathlib.Tactic

/-!
# The configuration of pins

A port has a bit for each of its 32 pins in some registers, and two bits for each, in a pair of registers, for the sources of the outputs, the
two inputs and the interrupt. `gpio_cfg_pins` spreads the mask of the pins over such a pair and merges its selection there.

* `gpioCfgPins`: the function over the registers.
* `Pin`: a pin as it is configured, and `Pin.configured` by a configuration.
* `pin_cfgPins`: of the port the pins in the mask are configured, and no others.
-/

namespace Emlinux.Gpio

abbrev Word := BitVec 32

/-- `GPIO_ERR_NONE`. -/
def errNone : Int := 0

/-- `GPIO_ERR_PARM`. -/
def errParm : Int := -2

/-- `GPIO_ISS_ISR`. -/
def issIsr : BitVec 8 := 1#8

/-- `gpio_mode_e`, and what is above it. -/
inductive Mode where
  | pri
  | alt
  | out
  | inp
  | intr
  | unknown
deriving DecidableEq, Repr

/-- `gpio_cfg_t`. -/
structure Cfg where
  mode : Mode
  pullEn : BitVec 8
  oss : BitVec 8
  issa : BitVec 8
  issb : BitVec 8
  irq : BitVec 8
deriving DecidableEq, Repr

/-- The registers of a port that its configuration sets. -/
structure Port where
  puen : Word
  func : Word
  mode : Word
  ddir : Word
  oss1 : Word
  oss2 : Word
  issa1 : Word
  issa2 : Word
  issb1 : Word
  issb2 : Word
  icr1 : Word
  icr2 : Word
deriving DecidableEq, Repr

/-- The loop for `mask1`, with the pins from 0, and for `mask2`, with those from 16. -/
def spread (mask : Word) (first : Nat) : Nat → Word
  | 0 => 0#32
  | i + 1 => spread mask first i ||| if mask &&& 1#32 <<< (i + first) ≠ 0#32 then 3#32 <<< (2 * i) else 0#32

/-- The loop for a template. -/
def template (sel : BitVec 8) : Nat → Word
  | 0 => 0#32
  | i + 1 => template sel i ||| (sel &&& 3#8).setWidth 32 <<< (2 * i)

/-- A selection, merged into a register. -/
def merge (old mask : Word) (sel : BitVec 8) : Word := old &&& ~~~mask ||| template sel 16 &&& mask

/-- `gpio_cfg_pins`: the registers and the configuration after it, where an interrupt pin has its inputs set. -/
def gpioCfgPins (r : Port) (mask : Word) (cfg : Cfg) : Int × Port × Cfg :=
  if cfg.mode = .unknown then (errParm, r, cfg)
  else if mask = 0#32 then (errNone, r, cfg)
  else
    let opmask := ~~~mask
    let r := { r with puen := r.puen &&& opmask ||| if cfg.pullEn ≠ 0#8 then mask else 0#32 }
    match cfg.mode with
    | .pri => (errNone, { r with func := r.func &&& opmask, mode := r.mode &&& opmask }, cfg)
    | .alt => (errNone, { r with func := r.func ||| mask, mode := r.mode &&& opmask }, cfg)
    | mode =>
      let mask1 := spread mask 0 16
      let mask2 := spread mask 16 16
      let r := { r with mode := r.mode ||| mask }
      if mode = .out then
        (errNone, { r with oss1 := merge r.oss1 mask1 cfg.oss, oss2 := merge r.oss2 mask2 cfg.oss, ddir := r.ddir ||| mask }, cfg)
      else
        let (r, cfg) :=
          if mode = .intr then
            let cfg := { cfg with issa := issIsr, issb := issIsr }
            ({ r with icr1 := merge r.icr1 mask1 cfg.irq, icr2 := merge r.icr2 mask2 cfg.irq }, cfg)
          else (r, cfg)
        (errNone, { r with
          issa1 := merge r.issa1 mask1 cfg.issa
          issa2 := merge r.issa2 mask2 cfg.issa
          issb1 := merge r.issb1 mask1 cfg.issb
          issb2 := merge r.issb2 mask2 cfg.issb
          ddir := r.ddir &&& opmask }, cfg)

/-! ## Pins -/

/-- What is configured of a pin. -/
@[ext] structure Pin where
  pull : Bool
  func : Bool
  gpio : Bool
  out : Bool
  oss : BitVec 2
  issa : BitVec 2
  issb : BitVec 2
  icr : BitVec 2
deriving DecidableEq, Repr

/-- The two bits of a pin in a pair of registers. -/
def pairBits (w1 w2 : Word) (i : Fin 32) : BitVec 2 :=
  if i.val < 16 then w1.extractLsb' (2 * i) 2 else w2.extractLsb' (2 * (i - 16)) 2

def Port.pin (r : Port) (i : Fin 32) : Pin where
  pull := r.puen.getLsbD i
  func := r.func.getLsbD i
  gpio := r.mode.getLsbD i
  out := r.ddir.getLsbD i
  oss := pairBits r.oss1 r.oss2 i
  issa := pairBits r.issa1 r.issa2 i
  issb := pairBits r.issb1 r.issb2 i
  icr := pairBits r.icr1 r.icr2 i

/-- A pin with the pull and, by its mode, the function, the direction and the selections of a configuration. -/
def Pin.configured (p : Pin) (cfg : Cfg) : Pin :=
  let p' := { p with pull := cfg.pullEn ≠ 0#8 }
  match cfg.mode with
  | .pri => { p' with func := false, gpio := false }
  | .alt => { p' with func := true, gpio := false }
  | .out => { p' with gpio := true, out := true, oss := cfg.oss.setWidth 2 }
  | .inp => { p' with gpio := true, out := false, issa := cfg.issa.setWidth 2, issb := cfg.issb.setWidth 2 }
  | .intr => { p' with gpio := true, out := false, issa := 1#2, issb := 1#2, icr := cfg.irq.setWidth 2 }
  | .unknown => p

/-! ## Registers by pins -/

section Bits

variable {mask w : Word} {i : Fin 32}

/-- A bit of a word in which the bits of the mask are set. -/
theorem getLsbD_set (w mask : Word) (i : Fin 32) : (w ||| mask).getLsbD i = if mask.getLsbD i then true else w.getLsbD i := by
  rw [BitVec.getLsbD_or]
  cases mask.getLsbD i
  · exact Bool.or_false _
  · exact Bool.or_true _

/-- And of one in which they are cleared. -/
theorem getLsbD_clear (w mask : Word) (i : Fin 32) :
    (w &&& ~~~mask).getLsbD i = if mask.getLsbD i then false else w.getLsbD i := by
  rw [BitVec.getLsbD_and, BitVec.getLsbD_not, decide_eq_true i.isLt, Bool.true_and]
  cases mask.getLsbD i
  · exact Bool.and_true _
  · exact Bool.and_false _

/-- A mask bit, tested as the loops do. -/
theorem and_one_shl_ne_zero (mask : Word) {k : Nat} (hk : k < 32) : mask &&& 1#32 <<< k ≠ 0#32 ↔ mask.getLsbD k = true := by
  constructor
  · intro h
    by_contra hn
    apply h
    apply BitVec.eq_of_getLsbD_eq
    intro j hj
    rw [BitVec.getLsbD_and, BitVec.getLsbD_shiftLeft, BitVec.getLsbD_one]
    by_cases hjk : j = k
    · rw [hjk]
      simp [hn]
    · have hne : ¬ (¬ j < k ∧ j - k = 0) := by omega
      simp
      omega
  · intro h hz
    have hbit := congrArg (fun v : Word => v.getLsbD k) hz
    rw [BitVec.getLsbD_and, BitVec.getLsbD_shiftLeft, h] at hbit
    simp [hk] at hbit

/-- A value of two bits, shifted to a pin. -/
theorem getLsbD_shl_pair {v : Word} (hv : v.toNat < 4) (i : Nat) {k : Nat} (hk : k < 32) :
    (v <<< (2 * i)).getLsbD k = (decide (k / 2 = i) && v.getLsbD (k % 2)) := by
  rw [BitVec.getLsbD_shiftLeft, decide_eq_true hk, Bool.true_and]
  rcases Nat.lt_trichotomy (k / 2) i with hlt | rfl | hgt
  · rw [decide_eq_true (show k < 2 * i by omega), decide_eq_false (show ¬ k / 2 = i by omega)]
    rfl
  · rw [decide_eq_false (show ¬ k < 2 * (k / 2) by omega), decide_eq_true rfl, show k - 2 * (k / 2) = k % 2 by omega]
    rfl
  · have hhigh : v.getLsbD (k - 2 * i) = false := by
      rw [BitVec.getLsbD]
      apply Nat.testBit_lt_two_pow
      calc v.toNat < 2 ^ 2 := hv
        _ ≤ 2 ^ (k - 2 * i) := Nat.pow_le_pow_right (by decide) (by omega)
    rw [hhigh, decide_eq_false (show ¬ k / 2 = i by omega), Bool.and_false]
    rfl

/-- The spread mask has both bits of every pin of the mask. -/
theorem getLsbD_spread (mask : Word) (first : Nat) {k : Nat} (hk : k < 32) (n : Nat) (hn : n + first ≤ 32) :
    (spread mask first n).getLsbD k = (decide (k / 2 < n) && mask.getLsbD (k / 2 + first)) := by
  induction n with
  | zero => simp [spread]
  | succ n ih =>
    have hthree : (3#32 : Word).getLsbD (k % 2) = true := by
      rcases Nat.mod_two_eq_zero_or_one k with h | h
      · rw [h]
        rfl
      · rw [h]
        rfl
    have hstep : (if mask &&& 1#32 <<< (n + first) ≠ 0#32 then 3#32 <<< (2 * n) else 0#32).getLsbD k =
        (decide (k / 2 = n) && mask.getLsbD (n + first)) := by
      by_cases hbit : mask.getLsbD (n + first) = true
      · rw [if_pos ((and_one_shl_ne_zero mask (by omega)).mpr hbit), getLsbD_shl_pair (by decide) n hk, hthree, hbit]
      · rw [if_neg (mt (and_one_shl_ne_zero mask (by omega)).mp hbit), Bool.eq_false_of_not_eq_true hbit, Bool.and_false]
        exact BitVec.getLsbD_zero
    rw [spread, BitVec.getLsbD_or, ih (by omega), hstep]
    by_cases heq : k / 2 = n
    · simp [heq]
    · have hiff : k / 2 < n ↔ k / 2 < n + 1 := by omega
      simp [heq, hiff]

theorem getLsbD_template (sel : BitVec 8) {k : Nat} (hk : k < 32) (n : Nat) :
    (template sel n).getLsbD k = (decide (k / 2 < n) && sel.getLsbD (k % 2)) := by
  have hlow : ((sel &&& 3#8).setWidth 32).getLsbD (k % 2) = sel.getLsbD (k % 2) := by
    rcases Nat.mod_two_eq_zero_or_one k with h | h
    · rw [h]
      simp
    · rw [h]
      simp
  have hlt : ((sel &&& 3#8).setWidth 32).toNat < 4 := by
    rw [BitVec.toNat_setWidth, BitVec.toNat_and]
    exact (Nat.mod_le _ _).trans_lt (Nat.lt_succ_of_le Nat.and_le_right)
  induction n with
  | zero => simp [template]
  | succ n ih =>
    rw [template, BitVec.getLsbD_or, ih, getLsbD_shl_pair hlt n hk, hlow]
    by_cases heq : k / 2 = n
    · simp [heq]
    · have hiff : k / 2 < n ↔ k / 2 < n + 1 := by omega
      simp [heq, hiff]

/-- A merged register has the selection at the pins of the mask, and the rest as before. -/
theorem extractLsb_merge (old mask : Word) (sel : BitVec 8) {first j : Nat} (hfirst : first ≤ 16) (hj : j < 16) :
    (merge old (spread mask first 16) sel).extractLsb' (2 * j) 2 =
      if mask.getLsbD (j + first) then sel.setWidth 2 else old.extractLsb' (2 * j) 2 := by
  apply BitVec.eq_of_getLsbD_eq
  intro b hb
  have hk : 2 * j + b < 32 := by omega
  have hdiv : (2 * j + b) / 2 = j := by omega
  have hmod : (2 * j + b) % 2 = b := by omega
  rw [BitVec.getLsbD_extractLsb', decide_eq_true hb, Bool.true_and]
  unfold merge
  rw [BitVec.getLsbD_or, BitVec.getLsbD_and, BitVec.getLsbD_and, BitVec.getLsbD_not, getLsbD_spread mask first hk 16 (by omega),
    getLsbD_template sel hk, hdiv, hmod, decide_eq_true hk, decide_eq_true hj]
  cases hm : mask.getLsbD (j + first)
  · simp [hb]
  · simp [hb]

/-- The two registers of a pair. -/
theorem pairBits_merge (w1 w2 mask : Word) (sel : BitVec 8) (i : Fin 32) :
    pairBits (merge w1 (spread mask 0 16) sel) (merge w2 (spread mask 16 16) sel) i =
      if mask.getLsbD i then sel.setWidth 2 else pairBits w1 w2 i := by
  unfold pairBits
  split_ifs with hi hm hm
  · rw [extractLsb_merge _ _ _ (by decide) hi, Nat.add_zero, if_pos hm]
  · rw [extractLsb_merge _ _ _ (by decide) hi, Nat.add_zero, if_neg hm]
  · rw [extractLsb_merge _ _ _ (by decide) (by omega), Nat.sub_add_cancel (by omega), if_pos hm]
  · rw [extractLsb_merge _ _ _ (by decide) (by omega), Nat.sub_add_cancel (by omega), if_neg hm]

end Bits

/-! ## The port -/

/-- The pull enable bits. -/
theorem getLsbD_pull (w mask : Word) (on : Prop) [Decidable on] (i : Fin 32) :
    (w &&& ~~~mask ||| if on then mask else 0#32).getLsbD i = if mask.getLsbD i then decide on else w.getLsbD i := by
  have hon : (if on then mask else 0#32).getLsbD i = (decide on && mask.getLsbD i) := by
    split_ifs with h
    · rw [decide_eq_true h, Bool.true_and]
    · rw [decide_eq_false h, Bool.false_and]
      exact BitVec.getLsbD_zero
  rw [BitVec.getLsbD_or, hon, getLsbD_clear]
  cases mask.getLsbD i
  · rw [Bool.and_false, Bool.or_false]
    rfl
  · rw [Bool.and_true]
    exact Bool.false_or _

/-- Every pin of the mask is as configured, and every other one as before. -/
theorem pin_cfgPins (r : Port) (mask : Word) (cfg : Cfg) (i : Fin 32) :
    (gpioCfgPins r mask cfg).2.1.pin i = if mask.getLsbD i then (r.pin i).configured cfg else r.pin i := by
  unfold gpioCfgPins Pin.configured
  by_cases hz : mask = 0#32
  · have hbit : mask.getLsbD i = false := by
      rw [hz]
      exact BitVec.getLsbD_zero
    rw [if_pos hz, hbit]
    split <;> rfl
  rw [if_neg hz]
  cases hmode : cfg.mode with
  | unknown => exact (ite_self _).symm
  | pri =>
    simp only [Port.pin, reduceCtorEq, if_false, getLsbD_pull]
    simp only [getLsbD_clear]
    split_ifs <;> rfl
  | alt =>
    simp only [Port.pin, reduceCtorEq, if_false, getLsbD_pull]
    simp only [getLsbD_clear, getLsbD_set]
    split_ifs <;> rfl
  | out =>
    simp only [Port.pin, reduceCtorEq, if_false, if_true, getLsbD_pull, pairBits_merge]
    simp only [getLsbD_set]
    split_ifs <;> rfl
  | inp =>
    simp only [Port.pin, reduceCtorEq, if_false, getLsbD_pull, pairBits_merge]
    simp only [getLsbD_clear, getLsbD_set]
    split_ifs <;> rfl
  | intr =>
    simp only [Port.pin, reduceCtorEq, if_false, if_true, getLsbD_pull, pairBits_merge]
    simp only [getLsbD_clear, getLsbD_set]
    split_ifs <;> rfl

end Emlinux.Gpio
