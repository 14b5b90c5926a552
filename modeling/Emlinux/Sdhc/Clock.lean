import Emlinux.Sdhc.Command
import Mathlib.Tactic

/-!
# The SD clock

`sdhc_set_clk` chooses a divider, a power of two up to 256, of the base clock, and with version 1 of the controller also one
of a third of it. `_sdhc_div` compares with the base clock shifted to the right, and takes the last divider unchecked. `Best`: the
frequency is at most the requested one, and no other choice gives a higher one that is.

* `Least`: what `_sdhc_div` finds.
* `Exact`: a shift never hides that a clock is too fast.
* `best_iff`: over all base clocks and requests.
-/

namespace Emlinux.Sdhc.Clock

/-- What `sdhc_set_clk` reads and writes: `t->ver`, `t->baseclk`, the prescaler register and the clock registers. -/
structure Regs where
  ver : Bool
  baseclk : Nat
  ctlr : BitVec 32
  frqdiv : BitVec 8
  clk : BitVec 8
deriving DecidableEq, Repr

/-- `SDHC_CLK_ENA`. -/
def clkEna : BitVec 8 := 4#8

/-- `SDHC_CLK_STABLE`. -/
def clkStable : BitVec 8 := 2#8

/-- `SDHC_CLK_INT`. -/
def clkInt : BitVec 8 := 1#8

/-- The loop in `_sdhc_div` from `div` on, with `n` tests left. -/
def divLoop (clk base : Nat) : Nat → Nat → Nat
  | 0, div => div
  | n + 1, div => if base >>> div ≤ clk then div else divLoop clk base n (div + 1)

/-- `_sdhc_div`: the register value and `*rclk`. -/
def sdhcDiv (clk base : Nat) : Nat × Nat :=
  if clk ≥ base then (0, base)
  else
    let div := divLoop clk base 7 1
    (1 <<< (div - 1), base >>> div)

/-- The part of `sdhc_set_clk` that sets the prescaler and calculates the divider. -/
def divisor (r : Regs) (clk : Nat) : Nat × Regs :=
  if r.ver then
    let (div, rclk) := sdhcDiv clk r.baseclk
    let (div3, rclk3) := sdhcDiv clk (r.baseclk / 3)
    if rclk3 > rclk then (div3, { r with ctlr := r.ctlr &&& ~~~3#32 ||| 2#32 })
    else (div, { r with ctlr := r.ctlr &&& ~~~3#32 ||| 0#32 })
  else ((sdhcDiv clk (r.baseclk / 2)).1, r)

/-- `sdhc_set_clk`, when the lines stay busy or not, and the clock gets stable or not. -/
def sdhcSetClk (r : Regs) (clk : Nat) (busy stable : Bool) : Ret × Regs :=
  if busy then (.busy, r)
  else
    let r := { r with clk := r.clk &&& ~~~clkEna }
    if clk = 0 then (.none, r)
    else
      let (div, r) := divisor r clk
      let r := { r with frqdiv := BitVec.ofNat 8 div, clk := clkInt }
      if stable then (.none, { r with clk := clkInt ||| clkStable ||| clkEna })
      else (.tout, r)

/-! ## The frequency -/

/-- The prescaler in the registers. -/
def Regs.pre (r : Regs) : Nat := if r.ver then (if r.ctlr &&& 3#32 = 2#32 then 3 else 1) else 2

/-- The frequency for a prescaler and a value of the divider register. -/
def freq (base pre div : Nat) : ℚ := (base : ℚ) / pre / (if div = 0 then 1 else 2 * div)

/-- The prescaler and the divider can be selected. -/
def Selectable (ver : Bool) (pre div : Nat) : Prop :=
  (if ver then pre = 1 ∨ pre = 3 else pre = 2) ∧ (div = 0 ∨ ∃ k < 8, div = 2 ^ k)

/-- The selected frequency is at most the requested one, and no selectable one that is at most the requested one is higher. -/
def Best (r : Regs) (clk : Nat) : Prop :=
  freq r.baseclk r.pre r.frqdiv.toNat ≤ clk ∧ ∀ pre div, Selectable r.ver pre div →
    freq r.baseclk pre div ≤ clk → freq r.baseclk pre div ≤ freq r.baseclk r.pre r.frqdiv.toNat

/-- For no divider the frequency lies between `clk` and `clk + 1`, where a shift makes it `clk`. -/
def Exact (base clk pre : Nat) : Prop := ∀ k ≤ 8, base ≤ clk * (pre * 2 ^ k) ∨ (clk + 1) * (pre * 2 ^ k) ≤ base

/-- The condition on the base clock and the request. -/
def Heeded (ver : Bool) (base clk : Nat) : Prop :=
  if ver then
    Exact base clk 1 ∧ base ≤ clk * 256 ∧ (Exact base clk 3 ∨ ∃ a ≤ 8, base = clk * 2 ^ a) ∧
      ¬ (clk = 3 ∧ ∃ j ≤ 6, 8 * 2 ^ j ≤ base ∧ base < 9 * 2 ^ j)
  else Exact base clk 2 ∧ base ≤ clk * 512

/-! ## What is found -/

variable {base clk pre k : Nat}

/-- The divider `2 ^ k` is the first one whose shifted clock is at most `clk`, or the last one. -/
structure Least (base clk pre k : Nat) : Prop where
  le : k ≤ 8
  slow : k < 8 → base < (clk + 1) * (pre * 2 ^ k)
  fast : ∀ j < k, (clk + 1) * (pre * 2 ^ j) ≤ base

/-- The register value of the divider `2 ^ k`. -/
def code (k : Nat) : Nat := if k = 0 then 0 else 2 ^ (k - 1)

theorem lt_iff_div (hp : 0 < pre) (j : Nat) : base / pre / 2 ^ j ≤ clk ↔ base < (clk + 1) * (pre * 2 ^ j) := by
  rw [Nat.div_div_eq_div_mul, ← Nat.lt_succ_iff, Nat.div_lt_iff_lt_mul (by positivity)]

theorem divLoop_spec (clk base : Nat) (n : Nat) : ∀ d, d ≤ divLoop clk base n d ∧ divLoop clk base n d ≤ d + n ∧
    (divLoop clk base n d < d + n → base >>> divLoop clk base n d ≤ clk) ∧
      ∀ j, d ≤ j → j < divLoop clk base n d → clk < base >>> j := by
  induction n with
  | zero => exact fun d => ⟨le_rfl, le_rfl, fun h => absurd h (Nat.lt_irrefl d), fun j h1 h2 => absurd h2 (Nat.not_lt.mpr h1)⟩
  | succ n ih =>
    intro d
    unfold divLoop
    split_ifs with h
    · exact ⟨le_rfl, Nat.le_add_right _ _, fun _ => h, fun j h1 h2 => absurd h2 (Nat.not_lt.mpr h1)⟩
    · obtain ⟨h1, h2, h3, h4⟩ := ih (d + 1)
      refine ⟨by omega, by omega, fun hlt => h3 (by omega), fun j hj hlt => ?_⟩
      rcases Nat.eq_or_lt_of_le hj with rfl | hj
      · exact Nat.lt_of_not_le h
      · exact h4 j hj hlt

/-- `_sdhc_div` finds the first divider. -/
theorem sdhcDiv_least (base clk : Nat) (hp : 0 < pre) :
    ∃ k, Least base clk pre k ∧ sdhcDiv clk (base / pre) = (code k, base / (pre * 2 ^ k)) := by
  unfold sdhcDiv
  split_ifs with h
  · refine ⟨0, ⟨by omega, fun _ => (lt_iff_div hp 0).mp (by simpa using h), nofun⟩, ?_⟩
    simp [code]
  · obtain ⟨h1, h2, h3, h4⟩ := divLoop_spec clk (base / pre) 7 1
    dsimp only
    generalize divLoop clk (base / pre) 7 1 = k at *
    refine ⟨k, ⟨by omega, fun hk => (lt_iff_div hp k).mp ?_, fun j hj => ?_⟩, ?_⟩
    · rw [← Nat.shiftRight_eq_div_pow]
      exact h3 (by omega)
    · rw [← Nat.not_lt, ← lt_iff_div hp, ← Nat.shiftRight_eq_div_pow, Nat.not_le]
      rcases Nat.eq_zero_or_pos j with rfl | hj0
      · simpa using h
      · exact h4 j hj0 hj
    · rw [Nat.shiftRight_eq_div_pow, Nat.div_div_eq_div_mul, code, if_neg (by omega), Nat.one_shiftLeft]

/-- With an exact prescaler the divider that is found is the first one that is slow enough. -/
theorem Exact.fit (he : Exact base clk pre) (hp : 0 < pre) (hl : Least base clk pre k) (h : base ≤ clk * (pre * 2 ^ 8)) :
    base ≤ clk * (pre * 2 ^ k) ∧ ∀ j, base ≤ clk * (pre * 2 ^ j) → k ≤ j := by
  constructor
  · rcases Nat.lt_or_eq_of_le hl.le with hk | rfl
    · exact (he k hl.le).resolve_right (Nat.not_le.mpr (hl.slow hk))
    · exact h
  · intro j hj
    by_contra hlt
    have hfast := hl.fast j (by omega)
    have hpos : 0 < pre * 2 ^ j := by positivity
    rw [Nat.succ_mul] at hfast
    omega

/-- Without it the clock that is found is too fast, and the shift hides it. -/
theorem Least.fast_of_inexact (hl : Least base clk pre k) (h : ¬ Exact base clk pre) :
    clk * (pre * 2 ^ k) < base ∧ base < (clk + 1) * (pre * 2 ^ k) := by
  unfold Exact at h
  push Not at h
  obtain ⟨j, hj, h1, h2⟩ := h
  have hkj : k ≤ j := by
    by_contra hlt
    exact absurd (hl.fast j (by omega)) (Nat.not_le.mpr h2)
  have hpow : pre * 2 ^ k ≤ pre * 2 ^ j := Nat.mul_le_mul_left _ (Nat.pow_le_pow_right (by omega) hkj)
  refine ⟨(Nat.mul_le_mul_left clk hpow).trans_lt h1, ?_⟩
  rcases Nat.lt_or_eq_of_le hl.le with hk | rfl
  · exact hl.slow hk
  · obtain rfl : j = 8 := by omega
    exact h2

/-! ## The best choice -/

theorem freq_code (base pre k : Nat) : freq base pre (code k) = (base : ℚ) / ((pre * 2 ^ k : Nat) : ℚ) := by
  cases k with
  | zero => simp [freq, code]
  | succ k =>
    have hcode : code (k + 1) = 2 ^ k := by simp [code]
    unfold freq
    rw [hcode, if_neg (by positivity), div_div]
    push_cast
    rw [pow_succ]
    ring_nf

theorem freq_le (hp : 0 < pre) : freq base pre (code k) ≤ clk ↔ base ≤ clk * (pre * 2 ^ k) := by
  rw [freq_code, div_le_iff₀ (by positivity)]
  exact_mod_cast Iff.rfl

theorem freq_le_freq {pre' k' : Nat} (hb : 0 < base) (hp : 0 < pre) (hp' : 0 < pre') :
    freq base pre' (code k') ≤ freq base pre (code k) ↔ pre * 2 ^ k ≤ pre' * 2 ^ k' := by
  rw [freq_code, freq_code, div_le_div_iff_of_pos_left (by positivity) (by positivity) (by positivity)]
  exact_mod_cast Iff.rfl

/-- The prescalers of a version. -/
def Prescaler (ver : Bool) (pre : Nat) : Prop := if ver then pre = 1 ∨ pre = 3 else pre = 2

theorem Prescaler.pos {ver : Bool} (h : Prescaler ver pre) : 0 < pre := by
  unfold Prescaler at h
  split_ifs at h <;> omega

theorem selectable_iff (ver : Bool) (pre div : Nat) : Selectable ver pre div ↔ Prescaler ver pre ∧ ∃ k ≤ 8, div = code k := by
  unfold Selectable Prescaler
  refine and_congr_right fun _ => ⟨?_, ?_⟩
  · rintro (rfl | ⟨k, hk, rfl⟩)
    · exact ⟨0, by omega, rfl⟩
    · exact ⟨k + 1, by omega, by simp [code]⟩
  · rintro ⟨k, hk, rfl⟩
    cases k with
    | zero => exact Or.inl rfl
    | succ k => exact Or.inr ⟨k, by omega, by simp [code]⟩

/-- The choice of a prescaler and a divider is the best when the clock is slow enough and the product the least one. -/
theorem best_choice {r : Regs} (hb : 0 < r.baseclk) (hver : Prescaler r.ver pre) (hpre : r.pre = pre) (hdiv : r.frqdiv.toNat = code k) :
    Best r clk ↔ r.baseclk ≤ clk * (pre * 2 ^ k) ∧ ∀ pre' k', Prescaler r.ver pre' → k' ≤ 8 →
      r.baseclk ≤ clk * (pre' * 2 ^ k') → pre * 2 ^ k ≤ pre' * 2 ^ k' := by
  unfold Best
  rw [hpre, hdiv, freq_le hver.pos]
  refine and_congr_right fun _ => ⟨fun h pre' k' hp' hk' hle => ?_, fun h pre' div hsel hle => ?_⟩
  · rw [← freq_le_freq hb hver.pos hp'.pos]
    exact h pre' (code k') ((selectable_iff _ _ _).mpr ⟨hp', k', hk', rfl⟩) ((freq_le hp'.pos).mpr hle)
  · obtain ⟨hp', k', hk', rfl⟩ := (selectable_iff _ _ _).mp hsel
    rw [freq_le_freq hb hver.pos hp'.pos]
    exact h pre' k' hp' hk' ((freq_le hp'.pos).mp hle)

/-- One prescaler. -/
theorem least_best_iff (hp : 0 < pre) (hl : Least base clk pre k) :
    (base ≤ clk * (pre * 2 ^ k) ∧ ∀ k' ≤ 8, base ≤ clk * (pre * 2 ^ k') → pre * 2 ^ k ≤ pre * 2 ^ k') ↔
      Exact base clk pre ∧ base ≤ clk * (pre * 2 ^ 8) := by
  constructor
  · rintro ⟨h, -⟩
    refine ⟨?_, h.trans (Nat.mul_le_mul_left _ (Nat.mul_le_mul_left _ (Nat.pow_le_pow_right (by omega) hl.le)))⟩
    by_contra he
    exact absurd h (Nat.not_le.mpr (hl.fast_of_inexact he).1)
  · rintro ⟨he, h⟩
    obtain ⟨hfit, hmin⟩ := he.fit hp hl h
    exact ⟨hfit, fun k' _ hle => Nat.mul_le_mul_left _ (Nat.pow_le_pow_right (by omega) (hmin k' hle))⟩

/-- Both prescalers of version 1: the third of the base clock is taken when its shifted clock is the higher one. -/
structure Pair (base clk k1 k3 : Nat) : Prop where
  one : Least base clk 1 k1
  three : Least base clk 3 k3

/-- The product that version 1 chooses. -/
def product (base k1 k3 : Nat) : Nat := if base / (1 * 2 ^ k1) < base / (3 * 2 ^ k3) then 3 * 2 ^ k3 else 1 * 2 ^ k1

/-- It is the least one for which the clock is slow enough. -/
def Chosen (base clk d : Nat) : Prop :=
  base ≤ clk * d ∧ ∀ k ≤ 8, (base ≤ clk * (1 * 2 ^ k) → d ≤ 1 * 2 ^ k) ∧ (base ≤ clk * (3 * 2 ^ k) → d ≤ 3 * 2 ^ k)

variable {k1 k3 : Nat}

/-- A shifted clock that is at most `clk`, unless the divider is the last one. -/
theorem Least.shifted_le (hl : Least base clk pre k) (hk : k < 8) (hp : 0 < pre) : base / (pre * 2 ^ k) ≤ clk := by
  rw [← Nat.lt_succ_iff, Nat.div_lt_iff_lt_mul (by positivity)]
  exact hl.slow hk

theorem pow_le_last {k : Nat} (hk : k ≤ 8) : 2 ^ k ≤ 2 ^ 8 := Nat.pow_le_pow_right (by omega) hk

/-- The third is not taken when its product is not less than the other. -/
theorem product_one (h : 1 * 2 ^ k1 ≤ 3 * 2 ^ k3) : product base k1 k3 = 1 * 2 ^ k1 := by
  unfold product
  rw [if_neg]
  exact Nat.not_lt.mpr (Nat.div_le_div_left h (by positivity))

theorem product_one_of_le (h : base / (3 * 2 ^ k3) ≤ base / (1 * 2 ^ k1)) : product base k1 k3 = 1 * 2 ^ k1 := by
  unfold product
  rw [if_neg (Nat.not_lt.mpr h)]

/-- The shifted clock of the third is at most the other, or at most `clk`. -/
theorem Pair.three_le (h : Pair base clk k1 k3) (hc : clk ≤ base / (1 * 2 ^ k1)) : product base k1 k3 = 1 * 2 ^ k1 := by
  rcases Nat.lt_or_eq_of_le h.three.le with hk | rfl
  · exact product_one_of_le ((h.three.shifted_le hk (by omega)).trans hc)
  · refine product_one ?_
    have := pow_le_last h.one.le
    omega

/-- A choice that is right is exact: the request is met by a clock that no shift changes. -/
theorem Pair.exact_of_chosen (h : Pair base clk k1 k3) (hch : Chosen base clk (product base k1 k3)) :
    Exact base clk 1 ∧ base ≤ clk * 256 := by
  have hlast := pow_le_last h.one.le
  have hone (hc : clk ≤ base / (1 * 2 ^ k1)) : base ≤ clk * (1 * 2 ^ k1) := by
    have hle := hch.1
    rwa [h.three_le hc] at hle
  have hexact : Exact base clk 1 := by
    by_contra he
    obtain ⟨h1, -⟩ := h.one.fast_of_inexact he
    exact absurd (hone ((Nat.le_div_iff_mul_le (by positivity)).mpr h1.le)) (Nat.not_le.mpr h1)
  refine ⟨hexact, ?_⟩
  by_contra hgt
  rcases Nat.lt_or_eq_of_le h.one.le with hk | rfl
  · have hslow := (hexact k1 h.one.le).resolve_right (Nat.not_le.mpr (h.one.slow hk))
    exact hgt (hslow.trans (Nat.mul_le_mul_left _ (by omega)))
  · exact hgt (hone ((Nat.le_div_iff_mul_le (by positivity)).mpr (by omega)))

/-- If the third of the base clock is not exact, the request is met to the point. -/
theorem Pair.three_of_chosen (h : Pair base clk k1 k3) (hch : Chosen base clk (product base k1 k3)) :
    Exact base clk 3 ∨ ∃ a ≤ 8, base = clk * 2 ^ a := by
  obtain ⟨he1, hle⟩ := h.exact_of_chosen hch
  rw [or_iff_not_imp_left]
  intro he3
  obtain ⟨h1, h2⟩ := h.three.fast_of_inexact he3
  obtain ⟨hfit, -⟩ := he1.fit (by decide) h.one (hle.trans (Nat.mul_le_mul_left _ (by decide)))
  refine ⟨k1, h.one.le, ?_⟩
  have hthree : clk ≤ base / (3 * 2 ^ k3) := (Nat.le_div_iff_mul_le (by positivity)).mpr h1.le
  by_contra hne
  -- the shifted clock is less than `clk`, so the third is taken, and it is too fast
  have hlt : base / (1 * 2 ^ k1) < clk := by
    rw [Nat.one_mul] at hfit ⊢
    rw [Nat.div_lt_iff_lt_mul (by positivity)]
    omega
  have hprod : product base k1 k3 = 3 * 2 ^ k3 := by
    unfold product
    rw [if_pos (hlt.trans_le hthree)]
  have hfast := hch.1
  rw [hprod] at hfast
  omega

/-- The divider that is found is the only one. -/
theorem Least.eq {j : Nat} (hl : Least base clk pre k) (hj : j < 8) (hslow : base < (clk + 1) * (pre * 2 ^ j))
    (hfast : ∀ i < j, (clk + 1) * (pre * 2 ^ i) ≤ base) : k = j := by
  rcases Nat.lt_trichotomy k j with h | h | h
  · exact absurd (hfast k h) (Nat.not_le.mpr (hl.slow (by omega)))
  · exact h
  · exact absurd (hl.fast j h) (Nat.not_le.mpr hslow)

/-- For a request of 3 the third can be the better choice by less than a shift shows. -/
theorem Pair.tie (h : Pair base clk k1 k3) (hch : Chosen base clk (product base k1 k3)) :
    ¬ (clk = 3 ∧ ∃ j ≤ 6, 8 * 2 ^ j ≤ base ∧ base < 9 * 2 ^ j) := by
  rintro ⟨rfl, j, hj, hlo, hhi⟩
  have hsmall {i : Nat} (hi : i < j) : 2 * 2 ^ i ≤ 2 ^ j := by
    rw [← Nat.pow_succ']
    exact Nat.pow_le_pow_right (by omega) hi
  have h3 : k3 = j := h.three.eq (by omega) (by omega) fun i hi => by
    have := hsmall hi
    omega
  have h1 : k1 = j + 2 := by
    have hpow : 2 ^ (j + 2) = 4 * 2 ^ j := by rw [Nat.pow_add, Nat.mul_comm]
    rcases Nat.lt_or_eq_of_le hj with hj6 | rfl
    · refine h.one.eq (by omega) (by omega) fun i hi => ?_
      have : 2 ^ i ≤ 2 ^ (j + 1) := Nat.pow_le_pow_right (by omega) (by omega)
      rw [Nat.pow_succ] at this
      omega
    · -- the last divider
      by_contra hne
      have hle := h.one.le
      have hslow := h.one.slow (by omega)
      have : 2 ^ k1 ≤ 2 ^ 7 := Nat.pow_le_pow_right (by omega) (by omega)
      omega
  have hpow : 1 * 2 ^ k1 = 4 * 2 ^ j := by rw [h1, Nat.one_mul, Nat.pow_add, Nat.mul_comm]
  have hpos : 0 < 2 ^ j := by positivity
  have hr1 : base / (1 * 2 ^ k1) = 2 := by
    rw [hpow]
    exact Nat.div_eq_of_lt_le (by omega) (by omega)
  have hr3 : base / (3 * 2 ^ k3) = 2 := by
    rw [h3]
    exact Nat.div_eq_of_lt_le (by omega) (by omega)
  have hbetter := (hch.2 j (by omega)).2 (by omega)
  rw [product_one_of_le (by rw [hr1, hr3]), hpow] at hbetter
  omega

/-- Between two dividers of the base clock lies one of its third; it is missed only in a tie. -/
theorem tie_of_missed {j : Nat} (he : Exact base clk 1) (hj : j ≤ 6) (hhi : base ≤ clk * (3 * 2 ^ j))
    (hlo : clk * (2 * 2 ^ j) < base) (hno : base / (3 * 2 ^ j) ≤ base / (4 * 2 ^ j)) :
    clk = 3 ∧ ∃ j ≤ 6, 8 * 2 ^ j ≤ base ∧ base < 9 * 2 ^ j := by
  have hpos : 0 < 2 ^ j := by positivity
  have hup : (clk + 1) * (2 * 2 ^ j) ≤ base := by
    have h := he (j + 1) (by omega)
    rw [Nat.one_mul, Nat.pow_succ'] at h
    exact h.resolve_left (Nat.not_le.mpr hlo)
  -- the common value of the shifted clocks
  obtain ⟨r, hr⟩ : ∃ r, r = base / (4 * 2 ^ j) := ⟨_, rfl⟩
  rw [← hr] at hno
  have h4 : r * (4 * 2 ^ j) ≤ base := by
    rw [hr]
    exact Nat.div_mul_le_self _ _
  have h3 : base < (r + 1) * (3 * 2 ^ j) := by
    rw [← Nat.div_lt_iff_lt_mul (by positivity)]
    omega
  have hcr : 2 * (clk + 1) < 3 * (r + 1) := by
    refine Nat.lt_of_mul_lt_mul_right (a := 2 ^ j) ?_
    calc 2 * (clk + 1) * 2 ^ j = (clk + 1) * (2 * 2 ^ j) := by ring
      _ < (r + 1) * (3 * 2 ^ j) := hup.trans_lt h3
      _ = 3 * (r + 1) * 2 ^ j := by ring
  have hr3 : 4 * r < 3 * (r + 1) := by
    refine Nat.lt_of_mul_lt_mul_right (a := 2 ^ j) ?_
    calc 4 * r * 2 ^ j = r * (4 * 2 ^ j) := by ring
      _ < (r + 1) * (3 * 2 ^ j) := h4.trans_lt h3
      _ = 3 * (r + 1) * 2 ^ j := by ring
  have hrc : 4 * r ≤ 3 * clk := by
    refine Nat.le_of_mul_le_mul_right ?_ hpos
    calc 4 * r * 2 ^ j = r * (4 * 2 ^ j) := by ring
      _ ≤ clk * (3 * 2 ^ j) := h4.trans hhi
      _ = 3 * clk * 2 ^ j := by ring
  have hc : clk ≠ 0 := by
    rintro rfl
    omega
  have hcase : r = 0 ∨ r = 1 ∨ r = 2 := by omega
  have hval : clk = 3 ∧ r = 2 := by
    rcases hcase with h | h | h <;> omega
  rw [hval.2] at h3 h4
  exact ⟨hval.1, j, hj, by omega, by omega⟩

/-- The conditions are enough. -/
theorem Pair.chosen (h : Pair base clk k1 k3) (hc : 0 < clk) (he : Exact base clk 1) (hle : base ≤ clk * 256)
    (h3 : Exact base clk 3 ∨ ∃ a ≤ 8, base = clk * 2 ^ a) (ht : ¬ (clk = 3 ∧ ∃ j ≤ 6, 8 * 2 ^ j ≤ base ∧ base < 9 * 2 ^ j)) :
    Chosen base clk (product base k1 k3) := by
  obtain ⟨hfit, hmin⟩ := he.fit (by decide) h.one (hle.trans (Nat.mul_le_mul_left _ (by decide)))
  have hmono {i j : Nat} (hij : i ≤ j) : 2 ^ i ≤ 2 ^ j := Nat.pow_le_pow_right (by omega) hij
  rcases h3 with he3 | ⟨a, -, ha⟩
  · obtain ⟨hfit3, hmin3⟩ := he3.fit (by decide) h.three (hle.trans (Nat.mul_le_mul_left _ (by decide)))
    unfold product
    split_ifs with hlt
    · -- the third is taken, and its product is the less one
      refine ⟨hfit3, fun k hk => ⟨fun hk1 => ?_, fun hk3 => Nat.mul_le_mul_left _ (hmono (hmin3 k hk3))⟩⟩
      have hless : 3 * 2 ^ k3 < 1 * 2 ^ k1 := by
        by_contra hge
        exact absurd (Nat.div_le_div_left (Nat.not_lt.mp hge) (by positivity)) (Nat.not_le.mpr hlt)
      have := hmono (hmin k hk1)
      omega
    · refine ⟨hfit, fun k hk => ⟨fun hk1 => Nat.mul_le_mul_left _ (hmono (hmin k hk1)), fun hk3 => ?_⟩⟩
      have h33 := hmono (hmin3 k hk3)
      by_contra hgt
      -- the third would have been better
      have hless : 3 * 2 ^ k3 < 2 ^ k1 := by omega
      obtain ⟨i, rfl⟩ : ∃ i, k1 = i + 1 := by
        cases k1 with
        | zero =>
          have : 0 < 2 ^ k3 := by positivity
          omega
        | succ i => exact ⟨i, rfl⟩
      have hnot : clk * (1 * 2 ^ i) < base := by
        by_contra hge
        exact absurd (hmin i (Nat.not_lt.mp hge)) (by omega)
      have hi : 2 ^ i < 3 * 2 ^ k3 := by
        have := hnot.trans_le hfit3
        rw [Nat.one_mul] at this
        exact Nat.lt_of_mul_lt_mul_left this
      have hk : i = k3 + 1 := by
        rw [Nat.pow_succ] at hless
        rcases Nat.lt_trichotomy i (k3 + 1) with h1 | h1 | h1
        · have := hmono (show i ≤ k3 by omega)
          omega
        · exact h1
        · have := hmono (show k3 + 2 ≤ i by omega)
          rw [Nat.pow_add] at this
          omega
      subst hk
      refine ht (tie_of_missed he (by have := h.one.le; omega) hfit3 ?_ ?_)
      · rwa [Nat.one_mul, Nat.pow_succ'] at hnot
      · have hpow : 1 * 2 ^ (k3 + 1 + 1) = 4 * 2 ^ k3 := by rw [Nat.one_mul, Nat.pow_add, Nat.pow_succ, Nat.mul_comm]; omega
        rw [hpow] at hlt
        exact Nat.not_lt.mp hlt
  · -- the request is met to the point
    have hk1 : k1 ≤ a := hmin a (by rw [Nat.one_mul]; exact ha.le)
    have hge : 2 ^ a ≤ 2 ^ k1 := by
      rw [Nat.one_mul] at hfit
      exact Nat.le_of_mul_le_mul_left (ha ▸ hfit) hc
    have heq : 1 * 2 ^ k1 = 2 ^ a := by
      rw [Nat.one_mul]
      exact Nat.le_antisymm (hmono hk1) hge
    have hprod : product base k1 k3 = 2 ^ a := by
      rw [h.three_le ?_, heq]
      rw [heq, ha, Nat.mul_div_cancel _ (by positivity)]
    rw [hprod]
    refine ⟨ha.le, fun k _ => ⟨fun hk => ?_, fun hk => ?_⟩⟩
    · exact Nat.le_of_mul_le_mul_left (ha ▸ hk) hc
    · exact Nat.le_of_mul_le_mul_left (ha ▸ hk) hc

theorem Pair.chosen_iff (h : Pair base clk k1 k3) (hc : 0 < clk) : Chosen base clk (product base k1 k3) ↔
    Heeded true base clk := by
  unfold Heeded
  rw [if_pos rfl]
  constructor
  · intro hch
    obtain ⟨he, hle⟩ := h.exact_of_chosen hch
    exact ⟨he, hle, h.three_of_chosen hch, h.tie hch⟩
  · rintro ⟨he, hle, h3, ht⟩
    exact h.chosen hc he hle h3 ht

/-! ## The clock -/

theorem code_toNat (hk : k ≤ 8) : (BitVec.ofNat 8 (code k)).toNat = code k := by
  have : code k < 2 ^ 8 := by
    unfold code
    split_ifs
    · decide
    · exact Nat.pow_lt_pow_right (by omega) (by omega)
  rw [BitVec.toNat_ofNat, Nat.mod_eq_of_lt this]

/-- The prescaler bits. -/
theorem prescaler_bits (v : BitVec 32) : (v &&& ~~~3#32 ||| 2#32) &&& 3#32 = 2#32 ∧ (v &&& ~~~3#32 ||| 0#32) &&& 3#32 ≠ 2#32 := by
  have hclear : (v &&& ~~~3#32) &&& 3#32 = 0#32 := by
    rw [BitVec.and_assoc, show ~~~3#32 &&& 3#32 = 0#32 by decide, BitVec.and_zero]
  rw [BitVec.or_comm, BitVec.or_comm (v &&& ~~~3#32), BitVec.and_comm, BitVec.and_or_distrib_left, BitVec.zero_or, hclear]
  rw [BitVec.and_comm 3#32 (v &&& ~~~3#32), hclear]
  decide

/-- The choice of version 0. -/
theorem divisor_zero {r : Regs} (hver : r.ver = false) : ∃ k, Least r.baseclk clk 2 k ∧ divisor r clk = (code k, r) := by
  obtain ⟨k, hl, hdiv⟩ := sdhcDiv_least r.baseclk clk (show 0 < 2 by decide)
  refine ⟨k, hl, ?_⟩
  unfold divisor
  rw [if_neg (by simp [hver]), hdiv]

/-- The choice of version 1. -/
theorem divisor_one {r : Regs} (hver : r.ver = true) : ∃ k1 k3, Pair r.baseclk clk k1 k3 ∧ ∃ k ≤ 8, ∃ pre v,
    (pre = if v &&& 3#32 = 2#32 then 3 else 1) ∧ product r.baseclk k1 k3 = pre * 2 ^ k ∧ divisor r clk = (code k, { r with ctlr := v }) := by
  obtain ⟨k1, hl1, hdiv1⟩ := sdhcDiv_least r.baseclk clk (show 0 < 1 by decide)
  obtain ⟨k3, hl3, hdiv3⟩ := sdhcDiv_least r.baseclk clk (show 0 < 3 by decide)
  rw [Nat.div_one] at hdiv1
  obtain ⟨hbits3, hbits1⟩ := prescaler_bits r.ctlr
  refine ⟨k1, k3, ⟨hl1, hl3⟩, ?_⟩
  unfold divisor product
  rw [if_pos hver, hdiv1, hdiv3]
  dsimp only
  split_ifs with h
  · exact ⟨k3, hl3.le, 3, _, by rw [if_pos hbits3], rfl, rfl⟩
  · exact ⟨k1, hl1.le, 1, _, by rw [if_neg hbits1], rfl, rfl⟩

/-- What is left in the registers. -/
structure Left (r u : Regs) (div : Nat) (v : BitVec 32) : Prop where
  ver : u.ver = r.ver
  baseclk : u.baseclk = r.baseclk
  ctlr : u.ctlr = v
  frqdiv : u.frqdiv = BitVec.ofNat 8 div

theorem sdhcSetClk_left (r : Regs) (hc : 0 < clk) (stable : Bool) {div : Nat} {v : BitVec 32}
    (hdiv : divisor { r with clk := r.clk &&& ~~~clkEna } clk = (div, { r with clk := r.clk &&& ~~~clkEna, ctlr := v })) :
    Left r (sdhcSetClk r clk false stable).2 div v := by
  unfold sdhcSetClk
  rw [if_neg Bool.false_ne_true]
  dsimp only
  rw [if_neg hc.ne', hdiv]
  cases stable
  · exact ⟨rfl, rfl, rfl, rfl⟩
  · exact ⟨rfl, rfl, rfl, rfl⟩

theorem best_zero_iff {r : Regs} (hver : r.ver = false) (stable : Bool) (hb : 0 < r.baseclk) (hc : 0 < clk) :
    Best (sdhcSetClk r clk false stable).2 clk ↔ Heeded false r.baseclk clk := by
  obtain ⟨k, hl, hdiv⟩ := divisor_zero (r := { r with clk := r.clk &&& ~~~clkEna }) hver
  have hu := sdhcSetClk_left r hc stable hdiv
  generalize (sdhcSetClk r clk false stable).2 = u at hu
  have huver : u.ver = false := hu.ver.trans hver
  have hpre (pre : Nat) : Prescaler u.ver pre ↔ pre = 2 := by simp [Prescaler, huver]
  have hcode : u.frqdiv.toNat = code k := by rw [hu.frqdiv, code_toNat hl.le]
  rw [best_choice (hu.baseclk ▸ hb) ((hpre 2).mpr rfl) (by simp [Regs.pre, huver]) hcode, hu.baseclk]
  unfold Heeded
  rw [if_neg Bool.false_ne_true, show clk * 512 = clk * (2 * 2 ^ 8) from rfl, ← least_best_iff (by decide) hl]
  refine and_congr_right fun _ => ⟨fun h k' hk' => h 2 k' ((hpre 2).mpr rfl) hk', fun h pre k' hp hk' => ?_⟩
  rw [(hpre pre).mp hp]
  exact h k' hk'

theorem best_one_iff {r : Regs} (hver : r.ver = true) (stable : Bool) (hb : 0 < r.baseclk) (hc : 0 < clk) :
    Best (sdhcSetClk r clk false stable).2 clk ↔ Heeded true r.baseclk clk := by
  obtain ⟨k1, k3, hpair, k, hk, pre, v, hv, hprod, hdiv⟩ := divisor_one (r := { r with clk := r.clk &&& ~~~clkEna }) hver
  have hu := sdhcSetClk_left r hc stable hdiv
  generalize (sdhcSetClk r clk false stable).2 = u at hu
  have huver : u.ver = true := hu.ver.trans hver
  have hpres (pre : Nat) : Prescaler u.ver pre ↔ pre = 1 ∨ pre = 3 := by simp [Prescaler, huver]
  have hupre : u.pre = pre := by
    unfold Regs.pre
    rw [if_pos huver, hu.ctlr, hv]
  have hmem : pre = 1 ∨ pre = 3 := by
    rw [hv]
    split_ifs
    · exact Or.inr rfl
    · exact Or.inl rfl
  have hcode : u.frqdiv.toNat = code k := by rw [hu.frqdiv, code_toNat hk]
  rw [best_choice (hu.baseclk ▸ hb) ((hpres pre).mpr hmem) hupre hcode, hu.baseclk, ← hprod, ← hpair.chosen_iff hc]
  refine and_congr_right fun _ => ⟨fun h k' hk' => ?_, fun h pre' k' hp' hk' hle => ?_⟩
  · exact ⟨h 1 k' ((hpres 1).mpr (Or.inl rfl)) hk', h 3 k' ((hpres 3).mpr (Or.inr rfl)) hk'⟩
  · rcases (hpres pre').mp hp' with rfl | rfl
    · exact (h k' hk').1 hle
    · exact (h k' hk').2 hle

/-- The clock is the best one exactly when no shift hides a clock that is too fast, the last divider is slow enough, and the third
of the base clock is not missed. -/
theorem best_iff (r : Regs) (clk : Nat) (stable : Bool) (hb : 0 < r.baseclk) (hc : 0 < clk) :
    Best (sdhcSetClk r clk false stable).2 clk ↔ Heeded r.ver r.baseclk clk := by
  cases hver : r.ver with
  | false => exact best_zero_iff hver stable hb hc
  | true => exact best_one_iff hver stable hb hc

/-- A base clock of 50 MHz and a request of 25 MHz. -/
theorem best_iff_half : Best (sdhcSetClk ⟨true, 500, 0#32, 0#8, 0#8⟩ 250 false true).2 250 :=
  (best_iff ⟨true, 500, 0#32, 0#8, 0#8⟩ 250 true (by decide) (by decide)).mpr
    ⟨by unfold Exact; decide, by decide, Or.inr ⟨1, by decide, by decide⟩, by decide⟩

/-- A base clock of 2.5 MHz and a request of 1.2 MHz: the clock is 1.25 MHz. -/
theorem clock_too_fast : ¬ Best (sdhcSetClk ⟨true, 25, 0#32, 0#8, 0#8⟩ 12 false true).2 12 := by
  rintro ⟨h, -⟩
  have hfreq : freq 25 1 1 ≤ (12 : Nat) := h
  norm_num [freq] at hfreq

end Emlinux.Sdhc.Clock
