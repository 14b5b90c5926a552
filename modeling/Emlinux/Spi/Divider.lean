import Emlinux.Lib.Field
import Emlinux.Lib.Halving

/-!
# The clock divider

In master mode `spi_cfg` halves the peripheral clock until it is no more than four times the baud rate, and ors the number of halvings into
the master register. Each halving drops a bit, and the fourfold baud rate is a signed 32-bit value.

* `divLoop_eq`, `divLoop_negative`: the loop, and that it does not end below zero.
* `clkDiv_eq_some_iff`: the exponent that is written.
* `divider_exact_iff`: it is the smallest safe one, and fits its field, exactly for the rates of `SafeRate`.
-/

namespace Emlinux.Spi.Divider

open Lib

/-! ## The source -/

/-- The value of an `int`. -/
def wrap32 (x : Int) : Int := Int.bmod x (2 ^ 32)

/-- `do { clkdiv >>= 1; k++; } while (clkdiv > frqdiv)`, `n` rounds at most. -/
def divLoop (frqdiv : Int) : Nat → Int → Nat → Option Nat
  | 0, _, _ => none
  | n + 1, clkdiv, k => if frqdiv < clkdiv / 2 then divLoop frqdiv n (clkdiv / 2) (k + 1) else some (k + 1)

/-- The exponent that `spi_cfg` computes. -/
def clkDiv (n : Nat) (perClk baud : Int) : Option Nat :=
  let frqdiv := wrap32 (4 * baud)
  if perClk ≤ frqdiv then some 0 else divLoop frqdiv n perClk 0

/-- The members of `spi_cfg_t` that the divider and the delays are taken from. -/
structure Cfg where
  perClk : Int
  baud : Int
  csdly : BitVec 8
  datdly : BitVec 16

inductive SpiErr where
  /-- `SPI_ERR_PARM` -/
  | parm
deriving DecidableEq

/-- `SPI_MST_FSS`. -/
def spiMstFss : BitVec 32 := 0x40000#32

/-- `(master & SPI_MST_FSS) | SPI_MST_DATDLY(datdly) | SPI_MST_CSDLY(csdly) | clkdiv`. -/
def mstWord (c : Cfg) (master : BitVec 32) (clkdiv : Nat) : BitVec 32 :=
  master &&& spiMstFss ||| BitVec.ofNat 32 (c.datdly.toNat - 1) <<< 8 ||| BitVec.ofNat 32 (c.csdly.toNat - 1) <<< 4 |||
    BitVec.ofNat 32 clkdiv

/-- The delays that `spi_cfg` sets when they are zero. -/
def Cfg.delays (c : Cfg) : Cfg :=
  let c := if c.datdly = 0#16 then { c with datdly := 1#16 } else c
  if c.csdly = 0#8 then { c with csdly := 1#8 } else c

/-- `spi_cfg` in master mode: what it writes to the master register, `none` when `n` rounds of its loop are not enough. -/
def spiCfg (n : Nat) (c : Cfg) (master : BitVec 32) : Option (Except SpiErr (BitVec 32)) :=
  if c.baud = 0 then some (.error .parm)
  else (clkDiv n c.perClk c.baud).map fun k => .ok (mstWord c.delays master k)

/-! ## The loop -/

section loop

variable {f p n k : Nat}

/-- The loop counts the halvings. -/
theorem divLoop_eq (f n c k : Nat) : divLoop f n c k =
    if halvings (fun v => decide (f < v)) n (c / 2) < n then some (k + 1 + halvings (fun v => decide (f < v)) n (c / 2)) else none := by
  induction n generalizing c k with
  | zero => rfl
  | succ n ih =>
    have hcast : (c : Int) / 2 = ((c / 2 : Nat) : Int) := by omega
    rw [divLoop, hcast]
    by_cases h : f < c / 2
    · have hstep : halvings (fun v => decide (f < v)) (n + 1) (c / 2) = halvings (fun v => decide (f < v)) n (c / 2 / 2) + 1 := by
        rw [halvings, if_pos (by simpa using h)]
      rw [if_pos (by omega), ih, hstep]
      by_cases hn : halvings (fun v => decide (f < v)) n (c / 2 / 2) < n
      · rw [if_pos hn, if_pos (by omega)]
        congr 1
        omega
      · rw [if_neg hn, if_neg (by omega)]
    · have hstep : halvings (fun v => decide (f < v)) (n + 1) (c / 2) = 0 := by
        rw [halvings, if_neg (by simpa using h)]
      rw [if_neg (by omega), hstep, if_pos (Nat.succ_pos n)]

/-- A clock does not get below zero. -/
theorem divLoop_negative {frqdiv c : Int} (hf : frqdiv < 0) (n : Nat) (hc : 0 ≤ c) (k : Nat) : divLoop frqdiv n c k = none := by
  induction n generalizing c k with
  | zero => rfl
  | succ n ih =>
    rw [divLoop, if_pos (by omega)]
    exact ih (by omega) (k + 1)

/-- Some number of rounds gives `k`. -/
def Computes (perClk baud k : Nat) : Prop := ∃ n, clkDiv n perClk baud = some k

theorem computes_of_le (h : (p : Int) ≤ wrap32 (4 * f)) : Computes p f k ↔ k = 0 := by
  have hall : ∀ n, clkDiv n p f = some 0 := by
    intro n
    simp only [clkDiv, if_pos h]
  constructor
  · rintro ⟨n, hn⟩
    rw [hall] at hn
    exact (Option.some.inj hn).symm
  · rintro rfl
    exact ⟨0, hall 0⟩

/-- Below the clock, the exponent is the least one that brings the truncated clock down to the fourfold rate. -/
theorem computes_of_lt {b : Nat} (hw : wrap32 (4 * b) = f) (h : f < p) :
    Computes p b k ↔ IsLeast {k | p / 2 ^ k ≤ f} k := by
  have hrun : ∀ n, clkDiv n p b = divLoop f n p 0 := by
    intro n
    rw [clkDiv, hw, if_neg (by omega)]
  have hfirst : ∀ n, halvings (fun v => decide (f < v)) (n + 1) p = halvings (fun v => decide (f < v)) n (p / 2) + 1 := by
    intro n
    rw [halvings, if_pos (by simpa using h)]
  -- the number of halvings is the least exponent
  have hleast : ∀ n, halvings (fun v => decide (f < v)) (n + 1) p < n + 1 →
      IsLeast {k | p / 2 ^ k ≤ f} (halvings (fun v => decide (f < v)) (n + 1) p) := by
    intro n hn
    refine ⟨by simpa using halvings_stop hn, fun j hj => ?_⟩
    apply halvings_le_of_not
    simpa using hj
  constructor
  · rintro ⟨n, hn⟩
    rw [hrun, divLoop_eq] at hn
    split_ifs at hn with hlt
    have hk := Option.some.inj hn
    have hl := hleast n (by rw [hfirst]; omega)
    rwa [hfirst, show halvings (fun v => decide (f < v)) n (p / 2) + 1 = k by omega] at hl
  · intro hk
    have hlt : halvings (fun v => decide (f < v)) (p + 1 + 1) p < p + 1 + 1 :=
      halvings_lt (by simp) Nat.lt_two_pow_self (by omega)
    refine ⟨p + 1, ?_⟩
    rw [hrun, divLoop_eq, if_pos (by rw [hfirst] at hlt; omega)]
    have := (hleast (p + 1) hlt).unique hk
    rw [hfirst] at this
    rw [Option.some.injEq]
    omega

end loop

/-! ## The word -/

section word

variable (c : Cfg) (master : BitVec 32) {k : Nat}

theorem mstWord_eq (k : Nat) : mstWord c master k = mstWord c master 0 ||| BitVec.ofNat 32 k := by
  simp [mstWord]

theorem mstFss_eq : master &&& spiMstFss = BitVec.ofNat 32 (field master 18 1) <<< 18 :=
  and_mask master (show 18 + 1 ≤ 32 by decide)

/-- An exponent below 16 is read back from `SPI_MST_CKDIV`. -/
theorem field_ckdiv (hk : k < 16) : field (mstWord c master k) 0 4 = k := by
  have hlow : field (mstWord c master 0) 0 4 = 0 := by
    rw [mstWord, mstFss_eq, field_or, field_or, field_or, field_shl_below (by decide), field_shl_below (by decide),
      field_shl_below (by decide)]
    simp
  have hfit : k < 2 ^ 32 := by omega
  rw [mstWord_eq, field_or, hlow, Nat.zero_or, field_eq, BitVec.toNat_ofNat, Nat.mod_eq_of_lt hfit, Nat.pow_zero, Nat.div_one]
  exact Nat.mod_eq_of_lt hk

/-- And it changes nothing above. -/
theorem field_beside_ckdiv (hk : k < 16) (pos len : Nat) (hpos : 4 ≤ pos) :
    field (mstWord c master k) pos len = field (mstWord c master 0) pos len := by
  have hzero : field (BitVec.ofNat 32 k) pos len = 0 := by
    apply field_above
    rw [BitVec.toNat_ofNat, Nat.mod_eq_of_lt (by omega)]
    exact lt_of_lt_of_le hk (Nat.pow_le_pow_right (show 0 < 2 by decide) hpos)
  rw [mstWord_eq, field_or, hzero, Nat.or_zero]

/-- Delays within their fields are read back as they are configured. -/
theorem field_delays (hcs : 1 ≤ c.csdly.toNat ∧ c.csdly.toNat ≤ 16) (hdat : 1 ≤ c.datdly.toNat ∧ c.datdly.toNat ≤ 1024) :
    field (mstWord c master 0) 4 4 = c.csdly.toNat - 1 ∧ field (mstWord c master 0) 8 10 = c.datdly.toNat - 1 := by
  have h1 : c.csdly.toNat - 1 < 2 ^ 4 := by omega
  have h2 : c.datdly.toNat - 1 < 2 ^ 10 := by omega
  have hv1 : (BitVec.ofNat 32 (c.csdly.toNat - 1)).toNat < 2 ^ 4 := by
    rw [BitVec.toNat_ofNat, Nat.mod_eq_of_lt (by omega)]
    exact h1
  rw [mstWord, mstFss_eq]
  simp only [field_or, field_ofNat_shl h1 (show 4 + 4 ≤ 32 by decide), field_ofNat_shl h2 (show 8 + 10 ≤ 32 by decide), field_zero,
    field_shl_below (show 4 + 4 ≤ 18 by decide), field_shl_below (show 4 + 4 ≤ 8 by decide),
    field_shl_below (show 8 + 10 ≤ 18 by decide), field_shl_above hv1 (show 4 + 4 ≤ 8 by decide)]
  simp

end word

/-! ## Exactness -/

/-- The exponent is the smallest with which the rate, a quarter of the divided clock, does not exceed the baud rate; it is in its field, and
the rest of the word is as it would be without it. -/
def DividerExact (c : Cfg) (perClk baud : Nat) (master : BitVec 32) : Prop :=
  ∃ n k, spiCfg n c master = some (.ok (mstWord c.delays master k)) ∧ clkDiv n perClk baud = some k ∧
    IsLeast {k | perClk ≤ 4 * baud * 2 ^ k} k ∧ k ≤ 15 ∧ field (mstWord c.delays master k) 0 4 = k ∧
    ∀ pos len, 4 ≤ pos → field (mstWord c.delays master k) pos len = field (mstWord c.delays master 0) pos len

/-- The fourfold rate is a positive `int`, 15 halvings suffice, and the clock is not between a power of two times that rate and the same power
of two times the next number, where the dropped bits decide. Or the fourfold rate comes out at no less than the clock although it wraps. -/
def SafeRate (perClk baud : Nat) : Prop :=
  (baud < 2 ^ 29 ∧ perClk ≤ 4 * baud * 2 ^ 15 ∧ ∀ j, ¬ (4 * baud * 2 ^ j < perClk ∧ perClk < (4 * baud + 1) * 2 ^ j)) ∨
  (2 ^ 30 ≤ baud ∧ baud < 2 ^ 30 + 2 ^ 29 ∧ perClk ≤ 4 * (baud - 2 ^ 30))

section exact

variable {p b k : Nat}

theorem wrap32_small (h : b < 2 ^ 29) : wrap32 (4 * b) = (4 * b : Nat) := by
  rw [wrap32, Int.bmod_def]
  omega

theorem wrap32_negative (h : (2 ^ 29 ≤ b ∧ b < 2 ^ 30) ∨ (2 ^ 30 + 2 ^ 29 ≤ b ∧ b < 2 ^ 31)) : wrap32 (4 * b) < 0 := by
  rw [wrap32, Int.bmod_def]
  omega

theorem wrap32_again (h1 : 2 ^ 30 ≤ b) (h2 : b < 2 ^ 30 + 2 ^ 29) : wrap32 (4 * b) = (4 * (b - 2 ^ 30) : Nat) := by
  rw [wrap32, Int.bmod_def]
  omega

theorem div_le_iff_lt (p f j : Nat) : p / 2 ^ j ≤ f ↔ p < (f + 1) * 2 ^ j := by
  rw [← Nat.lt_succ_iff, Nat.div_lt_iff_lt_mul (Nat.two_pow_pos j)]

/-- No exponent at all when the fourfold rate is negative. -/
theorem not_computes_of_negative (hp : 0 < p) (h : wrap32 (4 * b) < 0) : ¬ Computes p b k := by
  rintro ⟨n, hn⟩
  have hrun : clkDiv n p b = divLoop (wrap32 (4 * b)) n p 0 := by
    simp only [clkDiv, if_neg (show ¬ (p : Int) ≤ wrap32 (4 * b) by omega)]
  rw [hrun, divLoop_negative h n (by omega)] at hn
  exact absurd hn (by simp)

theorem isLeast_zero (h : p ≤ 4 * b) : IsLeast {k | p ≤ 4 * b * 2 ^ k} 0 :=
  ⟨by simpa using h, fun j _ => Nat.zero_le j⟩

/-- The computed exponent is the smallest safe one for the rates of `SafeRate`, and for no others. -/
theorem computes_least_iff (hp : 0 < p) (hp31 : p < 2 ^ 31) (hb31 : b < 2 ^ 31) :
    (∃ k, Computes p b k ∧ IsLeast {k | p ≤ 4 * b * 2 ^ k} k ∧ k ≤ 15) ↔ SafeRate p b := by
  constructor
  · rintro ⟨k, hk, ⟨hmem, hleast⟩, hle⟩
    have hmem : p ≤ 4 * b * 2 ^ k := hmem
    by_cases hsmall : b < 2 ^ 29
    · refine Or.inl ⟨hsmall, hmem.trans (Nat.mul_le_mul_left _ (Nat.pow_le_pow_right (by decide) hle)), ?_⟩
      rintro j ⟨h1, h2⟩
      have hw := wrap32_small hsmall
      by_cases hz : p ≤ 4 * b
      · have := Nat.le_mul_of_pos_right (4 * b) (Nat.two_pow_pos j)
        omega
      · have hkj := ((computes_of_lt hw (by omega)).mp hk).2 (show p / 2 ^ j ≤ 4 * b from (div_le_iff_lt _ _ _).mpr h2)
        have := Nat.mul_le_mul_left (4 * b) (Nat.pow_le_pow_right (show 0 < 2 by decide) hkj)
        omega
    · by_cases hmid : 2 ^ 30 ≤ b ∧ b < 2 ^ 30 + 2 ^ 29
      · refine Or.inr ⟨hmid.1, hmid.2, ?_⟩
        by_contra hlt
        have hw := wrap32_again hmid.1 hmid.2
        have hfloor := ((computes_of_lt hw (by omega)).mp hk).1
        have hk0 : k ≤ 0 := hleast (show p ≤ 4 * b * 2 ^ 0 by omega)
        obtain rfl : k = 0 := by omega
        exact hlt (by simpa using hfloor)
      · exact absurd hk (not_computes_of_negative hp (wrap32_negative (by omega)))
  · rintro (⟨hsmall, hle, hgap⟩ | ⟨h1, h2, hle⟩)
    · have hw := wrap32_small hsmall
      by_cases hz : p ≤ 4 * b
      · exact ⟨0, (computes_of_le (f := b) (by rw [hw]; omega)).mpr rfl, isLeast_zero hz, by decide⟩
      · have hex : ∃ j, p / 2 ^ j ≤ 4 * b := ⟨15, (div_le_iff_lt _ _ _).mpr (by omega)⟩
        have hfind : IsLeast {k | p / 2 ^ k ≤ 4 * b} (Nat.find hex) := ⟨Nat.find_spec hex, fun j hj => Nat.find_min' hex hj⟩
        refine ⟨Nat.find hex, (computes_of_lt hw (by omega)).mpr hfind, ⟨?_, fun j hj => ?_⟩, ?_⟩
        · by_contra hlt
          exact hgap _ ⟨not_le.mp hlt, (div_le_iff_lt _ _ _).mp hfind.1⟩
        · apply hfind.2
          have hj : p ≤ 4 * b * 2 ^ j := hj
          have := Nat.two_pow_pos j
          exact (div_le_iff_lt _ _ _).mpr (by rw [Nat.add_mul]; omega)
        · exact hfind.2 (show p / 2 ^ 15 ≤ 4 * b from (div_le_iff_lt _ _ _).mpr (by omega))
    · have hw := wrap32_again h1 h2
      exact ⟨0, (computes_of_le (f := b) (by rw [hw]; omega)).mpr rfl, isLeast_zero (by omega), by decide⟩

end exact

/-- The divider is the smallest safe one, in its field, for the rates of `SafeRate` and for no others. -/
theorem divider_exact_iff (c : Cfg) (p b : Nat) (master : BitVec 32) (hp : 0 < p) (hp31 : p < 2 ^ 31) (hb : 0 < b) (hb31 : b < 2 ^ 31)
    (hcp : c.perClk = p) (hcb : c.baud = b) : DividerExact c p b master ↔ SafeRate p b := by
  rw [← computes_least_iff hp hp31 hb31]
  constructor
  · rintro ⟨n, k, -, hk, hleast, hle, -, -⟩
    exact ⟨k, ⟨n, hk⟩, hleast, hle⟩
  · rintro ⟨k, ⟨n, hk⟩, hleast, hle⟩
    refine ⟨n, k, ?_, hk, hleast, hle, field_ckdiv _ _ (by omega), field_beside_ckdiv _ _ (by omega)⟩
    rw [spiCfg, if_neg (by omega), hcp, hcb, hk]
    rfl

/-- The settings of a device at `baud` on a clock of `perClk`, with the delays of `sslspi_setup`. -/
def setupCfg (perClk baud : Int) : Cfg := ⟨perClk, baud, 16#8, 5#16⟩

/-- 1 MHz from 64 MHz. -/
theorem divider_exact_sixteenth : DividerExact (setupCfg 64000000 1000000) 64000000 1000000 0#32 := by
  refine (divider_exact_iff _ 64000000 1000000 0#32 (by decide) (by decide) (by decide) (by decide) rfl rfl).mpr ?_
  refine Or.inl ⟨by decide, by decide, fun j => ?_⟩
  rintro ⟨h1, h2⟩
  -- 64 MHz is 4 MHz times 2^4
  by_cases hj : j < 4
  · interval_cases j <;> omega
  · have := Nat.pow_le_pow_right (show 0 < 2 by decide) (show 4 ≤ j by omega)
    omega

/-- 9 Hz is more than twice 4 Hz, but its half is 4 with the last bit dropped: the rate is above the request. -/
theorem divider_too_fast : clkDiv 4 9 1 = some 1 ∧ ¬ 9 ≤ 4 * 1 * 2 ^ 1 ∧ ¬ DividerExact (setupCfg 9 1) 9 1 0#32 := by
  refine ⟨by decide, by decide, fun h => ?_⟩
  obtain ⟨n, k, -, hk, hleast, hle, -⟩ := h
  rcases (computes_least_iff (by decide) (by decide) (by decide)).mp ⟨k, ⟨n, hk⟩, hleast, hle⟩ with ⟨-, -, hgap⟩ | ⟨hbig, -⟩
  · exact hgap 1 (by decide)
  · exact absurd hbig (by decide)

end Emlinux.Spi.Divider
