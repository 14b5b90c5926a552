import Mathlib.Data.Rat.Defs
import Emlinux.Lib.Field
import Emlinux.Lib.Halving

/-!
# The data timeout

`sslsd_request` turns the timeout of a request into milliseconds, which `sdhc_cmd` and `sdhc_tout` turn into the exponent of the timeout
register: the controller gives up after `2^(13 + count)` cycles of the timeout clock. The nanoseconds are rounded up, the card clocks down,
the sums are of 32 bits and the result of 16.

* `lt_two_pow_count`, `count_le`: the exponent is the least whose time is more than the milliseconds.
* `timeout_long_iff`: that time is no shorter than the request exactly when no power of two lies between the two.
* `noPowerBetween_of_ns`: which holds when no card clocks are asked for.
-/

namespace Emlinux.Sdhc.Timeout

open Lib

/-! ## The source -/

/-- `sdhc_init`: `toutclk` in kHz from the capabilities, or as the platform has set it; none is refused. -/
def sdhcInit (toutcaps : BitVec 8) (platform : Nat) : Option Nat :=
  let clk := (toutcaps &&& 0x3F#8).toNat
  let toutclk := if clk ≠ 0 then (if toutcaps &&& 0x80#8 ≠ 0#8 then clk * 1000 else clk) else platform
  if toutclk = 0 then none else some toutclk

/-- `c->tout` in `sslsd_request`, in milliseconds; `none` is a division by zero. -/
def sslsdTout (timeoutNs timeoutClks clock : Nat) : Option Nat :=
  if clock / 1000 = 0 then none
  else some (((timeoutNs + 1000000 - 1) % 2 ^ 32 / 1000000 + timeoutClks / (clock / 1000)) % 2 ^ 32 % 2 ^ 16)

/-- `sdhc_tout`: the count that is programmed. -/
def sdhcTout (toutclk ms : Nat) : Nat := halvings (fun cycles => cycles != 0) 14 (toutclk * ms % 2 ^ 32 / 2 ^ 13)

/-- The timeout part of `sdhc_cmd`. -/
def sdhcCmdTout (toutclk tout : Nat) : Nat := sdhcTout toutclk (if tout = 0 then 1000 else tout)

/-- What a data request programs. -/
def programmed (toutclk timeoutNs timeoutClks clock : Nat) : Option Nat :=
  (sslsdTout timeoutNs timeoutClks clock).map (sdhcCmdTout toutclk)

/-- The clock of the capabilities is between 1 kHz and 63 MHz. -/
theorem sdhcInit_range {toutcaps : BitVec 8} {platform : Nat} (h : toutcaps &&& 0x3F#8 ≠ 0#8) :
    ∃ toutclk, sdhcInit toutcaps platform = some toutclk ∧ 1 ≤ toutclk ∧ toutclk ≤ 63000 := by
  have hclk : (toutcaps &&& 0x3F#8).toNat = field toutcaps 0 6 := toNat_and_low toutcaps 6 (by decide)
  have hlt : field toutcaps 0 6 < 64 := field_lt _ _ _
  have hne : (toutcaps &&& 0x3F#8).toNat ≠ 0 := fun h0 => h (BitVec.eq_of_toNat_eq h0)
  simp only [sdhcInit, if_pos hne]
  by_cases hmhz : toutcaps &&& 0x80#8 ≠ 0#8
  · rw [if_pos hmhz, if_neg (by omega)]
    exact ⟨_, rfl, by omega, by omega⟩
  · rw [if_neg hmhz, if_neg hne]
    exact ⟨_, rfl, by omega, by omega⟩

/-! ## The milliseconds -/

/-- The milliseconds of a request as they reach `sdhc_tout`: nanoseconds up to the wrap of the rounding sum, rounded up, and whole
milliseconds of card clocks, modulo the 16 bits of `tout`; a second when there are none. -/
def givenMs (timeoutNs timeoutClks clock : Nat) : Nat :=
  let ms := (if timeoutNs ≤ 2 ^ 32 - 10 ^ 6 then (timeoutNs + 999999) / 10 ^ 6 else 0) + timeoutClks / (clock / 1000)
  if ms % 2 ^ 16 = 0 then 1000 else ms % 2 ^ 16

section count

variable {toutclk ns clks clock ms c : Nat}

theorem programmed_eq (hns : ns < 2 ^ 32) (hclock : 1000 ≤ clock) :
    programmed toutclk ns clks clock = some (sdhcTout toutclk (givenMs ns clks clock)) := by
  have hdiv : clock / 1000 ≠ 0 := by omega
  have hround : (ns + 1000000 - 1) % 2 ^ 32 / 1000000 = if ns ≤ 2 ^ 32 - 10 ^ 6 then (ns + 999999) / 10 ^ 6 else 0 := by
    split_ifs <;> omega
  have hmod : ∀ x : Nat, x % 2 ^ 32 % 2 ^ 16 = x % 2 ^ 16 := fun x => Nat.mod_mod_of_dvd x (by decide)
  rw [programmed, sslsdTout, if_neg hdiv, hround, hmod]
  rfl

theorem givenMs_lt (ns clks clock : Nat) : givenMs ns clks clock < 2 ^ 16 := by
  rw [givenMs]
  split_ifs <;> omega

/-- The product does not wrap. -/
theorem cycles_eq (hclk : toutclk ≤ 63000) (hms : ms < 2 ^ 16) : toutclk * ms % 2 ^ 32 = toutclk * ms := by
  apply Nat.mod_eq_of_lt
  calc toutclk * ms ≤ 63000 * 65535 := Nat.mul_le_mul hclk (by omega)
    _ < 2 ^ 32 := by decide

theorem count_le_fourteen (toutclk ms : Nat) : sdhcTout toutclk ms ≤ 14 := halvings_le _ _ _

/-- Below the last count the time is more than the milliseconds. -/
theorem lt_two_pow_count (hclk : toutclk ≤ 63000) (hms : ms < 2 ^ 16) (h : sdhcTout toutclk ms < 14) :
    toutclk * ms < 2 ^ (13 + sdhcTout toutclk ms) := by
  have hstop := halvings_stop h
  rw [cycles_eq hclk hms, Nat.div_div_eq_div_mul, ← Nat.pow_add] at hstop
  have hzero : toutclk * ms / 2 ^ (13 + sdhcTout toutclk ms) = 0 := by
    rw [sdhcTout, cycles_eq hclk hms]
    simpa using hstop
  exact (Nat.div_eq_zero_iff.mp hzero).resolve_left (Nat.two_pow_pos _).ne'

/-- And no smaller count has that. -/
theorem count_le (hclk : toutclk ≤ 63000) (hms : ms < 2 ^ 16) (h : toutclk * ms < 2 ^ (13 + c)) : sdhcTout toutclk ms ≤ c := by
  apply halvings_le_of_not
  rw [cycles_eq hclk hms, Nat.div_div_eq_div_mul, ← Nat.pow_add, Nat.div_eq_of_lt h]
  rfl

end count

/-! ## The request -/

/-- The time that a request asks for, in cycles of the timeout clock. -/
def askedCycles (toutclk timeoutNs timeoutClks clock : Nat) : ℚ :=
  ((timeoutNs : ℚ) / 10 ^ 9 + timeoutClks / clock) * (1000 * toutclk)

/-- Nothing is divided by zero, and the programmed count is the last one or gives the request its time, in seconds. -/
def LongEnough (toutclk timeoutNs timeoutClks clock : Nat) : Prop :=
  ∃ count, programmed toutclk timeoutNs timeoutClks clock = some count ∧ count ≤ 14 ∧
    (count = 14 ∨ (timeoutNs : ℚ) / 10 ^ 9 + timeoutClks / clock ≤ 2 ^ (13 + count) / (1000 * toutclk))

/-- No power of two, up to the last count, is above the given milliseconds and below the request. -/
def NoPowerBetween (toutclk timeoutNs timeoutClks clock : Nat) : Prop :=
  ∀ c, c < 14 → toutclk * givenMs timeoutNs timeoutClks clock < 2 ^ (13 + c) →
    askedCycles toutclk timeoutNs timeoutClks clock ≤ 2 ^ (13 + c)

section request

variable {toutclk ns clks clock : Nat}

theorem asked_le_iff (h : 1 ≤ toutclk) (c : Nat) :
    (ns : ℚ) / 10 ^ 9 + clks / clock ≤ 2 ^ (13 + c) / (1000 * toutclk) ↔ askedCycles toutclk ns clks clock ≤ 2 ^ (13 + c) := by
  have hpos : (0 : ℚ) < 1000 * toutclk := by
    have : (0 : ℚ) < toutclk := by exact_mod_cast h
    linarith
  rw [askedCycles, le_div_iff₀ hpos]

/-- The timeout is long enough exactly when nothing is divided by zero and no power of two is lost between the request and what is given. -/
theorem timeout_long_iff (toutclk ns clks clock : Nat) (hclk : 1 ≤ toutclk ∧ toutclk ≤ 63000) (hns : ns < 2 ^ 32) :
    LongEnough toutclk ns clks clock ↔ 1000 ≤ clock ∧ NoPowerBetween toutclk ns clks clock := by
  have hms := givenMs_lt ns clks clock
  constructor
  · rintro ⟨count, hprog, -, hlong⟩
    have h1000 : 1000 ≤ clock := by
      by_contra hlow
      rw [programmed, sslsdTout, if_pos (by omega)] at hprog
      simp at hprog
    refine ⟨h1000, fun c hc hlt => ?_⟩
    rw [programmed_eq hns h1000] at hprog
    have hcount := count_le hclk.2 hms hlt
    rw [Option.some.inj hprog] at hcount
    rcases hlong with hlast | hlong
    · omega
    · calc askedCycles toutclk ns clks clock ≤ 2 ^ (13 + count) := (asked_le_iff hclk.1 count).mp hlong
        _ ≤ 2 ^ (13 + c) := pow_le_pow_right₀ (by norm_num) (by omega)
  · rintro ⟨h1000, hgap⟩
    refine ⟨_, programmed_eq hns h1000, count_le_fourteen _ _, ?_⟩
    by_cases hlast : sdhcTout toutclk (givenMs ns clks clock) = 14
    · exact Or.inl hlast
    · have hlt : sdhcTout toutclk (givenMs ns clks clock) < 14 :=
        lt_of_le_of_ne (count_le_fourteen _ _) hlast
      exact Or.inr ((asked_le_iff hclk.1 _).mpr (hgap _ hlt (lt_two_pow_count hclk.2 hms hlt)))

/-- Nanoseconds alone are rounded up. -/
theorem le_givenMs (h0 : 0 < ns) (hns : ns ≤ 2 ^ 32 - 10 ^ 6) : ns ≤ givenMs ns 0 clock * 10 ^ 6 := by
  have hlt : (ns + 999999) / 1000000 < 65536 := by
    have hmax : ns ≤ 4293967296 := hns
    omega
  have hpos : (ns + 999999) / 1000000 ≠ 0 := by omega
  have hmod : (ns + 999999) / 1000000 % 65536 = (ns + 999999) / 1000000 := Nat.mod_eq_of_lt hlt
  have hgiven : givenMs ns 0 clock = (ns + 999999) / 1000000 := by
    unfold givenMs
    rw [if_pos hns, Nat.zero_div, Nat.add_zero]
    norm_num only
    rw [hmod, if_neg hpos]
  rw [hgiven]
  norm_num only
  omega

/-- A request in nanoseconds alone gets its time. -/
theorem noPowerBetween_of_ns (h0 : 0 < ns) (hns : ns ≤ 2 ^ 32 - 10 ^ 6) : NoPowerBetween toutclk ns 0 clock := by
  intro c _ hlt
  have hup : ns ≤ givenMs ns 0 clock * 10 ^ 6 := le_givenMs h0 hns
  have hup : (ns : ℚ) ≤ givenMs ns 0 clock * 10 ^ 6 := by exact_mod_cast hup
  have hlt : (toutclk : ℚ) * givenMs ns 0 clock ≤ 2 ^ (13 + c) := by exact_mod_cast hlt.le
  have hpos : (0 : ℚ) ≤ toutclk := Nat.cast_nonneg _
  calc askedCycles toutclk ns 0 clock = (ns : ℚ) / 10 ^ 6 * toutclk := by
        rw [askedCycles]
        push_cast
        ring
    _ ≤ givenMs ns 0 clock * toutclk := by
        apply mul_le_mul_of_nonneg_right _ hpos
        rw [div_le_iff₀ (by norm_num)]
        exact hup
    _ ≤ 2 ^ (13 + c) := by rwa [mul_comm]

end request

/-- 100 ms at 25 MHz. -/
theorem timeout_long_sd : LongEnough 25000 100000000 0 25000000 :=
  (timeout_long_iff 25000 100000000 0 25000000 (by decide) (by decide)).mpr
    ⟨by decide, noPowerBetween_of_ns (by decide) (by decide)⟩

/-- 40000 clocks at 25 MHz are 1.6 ms, of which one is kept: the controller gives up after 32768 cycles. -/
theorem timeout_too_short : programmed 25000 0 40000 25000000 = some 2 ∧ ¬ LongEnough 25000 0 40000 25000000 := by
  have hprog : programmed 25000 0 40000 25000000 = some 2 := by decide
  refine ⟨hprog, ?_⟩
  rintro ⟨count, hcount, -, hlong⟩
  obtain rfl : 2 = count := Option.some.inj (hprog.symm.trans hcount)
  rcases hlong with h | h
  · exact absurd h (by decide)
  · norm_num at h

end Emlinux.Sdhc.Timeout
