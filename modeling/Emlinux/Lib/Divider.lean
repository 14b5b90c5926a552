import Mathlib.Tactic

/-!
# Dividing a clock

`divided s m f`: the clock `s`, divided for the request `f` by the quotient, but by `m + 1` at most. It follows the request as long as
that is not above the source: it is the lowest of the clocks that the divider gives and that are not below the request.
-/

namespace Emlinux.Lib

variable {s m f f₁ f₂ k u : Nat}

def divided (s m f : Nat) : Nat := s / (min (s / f - 1) m + 1)

/-- A higher request gives no lower clock. -/
theorem divided_mono (m : Nat) (h0 : 0 < f₁) (h : f₁ ≤ f₂) : divided s m f₁ ≤ divided s m f₂ := by
  have hquot : s / f₂ ≤ s / f₁ := Nat.div_le_div_left h h0
  exact Nat.div_le_div_left (by omega) (Nat.succ_pos _)

/-- The source clock itself. -/
theorem divided_self (m : Nat) (hs : 0 < s) : divided s m s = s := by
  unfold divided
  rw [Nat.div_self hs, Nat.sub_self, Nat.zero_min, Nat.div_one]

/-- Not below the request. -/
theorem le_divided (m : Nat) (h0 : 0 < f) (h : f ≤ s) : f ≤ divided s m f := by
  have hquot : 0 < s / f := Nat.div_pos h h0
  have hk : min (s / f - 1) m + 1 ≤ s / f := by omega
  unfold divided
  rw [Nat.le_div_iff_mul_le (Nat.succ_pos _)]
  calc f * (min (s / f - 1) m + 1) ≤ f * (s / f) := Nat.mul_le_mul_left _ hk
    _ ≤ s := Nat.mul_div_le s f

/-- And of those the lowest. -/
theorem divided_le_div (h0 : 0 < f) (hk : 0 < k) (hm : k ≤ m + 1) (h : k * f ≤ s) : divided s m f ≤ s / k := by
  have hquot : k ≤ s / f := (Nat.le_div_iff_mul_le h0).mpr h
  exact Nat.div_le_div_left (by omega) hk

/-- In units of `u` the clock is the request, when some divider gives that. -/
theorem divided_div_eq_iff (h0 : 0 < f) (h : f ≤ s) :
    divided s m f / u = f / u ↔ ∃ k, 0 < k ∧ k ≤ m + 1 ∧ k * f ≤ s ∧ s / k / u = f / u := by
  constructor
  · intro heq
    refine ⟨min (s / f - 1) m + 1, Nat.succ_pos _, by omega, ?_, heq⟩
    have hle := le_divided m h0 h
    unfold divided at hle
    rwa [Nat.le_div_iff_mul_le (Nat.succ_pos _), Nat.mul_comm] at hle
  · rintro ⟨k, hk, hm, hks, heq⟩
    refine Nat.le_antisymm ?_ (Nat.div_le_div_right (le_divided m h0 h))
    rw [← heq]
    exact Nat.div_le_div_right (divided_le_div h0 hk hm hks)

/-- The largest divider leaves nothing of the source but zero. -/
theorem div_succ_eq_self_iff (hm : 0 < m) : s / (m + 1) = s ↔ s = 0 := by
  rw [Nat.div_eq_self]
  omega

end Emlinux.Lib
