import Mathlib.Tactic

/-!
# Halving until a condition is met

The number of times that a loop halves a number before its condition fails, at most `n` times. `more_of_lt` and `halvings_stop` say that it is
the first number of halvings after which the condition fails, `halvings_lt` that a number of `m` bits needs no more than `m`.
-/

namespace Emlinux.Lib

variable {more : Nat → Bool} {n m v j : Nat}

/-- `for (k = 0; k < n && more(v); k++) v /= 2`: the last `k`. -/
def halvings (more : Nat → Bool) : Nat → Nat → Nat
  | 0, _ => 0
  | n + 1, v => if more v then halvings more n (v / 2) + 1 else 0

theorem div_two_pow_succ (v j : Nat) : v / 2 / 2 ^ j = v / 2 ^ (j + 1) := by
  rw [Nat.div_div_eq_div_mul, Nat.pow_succ, Nat.mul_comm]

theorem halvings_le (more : Nat → Bool) (n v : Nat) : halvings more n v ≤ n := by
  induction n generalizing v with
  | zero => exact le_refl 0
  | succ n ih =>
    rw [halvings]
    split_ifs
    · exact Nat.succ_le_succ (ih _)
    · exact Nat.zero_le _

theorem more_of_lt (h : j < halvings more n v) : more (v / 2 ^ j) = true := by
  induction n generalizing v j with
  | zero => exact absurd h (Nat.not_lt_zero j)
  | succ n ih =>
    rw [halvings] at h
    split_ifs at h with hv
    · cases j with
      | zero => rwa [Nat.pow_zero, Nat.div_one]
      | succ j =>
        rw [← div_two_pow_succ]
        exact ih (by omega)
    · exact absurd h (Nat.not_lt_zero j)

theorem halvings_stop (h : halvings more n v < n) : more (v / 2 ^ halvings more n v) = false := by
  induction n generalizing v with
  | zero => exact absurd h (Nat.not_lt_zero _)
  | succ n ih =>
    rw [halvings] at h ⊢
    split_ifs at h ⊢ with hv
    · rw [← div_two_pow_succ]
      exact ih (by omega)
    · rw [Nat.pow_zero, Nat.div_one]
      simpa using hv

theorem halvings_lt (h0 : more 0 = false) (hv : v < 2 ^ m) (hm : m < n) : halvings more n v < n := by
  by_contra hn
  have h := more_of_lt (show m < halvings more n v by omega)
  rw [Nat.div_eq_of_lt hv, h0] at h
  exact absurd h (by decide)

/-- The first halving after which the condition fails. -/
theorem halvings_le_of_not (h : more (v / 2 ^ j) = false) : halvings more n v ≤ j := by
  by_contra hj
  rw [more_of_lt (show j < halvings more n v by omega)] at h
  exact absurd h (by decide)

end Emlinux.Lib
