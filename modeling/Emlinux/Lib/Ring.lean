import Mathlib.Data.List.GetD
import Mathlib.Tactic

/-!
# Distances around a ring

`forward n a b` is the distance from `a` on to `b` around a ring of `n` positions, and `travelled n a l` the distance of a way that starts at
`a` and goes on to the positions of `l` one after the other. A way of length `d` behind one of length `s` crosses a multiple of `c` when what
is left of `s` and `d` together make `c` or more.
-/

namespace Emlinux.Lib

variable {n a b c d s : Nat} {l : List Nat}

def forward (n a b : Nat) : Nat := (b + n - a) % n

theorem forward_of_le (h : a ≤ b) (hb : b < n) : forward n a b = b - a := by
  unfold forward
  rw [show b + n - a = b - a + n by omega, Nat.add_mod_right, Nat.mod_eq_of_lt (by omega)]

theorem forward_of_lt (h : b < a) (ha : a < n) : forward n a b = n - (a - b) := by
  unfold forward
  rw [show b + n - a = n - (a - b) by omega, Nat.mod_eq_of_lt (by omega)]

theorem forward_lt (a b : Nat) (hn : 0 < n) : forward n a b < n := Nat.mod_lt _ hn

/-- A ring whose places are divided into `k` each. -/
theorem forward_mul (n a b k : Nat) : forward (n * k) (a * k) (b * k) = forward n a b * k := by
  unfold forward
  rw [← Nat.add_mul, ← Nat.sub_mul, Nat.mul_mod_mul_right]

/-- The distance leads to its end. -/
theorem add_forward_mod (ha : a < n) (hb : b < n) : (a + forward n a b) % n = b := by
  unfold forward
  rw [Nat.add_mod_mod, show a + (b + n - a) = b + n by omega, Nat.add_mod_right, Nat.mod_eq_of_lt hb]

def travelled (n : Nat) : Nat → List Nat → Nat
  | _, [] => 0
  | a, b :: l => forward n a b + travelled n b l

theorem travelled_append (n : Nat) (l : List Nat) : ∀ a b, travelled n a (l ++ [b]) = travelled n a l + forward n (l.getLastD a) b := by
  induction l with
  | nil =>
    intro a b
    simp [travelled]
  | cons c l ih =>
    intro a b
    rw [List.cons_append, travelled, travelled, ih c b, Nat.add_assoc, List.getLastD_cons]

/-- A multiple of `c` lies behind `s` and not behind `s + d`. -/
def Crosses (c s d : Nat) : Prop := ∃ k, s < k * c ∧ k * c ≤ s + d

theorem crosses_iff (hc : 0 < c) : Crosses c s d ↔ c ≤ s % c + d := by
  have hs := Nat.div_add_mod s c
  have hlt := Nat.mod_lt s hc
  constructor
  · rintro ⟨k, h1, h2⟩
    have hk : s / c < k := by
      rw [Nat.div_lt_iff_lt_mul hc]
      exact h1
    have hle : (s / c + 1) * c ≤ k * c := Nat.mul_le_mul_right c hk
    rw [Nat.add_mul, Nat.one_mul, Nat.mul_comm] at hle
    omega
  · intro h
    refine ⟨s / c + 1, ?_, ?_⟩
    · rw [Nat.add_mul, Nat.one_mul, Nat.mul_comm]
      omega
    · rw [Nat.add_mul, Nat.one_mul, Nat.mul_comm]
      omega

end Emlinux.Lib
