import Mathlib.Tactic

/-!
# Pieces laid one behind the other

A piece is its start and its size. `Laid a b l`: the first piece of `l` starts at `a`, each of the others where the one before ends, and the
last one ends at `b` at most.
-/

namespace Emlinux.Lib

inductive Laid : Nat → Nat → List (Nat × Nat) → Prop
  | nil {a b : Nat} : a ≤ b → Laid a b []
  | cons {a b n : Nat} {l : List (Nat × Nat)} : Laid (a + n) b l → Laid a b ((a, n) :: l)

namespace Laid

variable {a b : Nat} {l : List (Nat × Nat)}

/-- A piece starts behind those before it. -/
theorem start_eq (h : Laid a b l) : ∀ k (hk : k < l.length), l[k].1 = a + ((l.take k).map Prod.snd).sum := by
  induction h with
  | nil => exact nofun
  | cons _ ih =>
    intro k hk
    cases k with
    | zero => rfl
    | succ k =>
      rw [List.getElem_cons_succ, List.take_succ_cons, List.map_cons, List.sum_cons, ← Nat.add_assoc]
      exact ih k (Nat.lt_of_succ_lt_succ hk)

theorem le_start (h : Laid a b l) (k : Nat) (hk : k < l.length) : a ≤ l[k].1 := by
  rw [h.start_eq k hk]
  exact Nat.le_add_right _ _

theorem le (h : Laid a b l) : a ≤ b := by
  induction h with
  | nil hab => exact hab
  | cons _ ih => exact (Nat.le_add_right _ _).trans ih

theorem end_le (h : Laid a b l) : ∀ k (hk : k < l.length), l[k].1 + l[k].2 ≤ b := by
  induction h with
  | nil => exact nofun
  | cons hl ih =>
    intro k hk
    cases k with
    | zero => exact hl.le
    | succ k => exact ih k (Nat.lt_of_succ_lt_succ hk)

/-- An earlier piece ends before a later one starts. -/
theorem apart (h : Laid a b l) : ∀ j k (hk : k < l.length) (hj : j < k), l[j].1 + l[j].2 ≤ l[k].1 := by
  induction h with
  | nil => exact nofun
  | cons hl ih =>
    intro j k hk hj
    obtain ⟨k, rfl⟩ := Nat.exists_eq_succ_of_ne_zero (Nat.ne_zero_of_lt hj)
    cases j with
    | zero => exact hl.le_start k (Nat.lt_of_succ_lt_succ hk)
    | succ j => exact ih j k (Nat.lt_of_succ_lt_succ hk) (Nat.lt_of_succ_lt_succ hj)

end Laid

end Emlinux.Lib
