import Mathlib.Tactic

/-!
# Rasters in memory

A raster is made of `rows` runs of `len` bytes, `stride` apart. It lies in an interval when its first byte and its last one do
(`raster_subset_Ico_iff`). `alignUp n a` is `n`, rounded up to a multiple of `a`.
-/

namespace Emlinux.Lib

variable {start stride rows len lo hi n a : Nat}

def raster (start stride rows len : Nat) : Set Nat := {x | ∃ row < rows, ∃ i < len, x = start + row * stride + i}

theorem raster_subset_Ico_iff :
    raster start stride rows len ⊆ Set.Ico lo hi ↔
      rows = 0 ∨ len = 0 ∨ lo ≤ start ∧ start + (rows - 1) * stride + len ≤ hi := by
  constructor
  · intro h
    by_cases hr : rows = 0
    · exact .inl hr
    by_cases hl : len = 0
    · exact .inr (.inl hl)
    have hfirst : start ∈ Set.Ico lo hi := h ⟨0, by omega, 0, by omega, by omega⟩
    have hlast : start + (rows - 1) * stride + (len - 1) ∈ Set.Ico lo hi := h ⟨rows - 1, by omega, len - 1, by omega, rfl⟩
    have hend : start + (rows - 1) * stride + (len - 1) < hi := hlast.2
    exact .inr (.inr ⟨hfirst.1, by omega⟩)
  · rintro h x ⟨row, hrow, i, hilt, rfl⟩
    obtain ⟨hlo, hend⟩ : lo ≤ start ∧ start + (rows - 1) * stride + len ≤ hi := by
      rcases h with h | h | h
      · omega
      · omega
      · exact h
    have hrows : row * stride ≤ (rows - 1) * stride := Nat.mul_le_mul_right _ (by omega)
    exact ⟨by omega, by omega⟩

def alignUp (n a : Nat) : Nat := (n + a - 1) / a * a

theorem le_alignUp (ha : 0 < a) : n ≤ alignUp n a := by
  have hdiv := Nat.div_add_mod (n + a - 1) a
  have hmod := Nat.mod_lt (n + a - 1) ha
  rw [alignUp, Nat.mul_comm]
  omega

theorem dvd_alignUp (n a : Nat) : a ∣ alignUp n a := Nat.dvd_mul_left ..

end Emlinux.Lib
