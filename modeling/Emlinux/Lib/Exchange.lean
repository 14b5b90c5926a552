import Mathlib.Tactic

/-!
# Exchange sort and the middle of a sample

A loop exchanges the `i`-th of `n` values with every later one that is less, for each `i` in turn. `Sorted` and `Rearranged` say what it leaves:
the same values in order. `trimmed`: where no more than `k` of the values are out of bounds, the ones that are left when the `k` least and the
`k` greatest are dropped are within them.
-/

namespace Emlinux.Lib

variable {α : Type} [LinearOrder α]

/-- `if (f[i] > f[j])` exchange the two. -/
def exchange (f : Nat → α) (i j : Nat) : Nat → α := if f j < f i then f ∘ Equiv.swap i j else f

/-- The loop over `j`, for the `m` values from the `i`-th on. -/
def selectLeast (i m : Nat) (f : Nat → α) : Nat → α := (List.range' i m).foldl (fun f j => exchange f i j) f

def exchangeSort (n : Nat) (f : Nat → α) : Nat → α := (List.range n).foldl (fun f i => selectLeast i (n - i) f) f

/-- The values between `i` and `n` are moved about. -/
def Rearranged (i n : Nat) (f g : Nat → α) : Prop := ∃ σ : Equiv.Perm Nat, (∀ k, k < i ∨ n ≤ k → σ k = k) ∧ g = f ∘ σ

variable {f g h : Nat → α} {i j k m n : Nat} {a b : α}

omit [LinearOrder α] in
theorem Rearranged.refl : Rearranged i n f f := ⟨1, fun _ _ => rfl, rfl⟩

omit [LinearOrder α] in
theorem Rearranged.trans (hfg : Rearranged i n f g) (hgh : Rearranged i n g h) : Rearranged i n f h := by
  obtain ⟨σ, hσ, rfl⟩ := hfg
  obtain ⟨τ, hτ, rfl⟩ := hgh
  refine ⟨σ * τ, fun k hk => ?_, rfl⟩
  rw [Equiv.Perm.mul_apply, hτ k hk, hσ k hk]

theorem fixed_symm {σ : Equiv.Perm Nat} (hσ : ∀ k, k < i ∨ n ≤ k → σ k = k) : ∀ k, k < i ∨ n ≤ k → σ.symm k = k :=
  fun k hk => σ.symm_apply_eq.mpr (hσ k hk).symm

omit [LinearOrder α] in
theorem Rearranged.symm (hfg : Rearranged i n f g) : Rearranged i n g f := by
  obtain ⟨σ, hσ, rfl⟩ := hfg
  refine ⟨σ.symm, fixed_symm hσ, funext fun k => ?_⟩
  rw [Function.comp_apply, Function.comp_apply, Equiv.apply_symm_apply]

omit [LinearOrder α] in
theorem Rearranged.mono (hfg : Rearranged i n f g) (hij : j ≤ i) (hnm : n ≤ m) : Rearranged j m f g := by
  obtain ⟨σ, hσ, rfl⟩ := hfg
  exact ⟨σ, fun k hk => hσ k (by omega), rfl⟩

omit [LinearOrder α] in
theorem Rearranged.outside (hfg : Rearranged i n f g) (hk : k < i ∨ n ≤ k) : g k = f k := by
  obtain ⟨σ, hσ, rfl⟩ := hfg
  exact congrArg f (hσ k hk)

/-- What is between `i` and `n` comes from there. -/
theorem perm_between {σ : Equiv.Perm Nat} (hσ : ∀ k, k < i ∨ n ≤ k → σ k = k) (hk : i ≤ k ∧ k < n) : i ≤ σ k ∧ σ k < n := by
  by_contra hout
  have hfix := hσ (σ k) (by omega)
  have heq := σ.injective hfix
  omega

omit [LinearOrder α] in
theorem Rearranged.inside (hfg : Rearranged i n f g) (hk : i ≤ k ∧ k < n) : ∃ j, (i ≤ j ∧ j < n) ∧ g k = f j := by
  obtain ⟨σ, hσ, rfl⟩ := hfg
  exact ⟨σ k, perm_between hσ hk, rfl⟩

/-! ## One round -/

theorem rearranged_exchange (hij : i ≤ j) (hj : j < n) : Rearranged i n f (exchange f i j) := by
  unfold exchange
  split_ifs
  · refine ⟨Equiv.swap i j, fun k hk => Equiv.swap_apply_of_ne_of_ne ?_ ?_, rfl⟩ <;> omega
  · exact .refl

theorem exchange_le (f : Nat → α) (i j : Nat) : exchange f i j i ≤ f i ∧ exchange f i j i ≤ exchange f i j j := by
  unfold exchange
  split_ifs with hlt
  · rw [Function.comp_apply, Function.comp_apply, Equiv.swap_apply_left, Equiv.swap_apply_right]
    exact ⟨hlt.le, hlt.le⟩
  · exact ⟨le_rfl, not_lt.mp hlt⟩

theorem exchange_other (hki : k ≠ i) (hkj : k ≠ j) : exchange f i j k = f k := by
  unfold exchange
  split_ifs
  · exact congrArg f (Equiv.swap_apply_of_ne_of_ne hki hkj)
  · rfl

theorem selectLeast_succ (i m : Nat) (f : Nat → α) : selectLeast i (m + 1) f = exchange (selectLeast i m f) i (i + m) := by
  rw [selectLeast, List.range'_concat, List.foldl_append, Nat.one_mul]
  rfl

theorem rearranged_selectLeast (i m : Nat) (f : Nat → α) : Rearranged i (i + m) f (selectLeast i m f) := by
  induction m with
  | zero => exact .refl
  | succ m ih =>
    rw [selectLeast_succ]
    exact (ih.mono le_rfl (by omega)).trans (rearranged_exchange (by omega) (by omega))

/-- The `i`-th value is the least of those the loop has come by. -/
theorem selectLeast_le (hk : i ≤ k ∧ k < i + m) : selectLeast i m f i ≤ selectLeast i m f k := by
  induction m with
  | zero => omega
  | succ m ih =>
    rw [selectLeast_succ]
    obtain ⟨hless, hlast⟩ := exchange_le (selectLeast i m f) i (i + m)
    by_cases hkm : k = i + m
    · rw [hkm]
      exact hlast
    · by_cases hki : k = i
      · rw [hki]
      · rw [exchange_other hki hkm]
        exact hless.trans (ih (by omega))

/-! ## The sort -/

/-- After `m` rounds the first `m` values are in order, and not greater than the rest. -/
theorem sorted_rounds (n m : Nat) (f : Nat → α) :
    Rearranged 0 n f ((List.range m).foldl (fun f i => selectLeast i (n - i) f) f) ∧
      ∀ a b, a < m → a ≤ b → b < n → (List.range m).foldl (fun f i => selectLeast i (n - i) f) f a ≤
        (List.range m).foldl (fun f i => selectLeast i (n - i) f) f b := by
  induction m with
  | zero => exact ⟨.refl, fun a b ha => absurd ha (Nat.not_lt_zero a)⟩
  | succ m ih =>
    obtain ⟨hrearranged, hsorted⟩ := ih
    rw [List.range_succ, List.foldl_append, List.foldl_cons, List.foldl_nil]
    have hround := rearranged_selectLeast m (n - m) ((List.range m).foldl (fun f i => selectLeast i (n - i) f) f)
    by_cases hmn : m ≤ n
    · rw [show m + (n - m) = n by omega] at hround
      refine ⟨hrearranged.trans (hround.mono (Nat.zero_le m) le_rfl), fun a b ha hab hb => ?_⟩
      by_cases ham : a = m
      · rw [ham]
        exact selectLeast_le (by omega)
      · rw [hround.outside (.inl (by omega))]
        by_cases hbm : b < m
        · rw [hround.outside (.inl hbm)]
          exact hsorted a b (by omega) hab hb
        · obtain ⟨c, hc, heq⟩ := hround.inside (k := b) (by omega)
          rw [heq]
          exact hsorted a c (by omega) (by omega) hc.2
    · rw [show n - m = 0 by omega]
      exact ⟨hrearranged, fun a b _ hab hb => hsorted a b (by omega) hab hb⟩

theorem rearranged_exchangeSort (n : Nat) (f : Nat → α) : Rearranged 0 n f (exchangeSort n f) := (sorted_rounds n n f).1

theorem exchangeSort_le (n : Nat) (f : Nat → α) {a b : Nat} (hab : a ≤ b) (hb : b < n) : exchangeSort n f a ≤ exchangeSort n f b :=
  (sorted_rounds n n f).2 a b (by omega) hab hb

/-! ## The middle of the sample -/

omit [LinearOrder α] in
/-- As many values are out of bounds as were before. -/
theorem Rearranged.card_eq {p : α → Prop} [DecidablePred p] (hfg : Rearranged 0 n f g) :
    ((Finset.range n).filter fun i => p (g i)).card = ((Finset.range n).filter fun i => p (f i)).card := by
  obtain ⟨σ, hσ, rfl⟩ := hfg
  refine Finset.card_bij (fun i _ => σ i) ?_ ?_ ?_
  · intro i hi
    rw [Finset.mem_filter, Finset.mem_range] at hi ⊢
    exact ⟨(perm_between hσ ⟨Nat.zero_le i, hi.1⟩).2, hi.2⟩
  · exact fun i _ j _ heq => σ.injective heq
  · intro j hj
    rw [Finset.mem_filter, Finset.mem_range] at hj
    refine ⟨σ.symm j, ?_, σ.apply_symm_apply j⟩
    rw [Finset.mem_filter, Finset.mem_range]
    refine ⟨(perm_between (fixed_symm hσ) ⟨Nat.zero_le j, hj.1⟩).2, ?_⟩
    rw [Function.comp_apply, Equiv.apply_symm_apply]
    exact hj.2

/-- When no more than `k` values are out of bounds, none but the first `k` and the last `k` are after the sort. -/
theorem trimmed (hout : ((Finset.range n).filter fun i => f i < a ∨ b < f i).card ≤ k) (hkj : k ≤ j) (hjn : j + k < n) :
    a ≤ exchangeSort n f j ∧ exchangeSort n f j ≤ b := by
  rw [← (rearranged_exchangeSort n f).card_eq (p := fun v => v < a ∨ b < v)] at hout
  constructor
  · by_contra hlow
    have hsub : Finset.range (j + 1) ⊆ (Finset.range n).filter fun i => exchangeSort n f i < a ∨ b < exchangeSort n f i := by
      intro i hi
      rw [Finset.mem_range] at hi
      rw [Finset.mem_filter, Finset.mem_range]
      exact ⟨by omega, .inl ((exchangeSort_le n f (by omega) (by omega)).trans_lt (not_le.mp hlow))⟩
    have hcard := (Finset.card_le_card hsub).trans hout
    rw [Finset.card_range] at hcard
    omega
  · by_contra hhigh
    have hsub : Finset.Ico j n ⊆ (Finset.range n).filter fun i => exchangeSort n f i < a ∨ b < exchangeSort n f i := by
      intro i hi
      rw [Finset.mem_Ico] at hi
      rw [Finset.mem_filter, Finset.mem_range]
      exact ⟨hi.2, .inr ((not_le.mp hhigh).trans_le (exchangeSort_le n f hi.1 hi.2))⟩
    have hcard := (Finset.card_le_card hsub).trans hout
    rw [Nat.card_Ico] at hcard
    omega

end Emlinux.Lib
