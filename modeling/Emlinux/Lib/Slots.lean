import Mathlib.Tactic

/-!
# Tables with an empty mark

A table has `n` cells, and a cell that is empty carries a mark. A value is put into the first empty cell and taken out of the first cell that
holds it; both are `replaceFirst`. Such a table is a finite set of at most `n` values (`Slots`), to which a value can be added while there is room.
-/

namespace Emlinux.Lib

variable {α : Type} [DecidableEq α]

/-- The first of the `n` cells with the value. -/
def firstSlot (n : Nat) (f : Nat → α) (v : α) : Option Nat := (List.range n).find? fun i => decide (f i = v)

/-- The table with the first cell that has the value `old` set to `new`. -/
def replaceFirst (n : Nat) (f : Nat → α) (old new : α) : Nat → α :=
  match firstSlot n f old with
  | some i => Function.update f i new
  | none => f

variable {n : Nat} {f : Nat → α} {v mark : α} {s : Finset α}

theorem firstSlot_some {i : Nat} (h : firstSlot n f v = some i) : i < n ∧ f i = v := by
  have hi := List.mem_of_find?_eq_some h
  have hv := List.find?_some h
  exact ⟨List.mem_range.mp hi, of_decide_eq_true hv⟩

theorem firstSlot_none_iff : firstSlot n f v = none ↔ ∀ i < n, f i ≠ v := by
  unfold firstSlot
  rw [List.find?_eq_none]
  constructor
  · intro h i hi hv
    exact h i (List.mem_range.mpr hi) (decide_eq_true hv)
  · intro h i hi hv
    exact h i (List.mem_range.mp hi) (of_decide_eq_true hv)

/-- The cells hold the values of `s`, each once. -/
structure Slots (n : Nat) (mark : α) (f : Nat → α) (s : Finset α) : Prop where
  mem : ∀ v, v ∈ s ↔ v ≠ mark ∧ ∃ i < n, f i = v
  distinct : ∀ i < n, ∀ j < n, f i = f j → f i ≠ mark → i = j

namespace Slots

omit [DecidableEq α] in
theorem empty (h : ∀ i < n, f i = mark) : Slots n mark f ∅ where
  mem v := by
    refine iff_of_false (Finset.notMem_empty v) ?_
    intro hv
    obtain ⟨hne, i, hi, hf⟩ := hv
    exact hne (hf.symm.trans (h i hi))
  distinct i hi _ _ _ hne := absurd (h i hi) hne

variable (h : Slots n mark f s)
include h

/-- An empty cell means room for another value. -/
theorem room_iff : (∃ i < n, f i = mark) ↔ s.card < n := by
  constructor
  · intro hroom
    obtain ⟨i, hi, hf⟩ := hroom
    have hsub : s ⊆ ((Finset.range n).erase i).image f := by
      intro v hv
      obtain ⟨hne, j, hj, hfj⟩ := (h.mem v).mp hv
      refine Finset.mem_image.mpr ⟨j, Finset.mem_erase.mpr ⟨?_, Finset.mem_range.mpr hj⟩, hfj⟩
      intro hji
      rw [hji, hf] at hfj
      exact hne hfj.symm
    have hcard : ((Finset.range n).erase i).card = n - 1 := by
      rw [Finset.card_erase_of_mem (Finset.mem_range.mpr hi), Finset.card_range]
    have hle : s.card ≤ n - 1 := hcard ▸ (Finset.card_le_card hsub).trans Finset.card_image_le
    omega
  · intro hlt
    by_contra hfull
    have hne : ∀ i < n, f i ≠ mark := fun i hi hf => hfull ⟨i, hi, hf⟩
    have hsub : (Finset.range n).image f ⊆ s := by
      intro v hv
      obtain ⟨i, hi, hf⟩ := Finset.mem_image.mp hv
      have hi' : i < n := Finset.mem_range.mp hi
      exact (h.mem v).mpr ⟨hf ▸ hne i hi', i, hi', hf⟩
    have hcard : ((Finset.range n).image f).card = n := by
      rw [Finset.card_image_of_injOn, Finset.card_range]
      intro i hi j hj hij
      have hi' : i < n := Finset.mem_range.mp hi
      exact h.distinct i hi' j (Finset.mem_range.mp hj) hij (hne i hi')
    have hle := Finset.card_le_card hsub
    omega

/-- A value comes into an empty cell. -/
theorem put (hv : v ∉ s) (hne : v ≠ mark) (hroom : s.card < n) : Slots n mark (replaceFirst n f mark v) (insert v s) := by
  have hout : ∀ i < n, f i ≠ v := fun i hi hf => hv ((h.mem v).mpr ⟨hne, i, hi, hf⟩)
  obtain ⟨i₀, hi₀, hf₀⟩ := h.room_iff.mpr hroom
  unfold replaceFirst
  split
  · next k hk =>
    obtain ⟨hkn, hkm⟩ := firstSlot_some hk
    constructor
    · intro w
      rw [Finset.mem_insert, h.mem w]
      constructor
      · rintro (rfl | ⟨hw, i, hi, hf⟩)
        · exact ⟨hne, k, hkn, Function.update_self _ _ _⟩
        · have hik : i ≠ k := fun hik => hw (by rw [← hf, hik, hkm])
          exact ⟨hw, i, hi, (Function.update_of_ne hik _ _).trans hf⟩
      · intro hw
        obtain ⟨hwm, i, hi, hf⟩ := hw
        by_cases hik : i = k
        · rw [hik, Function.update_self] at hf
          exact Or.inl hf.symm
        · rw [Function.update_of_ne hik] at hf
          exact Or.inr ⟨hwm, i, hi, hf⟩
    · intro i hi j hj hij hm
      by_cases hik : i = k
      · by_cases hjk : j = k
        · rw [hik, hjk]
        · rw [hik, Function.update_self, Function.update_of_ne hjk] at hij
          exact absurd hij.symm (hout j hj)
      · rw [Function.update_of_ne hik] at hij hm
        by_cases hjk : j = k
        · rw [hjk, Function.update_self] at hij
          exact absurd hij (hout i hi)
        · rw [Function.update_of_ne hjk] at hij
          exact h.distinct i hi j hj hij hm
  · next hnone => exact absurd hf₀ (firstSlot_none_iff.mp hnone i₀ hi₀)

/-- A full table stays as it is. -/
theorem put_full (v : α) (hfull : ¬ s.card < n) : replaceFirst n f mark v = f := by
  have hnone : firstSlot n f mark = none :=
    firstSlot_none_iff.mpr fun i hi hf => hfull (h.room_iff.mp ⟨i, hi, hf⟩)
  rw [replaceFirst, hnone]

/-- The value is found exactly when it is one of the set. -/
theorem firstSlot_isSome_iff (hne : v ≠ mark) : (firstSlot n f v).isSome = true ↔ v ∈ s := by
  rw [h.mem v, and_iff_right hne, Option.isSome_iff_ne_none, Ne, firstSlot_none_iff]
  simp only [ne_eq, not_forall, not_not, exists_prop]

/-- A value leaves its cell empty. -/
theorem drop (hv : v ∈ s) : Slots n mark (replaceFirst n f v mark) (s.erase v) := by
  have hne := ((h.mem v).mp hv).1
  unfold replaceFirst
  split
  · next k hk =>
    obtain ⟨hkn, hkv⟩ := firstSlot_some hk
    constructor
    · intro w
      rw [Finset.mem_erase, h.mem w]
      constructor
      · intro hw
        obtain ⟨hwv, hwm, i, hi, hf⟩ := hw
        have hik : i ≠ k := fun hik => hwv (by rw [← hf, hik, hkv])
        exact ⟨hwm, i, hi, (Function.update_of_ne hik _ _).trans hf⟩
      · intro hw
        obtain ⟨hwm, i, hi, hf⟩ := hw
        by_cases hik : i = k
        · rw [hik, Function.update_self] at hf
          exact absurd hf.symm hwm
        · rw [Function.update_of_ne hik] at hf
          refine ⟨fun hwv => hik ?_, hwm, i, hi, hf⟩
          exact h.distinct i hi k hkn (by rw [hf, hkv, hwv]) (by rw [hf]; exact hwm)
    · intro i hi j hj hij hm
      by_cases hik : i = k
      · rw [hik, Function.update_self] at hm
        exact absurd rfl hm
      · rw [Function.update_of_ne hik] at hij hm
        by_cases hjk : j = k
        · rw [hjk, Function.update_self] at hij
          exact absurd hij hm
        · rw [Function.update_of_ne hjk] at hij
          exact h.distinct i hi j hj hij hm
  · next hnone =>
    obtain ⟨i, hi, hf⟩ := ((h.mem v).mp hv).2
    exact absurd hf (firstSlot_none_iff.mp hnone i hi)

end Slots

end Emlinux.Lib
