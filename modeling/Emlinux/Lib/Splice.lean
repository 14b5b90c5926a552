import Mathlib.Data.List.GetD
import Mathlib.Tactic

/-!
# Lists within a sequence

`slice f o n` are the `n` values of the sequence `f` from `o` on, and `splice f o xs` is `f` with the list `xs` written over it from `o` on.
A list that is written in parts, one behind the other, is written as a whole, and what was written is what is read.
-/

namespace Emlinux.Lib

variable {α : Type*} {f : Nat → α} {o n m : Nat} {xs ys : List α}

def slice (f : Nat → α) (o n : Nat) : List α := (List.range' o n).map f

def splice (f : Nat → α) (o : Nat) (xs : List α) (p : Nat) : α := if o ≤ p then xs.getD (p - o) (f p) else f p

@[simp] theorem slice_zero (f : Nat → α) (o : Nat) : slice f o 0 = [] := rfl

@[simp] theorem length_slice (f : Nat → α) (o n : Nat) : (slice f o n).length = n := by
  rw [slice, List.length_map, List.length_range']

theorem slice_append (f : Nat → α) (o n m : Nat) : slice f o n ++ slice f (o + n) m = slice f o (n + m) := by
  unfold slice
  rw [← List.map_append]
  rw [List.range'_append_1]

theorem take_slice (f : Nat → α) (o n k : Nat) : (slice f o n).take k = slice f o (min k n) := by
  apply List.ext_getElem
  · rw [List.length_take, length_slice, length_slice]
  · intro i h1 h2
    simp only [slice, List.getElem_take, List.getElem_map, List.getElem_range']

/-- A prefix of what agrees agrees. -/
theorem slice_of_le {g : Nat → α} {p : Nat} (h : slice f o n = slice g p n) (hm : m ≤ n) : slice f o m = slice g p m := by
  have htake := congrArg (List.take m) h
  rwa [take_slice, take_slice, Nat.min_eq_left hm] at htake

theorem slice_eq_append (h : slice f o (xs ++ ys).length = xs ++ ys) :
    slice f o xs.length = xs ∧ slice f (o + xs.length) ys.length = ys := by
  rw [List.length_append, ← slice_append] at h
  exact List.append_inj h (length_slice _ _ _)

theorem slice_congr {g : Nat → α} (h : ∀ p, o ≤ p → p < o + n → f p = g p) : slice f o n = slice g o n := by
  unfold slice
  apply List.map_congr_left
  intro p hp
  rw [List.mem_range'_1] at hp
  exact h p hp.1 hp.2

theorem slice_shift (f : Nat → α) (k o n : Nat) : slice f (k + o) n = slice (fun p => f (k + p)) o n := by
  unfold slice
  rw [← List.map_add_range', List.map_map]
  rfl

@[simp] theorem splice_nil (f : Nat → α) (o : Nat) : splice f o [] = f := by
  funext p
  unfold splice
  split_ifs <;> simp

theorem splice_of_lt {p : Nat} (h : p < o) : splice f o xs p = f p := if_neg (Nat.not_le.mpr h)

theorem splice_of_ge {p : Nat} (h : o + xs.length ≤ p) : splice f o xs p = f p := by
  rw [splice, if_pos (by omega), List.getD_eq_default _ _ (by omega)]

theorem splice_of_mem {p : Nat} (h : o ≤ p) (hp : p < o + xs.length) : splice f o xs p = xs.getD (p - o) (f 0) := by
  rw [splice, if_pos h, List.getD_eq_getElem _ _ (by omega), List.getD_eq_getElem _ _ (by omega)]

theorem splice_append (f : Nat → α) (o : Nat) (xs ys : List α) :
    splice (splice f o xs) (o + xs.length) ys = splice f o (xs ++ ys) := by
  funext p
  by_cases h1 : p < o
  · rw [splice_of_lt (by omega), splice_of_lt h1, splice_of_lt h1]
  by_cases h2 : p < o + xs.length
  · rw [splice_of_lt h2, splice_of_mem (by omega) h2, splice_of_mem (by omega) (by rw [List.length_append]; omega),
      List.getD_append _ _ _ _ (by omega)]
  · unfold splice
    rw [if_pos (by omega), if_pos (by omega), if_pos (by omega), List.getD_append_right _ _ _ _ (by omega),
      List.getD_eq_default xs _ (by omega), Nat.sub_sub]

/-- What was written is read. -/
theorem slice_splice (f : Nat → α) (o : Nat) (xs : List α) : slice (splice f o xs) o xs.length = xs := by
  apply List.ext_getElem
  · exact length_slice _ _ _
  · intro i h1 h2
    have hget : (slice (splice f o xs) o xs.length)[i] = splice f o xs (o + i) := by
      simp only [slice, List.getElem_map, List.getElem_range', Nat.one_mul]
    rw [hget, splice_of_mem (by omega) (by omega), Nat.add_sub_cancel_left,
      List.getD_eq_getElem _ _ h2]

end Emlinux.Lib
