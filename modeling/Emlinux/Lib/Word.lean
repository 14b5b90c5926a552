import Mathlib.Tactic

/-!
# The bytes of a word

`byte d i` is byte `i` of a word, from the low end; the bytes of shifts and of bitwise operations. `word32` puts a word together
from its bytes, as it lies in memory.
-/

namespace Emlinux.Lib

variable {w : Nat}

/-- Byte `i` of a word. -/
def byte (d : BitVec w) (i : Nat) : BitVec 8 := (d >>> (8 * i)).setWidth 8

theorem byte_bit (d : BitVec w) (i : Nat) {j : Nat} (hj : j < 8) : (byte d i).getLsbD j = d.getLsbD (8 * i + j) := by
  simp [byte, hj]

theorem byte_or (d e : BitVec w) (i : Nat) : byte (d ||| e) i = byte d i ||| byte e i := by
  simp [byte, BitVec.ushiftRight_or_distrib]

theorem byte_and (d e : BitVec w) (i : Nat) : byte (d &&& e) i = byte d i &&& byte e i := by
  simp [byte, BitVec.ushiftRight_and_distrib]

theorem byte_shr (d : BitVec w) (k i : Nat) : byte (d >>> (8 * k)) i = byte d (i + k) := by
  rw [byte, byte, ← BitVec.shiftRight_add, ← Nat.mul_add, Nat.add_comm]

theorem byte_shl (d : BitVec w) (k : Nat) {i : Nat} (hi : 8 * (i + 1) ≤ w) :
    byte (d <<< (8 * k)) i = if i < k then 0#8 else byte d (i - k) := by
  apply BitVec.eq_of_getLsbD_eq
  intro j hj
  rw [byte_bit _ _ hj, BitVec.getLsbD_shiftLeft]
  split_ifs with hk
  · have hlow : 8 * i + j < 8 * k := by omega
    simp [hlow]
  · have hlow : ¬ (8 * i + j < 8 * k) := by omega
    rw [byte_bit _ _ hj, show 8 * (i - k) + j = 8 * i + j - 8 * k by omega]
    simp [hlow]
    omega

theorem byte_high (d : BitVec w) {i : Nat} (hi : w ≤ 8 * i) : byte d i = 0#8 := by
  apply BitVec.eq_of_getLsbD_eq
  intro j hj
  rw [byte_bit _ _ hj, BitVec.getLsbD_of_ge _ _ (by omega)]
  simp

/-- The word with the bytes `f 0`, `f 1`, `f 2`, `f 3`. -/
def word32 (f : Nat → BitVec 8) : BitVec 32 := f 3 ++ f 2 ++ f 1 ++ f 0

theorem byte_word32 (f : Nat → BitVec 8) {i : Nat} (hi : i < 4) : byte (word32 f) i = f i := by
  apply BitVec.eq_of_getLsbD_eq
  intro j hj
  rw [byte_bit _ _ hj, word32, BitVec.getLsbD_append, BitVec.getLsbD_append, BitVec.getLsbD_append]
  interval_cases i
  · simp [hj]
  · have h1 : ¬ (8 * 1 + j < 8) := by omega
    rw [if_neg h1, if_pos (by omega), show 8 * 1 + j - 8 = j by omega]
  · have h1 : ¬ (8 * 2 + j < 8) := by omega
    have h2 : ¬ (8 * 2 + j - 8 < 8) := by omega
    have h3 : 8 * 2 + j - 8 - 8 < 8 := by omega
    rw [if_neg h1, if_neg h2, if_pos h3, show 8 * 2 + j - 8 - 8 = j by omega]
  · have h1 : ¬ (8 * 3 + j < 8) := by omega
    have h2 : ¬ (8 * 3 + j - 8 < 8) := by omega
    have h3 : ¬ (8 * 3 + j - 8 - 8 < 8) := by omega
    rw [if_neg h1, if_neg h2, if_neg h3, show 8 * 3 + j - 8 - 8 - 8 = j by omega]

end Emlinux.Lib
