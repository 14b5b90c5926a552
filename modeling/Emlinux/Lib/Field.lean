import Mathlib.Data.BitVec
import Mathlib.Tactic

/-!
# Fields of a register word

A field of a word is the number in `len` of its bits, from bit `pos` on. A word that was put together from shifted values by `or` reads back
field by field, when every value fits its field: `field_or` takes the word apart, `field_shl` reads the value that was put there, and
`field_shl_below` and `field_above` say that the others leave the field alone. `setField` writes one field of a word and leaves the others.
-/

namespace Emlinux.Lib

variable {n : Nat} {v : BitVec n} {pos len k m : Nat}

def field (w : BitVec n) (pos len : Nat) : Nat := (w.extractLsb' pos len).toNat

theorem field_eq (w : BitVec n) (pos len : Nat) : field w pos len = w.toNat / 2 ^ pos % 2 ^ len := by
  rw [field, BitVec.extractLsb'_toNat, Nat.shiftRight_eq_div_pow]

theorem field_lt (w : BitVec n) (pos len : Nat) : field w pos len < 2 ^ len := BitVec.isLt _

theorem field_or (v w : BitVec n) (pos len : Nat) : field (v ||| w) pos len = field v pos len ||| field w pos len := by
  rw [field, BitVec.extractLsb'_or, BitVec.toNat_or]
  rfl

@[simp] theorem field_zero (pos len : Nat) : field (0#n) pos len = 0 := by
  rw [field_eq]
  simp

/-- A value that ends below the field. -/
theorem field_above (h : v.toNat < 2 ^ pos) : field v pos len = 0 := by
  rw [field_eq, Nat.div_eq_of_lt h, Nat.zero_mod]

theorem field_shl_above (h : v.toNat < 2 ^ m) (hk : k + m ≤ pos) : field (v <<< k) pos len = 0 := by
  apply field_above
  calc (v <<< k).toNat ≤ v.toNat * 2 ^ k := by
        rw [BitVec.toNat_shiftLeft, Nat.shiftLeft_eq]
        exact Nat.mod_le _ _
    _ < 2 ^ m * 2 ^ k := Nat.mul_lt_mul_of_pos_right h (Nat.two_pow_pos k)
    _ = 2 ^ (k + m) := by rw [Nat.add_comm, pow_add]
    _ ≤ 2 ^ pos := Nat.pow_le_pow_right (by decide) hk

/-- A value that starts above the field. -/
theorem field_shl_below (h : pos + len ≤ k) : field (v <<< k) pos len = 0 := by
  have hzero : (v <<< k).extractLsb' pos len = BitVec.zero len := by
    ext i hi
    have : pos + i < k := by omega
    simp [this]
  rw [field, hzero]
  rfl

/-- A field of a word that is shifted down. -/
theorem field_shr (w : BitVec n) (k pos len : Nat) : field (w >>> k) pos len = field w (k + pos) len := by
  rw [field_eq, field_eq, BitVec.toNat_ushiftRight, Nat.shiftRight_eq_div_pow, Nat.div_div_eq_div_mul, ← pow_add]

/-- A value in its field. -/
theorem field_shl (h : v.toNat < 2 ^ len) (hn : pos + len ≤ n) : field (v <<< pos) pos len = v.toNat := by
  have hlt : v.toNat * 2 ^ pos < 2 ^ n := by
    calc v.toNat * 2 ^ pos < 2 ^ len * 2 ^ pos := Nat.mul_lt_mul_of_pos_right h (Nat.two_pow_pos pos)
      _ = 2 ^ (pos + len) := by rw [Nat.add_comm, pow_add]
      _ ≤ 2 ^ n := Nat.pow_le_pow_right (by decide) hn
  rw [field_eq, BitVec.toNat_shiftLeft, Nat.shiftLeft_eq, Nat.mod_eq_of_lt hlt, Nat.mul_div_cancel _ (Nat.two_pow_pos pos),
    Nat.mod_eq_of_lt h]

/-! ## Masks -/

/-- What a mask of `len` bits at `pos` leaves of a word. -/
theorem and_mask (w : BitVec n) (hn : pos + len ≤ n) :
    w &&& (BitVec.ofNat n (2 ^ len - 1) <<< pos) = BitVec.ofNat n (field w pos len) <<< pos := by
  apply BitVec.eq_of_getLsbD_eq
  intro i hi
  rw [field, BitVec.ofNat_toNat, BitVec.getLsbD_and, BitVec.getLsbD_shiftLeft, BitVec.getLsbD_shiftLeft, BitVec.getLsbD_ofNat,
    Nat.testBit_two_pow_sub_one, BitVec.getLsbD_setWidth, BitVec.getLsbD_extractLsb']
  by_cases hp : i < pos
  · simp [hp]
  · by_cases hl : i - pos < len
    · have h1 : i - pos < n := by omega
      have h2 : pos + (i - pos) = i := by omega
      simp [hp, hl, h1, h2, hi]
    · simp [hl]

theorem toNat_field_shl (w : BitVec n) (hn : pos + len ≤ n) :
    (BitVec.ofNat n (field w pos len) <<< pos).toNat = field w pos len * 2 ^ pos := by
  have hf := field_lt w pos len
  have hlt : field w pos len * 2 ^ pos < 2 ^ n := by
    calc field w pos len * 2 ^ pos < 2 ^ len * 2 ^ pos := Nat.mul_lt_mul_of_pos_right hf (Nat.two_pow_pos pos)
      _ = 2 ^ (pos + len) := by rw [Nat.add_comm, pow_add]
      _ ≤ 2 ^ n := Nat.pow_le_pow_right (by decide) hn
  have hfn : field w pos len < 2 ^ n := lt_of_lt_of_le hf (Nat.pow_le_pow_right (by decide) (by omega))
  rw [BitVec.toNat_shiftLeft, BitVec.toNat_ofNat, Nat.mod_eq_of_lt hfn, Nat.shiftLeft_eq, Nat.mod_eq_of_lt hlt]

theorem field_ofNat_shl {c : Nat} (hc : c < 2 ^ len) (hn : pos + len ≤ n) : field (BitVec.ofNat n c <<< pos) pos len = c := by
  have hcn : c < 2 ^ n := lt_of_lt_of_le hc (Nat.pow_le_pow_right (by decide) (by omega))
  have hval : (BitVec.ofNat n c).toNat = c := by rw [BitVec.toNat_ofNat, Nat.mod_eq_of_lt hcn]
  rw [field_shl (by rw [hval]; exact hc) hn, hval]

/-- A masked word compared with a value in its field. -/
theorem and_mask_eq_iff (w : BitVec n) {mask val : BitVec n} {c : Nat} (hmask : mask = BitVec.ofNat n (2 ^ len - 1) <<< pos)
    (hval : val = BitVec.ofNat n c <<< pos) (hn : pos + len ≤ n) (hc : c < 2 ^ len) : w &&& mask = val ↔ field w pos len = c := by
  rw [hmask, hval, and_mask w hn]
  constructor
  · intro h
    rw [← field_ofNat_shl (field_lt w pos len) hn, h, field_ofNat_shl hc hn]
  · rintro rfl
    rfl

/-- A masked word, shifted down. -/
theorem toNat_and_mask_shr (w : BitVec n) {mask : BitVec n} (hmask : mask = BitVec.ofNat n (2 ^ len - 1) <<< pos)
    (hn : pos + len ≤ n) : ((w &&& mask) >>> pos).toNat = field w pos len := by
  rw [hmask, and_mask w hn, BitVec.toNat_ushiftRight, toNat_field_shl w hn, Nat.shiftRight_eq_div_pow,
    Nat.mul_div_cancel _ (Nat.two_pow_pos pos)]

/-- A word without its low bits. -/
theorem toNat_and_not_low (w : BitVec n) (len : Nat) (hn : len ≤ n) :
    (w &&& ~~~BitVec.ofNat n (2 ^ len - 1)).toNat = w.toNat / 2 ^ len * 2 ^ len := by
  have hpow : 2 ^ len ≤ 2 ^ n := Nat.pow_le_pow_right (by decide) hn
  have hpos := Nat.two_pow_pos len
  have heq : w &&& ~~~BitVec.ofNat n (2 ^ len - 1) = w >>> len <<< len := by
    apply BitVec.eq_of_getLsbD_eq
    intro i hi
    rw [BitVec.getLsbD_and, BitVec.getLsbD_not, BitVec.getLsbD_ofNat, Nat.testBit_two_pow_sub_one, BitVec.getLsbD_shiftLeft,
      BitVec.getLsbD_ushiftRight]
    by_cases hl : i < len
    · simp [hl, hi]
    · have hsum : len + (i - len) = i := by omega
      simp [hl, hi, hsum]
  have hle : w.toNat / 2 ^ len * 2 ^ len < 2 ^ n := lt_of_le_of_lt (Nat.div_mul_le_self _ _) w.isLt
  rw [heq, BitVec.toNat_shiftLeft, BitVec.toNat_ushiftRight, Nat.shiftRight_eq_div_pow, Nat.shiftLeft_eq, Nat.mod_eq_of_lt hle]

/-- A bit is a field of length one. -/
theorem getLsbD_eq_field (w : BitVec n) (i : Nat) : w.getLsbD i = decide (field w i 1 = 1) := by
  rw [field_eq, BitVec.getLsbD, Nat.testBit_eq_decide_div_mod_eq, pow_one]

/-! ## Writing a field -/

/-- The word with the low bits of `v` in the field. -/
def setField (w : BitVec n) (pos len : Nat) (v : BitVec n) : BitVec n :=
  w &&& ~~~(BitVec.ofNat n (2 ^ len - 1) <<< pos) ||| (v &&& BitVec.ofNat n (2 ^ len - 1)) <<< pos

theorem getLsbD_setField (w v : BitVec n) (pos len : Nat) {i : Nat} (hi : i < n) :
    (setField w pos len v).getLsbD i = if pos ≤ i ∧ i < pos + len then v.getLsbD (i - pos) else w.getLsbD i := by
  unfold setField
  rw [BitVec.getLsbD_or, BitVec.getLsbD_and, BitVec.getLsbD_not, BitVec.getLsbD_shiftLeft, BitVec.getLsbD_shiftLeft, BitVec.getLsbD_and,
    BitVec.getLsbD_ofNat, Nat.testBit_two_pow_sub_one]
  by_cases hp : i < pos
  · have hout : ¬ (pos ≤ i ∧ i < pos + len) := by omega
    simp [hp, hi, hout]
  · by_cases hl : i - pos < len
    · have h1 : i - pos < n := by omega
      have hin : pos ≤ i ∧ i < pos + len := by omega
      simp [hp, hi, hl, h1, hin]
    · have hout : ¬ (pos ≤ i ∧ i < pos + len) := by omega
      simp [hp, hi, hl, hout]

theorem field_setField (w v : BitVec n) (hn : pos + len ≤ n) : field (setField w pos len v) pos len = v.toNat % 2 ^ len := by
  have heq : (setField w pos len v).extractLsb' pos len = v.setWidth len := by
    apply BitVec.eq_of_getLsbD_eq
    intro i hi
    rw [BitVec.getLsbD_extractLsb', getLsbD_setField w v pos len (by omega), if_pos (by omega), Nat.add_sub_cancel_left,
      BitVec.getLsbD_setWidth]
  rw [field, heq, BitVec.toNat_setWidth]

/-- The fields beside it stay. -/
theorem field_setField_of_disjoint (w v : BitVec n) {pos' len' : Nat} (hn : pos' + len' ≤ n)
    (h : pos' + len' ≤ pos ∨ pos + len ≤ pos') : field (setField w pos len v) pos' len' = field w pos' len' := by
  have heq : (setField w pos len v).extractLsb' pos' len' = w.extractLsb' pos' len' := by
    apply BitVec.eq_of_getLsbD_eq
    intro i hi
    rw [BitVec.getLsbD_extractLsb', getLsbD_setField w v pos len (by omega), if_neg (by omega), BitVec.getLsbD_extractLsb']
  rw [field, heq, field]

/-- A value that fits its field need not be masked. -/
theorem setField_of_lt (w v : BitVec n) (pos : Nat) (hv : v.toNat < 2 ^ len) (hn : len ≤ n) :
    setField w pos len v = w &&& ~~~(BitVec.ofNat n (2 ^ len - 1) <<< pos) ||| v <<< pos := by
  have hpow : 2 ^ len ≤ 2 ^ n := Nat.pow_le_pow_right (by decide) hn
  have hpos := Nat.two_pow_pos len
  have hmask : v &&& BitVec.ofNat n (2 ^ len - 1) = v := by
    apply BitVec.eq_of_toNat_eq
    rw [BitVec.toNat_and, BitVec.toNat_ofNat, Nat.mod_eq_of_lt (by omega), Nat.and_two_pow_sub_one_eq_mod, Nat.mod_eq_of_lt hv]
  rw [setField, hmask]

/-- A field read by a shift and a mask. -/
theorem toNat_shr_and_mask (w : BitVec n) (pos len : Nat) (hn : pos + len ≤ n) :
    ((w >>> pos) &&& BitVec.ofNat n (2 ^ len - 1)).toNat = field w pos len := by
  have hpow : 2 ^ len ≤ 2 ^ n := Nat.pow_le_pow_right (by decide) (by omega)
  have hpos := Nat.two_pow_pos len
  rw [field_eq, BitVec.toNat_and, BitVec.toNat_ushiftRight, BitVec.toNat_ofNat, Nat.mod_eq_of_lt (by omega), Nat.and_two_pow_sub_one_eq_mod,
    Nat.shiftRight_eq_div_pow]

theorem toNat_and_low (w : BitVec n) (len : Nat) (hn : len ≤ n) : (w &&& BitVec.ofNat n (2 ^ len - 1)).toNat = field w 0 len := by
  have h := toNat_shr_and_mask w 0 len (by omega)
  rwa [BitVec.ushiftRight_zero] at h

end Emlinux.Lib
