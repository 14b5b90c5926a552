import Emlinux.Lib.Word

/-!
# The byte swaps of the SPI driver

`sslspi_swap` swaps the bytes of a buffer in place, and `sslspi_worker` calls it for the transmit buffer before a
transfer and for the receive buffer after it. The loop takes a unit from the length before it looks whether there is
one, so that the last unit is left out, and a length of zero goes through all of memory. The transmit buffer is not
swapped back.

* `loop_eq`: what the loop does, for every length.
* `swap_iff`: when a swap is complete, and when a transfer gives the transmit buffer back as it was.
-/

namespace Emlinux.Spi.Swap

open Lib

abbrev Byte := BitVec 8

abbrev Addr := BitVec 32

abbrev Mem := Addr → Byte

/-- The type of a swap: 8 in 16, 16 in 32, 8 in 32. -/
inductive Kind where
  | eightIn16
  | sixteenIn32
  | eightIn32
deriving DecidableEq, Repr

/-- The bytes of `*p`. -/
def Kind.unit : Kind → Nat
  | eightIn16 => 2
  | sixteenIn32 => 4
  | eightIn32 => 4

/-- `*p` of a `uint16_t *`. -/
def read16 (m : Mem) (p : Addr) : BitVec 16 := m (p + 1#32) ++ m p

/-- `*p` of a `uint32_t *`. -/
def read32 (m : Mem) (p : Addr) : BitVec 32 := word32 fun i => m (p + BitVec.ofNat 32 i)

def write16 (m : Mem) (p : Addr) (d : BitVec 16) : Mem := fun x =>
  if x = p then d.setWidth 8
  else if x = p + 1#32 then (d >>> 8).setWidth 8
  else m x

def write32 (m : Mem) (p : Addr) (d : BitVec 32) : Mem := fun x =>
  if x = p then d.setWidth 8
  else if x = p + 1#32 then (d >>> 8).setWidth 8
  else if x = p + 2#32 then (d >>> 16).setWidth 8
  else if x = p + 3#32 then (d >>> 24).setWidth 8
  else m x

/-- The body of the loops of `sslspi_swap`. -/
def Kind.turn (s : Kind) (m : Mem) (p : Addr) : Mem :=
  match s with
  | eightIn16 =>
    let d := read16 m p
    write16 m p (d <<< 8 ||| d >>> 8)
  | sixteenIn32 =>
    let d := read32 m p
    write32 m p (d <<< 16 ||| d >>> 16)
  | eightIn32 =>
    let d := read32 m p
    write32 m p (d <<< 24 ||| d >>> 24 ||| (d >>> 8 &&& 0xFF00#32) ||| (d <<< 8 &&& 0xFF0000#32))

/-- Memory after a swap, and the bytes it wrote. -/
structure Run where
  mem : Mem
  written : List Addr

/-- `sslspi_swap`; none when `fuel` turns are not enough. -/
def sslspiSwap (s : Kind) : Nat → BitVec 32 → Addr → Mem → Option Run
  | 0, _, _, _ => none
  | fuel + 1, len, p, m =>
    let len := len - BitVec.ofNat 32 s.unit
    if len = 0#32 then some ⟨m, []⟩
    else do
      let r ← sslspiSwap s fuel len (p + BitVec.ofNat 32 s.unit) (s.turn m p)
      pure ⟨r.mem, (List.range s.unit).map (fun i => p + BitVec.ofNat 32 i) ++ r.written⟩

/-- `bits >>= 6`. -/
def swapType (bits : BitVec 8) : Option Kind :=
  match (bits >>> 6).toNat with
  | 1 => some .eightIn16
  | 2 => some .sixteenIn32
  | 3 => some .eightIn32
  | _ => none

/-- `spi_xfr_t`; a missing buffer is NULL. -/
structure Xfr where
  tx : Addr
  rx : Addr
  len : BitVec 32

/-- What the transfer stores of the bytes `data` that it receives. -/
def store (x : Xfr) (data : List Byte) (m : Mem) : Mem := fun y =>
  if x.rx ≠ 0#32 ∧ (y - x.rx).toNat < x.len.toNat then data.getD (y - x.rx).toNat (m y) else m y

/-- The part of `sslspi_worker` from the first swap to the second. -/
def worker (fuel : Nat) (bits : BitVec 8) (x : Xfr) (data : List Byte) (m : Mem) : Option Mem :=
  match swapType bits with
  | none => some (store x data m)
  | some s => do
    let m ← if x.tx ≠ 0#32 then (sslspiSwap s fuel x.len x.tx m).map Run.mem else some m
    (sslspiSwap s fuel x.len x.rx (store x data m)).map Run.mem

/-! ## What a swap should do -/

/-- The byte of a unit that comes to place `i`. -/
def Kind.lane : Kind → Nat → Nat
  | eightIn16, i => 1 - i
  | sixteenIn32, i => (i + 2) % 4
  | eightIn32, i => 3 - i

/-- The byte of the buffer that comes to place `j`. -/
def Kind.mirror (s : Kind) (j : Nat) : Nat := j / s.unit * s.unit + s.lane (j % s.unit)

/-- Memory with `n` units swapped from `a` on. -/
def swapped (s : Kind) (m : Mem) (a : Addr) (n : Nat) : Mem := fun x =>
  if (x - a).toNat < n * s.unit then m (a + BitVec.ofNat 32 (s.mirror (x - a).toNat)) else m x

/-- The swap ends, writes no byte outside the buffer, swaps every unit of it and nothing else, and does it back. -/
def Complete (s : Kind) (m : Mem) (a : Addr) (len : BitVec 32) : Prop :=
  ∃ fuel r, sslspiSwap s fuel len a m = some r ∧ (∀ x ∈ r.written, ∃ j < len.toNat, x = a + BitVec.ofNat 32 j) ∧
    r.mem = swapped s m a (len.toNat / s.unit) ∧
    ∃ fuel' r', sslspiSwap s fuel' len a r.mem = some r' ∧ r'.mem = m

/-- The transfer ends, and what the receive buffer does not cover of the transmit buffer is as it was. -/
def Restored (bits : BitVec 8) (x : Xfr) (data : List Byte) (m : Mem) : Prop :=
  x.tx ≠ 0#32 → ∃ fuel m', worker fuel bits x data m = some m' ∧ ∀ j < x.len.toNat,
    (∀ i < x.len.toNat, x.tx + BitVec.ofNat 32 j ≠ x.rx + BitVec.ofNat 32 i) →
      m' (x.tx + BitVec.ofNat 32 j) = m (x.tx + BitVec.ofNat 32 j)

/-- There is a last unit, and a swap does not change it. -/
def LastFixed (s : Kind) (m : Mem) (a : Addr) (len : BitVec 32) : Prop :=
  len ≠ 0#32 ∧ ∀ i < s.unit, m (a + BitVec.ofNat 32 (len.toNat - s.unit + s.lane i)) = m (a + BitVec.ofNat 32 (len.toNat - s.unit + i))

/-- A swap changes no byte of the transmit buffer before the last unit, unless the receive buffer covers it. -/
def RestFixed (bits : BitVec 8) (x : Xfr) (m : Mem) : Prop :=
  x.tx ≠ 0#32 → ∀ s ∈ swapType bits, ∀ j < x.len.toNat - s.unit,
    (∀ i < x.len.toNat, x.tx + BitVec.ofNat 32 j ≠ x.rx + BitVec.ofNat 32 i) →
      m (x.tx + BitVec.ofNat 32 (s.mirror j)) = m (x.tx + BitVec.ofNat 32 j)

/-! ## One unit -/

variable {s : Kind} {m : Mem} {a p : Addr} {n : Nat}

theorem unit_pos (s : Kind) : 0 < s.unit := by
  cases s <;> decide

theorem lane_lt {i : Nat} (hi : i < s.unit) : s.lane i < s.unit := by
  cases s <;> simp only [Kind.lane, Kind.unit] at * <;> omega

theorem lane_lane {i : Nat} (hi : i < s.unit) : s.lane (s.lane i) = i := by
  cases s <;> simp only [Kind.lane, Kind.unit] at * <;> omega

theorem byte_read16 (m : Mem) (p : Addr) {i : Nat} (hi : i < 2) : byte (read16 m p) i = m (p + BitVec.ofNat 32 i) := by
  apply BitVec.eq_of_getLsbD_eq
  intro j hj
  rw [byte_bit _ _ hj, read16, BitVec.getLsbD_append]
  interval_cases i
  · simp [hj]
  · rw [if_neg (by omega), show 8 * 1 + j - 8 = j by omega]

theorem write16_at (m : Mem) (p : Addr) (d : BitVec 16) {i : Nat} (hi : i < 2) :
    write16 m p d (p + BitVec.ofNat 32 i) = byte d i := by
  unfold write16 byte
  interval_cases i
  · simp
  · simp

theorem write32_at (m : Mem) (p : Addr) (d : BitVec 32) {i : Nat} (hi : i < 4) :
    write32 m p d (p + BitVec.ofNat 32 i) = byte d i := by
  unfold write32 byte
  interval_cases i
  · simp
  · simp
  · simp
  · simp

/-- The shifts of the loop bodies put byte `lane i` in place `i`. -/
theorem byte_in16 (d : BitVec 16) {i : Nat} (hi : i < 2) : byte (d <<< 8 ||| d >>> 8) i = byte d (1 - i) := by
  rw [byte_or, show d <<< 8 = d <<< (8 * 1) from rfl, show d >>> 8 = d >>> (8 * 1) from rfl, byte_shl d 1 (by omega), byte_shr]
  interval_cases i
  · simp
  · rw [byte_high d (show 16 ≤ 8 * (1 + 1) by omega)]
    simp

theorem byte_half32 (d : BitVec 32) {i : Nat} (hi : i < 4) : byte (d <<< 16 ||| d >>> 16) i = byte d ((i + 2) % 4) := by
  rw [byte_or, show d <<< 16 = d <<< (8 * 2) from rfl, show d >>> 16 = d >>> (8 * 2) from rfl, byte_shl d 2 (by omega), byte_shr]
  interval_cases i
  · simp
  · simp
  · rw [byte_high d (show 32 ≤ 8 * (2 + 2) by omega)]
    simp
  · rw [byte_high d (show 32 ≤ 8 * (3 + 2) by omega)]
    simp

theorem byte_in32 (d : BitVec 32) {i : Nat} (hi : i < 4) :
    byte (d <<< 24 ||| d >>> 24 ||| (d >>> 8 &&& 0xFF00#32) ||| (d <<< 8 &&& 0xFF0000#32)) i = byte d (3 - i) := by
  rw [byte_or, byte_or, byte_or, byte_and, byte_and, show d <<< 24 = d <<< (8 * 3) from rfl, show d >>> 24 = d >>> (8 * 3) from rfl,
    show d <<< 8 = d <<< (8 * 1) from rfl, show d >>> 8 = d >>> (8 * 1) from rfl, byte_shl d 3 (by omega),
    byte_shl d 1 (by omega), byte_shr, byte_shr]
  have hm : ∀ i < 4, byte 0xFF00#32 i = if i = 1 then 0xff#8 else 0#8 := by decide
  have hm' : ∀ i < 4, byte 0xFF0000#32 i = if i = 2 then 0xff#8 else 0#8 := by decide
  have hall (e : Byte) : e &&& 0xff#8 = e := BitVec.and_allOnes
  rw [hm i hi, hm' i hi]
  interval_cases i
  · simp
  · rw [byte_high d (show 32 ≤ 8 * (1 + 3) by omega)]
    simp [hall]
  · rw [byte_high d (show 32 ≤ 8 * (2 + 3) by omega)]
    simp [hall]
  · rw [byte_high d (show 32 ≤ 8 * (3 + 3) by omega)]
    simp

theorem turn_lane (s : Kind) (m : Mem) (p : Addr) {i : Nat} (hi : i < s.unit) :
    s.turn m p (p + BitVec.ofNat 32 i) = m (p + BitVec.ofNat 32 (s.lane i)) := by
  have hl := lane_lt hi
  cases s with
  | eightIn16 =>
    show write16 m p _ _ = _
    rw [write16_at _ _ _ hi, byte_in16 _ hi]
    exact byte_read16 m p hl
  | sixteenIn32 =>
    show write32 m p _ _ = _
    rw [write32_at _ _ _ hi, byte_half32 _ hi]
    exact byte_word32 _ hl
  | eightIn32 =>
    show write32 m p _ _ = _
    rw [write32_at _ _ _ hi, byte_in32 _ hi]
    exact byte_word32 _ hl

theorem turn_else (s : Kind) (m : Mem) (p : Addr) {x : Addr} (h : ∀ i < s.unit, x ≠ p + BitVec.ofNat 32 i) :
    s.turn m p x = m x := by
  have h0 : x ≠ p := by simpa using h 0 (unit_pos s)
  cases s with
  | eightIn16 =>
    show write16 m p _ x = _
    unfold write16
    rw [if_neg h0, if_neg (h 1 (by decide))]
  | sixteenIn32 =>
    show write32 m p _ x = _
    unfold write32
    rw [if_neg h0, if_neg (h 1 (by decide)), if_neg (h 2 (by decide)), if_neg (h 3 (by decide))]
  | eightIn32 =>
    show write32 m p _ x = _
    unfold write32
    rw [if_neg h0, if_neg (h 1 (by decide)), if_neg (h 2 (by decide)), if_neg (h 3 (by decide))]

/-! ## The loop -/

theorem at_ofNat (a : Addr) {j : Nat} (hj : j < 2 ^ 32) : (a + BitVec.ofNat 32 j - a).toNat = j := by
  rw [BitVec.add_comm, BitVec.add_sub_cancel, BitVec.toNat_ofNat, Nat.mod_eq_of_lt hj]

theorem ofNat_at (a x : Addr) : a + BitVec.ofNat 32 (x - a).toNat = x := by
  rw [BitVec.ofNat_toNat, BitVec.setWidth_eq, BitVec.add_comm, BitVec.sub_add_cancel]

/-- Memories are equal when they are, byte for byte from `a` on. -/
theorem mem_ext {m m' : Mem} (a : Addr) (h : ∀ j < 2 ^ 32, m (a + BitVec.ofNat 32 j) = m' (a + BitVec.ofNat 32 j)) : m = m' := by
  funext x
  have hx := h (x - a).toNat (x - a).isLt
  rwa [ofNat_at] at hx

theorem turn_at (s : Kind) (m : Mem) (a : Addr) {j : Nat} (hj : j < 2 ^ 32) : s.turn m a (a + BitVec.ofNat 32 j) =
    if j < s.unit then m (a + BitVec.ofNat 32 (s.lane j)) else m (a + BitVec.ofNat 32 j) := by
  split_ifs with h
  · exact turn_lane s m a h
  · refine turn_else s m a fun i hi he => h ?_
    have hi' : i < 2 ^ 32 := by
      have : s.unit ≤ 4 := by cases s <;> decide
      omega
    have hij : (a + BitVec.ofNat 32 j - a).toNat = (a + BitVec.ofNat 32 i - a).toNat := by rw [he]
    rw [at_ofNat a hj, at_ofNat a hi'] at hij
    omega

theorem swapped_at (s : Kind) (m : Mem) (a : Addr) (n : Nat) {j : Nat} (hj : j < 2 ^ 32) :
    swapped s m a n (a + BitVec.ofNat 32 j) =
      if j < n * s.unit then m (a + BitVec.ofNat 32 (s.mirror j)) else m (a + BitVec.ofNat 32 j) := by
  unfold swapped
  rw [at_ofNat a hj]

theorem mirror_lt_unit {j : Nat} (hj : j < s.unit) : s.mirror j = s.lane j := by
  unfold Kind.mirror
  rw [Nat.div_eq_of_lt hj, Nat.mod_eq_of_lt hj, Nat.zero_mul, Nat.zero_add]

theorem mirror_add (s : Kind) (j : Nat) : s.mirror (s.unit + j) = s.unit + s.mirror j := by
  unfold Kind.mirror
  rw [Nat.add_div_left _ (unit_pos s), Nat.add_mod_left, Nat.succ_mul]
  omega

theorem mirror_bounds (s : Kind) (j : Nat) : j / s.unit * s.unit ≤ s.mirror j ∧ s.mirror j < (j / s.unit + 1) * s.unit := by
  have h := lane_lt (Nat.mod_lt j (unit_pos s))
  unfold Kind.mirror
  rw [Nat.succ_mul]
  omega

theorem mirror_lt {j : Nat} (hj : j < n * s.unit) : s.mirror j < n * s.unit := by
  have hd : j / s.unit < n := (Nat.div_lt_iff_lt_mul (unit_pos s)).mpr hj
  exact (mirror_bounds s j).2.trans_le (Nat.mul_le_mul_right _ hd)

theorem mirror_mirror (s : Kind) (j : Nat) : s.mirror (s.mirror j) = j := by
  have h := lane_lt (Nat.mod_lt j (unit_pos s))
  have hd : s.mirror j / s.unit = j / s.unit := by
    unfold Kind.mirror
    rw [Nat.mul_comm, Nat.mul_add_div (unit_pos s), Nat.div_eq_of_lt h, Nat.add_zero]
  have hm : s.mirror j % s.unit = s.lane (j % s.unit) := by
    unfold Kind.mirror
    rw [Nat.mul_comm, Nat.mul_add_mod, Nat.mod_eq_of_lt h]
  rw [Kind.mirror, hd, hm, lane_lane (Nat.mod_lt j (unit_pos s)), Nat.mul_comm, Nat.div_add_mod]

/-- A unit, and then those behind it. -/
theorem swapped_turn (s : Kind) (m : Mem) (a : Addr) (hn : (n + 1) * s.unit ≤ 2 ^ 32) :
    swapped s (s.turn m a) (a + BitVec.ofNat 32 s.unit) n = swapped s m a (n + 1) := by
  have hu := unit_pos s
  rw [Nat.succ_mul] at hn
  refine mem_ext a fun j hj => ?_
  rw [swapped_at s m a _ hj, Nat.succ_mul]
  rcases Nat.lt_or_ge j s.unit with hlt | hge
  · have hout : ¬ ((a + BitVec.ofNat 32 j - (a + BitVec.ofNat 32 s.unit)).toNat < n * s.unit) := by
      have hsub : a + BitVec.ofNat 32 j - (a + BitVec.ofNat 32 s.unit) = BitVec.ofNat 32 j - BitVec.ofNat 32 s.unit := by
        rw [← BitVec.sub_sub, BitVec.add_comm, BitVec.add_sub_cancel]
      rw [hsub, BitVec.toNat_sub, BitVec.toNat_ofNat, BitVec.toNat_ofNat]
      omega
    rw [if_pos (by omega), mirror_lt_unit hlt]
    unfold swapped
    rw [if_neg hout, turn_lane s m a hlt]
  · obtain ⟨i, rfl⟩ := Nat.exists_eq_add_of_le hge
    have haddr (k : Nat) : a + BitVec.ofNat 32 (s.unit + k) = a + BitVec.ofNat 32 s.unit + BitVec.ofNat 32 k := by
      rw [BitVec.ofNat_add, BitVec.add_assoc]
    have hrest : swapped s (s.turn m a) (a + BitVec.ofNat 32 s.unit) n (a + BitVec.ofNat 32 (s.unit + i)) =
        if i < n * s.unit then s.turn m a (a + BitVec.ofNat 32 (s.unit + s.mirror i))
        else s.turn m a (a + BitVec.ofNat 32 (s.unit + i)) := by
      rw [haddr, swapped_at _ _ _ _ (by omega), haddr]
    rw [hrest, mirror_add]
    by_cases hi : i < n * s.unit
    · have hm := mirror_lt hi
      rw [if_pos hi, if_pos (by omega), turn_at s m a (by omega), if_neg (by omega)]
    · rw [if_neg hi, if_neg (by omega), turn_at s m a hj, if_neg (by omega)]

/-- The addresses of the first bytes from `a` on. -/
def span (a : Addr) (n : Nat) : List Addr := (List.range n).map fun j => a + BitVec.ofNat 32 j

/-- For a length of `n + 1` units, zero being all of memory, the loop swaps `n` units. -/
theorem loop_eq (s : Kind) : ∀ (n : Nat) (a : Addr) (m : Mem), (n + 1) * s.unit ≤ 2 ^ 32 →
    sslspiSwap s (n + 1) (BitVec.ofNat 32 ((n + 1) * s.unit)) a m = some ⟨swapped s m a n, span a (n * s.unit)⟩ := by
  have hu := unit_pos s
  intro n
  induction n with
  | zero =>
    intro a m _
    have h0 : swapped s m a 0 = m := by
      funext x
      simp [swapped]
    simp [sslspiSwap, h0, span]
  | succ n ih =>
    intro a m hn
    have hle : (n + 1) * s.unit < 2 ^ 32 := by
      rw [Nat.succ_mul] at hn
      omega
    have hlen : BitVec.ofNat 32 ((n + 1 + 1) * s.unit) - BitVec.ofNat 32 s.unit = BitVec.ofNat 32 ((n + 1) * s.unit) := by
      rw [Nat.succ_mul (n + 1), BitVec.ofNat_add, BitVec.add_sub_cancel]
    have hne : BitVec.ofNat 32 ((n + 1) * s.unit) ≠ 0#32 := by
      intro h
      have h0 := congrArg BitVec.toNat h
      rw [BitVec.toNat_ofNat, Nat.mod_eq_of_lt hle] at h0
      simp at h0
      omega
    have hspan : span a ((n + 1) * s.unit) = (List.range s.unit).map (fun i => a + BitVec.ofNat 32 i) ++
        span (a + BitVec.ofNat 32 s.unit) (n * s.unit) := by
      unfold span
      rw [Nat.succ_mul, Nat.add_comm, List.range_add, List.map_append, List.map_map]
      congr 1
      refine List.map_congr_left fun j _ => ?_
      rw [Function.comp_apply, BitVec.ofNat_add, BitVec.add_assoc]
    rw [sslspiSwap, hlen, if_neg hne, ih _ _ hle.le, swapped_turn s m a hle.le, hspan]
    rfl

/-- More fuel does not change the result. -/
theorem loop_mono {fuel : Nat} : ∀ {len : BitVec 32} {a : Addr} {m : Mem} {r : Run}, sslspiSwap s fuel len a m = some r →
    ∀ k, sslspiSwap s (fuel + k) len a m = some r := by
  induction fuel with
  | zero =>
    intro len a m r h
    cases h
  | succ fuel ih =>
    intro len a m r h k
    rw [sslspiSwap] at h
    rw [Nat.succ_add, sslspiSwap]
    split_ifs at h ⊢ with hlen
    · exact h
    · obtain ⟨r', hr', hr⟩ := Option.bind_eq_some_iff.mp h
      exact Option.bind_eq_some_iff.mpr ⟨r', ih hr' k, hr⟩

/-- The number of units that are swapped. -/
theorem len_units (s : Kind) {len : BitVec 32} (hlen : s.unit ∣ len.toNat) : ∃ n, (n + 1) * s.unit ≤ 2 ^ 32 ∧
    len = BitVec.ofNat 32 ((n + 1) * s.unit) ∧ (len ≠ 0#32 → len.toNat = (n + 1) * s.unit) := by
  have hu := unit_pos s
  by_cases h0 : len = 0#32
  · -- zero counts as all of memory
    have hall : ∃ n, (n + 1) * s.unit = 2 ^ 32 := by
      cases s
      · exact ⟨2 ^ 31 - 1, by decide⟩
      · exact ⟨2 ^ 30 - 1, by decide⟩
      · exact ⟨2 ^ 30 - 1, by decide⟩
    obtain ⟨n, hn⟩ := hall
    exact ⟨n, hn.le, by rw [h0, hn]; rfl, fun h => absurd h0 h⟩
  · obtain ⟨k, hk⟩ := hlen
    have hpos : 0 < len.toNat := by
      rw [Nat.pos_iff_ne_zero]
      intro h
      exact h0 (BitVec.eq_of_toNat_eq h)
    obtain ⟨n, rfl⟩ : ∃ n, k = n + 1 := by
      cases k with
      | zero => simp [hk] at hpos
      | succ n => exact ⟨n, rfl⟩
    have hlt := len.isLt
    rw [Nat.mul_comm] at hk
    exact ⟨n, by omega, by rw [← hk, BitVec.ofNat_toNat, BitVec.setWidth_eq], fun _ => hk⟩

/-- The swap of a buffer, with enough fuel. -/
theorem sslspiSwap_eq (s : Kind) {len : BitVec 32} (hlen : s.unit ∣ len.toNat) : ∃ n, (n + 1) * s.unit ≤ 2 ^ 32 ∧
    (len ≠ 0#32 → len.toNat = (n + 1) * s.unit) ∧ (len = 0#32 → 0 < n) ∧
    ∀ a m, (∀ k, sslspiSwap s (n + 1 + k) len a m = some ⟨swapped s m a n, span a (n * s.unit)⟩) ∧
      ∀ fuel r, sslspiSwap s fuel len a m = some r → r = ⟨swapped s m a n, span a (n * s.unit)⟩ := by
  obtain ⟨n, hn, he, hne⟩ := len_units s hlen
  have hrun (a : Addr) (m : Mem) : sslspiSwap s (n + 1) len a m = some ⟨swapped s m a n, span a (n * s.unit)⟩ := by
    rw [he]
    exact loop_eq s n a m hn
  refine ⟨n, hn, hne, fun h0 => ?_, fun a m => ⟨loop_mono (hrun a m), fun fuel r hr => ?_⟩⟩
  · rw [Nat.pos_iff_ne_zero]
    rintro rfl
    rw [h0] at he
    revert he
    cases s <;> decide
  · have h1 := loop_mono hr (n + 1)
    rw [Nat.add_comm, loop_mono (hrun a m) fuel] at h1
    exact (Option.some.inj h1).symm

/-! ## When it is right -/

theorem mirror_units (s : Kind) (n i : Nat) : s.mirror (n * s.unit + i) = n * s.unit + s.mirror i := by
  unfold Kind.mirror
  rw [Nat.mul_comm n, Nat.mul_add_div (unit_pos s), Nat.mul_add_mod, Nat.add_mul, Nat.mul_comm n, Nat.add_assoc]

theorem swapped_swapped (s : Kind) (m : Mem) (a : Addr) (hn : n * s.unit ≤ 2 ^ 32) : swapped s (swapped s m a n) a n = m := by
  refine mem_ext a fun j hj => ?_
  rw [swapped_at _ _ _ _ hj]
  split_ifs with h
  · have hm := mirror_lt h
    rw [swapped_at _ _ _ _ (by omega), if_pos hm, mirror_mirror]
  · rw [swapped_at _ _ _ _ hj, if_neg h]

/-- One unit more makes no difference exactly when a swap does not change it. -/
theorem swapped_succ_iff (s : Kind) (m : Mem) (a : Addr) (hn : (n + 1) * s.unit ≤ 2 ^ 32) : swapped s m a n = swapped s m a (n + 1) ↔
    ∀ i < s.unit, m (a + BitVec.ofNat 32 (n * s.unit + s.lane i)) = m (a + BitVec.ofNat 32 (n * s.unit + i)) := by
  rw [Nat.succ_mul] at hn
  constructor
  · intro h i hi
    have hat := congrFun h (a + BitVec.ofNat 32 (n * s.unit + i))
    rw [swapped_at _ _ _ _ (by omega), swapped_at _ _ _ _ (by omega), if_neg (by omega), Nat.succ_mul, if_pos (by omega),
      mirror_units, mirror_lt_unit hi] at hat
    exact hat.symm
  · intro h
    refine mem_ext a fun j hj => ?_
    rw [swapped_at _ _ _ _ hj, swapped_at _ _ _ _ hj, Nat.succ_mul]
    by_cases h1 : j < n * s.unit
    · rw [if_pos h1, if_pos (by omega)]
    rw [if_neg h1]
    split_ifs with h2
    · obtain ⟨i, rfl⟩ := Nat.exists_eq_add_of_le (Nat.le_of_not_lt h1)
      rw [mirror_units, mirror_lt_unit (by omega), h i (by omega)]
    · rfl

theorem complete_iff (s : Kind) (m : Mem) (a : Addr) (len : BitVec 32) (hlen : s.unit ∣ len.toNat) :
    Complete s m a len ↔ LastFixed s m a len := by
  obtain ⟨n, hn, hne, h0, hrun⟩ := sslspiSwap_eq s hlen
  have hu := unit_pos s
  have hn' := hn
  rw [Nat.succ_mul] at hn'
  unfold LastFixed
  constructor
  · rintro ⟨fuel, r, hr, hw, hmem, -⟩
    rw [(hrun a m).2 fuel r hr] at hw hmem
    have hlen0 : len ≠ 0#32 := by
      intro h
      have hpos : 0 < n * s.unit := Nat.mul_pos (h0 h) hu
      obtain ⟨j, hj, -⟩ := hw (a + BitVec.ofNat 32 0) (List.mem_map.mpr ⟨0, List.mem_range.mpr hpos, rfl⟩)
      rw [h] at hj
      exact absurd hj (Nat.not_lt_zero _)
    refine ⟨hlen0, ?_⟩
    dsimp only at hmem
    rw [hne hlen0, Nat.mul_div_cancel _ hu, swapped_succ_iff s m a hn] at hmem
    rwa [hne hlen0, Nat.succ_mul, Nat.add_sub_cancel]
  · rintro ⟨hlen0, hfix⟩
    rw [hne hlen0, Nat.succ_mul, Nat.add_sub_cancel] at hfix
    refine ⟨n + 1 + 0, _, (hrun a m).1 0, fun x hx => ?_, ?_, n + 1 + 0, _, (hrun a _).1 0, swapped_swapped s m a (by omega)⟩
    · obtain ⟨j, hj, rfl⟩ := List.mem_map.mp hx
      rw [List.mem_range] at hj
      exact ⟨j, by rw [hne hlen0, Nat.succ_mul]; omega, rfl⟩
    · dsimp only
      rw [hne hlen0, Nat.mul_div_cancel _ hu]
      exact (swapped_succ_iff s m a hn).mpr hfix

/-- What the receive buffer does not cover is not stored to. -/
theorem store_else {x : Xfr} {y : Addr} (data : List Byte) (m : Mem)
    (h : ∀ i < x.len.toNat, y ≠ x.rx + BitVec.ofNat 32 i) : store x data m y = m y := by
  unfold store
  rw [if_neg]
  rintro ⟨-, hlt⟩
  exact h _ hlt (ofNat_at x.rx y).symm

theorem restored_iff (bits : BitVec 8) (x : Xfr) (data : List Byte) (m : Mem)
    (hlen : ∀ s ∈ swapType bits, s.unit ∣ x.len.toNat) : Restored bits x data m ↔ RestFixed bits x m := by
  unfold Restored RestFixed
  refine imp_congr_right fun htx => ?_
  cases hs : swapType bits with
  | none =>
    refine iff_of_true ⟨0, _, by rw [worker, hs], fun j _ hj => store_else data m hj⟩ (by simp)
  | some s =>
    have hdvd := hlen s (by simp [hs])
    obtain ⟨n, hn, hne, -, hrun⟩ := sslspiSwap_eq s hdvd
    rw [Nat.succ_mul] at hn
    have hle : n * s.unit ≤ x.len.toNat ∨ x.len.toNat = 0 := by
      by_cases h0 : x.len = 0#32
      · exact Or.inr (by rw [h0]; rfl)
      · exact Or.inl (by rw [hne h0, Nat.succ_mul]; omega)
    -- the bytes of the transmit buffer after both swaps
    have hval (j : Nat) (hj : j < x.len.toNat) (hc : ∀ i < x.len.toNat, x.tx + BitVec.ofNat 32 j ≠ x.rx + BitVec.ofNat 32 i) :
        swapped s (store x data (swapped s m x.tx n)) x.rx n (x.tx + BitVec.ofNat 32 j) =
          swapped s m x.tx n (x.tx + BitVec.ofNat 32 j) := by
      have hout : ¬ ((x.tx + BitVec.ofNat 32 j - x.rx).toNat < n * s.unit) := fun h =>
        hc _ (h.trans_le (hle.resolve_right (by omega))) (ofNat_at _ _).symm
      rw [swapped, if_neg hout, store_else data _ hc]
    have hwork : worker (n + 1 + 0) bits x data m = some (swapped s (store x data (swapped s m x.tx n)) x.rx n) := by
      rw [worker, hs]
      dsimp only
      rw [if_pos htx, (hrun x.tx m).1 0]
      show (sslspiSwap s (n + 1 + 0) x.len x.rx (store x data (swapped s m x.tx n))).map Run.mem = _
      rw [(hrun x.rx _).1 0]
      rfl
    have honly {fuel : Nat} {m' : Mem} (h : worker fuel bits x data m = some m') :
        m' = swapped s (store x data (swapped s m x.tx n)) x.rx n := by
      rw [worker, hs] at h
      dsimp only at h
      rw [if_pos htx] at h
      obtain ⟨m₁, h₁, h₂⟩ := Option.bind_eq_some_iff.mp h
      obtain ⟨r₁, hr₁, rfl⟩ := Option.map_eq_some_iff.mp h₁
      obtain ⟨r₂, hr₂, rfl⟩ := Option.map_eq_some_iff.mp h₂
      rw [(hrun x.tx m).2 _ _ hr₁] at hr₂
      rw [(hrun x.rx _).2 _ _ hr₂]
    have hlast (hpos : 0 < x.len.toNat) : x.len.toNat - s.unit = n * s.unit := by
      have h0 : x.len ≠ 0#32 := by
        rintro h0
        rw [h0] at hpos
        exact absurd hpos (Nat.lt_irrefl 0)
      rw [hne h0, Nat.succ_mul, Nat.add_sub_cancel]
    constructor
    · rintro ⟨fuel, m', hm', h⟩ s' hs' j hj hc
      obtain rfl : s = s' := by simpa using hs'
      have hval' := h j (by omega) hc
      rw [honly hm', hval j (by omega) hc, swapped_at _ _ _ _ (by omega), if_pos (by rw [← hlast (by omega)]; exact hj)] at hval'
      exact hval'
    · intro h
      refine ⟨n + 1 + 0, _, hwork, fun j hj hc => ?_⟩
      have hlt := x.len.isLt
      rw [hval j hj hc, swapped_at _ _ _ _ (by omega)]
      split_ifs with h1
      · exact h s rfl j (by rw [hlast (by omega)]; exact h1) hc
      · rfl

/-- Memory that is all zero but for one byte. -/
def oneAt (a : Addr) : Mem := fun x => if x = a then 1#8 else 0#8

end Emlinux.Spi.Swap
