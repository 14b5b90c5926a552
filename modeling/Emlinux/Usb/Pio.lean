import Emlinux.Lib.Calls

/-!
# Programmed I/O of the USB device controller

Without DMA the interrupt routine of `usbd.c` moves the data of a request itself, between `rq->data` and the packet
memory: `usbd_pio_evt` calls `usbd_pio` for each descriptor with a buffer to service. An endpoint has the buffer X, or with
ping-pong X and Y, which take turns; one call may service both.

The state is followed over a sequence of interrupts, with the hardware changing the packet memory in between.
Each call leaves the copies that it made in the log. They are what they should be (`Call.Right`), and the bytes of the
copies of a descriptor are together the request (`Stream`), exactly when no call services both buffers
(`pio_exact_iff`): the copy for the second buffer is given the length of the two.
-/

namespace Emlinux.Usbd

open Lib

abbrev Byte := BitVec 8

/-- Bytes from an address on. -/
abbrev Mem := Nat → Byte

/-- `usbd_rq_t`: `data` are the bytes from `rq->data` on. -/
structure Rq where
  data : Mem
  len : Nat
  actual : Nat
  actual_le : actual ≤ len

theorem Rq.len_nonneg (rq : Rq) : 0 ≤ rq.len := Nat.zero_le _

/-- `usbd_tc_t`, the fields that are used here. `tc->adr` is the number of the descriptor. -/
structure Tc where
  size : Nat
  x : Bool
  ptr : Nat
  rq : Option Rq

/-- A `memcpy` between the request from `ofs` on and a buffer, X or Y, from `addr` on. -/
structure Copy where
  td : Nat
  y : Bool
  ofs : Nat
  addr : Nat
  bytes : List Byte

/-- `n` bytes from `a` on are replaced. -/
def Mem.fill (m : Mem) (a n : Nat) (f : Nat → Byte) : Mem := fun k => if a ≤ k ∧ k < a + n then f (k - a) else m k

def Mem.bytes (m : Mem) (a n : Nat) : List Byte := (List.range n).map fun k => m (a + k)

/-- The bytes that a copy of length `n` moves: out of the request (`wr`), or out of the buffer. -/
def moved (wr : Bool) (data mem : Mem) (ofs addr n : Nat) : List Byte :=
  if wr then data.bytes ofs n else mem.bytes addr n

/-- `data` and the packet memory after the copy. -/
def memcpy (wr : Bool) (data mem : Mem) (ofs addr n : Nat) : Mem × Mem :=
  if wr then (data, mem.fill addr n fun k => data (ofs + k)) else (data.fill ofs n fun k => mem (addr + k), mem)

/-- The length of the first copy. -/
def firstLen (sz left : Nat) : Nat := if left > sz then sz else left

/-- `len2`; `bit` is the status of the next buffer. -/
def secondLen (sz left : Nat) (bit : Bool) : Nat :=
  if left > sz ∧ bit then (if left - sz > sz then sz else left - sz) else 0

theorem lens_le (sz left : Nat) (bit : Bool) : firstLen sz left + secondLen sz left bit ≤ left := by
  unfold firstLen secondLen
  split_ifs <;> omega

/-- `rq->actual += n` -/
def Rq.advance (rq : Rq) (data : Mem) (n : Nat) (h : rq.actual + n ≤ rq.len) : Rq :=
  { rq with data := data, actual := rq.actual + n, actual_le := h }

/-- What `usbd_pio` returns and leaves behind. -/
structure Pio where
  rt : Nat
  tc : Tc
  mem : Mem
  copies : List Copy

section pio

variable (i : Nat) (tc : Tc) (rq : Rq) (x y : BitVec 32) (mem : Mem)

/-- `wr` -/
def isWrite : Bool := decide (i % 2 = 1)

theorem Rq.advance_le (n : Nat) (h : n ≤ rq.len - rq.actual) : rq.actual + n ≤ rq.len := by
  have := rq.actual_le
  omega

/-- `usbd_pio` without ping-pong: only X is used. -/
def pioSingle : Pio :=
  let len := firstLen tc.size (rq.len - rq.actual)
  let m := memcpy (isWrite i) rq.data mem rq.actual tc.ptr len
  { rt := 1
    tc := { tc with rq := some (rq.advance m.1 len (rq.advance_le len
      (le_trans (Nat.le_add_right _ _) (lens_le tc.size (rq.len - rq.actual) false)))) }
    mem := m.2
    copies := [⟨i, false, rq.actual, tc.ptr, moved (isWrite i) rq.data mem rq.actual tc.ptr len⟩] }

/-- The status of the next buffer, which is X when this one is Y. -/
def nextBit : Bool := if tc.x then x.getLsbD i else y.getLsbD i

/-- `usbd_pio` with ping-pong; `bit` is the status of the next buffer. -/
def pioPingpong (bit : Bool) : Pio :=
  let left := rq.len - rq.actual
  let sz := tc.size
  -- the toggle comes first: it was at 1 when the buffer is Y
  let rbuf := if tc.x then tc.ptr + sz else tc.ptr
  let rbuf2 := if tc.x then tc.ptr else tc.ptr + sz
  let len := firstLen sz left
  let len2 := secondLen sz left bit
  let rt := if left > sz ∧ bit then 3 else if tc.x then 2 else 1
  let m := memcpy (isWrite i) rq.data mem rq.actual rbuf len
  let first : Copy := ⟨i, tc.x, rq.actual, rbuf, moved (isWrite i) rq.data mem rq.actual rbuf len⟩
  if len2 = 0 then
    { rt := rt
      tc := { tc with
        x := !tc.x
        rq := some (rq.advance m.1 len (rq.advance_le len (le_trans (Nat.le_add_right _ _) (lens_le sz left bit)))) }
      mem := m.2
      copies := [first] }
  else
    -- the length of the second copy is `len`, after `len += len2`
    let m2 := memcpy (isWrite i) m.1 m.2 (rq.actual + len) rbuf2 (len + len2)
    { rt := rt
      tc := { tc with rq := some (rq.advance m2.1 (len + len2) (rq.advance_le (len + len2) (lens_le sz left bit))) }
      mem := m2.2
      copies := [first,
        ⟨i, !tc.x, rq.actual + len, rbuf2, moved (isWrite i) m.1 m.2 (rq.actual + len) rbuf2 (len + len2)⟩] }

/-- `usbd_pio`, for the descriptor `i`. -/
def usbdPio (fpingpong : Bool) : Pio :=
  match tc.rq with
  | none => ⟨0, tc, mem, []⟩
  | some rq =>
    if rq.len - rq.actual = 0 then ⟨0, tc, mem, []⟩
    else if fpingpong then pioPingpong i tc rq mem (nextBit i tc x y) else pioSingle i tc rq mem

end pio

/-- The endpoints of the controller and its packet memory. -/
structure Link where
  fpingpong : Bool
  tc : Nat → Tc
  mem : Mem

/-- The status words that an interrupt finds, with what the hardware has left in the packet memory. -/
structure Status where
  xsta : BitVec 32
  ysta : BitVec 32
  mem : Mem

/-- `usbd_pio_evt` part way. -/
structure Evt where
  xsta : BitVec 32
  ysta : BitVec 32
  tc : Nat → Tc
  mem : Mem
  copies : List Copy

/-- `sta &= ~(1 << i)` if the bit of `rt` is not set. -/
def keepBit (sta : BitVec 32) (i : Nat) (serviced : Bool) : BitVec 32 := if serviced then sta else sta &&& ~~~(1#32 <<< i)

/-- The call of `usbd_pio` for the descriptor `i`. -/
def Evt.call (pp : Bool) (e : Evt) (i : Nat) : Pio := usbdPio i (e.tc i) e.xsta e.ysta e.mem pp

/-- One turn of the loop of `usbd_pio_evt`. -/
def Evt.turn (pp : Bool) (mask : BitVec 32) (e : Evt) (i : Nat) : Evt :=
  if mask.getLsbD i then
    let p := e.call pp i
    { xsta := keepBit e.xsta i (p.rt % 2 = 1)
      ysta := keepBit e.ysta i (p.rt / 2 % 2 = 1)
      tc := Function.update e.tc i p.tc
      mem := p.mem
      copies := e.copies ++ p.copies }
  else e

/-- `usbd_pio_evt` before the turn of the descriptor `n`. -/
def Link.upto (s : Link) (op : Status) : Nat → Evt
  | 0 => ⟨op.xsta, op.ysta, s.tc, op.mem, []⟩
  | n + 1 => (s.upto op n).turn s.fpingpong (op.xsta ||| op.ysta) n

/-- `usbd_pio_evt`: the values written to `xfill` and `yfill`, where nothing is written for 0. -/
def usbdPioEvt (op : Status) : Prog Empty Link Copy (BitVec 32 × BitVec 32) := fun s =>
  let e := s.upto op 32
  ⟨.ok (e.xsta, e.ysta), ⟨s.fpingpong, e.tc, e.mem⟩, e.copies⟩

/-! ## What is expected of a call -/

/-- The start of a buffer. -/
def Tc.buf (tc : Tc) (y : Bool) : Nat := if y then tc.ptr + tc.size else tc.ptr

/-- The copies follow each other in the request. -/
def Consecutive : Nat → List Copy → Prop
  | _, [] => True
  | a, c :: l => c.ofs = a ∧ Consecutive (a + c.bytes.length) l

/-- A call of `usbd_pio` for a loaded request: each copy stays in its buffer, and they move the next bytes of the request
and nothing else. -/
structure Exact (i : Nat) (tc : Tc) (rq : Rq) (mem : Mem) (p : Pio) : Prop where
  window : ∀ c ∈ p.copies, c.bytes.length ≤ tc.size ∧ c.addr = tc.buf c.y
  consecutive : Consecutive rq.actual p.copies
  advance : ∃ rq', p.tc.rq = some rq' ∧ rq'.len = rq.len ∧ rq'.actual = rq.actual + (p.copies.flatMap (·.bytes)).length ∧
    p.copies.flatMap (·.bytes) = rq'.data.bytes rq.actual (rq'.actual - rq.actual) ∧
    (∀ k, k < rq.actual ∨ rq'.actual ≤ k → rq'.data k = rq.data k) ∧ (isWrite i = true → rq'.data = rq.data)
  written : isWrite i = true → ∀ c ∈ p.copies, p.mem.bytes c.addr c.bytes.length = c.bytes
  read : isWrite i = false → p.mem = mem ∧ ∀ c ∈ p.copies, mem.bytes c.addr c.bytes.length = c.bytes
  untouched : ∀ a, (∀ c ∈ p.copies, a < c.addr ∨ c.addr + c.bytes.length ≤ a) → p.mem a = mem a

/-- Every call of `usbd_pio` is exact, and buffers are signalled only if their bit was set and they were serviced. -/
structure Right (s : Link) (op : Status) : Prop where
  exact : ∀ i < 32, (op.xsta ||| op.ysta).getLsbD i = true → ∀ rq, (s.tc i).rq = some rq →
    Exact i (s.tc i) rq (s.upto op i).mem ((s.upto op i).call s.fpingpong i)
  xfill : ∀ i < 32, (s.upto op 32).xsta.getLsbD i = true →
    op.xsta.getLsbD i = true ∧ ∃ c ∈ (s.upto op 32).copies, c.td = i ∧ c.y = false
  yfill : ∀ i < 32, (s.upto op 32).ysta.getLsbD i = true →
    op.ysta.getLsbD i = true ∧ ∃ c ∈ (s.upto op 32).copies, c.td = i ∧ c.y = true

/-- The first buffer does not take all that is left, and the second one is ready too. -/
def Both (s : Link) (op : Status) (i : Nat) : Prop :=
  s.fpingpong = true ∧ ∃ rq, (s.tc i).rq = some rq ∧ (s.tc i).size < rq.len - rq.actual ∧
    nextBit i (s.tc i) op.xsta op.ysta = true

/-- No descriptor has both of its buffers serviced. -/
def Single (s : Link) (op : Status) : Prop := ∀ i < 32, ¬ Both s op i

/-- The requests as `usbd_ep_io` loads them. -/
def loaded (pp : Bool) (tcs : Nat → Tc) (mem : Mem) : Link :=
  ⟨pp, fun i => { tcs i with rq := (tcs i).rq.map fun rq => { rq with actual := 0, actual_le := rq.len_nonneg } }, mem⟩

/-- The buffers of `n` copies, from the toggle `x` on. -/
def turns (pp : Bool) : Bool → Nat → List Bool
  | _, 0 => []
  | x, n + 1 => (pp && x) :: turns pp (!x) n

/-- The copies of a descriptor. -/
def ofTd (l : List Copy) (i : Nat) : List Copy := l.filter fun c => c.td = i

/-- The copies of descriptor `i` so far take turns between its buffers and are the bytes of the request up to `actual`; `tc` is the
descriptor at the start. -/
def Stream (pp : Bool) (tc : Tc) (i : Nat) (l : List Copy) (tc' : Tc) : Prop :=
  ∀ rq, tc.rq = some rq → ∃ rq', tc'.rq = some rq' ∧ rq'.len = rq.len ∧
    (ofTd l i).flatMap (·.bytes) = rq'.data.bytes 0 rq'.actual ∧ (isWrite i = true → rq'.data = rq.data) ∧
    (∀ k, rq'.actual ≤ k → rq'.data k = rq.data k) ∧ (ofTd l i).map (·.y) = turns pp tc.x (ofTd l i).length

/-! ## One call of `usbd_pio` -/

section mem

variable (m : Mem) (a n : Nat) (f : Nat → Byte)

theorem Mem.bytes_length : (m.bytes a n).length = n := by
  rw [Mem.bytes, List.length_map, List.length_range]

theorem Mem.fill_bytes : (m.fill a n f).bytes a n = (List.range n).map f := by
  apply List.map_congr_left
  intro k hk
  rw [List.mem_range] at hk
  show (if a ≤ a + k ∧ a + k < a + n then f (a + k - a) else m (a + k)) = f k
  rw [if_pos ⟨Nat.le_add_right a k, Nat.add_lt_add_left hk a⟩, Nat.add_sub_cancel_left]

theorem Mem.fill_apart {k : Nat} (hk : k < a ∨ a + n ≤ k) : m.fill a n f k = m k := by
  apply if_neg
  omega

theorem Mem.bytes_add (b c : Nat) : m.bytes a (b + c) = m.bytes a b ++ m.bytes (a + b) c := by
  unfold Mem.bytes
  rw [List.range_add, List.map_append, List.map_map]
  apply congrArg
  apply List.map_congr_left
  intro k _
  show m (a + (b + k)) = m (a + b + k)
  rw [Nat.add_assoc]

theorem Mem.bytes_congr {m' : Mem} (h : ∀ k, a ≤ k → k < a + n → m' k = m k) : m'.bytes a n = m.bytes a n := by
  apply List.map_congr_left
  intro k hk
  rw [List.mem_range] at hk
  exact h (a + k) (Nat.le_add_right a k) (Nat.add_lt_add_left hk a)

end mem

theorem moved_length (wr : Bool) (data mem : Mem) (ofs addr n : Nat) : (moved wr data mem ofs addr n).length = n := by
  unfold moved
  split_ifs
  · exact data.bytes_length ofs n
  · exact mem.bytes_length addr n

theorem firstLen_le (sz left : Nat) : firstLen sz left ≤ sz := by
  unfold firstLen
  split_ifs <;> omega

section call

variable {i : Nat} {tc tc' : Tc} {rq : Rq} {x y : BitVec 32} {mem : Mem} {pp bit : Bool}

/-- A call that makes one copy, to the buffer `b`, is exact. -/
theorem exact_of_copy {b : Bool} {n rt : Nat} (hn : n ≤ tc.size) (h : rq.actual + n ≤ rq.len)
    (htc : tc'.rq = some (rq.advance (memcpy (isWrite i) rq.data mem rq.actual (tc.buf b) n).1 n h)) :
    Exact i tc rq mem ⟨rt, tc', (memcpy (isWrite i) rq.data mem rq.actual (tc.buf b) n).2,
      [⟨i, b, rq.actual, tc.buf b, moved (isWrite i) rq.data mem rq.actual (tc.buf b) n⟩]⟩ := by
  have hlen := moved_length (isWrite i) rq.data mem rq.actual (tc.buf b) n
  constructor
  · intro c hc
    obtain rfl := List.mem_singleton.mp hc
    exact ⟨hlen.le.trans hn, rfl⟩
  · exact ⟨rfl, trivial⟩
  · refine ⟨_, htc, rfl, ?_, ?_, ?_, ?_⟩
    · show rq.actual + n = rq.actual + _
      rw [List.flatMap_singleton, hlen]
    · rw [List.flatMap_singleton]
      show moved _ _ _ _ _ _ = Mem.bytes _ _ (rq.actual + n - rq.actual)
      rw [Nat.add_sub_cancel_left]
      cases hw : isWrite i with
      | true => rfl
      | false => exact (Mem.fill_bytes _ _ _ _).symm
    · intro k hk
      cases hw : isWrite i with
      | true => rfl
      | false => exact Mem.fill_apart rq.data rq.actual n (fun k => mem (tc.buf b + k)) hk
    · intro hw
      show (memcpy (isWrite i) _ _ _ _ _).1 = _
      rw [hw]
      rfl
  · intro hw c hc
    obtain rfl := List.mem_singleton.mp hc
    dsimp only
    rw [hlen, hw]
    exact Mem.fill_bytes mem (tc.buf b) n fun k => rq.data (rq.actual + k)
  · intro hw
    rw [hw]
    refine ⟨rfl, fun c hc => ?_⟩
    obtain rfl := List.mem_singleton.mp hc
    dsimp only
    rw [moved_length]
    rfl
  · intro a ha
    have hout := ha _ (List.mem_singleton_self _)
    dsimp only at hout
    rw [hlen] at hout
    cases hw : isWrite i with
    | true => exact Mem.fill_apart mem (tc.buf b) n (fun k => rq.data (rq.actual + k)) hout
    | false => rfl

theorem exact_pioSingle : Exact i tc rq mem (pioSingle i tc rq mem) :=
  exact_of_copy (b := false) (firstLen_le tc.size (rq.len - rq.actual)) _ rfl

variable (mem) in
/-- One buffer is serviced: the one that the toggle is before. -/
theorem pioPingpong_one (h : ¬ (tc.size < rq.len - rq.actual ∧ bit = true)) :
    (pioPingpong i tc rq mem bit).rt = (if tc.x then 2 else 1) ∧ (pioPingpong i tc rq mem bit).tc.x = !tc.x ∧
    (pioPingpong i tc rq mem bit).copies.map (·.y) = [tc.x] ∧ Exact i tc rq mem (pioPingpong i tc rq mem bit) := by
  have h2 : secondLen tc.size (rq.len - rq.actual) bit = 0 := if_neg h
  unfold pioPingpong
  dsimp only
  rw [if_pos h2, if_neg h]
  exact ⟨rfl, rfl, rfl, exact_of_copy (firstLen_le tc.size (rq.len - rq.actual)) _ rfl⟩

variable (mem) in
/-- Both buffers are to be serviced: the second copy is longer than its buffer. -/
theorem pioPingpong_both (h : tc.size < rq.len - rq.actual ∧ bit = true) :
    (pioPingpong i tc rq mem bit).rt = 3 ∧
    (0 < tc.size → ∃ c ∈ (pioPingpong i tc rq mem bit).copies, tc.size < c.bytes.length) ∧
    (tc.size = 0 → (pioPingpong i tc rq mem bit).copies.map (·.y) = [tc.x]) := by
  unfold pioPingpong
  dsimp only
  rw [if_pos h]
  have h2 : secondLen tc.size (rq.len - rq.actual) bit = 0 ↔ tc.size = 0 := by
    rw [secondLen, if_pos h]
    split_ifs <;> omega
  by_cases h0 : secondLen tc.size (rq.len - rq.actual) bit = 0
  · rw [if_pos h0]
    exact ⟨rfl, fun hsz => absurd (h2.mp h0) hsz.ne', fun _ => rfl⟩
  · rw [if_neg h0]
    refine ⟨rfl, fun hsz => ?_, fun hsz => absurd (h2.mpr hsz) h0⟩
    refine ⟨_, List.mem_cons_of_mem _ (List.mem_singleton.mpr rfl), ?_⟩
    dsimp only
    rw [moved_length, firstLen, if_pos h.1]
    omega

theorem pioPingpong_td (c : Copy) (hc : c ∈ (pioPingpong i tc rq mem bit).copies) : c.td = i := by
  unfold pioPingpong at hc
  dsimp only at hc
  by_cases h0 : secondLen tc.size (rq.len - rq.actual) bit = 0
  · rw [if_pos h0] at hc
    rw [List.mem_singleton.mp hc]
  · rw [if_neg h0] at hc
    rcases List.mem_cons.mp hc with rfl | hc
    · rfl
    · rw [List.mem_singleton.mp hc]

theorem usbdPio_td (c : Copy) (hc : c ∈ (usbdPio i tc x y mem pp).copies) : c.td = i := by
  unfold usbdPio at hc
  split at hc
  · cases hc
  · split_ifs at hc
    · cases hc
    · exact pioPingpong_td c hc
    · rw [List.mem_singleton.mp hc]

/-- Only the status of the next buffer is looked at. -/
theorem usbdPio_congr {x' y' : BitVec 32} (hx : x'.getLsbD i = x.getLsbD i) (hy : y'.getLsbD i = y.getLsbD i) :
    usbdPio i tc x' y' mem pp = usbdPio i tc x y mem pp := by
  have hbit : nextBit i tc x' y' = nextBit i tc x y := by
    unfold nextBit
    rw [hx, hy]
  unfold usbdPio
  rw [hbit]

/-- A request stays loaded. -/
theorem usbdPio_none : (usbdPio i tc x y mem pp).tc.rq = none ↔ tc.rq = none := by
  unfold usbdPio
  cases hrq : tc.rq with
  | none => exact iff_of_true hrq rfl
  | some rq =>
    dsimp only
    split_ifs
    · rw [hrq]
      exact iff_of_false nofun nofun
    · unfold pioPingpong
      dsimp only
      split_ifs <;> exact iff_of_false nofun nofun
    · exact iff_of_false nofun nofun

variable (mem) in
/-- A call that does not service both buffers has nothing to do, or services one. -/
theorem usbdPio_single (h : ¬ (pp = true ∧ ∃ rq, tc.rq = some rq ∧ tc.size < rq.len - rq.actual ∧ nextBit i tc x y = true)) :
    (usbdPio i tc x y mem pp = ⟨0, tc, mem, []⟩ ∨ (usbdPio i tc x y mem pp).rt = (if pp && tc.x then 2 else 1) ∧
      (usbdPio i tc x y mem pp).tc.x = (pp ^^ tc.x) ∧ (usbdPio i tc x y mem pp).copies.map (·.y) = [pp && tc.x]) ∧
    ∀ rq, tc.rq = some rq → Exact i tc rq mem (usbdPio i tc x y mem pp) := by
  unfold usbdPio
  cases hrq : tc.rq with
  | none => exact ⟨Or.inl rfl, fun rq hx => by cases hx⟩
  | some rq =>
    dsimp only
    by_cases h0 : rq.len - rq.actual = 0
    · rw [if_pos h0]
      refine ⟨Or.inl rfl, fun rq' hx => ?_⟩
      obtain rfl := Option.some.inj hx
      refine ⟨nofun, trivial, ?_, fun _ => nofun, fun _ => ⟨rfl, nofun⟩, fun a _ => rfl⟩
      refine ⟨rq, hrq, rfl, rfl, ?_, fun _ _ => rfl, fun _ => rfl⟩
      rw [Nat.sub_self]
      rfl
    · rw [if_neg h0]
      cases pp with
      | false =>
        refine ⟨Or.inr ⟨rfl, (Bool.false_xor _).symm, rfl⟩, fun rq' hx => ?_⟩
        obtain rfl := Option.some.inj hx
        exact exact_pioSingle
      | true =>
        have hone : ¬ (tc.size < rq.len - rq.actual ∧ nextBit i tc x y = true) := fun hb => h ⟨rfl, rq, hrq, hb⟩
        obtain ⟨hrt, hx, hy, hexact⟩ := pioPingpong_one mem hone
        rw [if_pos rfl]
        refine ⟨Or.inr ⟨hrt, hx.trans (Bool.true_xor _).symm, hy⟩, fun rq' hx => ?_⟩
        obtain rfl := Option.some.inj hx
        exact hexact

end call

/-! ## The turns of `usbd_pio_evt` -/

section upto

variable (s : Link) (op : Status)

theorem keepBit_getLsbD (sta : BitVec 32) (b : Bool) {i : Nat} (hi : i < 32) {j : Nat} (hj : j < 32) :
    (keepBit sta i b).getLsbD j = (sta.getLsbD j && (decide (j ≠ i) || b)) := by
  unfold keepBit
  by_cases hji : j = i
  · subst hji
    cases b <;> simp [hi]
  · cases b <;> simp [hji, hj]
    omega

/-- The call for descriptor `i`, with the status words that the interrupt found. -/
def Link.pio (i : Nat) : Pio := usbdPio i (s.tc i) op.xsta op.ysta (s.upto op i).mem s.fpingpong

/-- The turn of another descriptor. -/
theorem turn_other {n j : Nat} (hn : n < 32) (hj : j < 32) (hne : j ≠ n) :
    (s.upto op (n + 1)).tc j = (s.upto op n).tc j ∧ (s.upto op (n + 1)).xsta.getLsbD j = (s.upto op n).xsta.getLsbD j ∧
    (s.upto op (n + 1)).ysta.getLsbD j = (s.upto op n).ysta.getLsbD j ∧
    ofTd (s.upto op (n + 1)).copies j = ofTd (s.upto op n).copies j := by
  rw [Link.upto, Evt.turn]
  split_ifs
  · dsimp only
    refine ⟨Function.update_of_ne hne _ _, ?_, ?_, ?_⟩
    · rw [keepBit_getLsbD _ _ hn hj, decide_eq_true hne, Bool.true_or, Bool.and_true]
    · rw [keepBit_getLsbD _ _ hn hj, decide_eq_true hne, Bool.true_or, Bool.and_true]
    · have hnone : ofTd ((s.upto op n).call s.fpingpong n).copies j = [] := by
        rw [ofTd, List.filter_eq_nil_iff]
        intro c hmem hx
        have htd := usbdPio_td c hmem
        rw [decide_eq_true_eq] at hx
        omega
      rw [ofTd, List.filter_append]
      show _ ++ ofTd _ j = _
      rw [hnone, List.append_nil]
      rfl
  · exact ⟨rfl, rfl, rfl, rfl⟩

/-- Before its turn a descriptor is as it was. -/
theorem upto_before {j : Nat} (hj : j < 32) {n : Nat} (hn : n ≤ j) : (s.upto op n).tc j = s.tc j ∧
    (s.upto op n).xsta.getLsbD j = op.xsta.getLsbD j ∧ (s.upto op n).ysta.getLsbD j = op.ysta.getLsbD j ∧
    ofTd (s.upto op n).copies j = [] := by
  induction n with
  | zero => exact ⟨rfl, rfl, rfl, rfl⟩
  | succ n ih =>
    obtain ⟨htc, hx, hy, hc⟩ := ih (Nat.le_of_succ_le hn)
    obtain ⟨htc', hx', hy', hc'⟩ := turn_other s op (n := n) (by omega) hj (by omega)
    exact ⟨htc'.trans htc, hx'.trans hx, hy'.trans hy, hc'.trans hc⟩

theorem upto_none (j n : Nat) : ((s.upto op n).tc j).rq = none ↔ (s.tc j).rq = none := by
  induction n with
  | zero => exact Iff.rfl
  | succ n ih =>
    rw [Link.upto, Evt.turn]
    split_ifs
    · dsimp only
      by_cases hj : j = n
      · subst hj
        rw [Function.update_self]
        exact usbdPio_none.trans ih
      · rw [Function.update_of_ne hj]
        exact ih
    · exact ih

theorem upto_call {i : Nat} (hi : i < 32) : (s.upto op i).call s.fpingpong i = s.pio op i := by
  obtain ⟨htc, hx, hy, -⟩ := upto_before s op hi (le_refl i)
  rw [Evt.call, htc, usbdPio_congr hx hy, Link.pio]

/-- What its turn does to a descriptor. -/
theorem turn_self {j : Nat} (hj : j < 32) :
    (s.upto op (j + 1)).tc j = (if (op.xsta ||| op.ysta).getLsbD j then (s.pio op j).tc else s.tc j) ∧
    (s.upto op (j + 1)).xsta.getLsbD j = (op.xsta.getLsbD j && decide ((s.pio op j).rt % 2 = 1)) ∧
    (s.upto op (j + 1)).ysta.getLsbD j = (op.ysta.getLsbD j && decide ((s.pio op j).rt / 2 % 2 = 1)) ∧
    ofTd (s.upto op (j + 1)).copies j = if (op.xsta ||| op.ysta).getLsbD j then (s.pio op j).copies else [] := by
  obtain ⟨htc, hx, hy, hc⟩ := upto_before s op hj (le_refl j)
  rw [Link.upto, Evt.turn]
  by_cases hm : (op.xsta ||| op.ysta).getLsbD j = true
  · rw [if_pos hm, if_pos hm, if_pos hm]
    dsimp only
    rw [upto_call s op hj, Function.update_self, keepBit_getLsbD _ _ hj hj, keepBit_getLsbD _ _ hj hj, hx, hy]
    refine ⟨rfl, by simp, by simp, ?_⟩
    rw [ofTd, List.filter_append]
    show ofTd _ j ++ _ = _
    rw [hc, List.nil_append, List.filter_eq_self]
    exact fun c hmem => decide_eq_true (usbdPio_td c hmem)
  · rw [if_neg hm, if_neg hm, if_neg hm]
    rw [BitVec.getLsbD_or, Bool.not_eq_true, Bool.or_eq_false_iff] at hm
    rw [hx, hy, hm.1, hm.2]
    exact ⟨htc, rfl, rfl, hc⟩

/-- After its turn a descriptor is what its call has left, if there was one. -/
theorem upto_after {j : Nat} (hj : j < 32) {n : Nat} (hjn : j < n) (hn : n ≤ 32) :
    (s.upto op n).tc j = (if (op.xsta ||| op.ysta).getLsbD j then (s.pio op j).tc else s.tc j) ∧
    (s.upto op n).xsta.getLsbD j = (op.xsta.getLsbD j && decide ((s.pio op j).rt % 2 = 1)) ∧
    (s.upto op n).ysta.getLsbD j = (op.ysta.getLsbD j && decide ((s.pio op j).rt / 2 % 2 = 1)) ∧
    ofTd (s.upto op n).copies j = if (op.xsta ||| op.ysta).getLsbD j then (s.pio op j).copies else [] := by
  induction n with
  | zero => exact absurd hjn (Nat.not_lt_zero j)
  | succ n ih =>
    rcases Nat.eq_or_lt_of_le (Nat.le_of_lt_succ hjn) with rfl | hlt
    · exact turn_self s op hj
    · obtain ⟨htc, hx, hy, hc⟩ := ih hlt (Nat.le_of_succ_le hn)
      obtain ⟨htc', hx', hy', hc'⟩ := turn_other s op (n := n) hn hj (by omega)
      exact ⟨htc'.trans htc, hx'.trans hx, hy'.trans hy, hc'.trans hc⟩

/-! ## Calls that service one buffer -/

theorem nextBit_mask {tc : Tc} {i : Nat} (h : nextBit i tc op.xsta op.ysta = true) :
    (op.xsta ||| op.ysta).getLsbD i = true := by
  unfold nextBit at h
  rw [BitVec.getLsbD_or, Bool.or_eq_true]
  split_ifs at h
  · exact Or.inl h
  · exact Or.inr h

theorem mem_ofTd {l : List Copy} {i : Nat} {c : Copy} : c ∈ ofTd l i ↔ c ∈ l ∧ c.td = i := by
  rw [ofTd, List.mem_filter, decide_eq_true_eq]

variable {s op}

/-- A buffer that a call services one of is signalled only if it is that one. -/
theorem fill_of_single {i : Nat} (hi : i < 32) (hb : ¬ Both s op i) {y : Bool}
    (hm : (op.xsta ||| op.ysta).getLsbD i = true) (hrt : (if y then (s.pio op i).rt / 2 else (s.pio op i).rt) % 2 = 1) :
    ∃ c ∈ (s.upto op 32).copies, c.td = i ∧ c.y = y := by
  obtain ⟨-, -, -, hc⟩ := upto_after s op hi hi (le_refl 32)
  rw [if_pos hm] at hc
  have hone := (usbdPio_single (s.upto op i).mem hb).1
  have hp : s.pio op i = usbdPio i (s.tc i) op.xsta op.ysta (s.upto op i).mem s.fpingpong := rfl
  rw [← hp] at hone
  rcases hone with hidle | ⟨hr, -, hy⟩
  · have hzero : (s.pio op i).rt = 0 := by rw [hidle]
    rw [hzero] at hrt
    cases y <;> exact absurd hrt (by decide)
  · have hyy : (s.fpingpong && (s.tc i).x) = y := by
      rw [hr] at hrt
      cases y <;> cases hpx : (s.fpingpong && (s.tc i).x) <;> rw [hpx] at hrt <;> first | rfl | cases hrt
    have hmem : y ∈ (s.pio op i).copies.map (·.y) := by
      rw [hy, hyy]
      exact List.mem_singleton_self y
    obtain ⟨c, hcm, hcy⟩ := List.mem_map.mp hmem
    rw [← hc, mem_ofTd] at hcm
    exact ⟨c, hcm.1, hcm.2, hcy⟩

theorem Single.right (h : Single s op) : Right s op where
  exact := by
    intro i hi hm rq hrq
    rw [upto_call s op hi]
    exact (usbdPio_single _ (h i hi)).2 rq hrq
  xfill := by
    intro i hi hx
    obtain ⟨-, hxs, -, -⟩ := upto_after s op hi hi (le_refl 32)
    rw [hxs, Bool.and_eq_true, decide_eq_true_eq] at hx
    refine ⟨hx.1, fill_of_single (y := false) hi (h i hi) ?_ hx.2⟩
    rw [BitVec.getLsbD_or, hx.1, Bool.true_or]
  yfill := by
    intro i hi hy
    obtain ⟨-, -, hys, -⟩ := upto_after s op hi hi (le_refl 32)
    rw [hys, Bool.and_eq_true, decide_eq_true_eq] at hy
    refine ⟨hy.1, fill_of_single (y := true) hi (h i hi) ?_ hy.2⟩
    rw [BitVec.getLsbD_or, hy.1, Bool.or_true]

variable (op) in
theorem pio_of_both {i : Nat} {rq : Rq} (hpp : s.fpingpong = true) (hrq : (s.tc i).rq = some rq)
    (hlt : (s.tc i).size < rq.len - rq.actual) : s.pio op i =
      pioPingpong i (s.tc i) rq (s.upto op i).mem (nextBit i (s.tc i) op.xsta op.ysta) := by
  unfold Link.pio usbdPio
  rw [hrq]
  dsimp only
  rw [if_neg (by omega), if_pos hpp]

theorem Right.single (h : Right s op) : Single s op := by
  rintro i hi ⟨hpp, rq, hrq, hlt, hbit⟩
  have hm := nextBit_mask op hbit
  have hp := pio_of_both op hpp hrq hlt
  obtain ⟨hrt, hlong, hnone⟩ := pioPingpong_both (i := i) (s.upto op i).mem ⟨hlt, hbit⟩
  rw [← hp] at hrt hlong hnone
  rcases Nat.eq_zero_or_pos (s.tc i).size with hsz | hsz
  · -- an empty buffer: the second one is signalled and not serviced
    obtain ⟨-, hxs, hys, hc⟩ := upto_after s op hi hi (le_refl 32)
    rw [if_pos hm] at hc
    have hy := hnone hsz
    have hother : ∃ c ∈ (s.upto op 32).copies, c.td = i ∧ c.y = !(s.tc i).x := by
      unfold nextBit at hbit
      split_ifs at hbit with hx
      · rw [hx]
        apply fun hsig => (h.xfill i hi hsig).2
        rw [hxs, hbit, hrt]
        rfl
      · rw [Bool.not_eq_true] at hx
        rw [hx]
        apply fun hsig => (h.yfill i hi hsig).2
        rw [hys, hbit, hrt]
        rfl
    obtain ⟨c, hcm, hctd, hcy⟩ := hother
    have hmem : c.y ∈ (s.pio op i).copies.map (·.y) := by
      rw [← hc]
      exact List.mem_map_of_mem (mem_ofTd.mpr ⟨hcm, hctd⟩)
    rw [hy, hcy, List.mem_singleton] at hmem
    cases hx : (s.tc i).x <;> rw [hx] at hmem <;> cases hmem
  · obtain ⟨c, hcm, hlen⟩ := hlong hsz
    have hexact := h.exact i hi hm rq hrq
    rw [upto_call s op hi] at hexact
    exact absurd (hexact.window c hcm).1 (Nat.not_le_of_lt hlen)

end upto

/-! ## Runs -/

section runs

variable {pp : Bool} {tc : Tc} {i : Nat} {l : List Copy} {s : Link} {op : Status}

theorem turns_succ (pp x : Bool) (n : Nat) : turns pp x (n + 1) = turns pp x n ++ [pp && (not^[n] x)] := by
  induction n generalizing x with
  | zero => rfl
  | succ n ih =>
    show (pp && x) :: turns pp (!x) (n + 1) = _
    rw [ih]
    rfl

/-- The copies of a descriptor, and where its toggle is. -/
def Going (pp : Bool) (tc : Tc) (i : Nat) (l : List Copy) (tc' : Tc) : Prop :=
  Stream pp tc i l tc' ∧ tc'.x = not^[if pp then (ofTd l i).length else 0] tc.x

theorem ofTd_append (l l' : List Copy) : ofTd (l ++ l') i = ofTd l i ++ ofTd l' i := List.filter_append ..

/-- One call continues the stream of a descriptor. -/
theorem Going.step (hi : i < 32) (hs : Single s op) (h : Going s.fpingpong tc i l (s.tc i)) :
    Going s.fpingpong tc i (l ++ (s.upto op 32).copies) ((s.upto op 32).tc i) := by
  obtain ⟨htc, -, -, hc⟩ := upto_after s op hi hi (le_refl 32)
  obtain ⟨hstream, hx⟩ := h
  by_cases hm : (op.xsta ||| op.ysta).getLsbD i = true
  · rw [if_pos hm] at htc hc
    obtain ⟨hone, hexact⟩ := usbdPio_single (s.upto op i).mem (hs i hi)
    have hp : usbdPio i (s.tc i) op.xsta op.ysta (s.upto op i).mem s.fpingpong = s.pio op i := rfl
    rw [hp] at hone hexact
    rw [Going, Stream, ofTd_append, hc, htc]
    constructor
    · intro rq hrq
      obtain ⟨rq₁, hrq₁, hlen₁, hbytes₁, hwr₁, hrest₁, hturns₁⟩ := hstream rq hrq
      obtain ⟨rq₂, hrq₂, hlen₂, hact₂, hbytes₂, hrest₂, hwr₂⟩ := (hexact rq₁ hrq₁).advance
      have hle : rq₁.actual ≤ rq₂.actual := by omega
      refine ⟨rq₂, hrq₂, hlen₂.trans hlen₁, ?_, fun hw => (hwr₂ hw).trans (hwr₁ hw), fun k hk => ?_, ?_⟩
      · rw [List.flatMap_append, hbytes₁, hbytes₂]
        have hsplit : rq₂.actual = rq₁.actual + (rq₂.actual - rq₁.actual) := by omega
        conv_rhs => rw [hsplit, Mem.bytes_add, Nat.zero_add]
        apply congrArg (· ++ _)
        exact (Mem.bytes_congr _ 0 rq₁.actual fun k _ hk => hrest₂ k (Or.inl (by omega))).symm
      · rw [hrest₂ k (Or.inr hk), hrest₁ k (hle.trans hk)]
      · rcases hone with hidle | ⟨-, -, hy⟩
        · rw [hidle, List.append_nil]
          exact hturns₁
        · have hlen : (s.pio op i).copies.length = 1 := by
            rw [← List.length_map (·.y), hy]
            rfl
          rw [List.map_append, hturns₁, hy, List.length_append, hlen, turns_succ]
          cases hpp : s.fpingpong with
          | false => rfl
          | true => rw [hx, hpp, if_pos rfl]
    · rcases hone with hidle | ⟨-, hxx, hy⟩
      · rw [hidle, List.append_nil]
        exact hx
      · have hlen : (s.pio op i).copies.length = 1 := by
          rw [← List.length_map (·.y), hy]
          rfl
        rw [hxx, List.length_append, hlen, hx]
        cases s.fpingpong with
        | false => exact Bool.false_xor _
        | true => rw [if_pos rfl, if_pos rfl, Function.iterate_succ_apply', Bool.true_xor]
  · rw [if_neg hm] at htc hc
    rw [Going, Stream, ofTd_append, hc, List.append_nil, htc]
    exact ⟨hstream, hx⟩

theorem Going.run (hi : i < 32) (ops : List Status) : ∀ (s : Link) (l : List Copy), Along usbdPioEvt Single ops s →
    Going s.fpingpong tc i l (s.tc i) →
    Going s.fpingpong tc i (l ++ trace usbdPioEvt ops s) ((after usbdPioEvt ops s).tc i) := by
  induction ops with
  | nil =>
    intro s l _ h
    rw [trace, List.append_nil]
    exact h
  | cons op ops ih =>
    intro s l hal h
    have hnext := ih (usbdPioEvt op s).st (l ++ (s.upto op 32).copies) hal.2 (h.step hi hal.1)
    rw [List.append_assoc] at hnext
    exact hnext

theorem Going.start (pp : Bool) (tcs : Nat → Tc) (mem : Mem) (i : Nat) :
    Going pp ((loaded pp tcs mem).tc i) i [] ((loaded pp tcs mem).tc i) := by
  refine ⟨fun rq hrq => ⟨rq, hrq, rfl, ?_, fun _ => rfl, fun _ _ => rfl, rfl⟩, ?_⟩
  · obtain ⟨rq', -, rfl⟩ := Option.map_eq_some_iff.mp hrq
    rfl
  · cases pp <;> rfl

end runs

/-- Over every sequence of interrupts the calls are right and the copies of each descriptor are its request, byte for byte and with the buffers in
turn, exactly when no call services both buffers of a descriptor. -/
theorem pio_exact_iff (pp : Bool) (tcs : Nat → Tc) (mem : Mem) (ops : List Status) :
    (Along usbdPioEvt Right ops (loaded pp tcs mem) ∧ ∀ i < 32, Stream pp ((loaded pp tcs mem).tc i) i
      (trace usbdPioEvt ops (loaded pp tcs mem)) ((after usbdPioEvt ops (loaded pp tcs mem)).tc i)) ↔
    Along usbdPioEvt Single ops (loaded pp tcs mem) := by
  have hcalls : Along usbdPioEvt Right ops (loaded pp tcs mem) ↔ Along usbdPioEvt Single ops (loaded pp tcs mem) :=
    Along.congr (fun _ _ => ⟨Right.single, Single.right⟩) ops (loaded pp tcs mem)
  constructor
  · exact fun h => hcalls.mp h.1
  · intro h
    refine ⟨hcalls.mpr h, fun i hi => ?_⟩
    exact (Going.run hi ops (loaded pp tcs mem) [] h (Going.start pp tcs mem i)).1

/-! ## Both buffers -/

/-- A bulk IN endpoint with 128 bytes to send from two buffers of 64. -/
def twoPackets : Link :=
  loaded true (fun i => ⟨64, false, 128 * i, if i = 3 then some ⟨fun _ => 0, 128, 0, by decide⟩ else none⟩) fun _ => 0

/-- The copy to Y has 128 bytes and starts in the middle of the request. -/
theorem second_copy_overruns :
    (usbdPioEvt ⟨8#32, 8#32, fun _ => 0⟩ twoPackets).log.map (fun p => (p.y, p.ofs, p.bytes.length))
      = [(false, 0, 64), (true, 64, 128)] ∧ ¬ Right twoPackets ⟨8#32, 8#32, fun _ => 0⟩ := by
  refine ⟨by decide +kernel, fun h => h.single 3 (by decide) ?_⟩
  exact ⟨rfl, _, rfl, by decide, by decide⟩

end Emlinux.Usbd
