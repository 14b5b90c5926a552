import Emlinux.Lib.Splice
import Emlinux.Lib.Word
import Emlinux.Nfc.Ecc

/-!
# The buffer of the controller

The buffer takes accesses of 32 bits only. `nfc_write` and `nfc_read` copy a head up to the next word, whole words, and a tail; a word that
is written in part is read first. Seen byte by byte they write a list over a range of the buffer, and read a range.

* `Written`, `ReadOf`: a transfer by bytes, and the words that it accesses. They compose along the buffer.
* `buffer_refined`: the transfers, and the streams of the driver over them.
-/

namespace Emlinux.Nfc

open Lib

abbrev Byte := BitVec 8

/-- An access of 32 bits. -/
inductive Access where
  | rd (word : Nat)
  | wr (word : Nat)
deriving DecidableEq, Repr

def Access.word : Access → Nat
  | .rd word => word
  | .wr word => word

/-- The buffer, and the accesses to it, the last one first. -/
structure Dev where
  buf : Nat → Word
  log : List Access

/-- `sizeof(BUF)`: 1088 words. -/
def bufSize : Nat := 4352

def ioRd32 (d : Dev) (word : Nat) : Word × Dev := (d.buf word, { d with log := .rd word :: d.log })

def ioWr32 (d : Dev) (word : Nat) (v : Word) : Dev := { buf := Function.update d.buf word v, log := .wr word :: d.log }

/-- `memcpy` into a word at `ofs`. -/
def patch (w : Word) (ofs : Nat) (src : List Byte) : Word := word32 (splice (byte w) ofs src)

/-- Where a transfer to the buffer is: the address in memory, the word of the buffer, and the data that is left. -/
structure Cursor where
  addr : Nat
  ibuf : Nat
  buf : List Byte
  dev : Dev

/-- `nfc_write`, up to the first whole word. -/
def writeHead (c : Cursor) (ofs : Nat) : Cursor :=
  let ilen := min (4 - ofs) c.buf.length
  let (w, dev) := ioRd32 c.dev c.ibuf
  let dev := ioWr32 dev c.ibuf (patch w ofs (c.buf.take ilen))
  ⟨c.addr + ilen, c.ibuf + 1, c.buf.drop ilen, dev⟩

/-- `memcpy` of whole words to the buffer: with both ends aligned it moves them as such. -/
def writeBurst (n : Nat) (c : Cursor) : Cursor :=
  ⟨c.addr + 4 * n, c.ibuf + n, c.buf.drop (4 * n),
    { buf := fun w => if c.ibuf ≤ w ∧ w < c.ibuf + n then word32 fun i => c.buf.getD (4 * (w - c.ibuf) + i) 0#8 else c.dev.buf w
      log := ((List.range' c.ibuf n).map .wr).reverse ++ c.dev.log }⟩

/-- The loop for a source that is not aligned, `n` words. -/
def writeLoop : Nat → Cursor → Cursor
  | 0, c => c
  | n + 1, c => writeLoop n ⟨c.addr + 4, c.ibuf + 1, c.buf.drop 4, ioWr32 c.dev c.ibuf (word32 fun i => c.buf.getD i 0#8)⟩

/-- `nfc_write` from the first whole word on. -/
def writeRest (c : Cursor) : Dev :=
  let c :=
    if 4 ≤ c.buf.length then
      if c.addr % 4 = 0 then writeBurst (c.buf.length / 4) c else writeLoop (c.buf.length / 4) c
    else c
  if c.buf.length ≠ 0 then
    let (w, dev) := ioRd32 c.dev c.ibuf
    ioWr32 dev c.ibuf (patch w 0 c.buf)
  else c.dev

/-- `nfc_write` of `buf`, which lies at `addr`. -/
def nfcWrite (addr : Nat) (buf : List Byte) (ofs : Nat) (dev : Dev) : Dev :=
  let c : Cursor := ⟨addr, ofs / 4, buf, dev⟩
  writeRest (if ofs % 4 ≠ 0 then writeHead c (ofs % 4) else c)

/-- `memcpy` of whole words from the buffer. -/
def readBurst (n ibuf : Nat) (dev : Dev) : List Byte × Dev :=
  ((List.range' ibuf n).flatMap fun w => slice (byte (dev.buf w)) 0 4,
    { dev with log := ((List.range' ibuf n).map .rd).reverse ++ dev.log })

/-- The loop for a destination that is not aligned, `n` words. -/
def readLoop : Nat → Nat → Dev → List Byte × Dev
  | 0, _, dev => ([], dev)
  | n + 1, ibuf, dev =>
    let (w, dev) := ioRd32 dev ibuf
    let (buf, dev) := readLoop n (ibuf + 1) dev
    (slice (byte w) 0 4 ++ buf, dev)

/-- `nfc_read` from the first whole word on. -/
def readRest (addr len ibuf : Nat) (dev : Dev) : List Byte × Dev :=
  let (buf, dev) :=
    if 4 ≤ len then
      if addr % 4 = 0 then readBurst (len / 4) ibuf dev else readLoop (len / 4) ibuf dev
    else ([], dev)
  if len % 4 ≠ 0 then
    let (w, dev) := ioRd32 dev (ibuf + len / 4)
    (buf ++ slice (byte w) 0 (len % 4), dev)
  else (buf, dev)

/-- `nfc_read` of `len` bytes to `addr`. -/
def nfcRead (addr len ofs : Nat) (dev : Dev) : List Byte × Dev :=
  if ofs % 4 ≠ 0 then
    let ilen := min (4 - ofs % 4) len
    let (w, dev) := ioRd32 dev (ofs / 4)
    let (buf, dev) := readRest (addr + ilen) (len - ilen) (ofs / 4 + 1) dev
    (slice (byte w) (ofs % 4) ilen ++ buf, dev)
  else readRest addr len (ofs / 4) dev

/-! ## Transfers by bytes -/

/-- The byte of the buffer at `p`. -/
def Dev.byteAt (d : Dev) (p : Nat) : Byte := byte (d.buf (p / 4)) (p % 4)

/-- Word `w` reaches into the `n` bytes from `o` on; or `n` is 0, and `o` is within the word. -/
def Spans (o n w : Nat) : Prop := 4 * w < o + n ∧ o < 4 * w + 4

/-- From `d` to `d'` there were accesses to words that reach into the bytes. -/
def Accessed (o n : Nat) (d d' : Dev) : Prop := ∃ l, d'.log = l ++ d.log ∧ ∀ a ∈ l, Spans o n a.word

/-- The bytes `xs` were written at `o`. -/
structure Written (o : Nat) (xs : List Byte) (d d' : Dev) : Prop where
  bytes : d'.byteAt = splice d.byteAt o xs
  log : Accessed o xs.length d d'

/-- The `n` bytes at `o` were read. -/
structure ReadOf (o n : Nat) (d : Dev) (res : List Byte × Dev) : Prop where
  data : res.1 = slice d.byteAt o n
  buf : res.2.buf = d.buf
  log : Accessed o n d res.2

section Compose

variable {o n m : Nat} {xs ys : List Byte} {d d' d'' : Dev}

theorem Accessed.refl (o n : Nat) (d : Dev) : Accessed o n d d := ⟨[], rfl, fun _ ha => absurd ha List.not_mem_nil⟩

theorem Accessed.trans (h : Accessed o n d d') (h' : Accessed (o + n) m d' d'') : Accessed o (n + m) d d'' := by
  obtain ⟨l, hl, hs⟩ := h
  obtain ⟨l', hl', hs'⟩ := h'
  refine ⟨l' ++ l, by rw [hl', hl, List.append_assoc], fun a ha => ?_⟩
  unfold Spans at *
  rcases List.mem_append.mp ha with ha | ha
  · have h1 := hs' a ha
    omega
  · have h1 := hs a ha
    omega

theorem Written.refl (o : Nat) (d : Dev) : Written o [] d d := ⟨(splice_nil _ _).symm, Accessed.refl _ _ _⟩

theorem Written.trans (h : Written o xs d d') (h' : Written (o + xs.length) ys d' d'') : Written o (xs ++ ys) d d'' where
  bytes := by rw [h'.bytes, h.bytes, splice_append]
  log := by
    rw [List.length_append]
    exact h.log.trans h'.log

theorem ReadOf.trans (h : ReadOf o n d (xs, d')) (h' : ReadOf (o + n) m d' (ys, d'')) : ReadOf o (n + m) d (xs ++ ys, d'') where
  data := by
    have hsame : d'.byteAt = d.byteAt := by
      funext p
      unfold Dev.byteAt
      rw [h.buf]
    have h1 := h.data
    have h2 := h'.data
    dsimp only at h1 h2 ⊢
    rw [h1, h2, hsame, slice_append]
  buf := h'.buf.trans h.buf
  log := h.log.trans h'.log

end Compose

/-! ## Words -/

section Words

variable {d : Dev} {ibuf : Nat}

theorem byteAt_word (d : Dev) (ibuf : Nat) {k : Nat} (hk : k < 4) : d.byteAt (4 * ibuf + k) = byte (d.buf ibuf) k := by
  have h1 : (4 * ibuf + k) / 4 = ibuf := by omega
  have h2 : (4 * ibuf + k) % 4 = k := by omega
  rw [Dev.byteAt, h1, h2]

/-- A write of the whole word `v` whose bytes are those of the range, or the old ones. -/
theorem written_word {o : Nat} {xs : List Byte} {v : Word} {dev : Dev} (hbuf : dev.buf = d.buf)
    (hlog : Accessed o xs.length d (ioWr32 dev ibuf v)) (hlow : 4 * ibuf ≤ o) (hhigh : o + xs.length ≤ 4 * ibuf + 4)
    (hv : ∀ k < 4, byte v k = splice d.byteAt o xs (4 * ibuf + k)) : Written o xs d (ioWr32 dev ibuf v) where
  bytes := by
    funext p
    by_cases hp : p / 4 = ibuf
    · have heq : p = 4 * ibuf + p % 4 := by omega
      rw [heq, byteAt_word _ _ (Nat.mod_lt _ (by decide)), ← hv _ (Nat.mod_lt _ (by decide))]
      rw [show (ioWr32 dev ibuf v).buf = Function.update dev.buf ibuf v from rfl, Function.update_self]
    · have hsame : (ioWr32 dev ibuf v).byteAt p = d.byteAt p := by
        unfold Dev.byteAt
        rw [show (ioWr32 dev ibuf v).buf = Function.update dev.buf ibuf v from rfl, Function.update_of_ne hp, hbuf]
      rw [hsame]
      rcases Nat.lt_or_ge p (4 * ibuf) with hlt | hge
      · exact (splice_of_lt (by omega)).symm
      · exact (splice_of_ge (by omega)).symm
  log := hlog

/-- A word that is read, changed in part and written. -/
theorem written_patch (d : Dev) (ibuf ofs : Nat) (src : List Byte) (h : ofs + src.length ≤ 4) (hpos : 0 < ofs + src.length)
    (hofs : ofs < 4) :
    Written (4 * ibuf + ofs) src d (ioWr32 (ioRd32 d ibuf).2 ibuf (patch (d.buf ibuf) ofs src)) := by
  refine written_word (by rfl) ⟨[.wr ibuf, .rd ibuf], rfl, ?_⟩ (by omega) (by omega) ?_
  · intro a ha
    have hword : a.word = ibuf := by
      obtain rfl | rfl : a = _ ∨ a = _ := by simpa using ha
      · rfl
      · rfl
    rw [hword]
    exact ⟨by omega, by omega⟩
  · intro k hk
    unfold patch
    rw [byte_word32 _ hk]
    unfold splice
    rw [byteAt_word _ _ hk, Nat.add_sub_add_left]
    simp only [Nat.add_le_add_iff_left]

/-- A word that is written as a whole. -/
theorem written_full (d : Dev) (ibuf : Nat) (buf : List Byte) (h : 4 ≤ buf.length) :
    Written (4 * ibuf) (buf.take 4) d (ioWr32 d ibuf (word32 fun i => buf.getD i 0#8)) := by
  have hlen : (buf.take 4).length = 4 := by rw [List.length_take, Nat.min_eq_left h]
  refine written_word rfl ⟨[.wr ibuf], rfl, ?_⟩ le_rfl (by omega) ?_
  · intro a ha
    rw [List.mem_singleton.mp ha, hlen]
    exact ⟨by show 4 * ibuf < _; omega, by show 4 * ibuf < 4 * ibuf + 4; omega⟩
  · intro k hk
    rw [byte_word32 _ hk, splice, if_pos (by omega), Nat.add_sub_cancel_left, List.getD_eq_getElem _ _ (by omega),
      List.getD_eq_getElem _ _ (by omega), List.getElem_take]

/-- The `n` bytes at `ofs` of a word. -/
theorem readOf_word (d : Dev) (ibuf ofs n : Nat) (h : ofs + n ≤ 4) (hpos : 0 < ofs + n) (hofs : ofs < 4) :
    ReadOf (4 * ibuf + ofs) n d (slice (byte (d.buf ibuf)) ofs n, (ioRd32 d ibuf).2) where
  data := by
    rw [slice_shift]
    apply slice_congr
    intro p _ hp
    exact (byteAt_word d ibuf (by omega)).symm
  buf := rfl
  log := ⟨[.rd ibuf], rfl, fun a ha => by
    rw [List.mem_singleton.mp ha]
    exact ⟨by show 4 * ibuf < _; omega, by show _ < 4 * ibuf + 4; omega⟩⟩

end Words

/-! ## Runs of words -/

theorem writeLoop_spec (n : Nat) : ∀ c : Cursor, 4 * n ≤ c.buf.length →
    Written (4 * c.ibuf) (c.buf.take (4 * n)) c.dev (writeLoop n c).dev ∧ (writeLoop n c).ibuf = c.ibuf + n ∧
      (writeLoop n c).buf = c.buf.drop (4 * n) := by
  induction n with
  | zero =>
    intro c _
    exact ⟨Written.refl _ _, rfl, rfl⟩
  | succ n ih =>
    intro c hc
    obtain ⟨h1, h2, h3⟩ := ih ⟨c.addr + 4, c.ibuf + 1, c.buf.drop 4, ioWr32 c.dev c.ibuf (word32 fun i => c.buf.getD i 0#8)⟩
      (by rw [List.length_drop]; omega)
    have hfirst := written_full c.dev c.ibuf c.buf (by omega)
    have hlen : (c.buf.take 4).length = 4 := by rw [List.length_take, Nat.min_eq_left (by omega)]
    refine ⟨?_, ?_, ?_⟩
    · have hsplit : c.buf.take (4 * (n + 1)) = c.buf.take 4 ++ (c.buf.drop 4).take (4 * n) := by
        rw [← List.take_add]
        congr 1
        omega
      rw [hsplit]
      refine hfirst.trans ?_
      rw [hlen]
      exact h1
    · rw [writeLoop, h2]
      show c.ibuf + 1 + n = c.ibuf + (n + 1)
      omega
    · rw [writeLoop, h3, List.drop_drop]
      congr 1
      omega

theorem writeBurst_spec (n : Nat) (c : Cursor) (h : 4 * n ≤ c.buf.length) :
    Written (4 * c.ibuf) (c.buf.take (4 * n)) c.dev (writeBurst n c).dev := by
  have hlen : (c.buf.take (4 * n)).length = 4 * n := by rw [List.length_take, Nat.min_eq_left h]
  refine ⟨?_, ⟨_, rfl, ?_⟩⟩
  · funext p
    have hbuf : (writeBurst n c).dev.byteAt p = byte (if c.ibuf ≤ p / 4 ∧ p / 4 < c.ibuf + n then
        word32 fun i => c.buf.getD (4 * (p / 4 - c.ibuf) + i) 0#8 else c.dev.buf (p / 4)) (p % 4) := rfl
    rw [hbuf]
    by_cases hp : c.ibuf ≤ p / 4 ∧ p / 4 < c.ibuf + n
    · rw [if_pos hp, byte_word32 _ (Nat.mod_lt _ (by decide)), splice_of_mem (by omega) (by omega),
        List.getD_eq_getElem _ _ (by omega), List.getD_eq_getElem _ _ (by omega), List.getElem_take]
      congr 1
      omega
    · rw [if_neg hp]
      show c.dev.byteAt p = _
      rcases Nat.lt_or_ge p (4 * c.ibuf) with hlt | hge
      · exact (splice_of_lt hlt).symm
      · exact (splice_of_ge (by omega)).symm
  · intro a ha
    obtain ⟨w, hw, rfl⟩ := List.mem_map.mp (List.mem_reverse.mp ha)
    rw [List.mem_range'_1] at hw
    rw [hlen]
    exact ⟨by show 4 * w < _; omega, by show _ < 4 * w + 4; omega⟩

theorem readLoop_spec (n : Nat) : ∀ (ibuf : Nat) (d : Dev), ReadOf (4 * ibuf) (4 * n) d (readLoop n ibuf d) := by
  induction n with
  | zero =>
    intro ibuf d
    exact ⟨rfl, rfl, Accessed.refl _ _ _⟩
  | succ n ih =>
    intro ibuf d
    have hfirst := readOf_word d ibuf 0 4 (by decide) (by decide) (by decide)
    have hrest : ReadOf (4 * ibuf + 0 + 4) (4 * n) (ioRd32 d ibuf).2
        ((readLoop n (ibuf + 1) (ioRd32 d ibuf).2).1, (readLoop n (ibuf + 1) (ioRd32 d ibuf).2).2) := ih (ibuf + 1) (ioRd32 d ibuf).2
    rw [Nat.mul_succ, Nat.add_comm (4 * n)]
    exact hfirst.trans hrest

theorem readBurst_spec (n ibuf : Nat) (d : Dev) : ReadOf (4 * ibuf) (4 * n) d (readBurst n ibuf d) where
  data := by
    unfold readBurst
    dsimp only
    induction n generalizing ibuf with
    | zero => rfl
    | succ n ih =>
      have hfirst : slice (byte (d.buf ibuf)) 0 4 = slice d.byteAt (4 * ibuf) 4 := by
        have h := (readOf_word d ibuf 0 4 (by decide) (by decide) (by decide)).data
        exact h
      rw [List.range'_succ, List.flatMap_cons, ih, hfirst, Nat.mul_succ 4 ibuf, slice_append]
      congr 1
      omega
  buf := rfl
  log := by
    refine ⟨_, rfl, fun a ha => ?_⟩
    obtain ⟨w, hw, rfl⟩ := List.mem_map.mp (List.mem_reverse.mp ha)
    rw [List.mem_range'_1] at hw
    exact ⟨by show 4 * w < _; omega, by show _ < 4 * w + 4; omega⟩

/-! ## The transfers -/

/-- The whole words of a write, aligned or not. -/
theorem writeWords_spec (c : Cursor) :
    ∃ c' : Cursor, (if 4 ≤ c.buf.length then
        if c.addr % 4 = 0 then writeBurst (c.buf.length / 4) c else writeLoop (c.buf.length / 4) c else c) = c' ∧
      Written (4 * c.ibuf) (c.buf.take (4 * (c.buf.length / 4))) c.dev c'.dev ∧ c'.ibuf = c.ibuf + c.buf.length / 4 ∧
      c'.buf = c.buf.drop (4 * (c.buf.length / 4)) := by
  refine ⟨_, rfl, ?_⟩
  split_ifs with h4 ha
  · exact ⟨writeBurst_spec _ c (by omega), rfl, rfl⟩
  · exact writeLoop_spec _ c (by omega)
  · have hz : c.buf.length / 4 = 0 := by omega
    rw [hz]
    exact ⟨Written.refl _ _, rfl, rfl⟩

theorem writeRest_spec (c : Cursor) : Written (4 * c.ibuf) c.buf c.dev (writeRest c) := by
  obtain ⟨c', hc, hw, hibuf, hbuf⟩ := writeWords_spec c
  have hlen : (c.buf.take (4 * (c.buf.length / 4))).length = 4 * (c.buf.length / 4) := by
    rw [List.length_take, Nat.min_eq_left (by omega)]
  unfold writeRest
  rw [hc, ← List.take_append_drop (4 * (c.buf.length / 4)) c.buf, ← hbuf]
  refine hw.trans ?_
  rw [hlen, ← Nat.mul_add, ← hibuf]
  have hrest : c'.buf.length = c.buf.length % 4 := by
    rw [hbuf, List.length_drop]
    omega
  dsimp only
  split_ifs with hne
  · exact written_patch c'.dev c'.ibuf 0 _ (by omega) (by omega) (by decide)
  · rw [List.eq_nil_of_length_eq_zero (not_not.mp hne)]
    exact Written.refl _ _

/-- Nothing is left behind the whole words, and nothing is done. -/
theorem writeRest_nil {c : Cursor} (h : c.buf = []) : writeRest c = c.dev := by
  have hlen : c.buf.length = 0 := by rw [h]; rfl
  have hwords : (if 4 ≤ c.buf.length then
      if c.addr % 4 = 0 then writeBurst (c.buf.length / 4) c else writeLoop (c.buf.length / 4) c else c) = c := if_neg (by omega)
  unfold writeRest
  rw [hwords]
  exact if_neg (not_not.mpr hlen)

theorem nfcWrite_spec (addr : Nat) (data : List Byte) (ofs : Nat) (d : Dev) : Written ofs data d (nfcWrite addr data ofs d) := by
  unfold nfcWrite
  dsimp only
  by_cases hofs : ofs % 4 = 0
  · rw [if_neg (not_not.mpr hofs)]
    have h := writeRest_spec ⟨addr, ofs / 4, data, d⟩
    rwa [show 4 * (ofs / 4) = ofs by omega] at h
  · rw [if_pos hofs]
    have hlen : (data.take (min (4 - ofs % 4) data.length)).length = min (4 - ofs % 4) data.length := by
      rw [List.length_take]
      omega
    have hhead : Written ofs (data.take (min (4 - ofs % 4) data.length)) d (writeHead ⟨addr, ofs / 4, data, d⟩ (ofs % 4)).dev := by
      have h := written_patch d (ofs / 4) (ofs % 4) (data.take (min (4 - ofs % 4) data.length)) (by omega) (by omega)
        (Nat.mod_lt _ (by decide))
      rwa [Nat.div_add_mod] at h
    rcases Nat.lt_or_ge data.length (4 - ofs % 4) with hshort | hlong
    · rw [writeRest_nil (List.drop_eq_nil_of_le (show data.length ≤ min (4 - ofs % 4) data.length by omega))]
      rwa [List.take_of_length_le (by omega)] at hhead
    · have hrest := writeRest_spec (writeHead ⟨addr, ofs / 4, data, d⟩ (ofs % 4))
      have hstart : 4 * (writeHead ⟨addr, ofs / 4, data, d⟩ (ofs % 4)).ibuf =
          ofs + (data.take (min (4 - ofs % 4) data.length)).length := by
        rw [hlen]
        show 4 * (ofs / 4 + 1) = _
        omega
      rw [hstart] at hrest
      have hall := hhead.trans hrest
      rwa [show data.take (min (4 - ofs % 4) data.length) ++ (writeHead ⟨addr, ofs / 4, data, d⟩ (ofs % 4)).buf = data from
        List.take_append_drop _ _] at hall

theorem readRest_spec (addr len ibuf : Nat) (d : Dev) : ReadOf (4 * ibuf) len d (readRest addr len ibuf d) := by
  have hwords : ReadOf (4 * ibuf) (4 * (len / 4)) d
      (if 4 ≤ len then if addr % 4 = 0 then readBurst (len / 4) ibuf d else readLoop (len / 4) ibuf d else ([], d)) := by
    split_ifs with h4 ha
    · exact readBurst_spec _ _ _
    · exact readLoop_spec _ _ _
    · rw [show len / 4 = 0 by omega]
      exact ⟨rfl, rfl, Accessed.refl _ _ _⟩
  unfold readRest
  generalize (if 4 ≤ len then if addr % 4 = 0 then readBurst (len / 4) ibuf d else readLoop (len / 4) ibuf d else ([], d)) = res at hwords ⊢
  obtain ⟨buf, dev⟩ := res
  dsimp only
  split_ifs with hne
  · have htail := readOf_word dev (ibuf + len / 4) 0 (len % 4) (by omega) (by omega) (by decide)
    rw [Nat.add_zero, Nat.mul_add] at htail
    have hall := hwords.trans htail
    rwa [Nat.div_add_mod] at hall
  · rwa [show 4 * (len / 4) = len by omega] at hwords

/-- A read of nothing. -/
theorem readRest_zero (addr ibuf : Nat) (d : Dev) : readRest addr 0 ibuf d = ([], d) := by
  unfold readRest
  dsimp only
  rw [if_neg (by decide), if_neg (by decide)]

theorem nfcRead_spec (addr len ofs : Nat) (d : Dev) : ReadOf ofs len d (nfcRead addr len ofs d) := by
  unfold nfcRead
  by_cases hofs : ofs % 4 = 0
  · rw [if_neg (not_not.mpr hofs)]
    have h := readRest_spec addr len (ofs / 4) d
    rwa [show 4 * (ofs / 4) = ofs by omega] at h
  · rw [if_pos hofs]
    dsimp only
    have hhead := readOf_word d (ofs / 4) (ofs % 4) (min (4 - ofs % 4) len) (by omega) (by omega) (Nat.mod_lt _ (by decide))
    rw [Nat.div_add_mod] at hhead
    rcases Nat.lt_or_ge len (4 - ofs % 4) with hshort | hlong
    · rw [show len - min (4 - ofs % 4) len = 0 by omega, readRest_zero, List.append_nil]
      rw [show min (4 - ofs % 4) len = len by omega] at hhead ⊢
      exact hhead
    · have hrest := readRest_spec (addr + min (4 - ofs % 4) len) (len - min (4 - ofs % 4) len) (ofs / 4 + 1) (ioRd32 d (ofs / 4)).2
      rw [show 4 * (ofs / 4 + 1) = ofs + min (4 - ofs % 4) len by omega] at hrest
      have hall := hhead.trans hrest
      rwa [show min (4 - ofs % 4) len + (len - min (4 - ofs % 4) len) = len by omega] at hall

/-! ## The streams of the driver -/

/-- `sslnfc_write_buf`. -/
def sslnfcWriteBuf (s : Ssl) (d : Dev) (addr : Nat) (buf : List Byte) : Ssl × Dev :=
  ({ s with wptr := s.wptr + BitVec.ofNat 32 buf.length }, nfcWrite addr buf s.wptr.toNat d)

/-- `sslnfc_read_buf`. -/
def sslnfcReadBuf (s : Ssl) (d : Dev) (addr len : Nat) : List Byte × Ssl × Dev :=
  let (buf, d) := nfcRead addr len s.rptr.toNat d
  (buf, { s with rptr := s.rptr + BitVec.ofNat 32 len }, d)

/-- Calls of `sslnfc_write_buf`, each with the address of its data. -/
def writeBufs : List (Nat × List Byte) → Ssl → Dev → Ssl × Dev
  | [], s, d => (s, d)
  | (addr, buf) :: ws, s, d =>
    let (s, d) := sslnfcWriteBuf s d addr buf
    writeBufs ws s d

/-- Calls of `sslnfc_read_buf`, each with its address and length: what they return, one behind the other. -/
def readBufs : List (Nat × Nat) → Ssl → Dev → List Byte
  | [], _, _ => []
  | (addr, len) :: rs, s, d =>
    let (buf, s, d) := sslnfcReadBuf s d addr len
    buf ++ readBufs rs s d

/-- The data of the calls. -/
def written (ws : List (Nat × List Byte)) : List Byte := (ws.map (·.2)).flatten

/-- The length of the calls. -/
def wanted (rs : List (Nat × Nat)) : Nat := (rs.map (·.2)).sum

theorem toNat_advance {p : Word} {n : Nat} (h : p.toNat + n ≤ bufSize) : (p + BitVec.ofNat 32 n).toNat = p.toNat + n := by
  unfold bufSize at h
  rw [BitVec.toNat_add, BitVec.toNat_ofNat, Nat.add_mod_mod, Nat.mod_eq_of_lt (by omega)]

theorem writeBufs_spec (ws : List (Nat × List Byte)) : ∀ (s : Ssl) (d : Dev), s.wptr.toNat + (written ws).length ≤ bufSize →
    (writeBufs ws s d).2.byteAt = splice d.byteAt s.wptr.toNat (written ws) ∧ (writeBufs ws s d).1.rptr = s.rptr := by
  induction ws with
  | nil =>
    intro s d _
    exact ⟨(splice_nil _ _).symm, rfl⟩
  | cons w ws ih =>
    intro s d h
    obtain ⟨addr, buf⟩ := w
    have hcons : written ((addr, buf) :: ws) = buf ++ written ws := rfl
    rw [hcons, List.length_append] at h
    have hadv := toNat_advance (p := s.wptr) (n := buf.length) (by omega)
    obtain ⟨h1, h2⟩ := ih { s with wptr := s.wptr + BitVec.ofNat 32 buf.length } (nfcWrite addr buf s.wptr.toNat d) (by
      show (s.wptr + BitVec.ofNat 32 buf.length).toNat + _ ≤ _
      omega)
    rw [hcons]
    refine ⟨?_, h2⟩
    rw [← splice_append, ← (nfcWrite_spec addr buf s.wptr.toNat d).bytes, ← hadv]
    exact h1

theorem readBufs_spec (rs : List (Nat × Nat)) : ∀ (s : Ssl) (d : Dev), s.rptr.toNat + wanted rs ≤ bufSize →
    readBufs rs s d = slice d.byteAt s.rptr.toNat (wanted rs) := by
  induction rs with
  | nil =>
    intro s d _
    rfl
  | cons r rs ih =>
    intro s d h
    obtain ⟨addr, len⟩ := r
    have hcons : wanted ((addr, len) :: rs) = len + wanted rs := rfl
    rw [hcons] at h
    have hadv := toNat_advance (p := s.rptr) (n := len) (by omega)
    have hread := nfcRead_spec addr len s.rptr.toNat d
    have hsame : (nfcRead addr len s.rptr.toNat d).2.byteAt = d.byteAt := by
      funext p
      unfold Dev.byteAt
      rw [hread.buf]
    have hrest := ih { s with rptr := s.rptr + BitVec.ofNat 32 len } (nfcRead addr len s.rptr.toNat d).2 (by
      show (s.rptr + BitVec.ofNat 32 len).toNat + _ ≤ _
      omega)
    rw [hcons, ← slice_append, ← hread.data, ← hadv]
    rw [hsame] at hrest
    show (nfcRead addr len s.rptr.toNat d).1 ++
      readBufs rs { s with rptr := s.rptr + BitVec.ofNat 32 len } (nfcRead addr len s.rptr.toNat d).2 = _
    rw [hrest]

/-! ## The whole -/

/-- From `d` to `d'` only words of the buffer were accessed that intersect the `n` bytes at `o`, or, when `n` is 0, the one that `o` is
within. -/
def Within (o n : Nat) (d d' : Dev) : Prop :=
  ∃ l, d'.log = l ++ d.log ∧ ∀ a ∈ l, 4 * a.word + 4 ≤ bufSize ∧
    ((∃ p, o ≤ p ∧ p < o + n ∧ p / 4 = a.word) ∨ n = 0 ∧ o % 4 ≠ 0 ∧ o / 4 = a.word)

theorem Accessed.within {o n : Nat} {d d' : Dev} (h : Accessed o n d d') (hn : o + n ≤ bufSize) : Within o n d d' := by
  obtain ⟨l, hl, hs⟩ := h
  refine ⟨l, hl, fun a ha => ?_⟩
  obtain ⟨h1, h2⟩ := hs a ha
  unfold bufSize at *
  refine ⟨by omega, ?_⟩
  rcases Nat.eq_zero_or_pos n with rfl | hpos
  · exact Or.inr ⟨rfl, by omega, by omega⟩
  · refine Or.inl ⟨max o (4 * a.word), by omega, by omega, by omega⟩

/-- The transfers by words are transfers by bytes, whatever the buffer holds and wherever the data lies in memory. -/
theorem buffer_refined (d : Dev) :
    (∀ (addr ofs : Nat) (data : List Byte), ofs + data.length ≤ bufSize →
      (nfcWrite addr data ofs d).byteAt = splice d.byteAt ofs data ∧ Within ofs data.length d (nfcWrite addr data ofs d)) ∧
    (∀ addr ofs len : Nat, ofs + len ≤ bufSize →
      (nfcRead addr len ofs d).1 = slice d.byteAt ofs len ∧ (nfcRead addr len ofs d).2.byteAt = d.byteAt ∧
        Within ofs len d (nfcRead addr len ofs d).2) ∧
    (∀ (addr addr' ofs : Nat) (data : List Byte), ofs + data.length ≤ bufSize →
      (nfcRead addr' data.length ofs (nfcWrite addr data ofs d)).1 = data) ∧
    ∀ (s : Ssl) (ws : List (Nat × List Byte)) (rs : List (Nat × Nat)), s.wptr = 0#32 → s.rptr = 0#32 →
      (written ws).length ≤ bufSize → wanted rs ≤ bufSize →
        readBufs rs (writeBufs ws s d).1 (writeBufs ws s d).2 = slice (splice d.byteAt 0 (written ws)) 0 (wanted rs) := by
  refine ⟨fun addr ofs data h => ?_, fun addr ofs len h => ?_, fun addr addr' ofs data h => ?_, fun s ws rs hw hr hws hrs => ?_⟩
  · have hspec := nfcWrite_spec addr data ofs d
    exact ⟨hspec.bytes, hspec.log.within h⟩
  · have hspec := nfcRead_spec addr len ofs d
    refine ⟨hspec.data, ?_, hspec.log.within h⟩
    funext p
    unfold Dev.byteAt
    rw [hspec.buf]
  · rw [(nfcRead_spec addr' data.length ofs _).data, (nfcWrite_spec addr data ofs d).bytes, slice_splice]
  · have hz : s.wptr.toNat = 0 := by rw [hw]; rfl
    obtain ⟨h1, h2⟩ := writeBufs_spec ws s d (by omega)
    have hz' : (writeBufs ws s d).1.rptr.toNat = 0 := by rw [h2, hr]; rfl
    rw [readBufs_spec rs _ _ (by omega), h1, hz, hz']

/-- Five bytes that are written over two words, from an odd address, and read back. -/
theorem buffer_refined_five : (nfcRead 0 5 2 (nfcWrite 1 [1#8, 2#8, 3#8, 4#8, 5#8] 2 ⟨fun _ => 0#32, []⟩)).1 = [1#8, 2#8, 3#8, 4#8, 5#8] :=
  (buffer_refined ⟨fun _ => 0#32, []⟩).2.2.1 1 0 2 [1#8, 2#8, 3#8, 4#8, 5#8] (by decide)

/-- A write of nothing within a word accesses that word. -/
theorem nothing_accesses : ¬ ∀ a ∈ (nfcWrite 0 [] 1 ⟨fun _ => 0#32, []⟩).log, ∃ p, 1 ≤ p ∧ p < 1 + 0 ∧ p / 4 = a.word := by
  intro h
  obtain ⟨p, hp, hp', -⟩ := h (.wr 0) (List.mem_cons_self ..)
  omega

end Emlinux.Nfc
