import Mathlib.Tactic

/-!
# SPI transfers through the FIFO

`spi.c` in master mode, without DMA: `spi_io` fills the transmit FIFO, and each interrupt that says the transmitter is
empty takes the words received from the receive FIFO and fills the transmit FIFO again (`spi_isr`, `spi_rx`, `spi_tx`).
`Exact`: each word is sent and received once. But `spi_isr` hands `spi_tx` a count of words where it takes a count of
bytes, and `fifosize` has no room for the depth 256.

* `Sending`, `Sent`: the controller after `k` interrupts.
* `exact_iff`: over all buffers, word sizes and depths.
-/

namespace Emlinux.Spi.Fifo

abbrev Byte := BitVec 8

abbrev Word := BitVec 32

/-- `spi_t` as far as it does not change: the capability register, and the word size `2 ^ (inc + 3)`. -/
structure Port where
  cap : Word
  inc : Nat
  inc_le : inc ≤ 2

/-- `t->fifosize`, a `uint8_t`: `SPI_CAP_BUF` is one more than the field. -/
def Port.fifosize (p : Port) : Nat := ((p.cap &&& 0xff#32).toNat + 1) % 2 ^ 8

/-- `spi_xfr_t`. -/
structure Xfr where
  tx : Option (List Byte)
  rx : Option (List Byte)
  len : Nat
  actual : Nat
deriving DecidableEq, Repr

/-- The word in memory at the head of `bs`. -/
def word (bs : List Byte) : Word := bs.foldr (fun b w => w <<< 8 ||| b.setWidth 32) 0#32

/-- The `n` low bytes of a word in memory. -/
def bytes (n : Nat) (w : Word) : List Byte := (List.range n).map fun i => (w >>> (8 * i)).setWidth 8

/-- Word `i` of a buffer. -/
def wordAt (inc : Nat) (buf : List Byte) (i : Nat) : Word := word ((buf.drop (i * 2 ^ inc)).take (2 ^ inc))

/-- The words that `spi_tx` writes to the FIFO. -/
def spiTx (buf : List Byte) (count inc : Nat) : List Word := (List.range (count >>> inc)).map (wordAt inc buf)

/-- `spi_rx`, when the buffer is at byte `ofs` of `buf` and the next word in the FIFO is `fifo n`. -/
def spiRx (fifo : Nat → Word) (n : Nat) (buf : List Byte) (ofs count inc : Nat) : List Byte :=
  buf.take ofs ++ (List.range (count >>> inc)).flatMap (fun i => bytes (2 ^ inc) (fifo (n + i))) ++
    buf.drop (ofs + (count >>> inc) * 2 ^ inc)

/-- The transfer and whether `t->bp` is set, with what happened: the words written to the FIFO by `spi_io` and by each
interrupt, the number of words each interrupt read, and `actual` at each `SPI_EV_DONE`. -/
structure Link where
  x : Xfr
  bp : Bool
  sent : List (List Word)
  taken : List Nat
  done : List Nat
deriving DecidableEq, Repr

variable (p : Port) (fifo : Nat → Word)

/-- `spi_io`; none when it returns -1. -/
def spiIo (x : Xfr) : Option Link :=
  let x := { x with actual := 0 }
  let count := p.fifosize <<< p.inc
  match x.tx with
  | some buf => some ⟨x, true, [spiTx buf (min count x.len) p.inc], [], []⟩
  | none => if x.rx = none then none else some ⟨x, true, [List.replicate (min p.fifosize (x.len >>> p.inc)) 0#32], [], []⟩

/-- `spi_isr` with `SPI_INT_TEMT` and no error. -/
def isr (t : Link) : Link :=
  if t.bp = false then t
  else
    let actual := t.x.actual
    let rem := t.x.len - actual
    let size := p.fifosize <<< p.inc
    let count := min size rem
    let rem := rem - count
    let t := match t.x.rx with
      | some buf => { t with
        x := { t.x with rx := some (spiRx fifo t.taken.sum buf actual count p.inc) }
        taken := t.taken ++ [count >>> p.inc] }
      | none => t
    let actual := actual + count
    let t := { t with x := { t.x with actual := actual } }
    if rem = 0 then { t with bp := false, done := t.done ++ [actual] }
    else
      let count := min size rem >>> p.inc
      match t.x.tx with
      | some buf => { t with sent := t.sent ++ [spiTx (buf.drop actual) count p.inc] }
      | none => { t with sent := t.sent ++ [List.replicate count 0#32] }

/-- `k` interrupts. -/
def isrs : Nat → Link → Link
  | 0, t => t
  | k + 1, t => isr p fifo (isrs k t)

/-! ## What a transfer should do -/

/-- Word `i` to be sent. -/
def Xfr.word (x : Xfr) (inc i : Nat) : Word :=
  match x.tx with
  | some buf => wordAt inc buf i
  | none => 0#32

/-- The words to be sent. -/
def Xfr.words (x : Xfr) (inc : Nat) : List Word := (List.range (x.len >>> inc)).map (x.word inc)

/-- The bytes of the first `n` words received. -/
def received (n : Nat) : List Byte := (List.range n).flatMap fun i => bytes (2 ^ p.inc) (fifo i)

/-- Each word is sent and received once, whatever the number of interrupts. -/
structure Exact (x : Xfr) (t : Link) : Prop where
  ends : ∃ n, (∀ k < n, (isrs p fifo k t).done = []) ∧ ∀ k ≥ n, (isrs p fifo k t).done = [x.len] ∧
    (isrs p fifo k t).x.actual = x.len ∧ (isrs p fifo k t).sent.flatten = x.words p.inc ∧
    (isrs p fifo k t).x.rx = x.rx.map fun buf => received p fifo (x.len >>> p.inc) ++ buf.drop x.len
  order : ∀ k, (isrs p fifo k t).sent.flatten <+: x.words p.inc
  room : ∀ k, ∀ c ∈ (isrs p fifo k t).sent, c.length ≤ p.fifosize
  /-- An interrupt reads as many words as were written since the one before it, and stores them one behind the other. -/
  taken : ∀ k, x.rx ≠ none → (isrs p fifo k t).taken = ((isrs p fifo k t).sent.map List.length).take k
  stored : ∀ k, (isrs p fifo k t).x.rx = x.rx.map fun buf =>
    received p fifo (isrs p fifo k t).taken.sum ++ buf.drop ((isrs p fifo k t).taken.sum * 2 ^ p.inc)

/-- The words fit in a byte, or are not read from memory, or go into the FIFO at once; and the driver knows the depth of the FIFO. -/
def Safe (x : Xfr) : Prop :=
  (p.fifosize ≠ 0 ∨ x.len = 0) ∧ (p.inc = 0 ∨ x.tx = none ∨ x.len ≤ p.fifosize <<< p.inc)

/-! ## The pieces -/

/-- The words of piece `j` of `w` words. -/
def piece (w j : Nat) : Nat := min p.fifosize (w - j * p.fifosize)

/-- The words that are sent of it: with `spi_tx` the count of a later piece is shifted twice. -/
def part (x : Xfr) (w j : Nat) : Nat := if j = 0 ∨ x.tx = none then piece p w j else piece p w j >>> p.inc

/-- Piece `j` as it is sent. -/
def sentPiece (x : Xfr) (w j : Nat) : List Word :=
  (List.range (part p x w j)).map fun i => x.word p.inc (j * p.fifosize + i)

variable {p fifo} {x : Xfr} {t : Link} {w k n : Nat}

theorem part_le (j : Nat) : part p x w j ≤ piece p w j := by
  unfold part
  split_ifs
  · exact le_rfl
  · rw [Nat.shiftRight_eq_div_pow]
    exact Nat.div_le_self _ _

theorem sentPiece_length (j : Nat) : (sentPiece p x w j).length = part p x w j := by
  simp [sentPiece]

theorem piece_sum (w k : Nat) : ((List.range k).map (piece p w)).sum = min (k * p.fifosize) w := by
  induction k with
  | zero => simp
  | succ k ih =>
    rw [List.range_succ, List.map_append, List.sum_append, ih, List.map_singleton, List.sum_singleton, piece, Nat.succ_mul]
    omega

/-- A number of bytes that makes up whole words. -/
theorem words_min (a b inc : Nat) : min (a <<< inc) (b * 2 ^ inc) = min a b * 2 ^ inc := by
  rw [Nat.shiftLeft_eq]
  exact Nat.mul_min_mul_right a b (2 ^ inc)

theorem words_shift (a inc : Nat) : (a * 2 ^ inc) >>> inc = a := by
  rw [Nat.shiftRight_eq_div_pow, Nat.mul_div_cancel _ (by positivity)]

theorem wordAt_drop (inc : Nat) (buf : List Byte) (n i : Nat) :
    wordAt inc (buf.drop (n * 2 ^ inc)) i = wordAt inc buf (n + i) := by
  unfold wordAt
  rw [List.drop_drop, Nat.add_mul]

theorem spiTx_words (inc : Nat) (buf : List Byte) (n w : Nat) :
    spiTx (buf.drop (n * 2 ^ inc)) w inc = (List.range (w >>> inc)).map fun i => wordAt inc buf (n + i) := by
  unfold spiTx
  exact List.map_congr_left fun i _ => wordAt_drop inc buf n i

theorem bytes_length (m : Nat) (v : Word) : (bytes m v).length = m := by
  simp [bytes]

theorem received_length (n : Nat) : (received p fifo n).length = n * 2 ^ p.inc := by
  unfold received
  rw [List.length_flatMap]
  simp [bytes_length]

theorem received_add (n m : Nat) : received p fifo (n + m) =
    received p fifo n ++ (List.range m).flatMap fun i => bytes (2 ^ p.inc) (fifo (n + i)) := by
  unfold received
  rw [List.range_add, List.flatMap_append, List.flatMap_map]

/-- What is received goes behind what was received before. -/
theorem spiRx_received (buf : List Byte) (n m : Nat) :
    spiRx fifo n (received p fifo n ++ buf.drop (n * 2 ^ p.inc)) (n * 2 ^ p.inc) (m * 2 ^ p.inc) p.inc =
      received p fifo (n + m) ++ buf.drop ((n + m) * 2 ^ p.inc) := by
  have hlen : (received p fifo n).length = n * 2 ^ p.inc := received_length n
  unfold spiRx
  rw [words_shift, List.take_left' hlen, received_add, ← hlen, List.drop_append, List.drop_drop]
  simp [hlen, Nat.add_mul]

/-! ## The run -/

/-- The transfer goes on after `k` interrupts. -/
structure Sending (p : Port) (fifo : Nat → Word) (x : Xfr) (w k : Nat) (t : Link) : Prop where
  bp : t.bp = true
  less : k = 0 ∨ k * p.fifosize < w
  tx : t.x.tx = x.tx
  len : t.x.len = x.len
  actual : t.x.actual = k * p.fifosize * 2 ^ p.inc
  rx : t.x.rx = x.rx.map fun buf => received p fifo (k * p.fifosize) ++ buf.drop (k * p.fifosize * 2 ^ p.inc)
  sent : t.sent = (List.range (k + 1)).map (sentPiece p x w)
  taken : t.taken = if x.rx = none then [] else (List.range k).map (piece p w)
  done : t.done = []

/-- It is over with interrupt `n`. -/
structure Sent (p : Port) (fifo : Nat → Word) (x : Xfr) (w n : Nat) (t : Link) : Prop where
  bp : t.bp = false
  pos : 0 < n
  all : w ≤ n * p.fifosize
  actual : t.x.actual = x.len
  rx : t.x.rx = x.rx.map fun buf => received p fifo w ++ buf.drop (w * 2 ^ p.inc)
  sent : t.sent = (List.range n).map (sentPiece p x w)
  taken : t.taken = if x.rx = none then [] else (List.range n).map (piece p w)
  done : t.done = [x.len]

theorem sending_io (hw : x.len = w * 2 ^ p.inc) (hio : spiIo p x = some t) : Sending p fifo x w 0 t := by
  unfold spiIo at hio
  dsimp only at hio
  have hmin : min (p.fifosize <<< p.inc) x.len >>> p.inc = min p.fifosize w := by
    rw [hw, words_min, words_shift]
  cases htx : x.tx with
  | some buf =>
    rw [htx, Option.some.injEq] at hio
    subst hio
    refine ⟨rfl, Or.inl rfl, htx.symm, rfl, by simp, ?_, ?_, by simp, rfl⟩
    · cases x.rx <;> simp [received]
    · simp [sentPiece, Xfr.word, htx, part, piece, spiTx, hmin]
  | none =>
    rw [htx] at hio
    dsimp only at hio
    split_ifs at hio with hrx
    rw [Option.some.injEq] at hio
    subst hio
    refine ⟨rfl, Or.inl rfl, htx.symm, rfl, by simp, ?_, ?_, by simp, rfl⟩
    · cases x.rx <;> simp [received]
    · simp [sentPiece, Xfr.word, htx, part, piece, hw, words_shift]

/-- The first part of an interrupt: what came is read, and counted. -/
theorem isr_eq (hw : x.len = w * 2 ^ p.inc) (h : Sending p fifo x w k t) : ∃ u : Link, u.bp = true ∧ u.x.tx = x.tx ∧ u.x.len = x.len ∧
    u.x.actual = (k * p.fifosize + piece p w k) * 2 ^ p.inc ∧
    (u.x.rx = x.rx.map fun buf => received p fifo (k * p.fifosize + piece p w k) ++
      buf.drop ((k * p.fifosize + piece p w k) * 2 ^ p.inc)) ∧
    u.sent = t.sent ∧ (u.taken = if x.rx = none then [] else (List.range (k + 1)).map (piece p w)) ∧ u.done = [] ∧
    isr p fifo t = if w - k * p.fifosize - piece p w k = 0 then { u with bp := false, done := u.done ++ [u.x.actual] }
      else match x.tx with
        | some buf => { u with sent := u.sent ++ [spiTx (buf.drop u.x.actual) (piece p w (k + 1)) p.inc] }
        | none => { u with sent := u.sent ++ [List.replicate (piece p w (k + 1)) 0#32] } := by
  obtain ⟨⟨tx, rx, len, actual⟩, bp, sent, taken, done⟩ := t
  obtain ⟨hbp, hless, htx, hlen, hact, hrx, hsent, htaken, hdone⟩ := h
  dsimp only at hbp htx hlen hact hrx hsent htaken hdone
  subst hbp htx hlen hact hrx hdone
  have hrem : x.len - k * p.fifosize * 2 ^ p.inc = (w - k * p.fifosize) * 2 ^ p.inc := by rw [hw, Nat.sub_mul]
  have hcount : min (p.fifosize <<< p.inc) ((w - k * p.fifosize) * 2 ^ p.inc) = piece p w k * 2 ^ p.inc := words_min _ _ _
  have hrem' : (w - k * p.fifosize) * 2 ^ p.inc - piece p w k * 2 ^ p.inc = (w - k * p.fifosize - piece p w k) * 2 ^ p.inc := by
    rw [← Nat.sub_mul]
  have hzero : (w - k * p.fifosize - piece p w k) * 2 ^ p.inc = 0 ↔ w - k * p.fifosize - piece p w k = 0 := by
    simp
  have hsum : ((List.range k).map (piece p w)).sum = k * p.fifosize := by
    rw [piece_sum]
    rcases hless with rfl | h
    · simp
    · exact Nat.min_eq_left h.le
  -- what is left after a full piece
  have hnext (h0 : w - k * p.fifosize - piece p w k ≠ 0) :
      min (p.fifosize <<< p.inc) ((w - k * p.fifosize - piece p w k) * 2 ^ p.inc) >>> p.inc = piece p w (k + 1) := by
    rw [words_min, words_shift]
    unfold piece at h0 ⊢
    rw [Nat.succ_mul]
    omega
  cases hrx : x.rx with
  | none =>
    refine ⟨⟨⟨x.tx, none, x.len, (k * p.fifosize + piece p w k) * 2 ^ p.inc⟩, true, sent, taken, []⟩, rfl, rfl, rfl, rfl, rfl, rfl, ?_, rfl,
      ?_⟩
    · simpa [hrx] using htaken
    · simp only [isr, hrem, hcount, hrem', Option.map_none, ← Nat.add_mul]
      by_cases h0 : w - k * p.fifosize - piece p w k = 0
      · simp [h0]
      · rw [if_neg (by simp), if_neg (by rwa [hzero]), if_neg h0, hnext h0]
  | some buf =>
    refine ⟨⟨⟨x.tx, some (received p fifo (k * p.fifosize + piece p w k) ++ buf.drop ((k * p.fifosize + piece p w k) * 2 ^ p.inc)),
      x.len, (k * p.fifosize + piece p w k) * 2 ^ p.inc⟩, true, sent, taken ++ [piece p w k], []⟩, rfl, rfl, rfl, rfl, rfl, rfl, ?_, rfl,
      ?_⟩
    · rw [htaken, hrx, if_neg (by simp), if_neg (by simp), List.range_succ, List.map_append, List.map_singleton]
    · rw [if_neg (by simp [hrx])] at htaken
      simp only [isr, hrem, hcount, hrem', Option.map_some, ← Nat.add_mul, htaken, hsum, spiRx_received, words_shift]
      by_cases h0 : w - k * p.fifosize - piece p w k = 0
      · simp [h0]
      · rw [if_neg (by simp), if_neg (by rwa [hzero]), if_neg h0, hnext h0]

theorem sending_isr (hw : x.len = w * 2 ^ p.inc) (h : Sending p fifo x w k t) (hless : (k + 1) * p.fifosize < w) :
    Sending p fifo x w (k + 1) (isr p fifo t) := by
  obtain ⟨u, hbp, htx, hlen, hact, hrx, hsent, htaken, hdone, he⟩ := isr_eq hw h
  rw [Nat.succ_mul] at hless
  have hpiece : piece p w k = p.fifosize := by
    unfold piece
    omega
  rw [hpiece, ← Nat.succ_mul] at hact hrx
  rw [he, hpiece, if_neg (by omega)]
  have hnew : (List.range (k + 1 + 1)).map (sentPiece p x w) = t.sent ++ [sentPiece p x w (k + 1)] := by
    rw [List.range_succ, List.map_append, h.sent, List.map_singleton]
  cases hx : x.tx with
  | some buf =>
    refine ⟨hbp, Or.inr (by rw [Nat.succ_mul]; omega), htx, hlen, hact, hrx, ?_, htaken, hdone⟩
    dsimp only
    rw [hnew, hact, spiTx_words, hsent]
    simp [sentPiece, Xfr.word, part, hx]
  | none =>
    refine ⟨hbp, Or.inr (by rw [Nat.succ_mul]; omega), htx, hlen, hact, hrx, ?_, htaken, hdone⟩
    dsimp only
    rw [hnew, hsent]
    simp [sentPiece, Xfr.word, part, hx]

theorem sent_isr (hw : x.len = w * 2 ^ p.inc) (h : Sending p fifo x w k t) (hall : w ≤ (k + 1) * p.fifosize) :
    Sent p fifo x w (k + 1) (isr p fifo t) := by
  obtain ⟨u, hbp, htx, hlen, hact, hrx, hsent, htaken, hdone, he⟩ := isr_eq hw h
  rw [Nat.succ_mul] at hall
  have hrest : k * p.fifosize + piece p w k = w := by
    have hless := h.less
    unfold piece
    rcases hless with rfl | h
    · omega
    · omega
  rw [hrest] at hact hrx
  rw [he, if_pos (by omega)]
  exact ⟨rfl, Nat.succ_pos k, by rwa [Nat.succ_mul], hact.trans hw.symm, hrx, hsent.trans h.sent, htaken, by simp [hdone, hact, hw]⟩

/-- A transfer that is over stays as it is. -/
theorem Sent.isr_eq (h : Sent p fifo x w n t) : isr p fifo t = t := by
  unfold isr
  rw [if_pos h.bp]

/-- After `k` interrupts the transfer goes on, or was over with one of them. -/
theorem run_cases (hw : x.len = w * 2 ^ p.inc) (h0 : Sending p fifo x w 0 t) (k : Nat) :
    Sending p fifo x w k (isrs p fifo k t) ∨ ∃ n ≤ k, Sent p fifo x w n (isrs p fifo k t) := by
  induction k with
  | zero => exact Or.inl h0
  | succ k ih =>
    rcases ih with h | ⟨n, hn, h⟩
    · rcases Nat.lt_or_ge ((k + 1) * p.fifosize) w with hless | hall
      · exact Or.inl (sending_isr hw h hless)
      · exact Or.inr ⟨k + 1, le_rfl, sent_isr hw h hall⟩
    · exact Or.inr ⟨n, by omega, by rwa [isrs, h.isr_eq]⟩

/-! ## The words sent -/

theorem part_eq (h : p.inc = 0 ∨ x.tx = none ∨ w ≤ p.fifosize) (j : Nat) : part p x w j = piece p w j := by
  unfold part
  split_ifs with h0
  · rfl
  · rw [not_or] at h0
    rcases h with h | h | h
    · rw [h, Nat.shiftRight_zero]
    · exact absurd h h0.2
    · -- there is no other piece than the first
      have hj : p.fifosize ≤ j * p.fifosize := Nat.le_mul_of_pos_left _ (Nat.pos_of_ne_zero h0.1)
      have : piece p w j = 0 := by
        unfold piece
        omega
      rw [this, Nat.zero_shiftRight]

theorem sent_flatten (h : ∀ j, part p x w j = piece p w j) (k : Nat) :
    ((List.range k).map (sentPiece p x w)).flatten = (List.range (min (k * p.fifosize) w)).map (x.word p.inc) := by
  induction k with
  | zero => simp
  | succ k ih =>
    rw [List.range_succ, List.map_append, List.flatten_append, ih, List.map_singleton, List.flatten_singleton]
    unfold sentPiece
    rw [h k]
    rcases Nat.le_total w (k * p.fifosize) with hle | hle
    · have h0 : piece p w k = 0 := by
        unfold piece
        omega
      rw [h0, Nat.min_eq_right hle, Nat.min_eq_right (by rw [Nat.succ_mul]; omega)]
      simp
    · have hsum : min ((k + 1) * p.fifosize) w = k * p.fifosize + piece p w k := by
        unfold piece
        rw [Nat.succ_mul]
        omega
      rw [Nat.min_eq_left hle, hsum, List.range_add, List.map_append, List.map_map]
      rfl

/-- A count that is shifted twice loses words, and they are not made up for. -/
theorem part_sum_lt (hinc : p.inc ≠ 0) (htx : x.tx ≠ none) (hF : 0 < p.fifosize) (hw : p.fifosize < w) (k : Nat) :
    ((List.range k).map (part p x w)).sum < w := by
  have hbound (k : Nat) (hk : 2 ≤ k) : ((List.range k).map (part p x w)).sum < min (k * p.fifosize) w := by
    induction k, hk using Nat.le_induction with
    | base =>
      have h1 : part p x w 1 < piece p w 1 := by
        unfold part
        rw [if_neg (by simp [htx]), Nat.shiftRight_eq_div_pow]
        refine Nat.div_lt_self ?_ (Nat.one_lt_two_pow hinc)
        unfold piece
        omega
      have h0 := part_le (p := p) (x := x) (w := w) 0
      unfold piece at h0 h1
      rw [show List.range 2 = [0, 1] from rfl]
      simp only [List.map_cons, List.map_nil, List.sum_cons, List.sum_nil]
      omega
    | succ k hk ih =>
      have hle := part_le (p := p) (x := x) (w := w) k
      unfold piece at hle
      rw [List.range_succ, List.map_append, List.sum_append, List.map_singleton, List.sum_singleton, Nat.succ_mul]
      omega
  have h0 := part_le (p := p) (x := x) (w := w) 0
  unfold piece at h0
  match k with
  | 0 =>
    simp only [List.range_zero, List.map_nil, List.sum_nil]
    omega
  | 1 =>
    simp only [List.range_one, List.map_singleton, List.sum_singleton]
    omega
  | k + 2 => exact (hbound (k + 2) (by omega)).trans_le (Nat.min_le_right _ _)

theorem sent_length (m : Nat) :
    ((List.range m).map (sentPiece p x w)).flatten.length = ((List.range m).map (part p x w)).sum := by
  rw [List.length_flatten, List.map_map]
  congr 1
  exact List.map_congr_left fun j _ => sentPiece_length j

/-- No word is sent out of order, or twice. -/
theorem sent_prefix (h : ∀ j, part p x w j = piece p w j) (m : Nat) :
    ((List.range m).map (sentPiece p x w)).flatten <+: (List.range w).map (x.word p.inc) := by
  obtain ⟨b, hb⟩ := Nat.exists_eq_add_of_le (Nat.min_le_right (m * p.fifosize) w)
  rw [sent_flatten h, hb, List.range_add, List.map_append, ← hb]
  exact List.prefix_append _ _

/-! ## The transfer -/

section Transfer

variable (hw : x.len = w * 2 ^ p.inc) (h0 : Sending p fifo x w 0 t)
include hw h0

/-- After any number of interrupts some pieces were sent, those taken of which there was an interrupt, and stored. -/
theorem run_pieces (k : Nat) : ∃ m, (isrs p fifo k t).sent = (List.range m).map (sentPiece p x w) ∧
    ((isrs p fifo k t).taken = if x.rx = none then [] else ((List.range m).map (piece p w)).take k) ∧
    (isrs p fifo k t).x.rx = x.rx.map fun buf => received p fifo (((List.range m).map (piece p w)).take k).sum ++
      buf.drop ((((List.range m).map (piece p w)).take k).sum * 2 ^ p.inc) := by
  rcases run_cases hw h0 k with hs | ⟨n, hn, hs⟩
  · have htake : ((List.range (k + 1)).map (piece p w)).take k = (List.range k).map (piece p w) := by
      rw [← List.map_take, List.take_range, Nat.min_eq_left (Nat.le_succ k)]
    have hmin : min (k * p.fifosize) w = k * p.fifosize := by
      rcases hs.less with rfl | h
      · simp
      · exact Nat.min_eq_left h.le
    refine ⟨k + 1, hs.sent, ?_, ?_⟩
    · rw [hs.taken, htake]
    · rw [hs.rx, htake, piece_sum, hmin]
  · have htake : ((List.range n).map (piece p w)).take k = (List.range n).map (piece p w) := by
      rw [← List.map_take, List.take_range, Nat.min_eq_right hn]
    refine ⟨n, hs.sent, ?_, ?_⟩
    · rw [hs.taken, htake]
    · rw [hs.rx, htake, piece_sum, Nat.min_eq_right hs.all]

/-- With a depth the transfer ends. -/
theorem run_ends (hF : p.fifosize ≠ 0 ∨ w = 0) : ∃ n, (∀ k < n, Sending p fifo x w k (isrs p fifo k t)) ∧
    ∀ k ≥ n, ∃ m, Sent p fifo x w m (isrs p fifo k t) := by
  classical
  have hrun := run_cases hw h0
  have hex : ∃ k, ∃ n ≤ k, Sent p fifo x w n (isrs p fifo k t) := by
    refine ⟨w + 1, (hrun (w + 1)).resolve_left fun hs => ?_⟩
    rcases hs.less with h | h
    · cases h
    · rcases hF with hF | rfl
      · have : w + 1 ≤ (w + 1) * p.fifosize := Nat.le_mul_of_pos_right _ (by omega)
        omega
      · exact absurd h (Nat.not_lt_zero _)
  refine ⟨Nat.find hex, fun k hk => (hrun k).resolve_right (Nat.find_min hex hk), fun k hk => ?_⟩
  obtain ⟨m, hm, hs⟩ := Nat.find_spec hex
  rcases hrun k with hk' | ⟨m', -, hs'⟩
  · rcases hk'.less with rfl | h
    · exact absurd hs.pos (by omega)
    · have : m * p.fifosize ≤ k * p.fifosize := Nat.mul_le_mul_right _ (hm.trans hk)
      exact absurd hs.all (by omega)
  · exact ⟨m', hs'⟩

/-- Without one it does not. -/
theorem run_stuck (hF : p.fifosize = 0) (hpos : w ≠ 0) (k : Nat) : (isrs p fifo k t).done = [] := by
  rcases run_cases hw h0 k with hs | ⟨m, -, hs⟩
  · exact hs.done
  · have hall := hs.all
    rw [hF, Nat.mul_zero] at hall
    exact absurd (Nat.le_zero.mp hall) hpos

/-- A transfer whose later counts are shifted twice never sends all its words. -/
theorem run_short (hinc : p.inc ≠ 0) (htx : x.tx ≠ none) (hF : 0 < p.fifosize) (hlt : p.fifosize < w) (k : Nat) :
    (isrs p fifo k t).sent.flatten.length < w := by
  obtain ⟨m, hsent, -⟩ := run_pieces hw h0 k
  rw [hsent, sent_length]
  exact part_sum_lt hinc htx hF hlt m

end Transfer

/-- Each word is sent and received once exactly when the transfer is safe. -/
theorem exact_iff (p : Port) (fifo : Nat → Word) (x : Xfr) (t : Link) (hio : spiIo p x = some t)
    (hlen : 2 ^ p.inc ∣ x.len) : Exact p fifo x t ↔ Safe p x := by
  obtain ⟨w, hw⟩ := hlen
  rw [Nat.mul_comm] at hw
  have h0 : Sending p fifo x w 0 t := sending_io hw hio
  have hwords : x.words p.inc = (List.range w).map (x.word p.inc) := by
    rw [Xfr.words, hw, words_shift]
  have hsmall : x.len ≤ p.fifosize <<< p.inc ↔ w ≤ p.fifosize := by
    rw [hw, Nat.shiftLeft_eq]
    exact Nat.mul_le_mul_right_iff (by positivity)
  have hzero : x.len = 0 ↔ w = 0 := by simp [hw]
  unfold Safe
  rw [hsmall, hzero]
  constructor
  · intro h
    obtain ⟨n, -, hn⟩ := h.ends
    obtain ⟨hdone, -, hflat, -⟩ := hn n le_rfl
    have hF : p.fifosize ≠ 0 ∨ w = 0 := by
      by_contra hc
      obtain ⟨hF, hpos⟩ : p.fifosize = 0 ∧ w ≠ 0 := by simpa using hc
      rw [run_stuck hw h0 hF hpos n] at hdone
      cases hdone
    refine ⟨hF, ?_⟩
    by_contra hc
    rw [not_or, not_or, not_le] at hc
    obtain ⟨hinc, htx, hlt⟩ := hc
    have hshort := run_short hw h0 hinc htx (by omega) hlt n
    rw [hflat, hwords, List.length_map, List.length_range] at hshort
    exact hshort.false
  · rintro ⟨hF, hsafe⟩
    have hpart : ∀ j, part p x w j = piece p w j := part_eq hsafe
    have hlens : (List.length ∘ sentPiece p x w) = piece p w := funext fun j => (sentPiece_length j).trans (hpart j)
    obtain ⟨n, hgoing, hended⟩ := run_ends hw h0 hF
    refine ⟨⟨n, fun k hk => (hgoing k hk).done, fun k hk => ?_⟩, fun k => ?_, fun k c hc => ?_, fun k hrx => ?_, fun k => ?_⟩
    · obtain ⟨m, hs⟩ := hended k hk
      refine ⟨hs.done, hs.actual, ?_, ?_⟩
      · rw [hs.sent, sent_flatten hpart, Nat.min_eq_right hs.all, hwords]
      · rw [hs.rx, hw, words_shift]
    · obtain ⟨m, hsent, -⟩ := run_pieces hw h0 k
      rw [hsent, hwords]
      exact sent_prefix hpart m
    · obtain ⟨m, hsent, -⟩ := run_pieces hw h0 k
      rw [hsent] at hc
      obtain ⟨j, -, rfl⟩ := List.mem_map.mp hc
      rw [sentPiece_length, hpart]
      exact Nat.min_le_left _ _
    · obtain ⟨m, hsent, htaken, -⟩ := run_pieces hw h0 k
      rw [htaken, if_neg hrx, hsent, List.map_map, hlens]
    · obtain ⟨m, -, htaken, hstored⟩ := run_pieces hw h0 k
      rw [hstored, htaken]
      cases hrx : x.rx with
      | none => rfl
      | some buf => rw [if_neg (by simp)]

/-- Sixteen-bit words and a FIFO of two. -/
def twoHalfwords : Port := ⟨1#32, 1, by decide⟩

/-- Three words are sent and received. -/
def threeHalfwords : Xfr := ⟨some [1#8, 2#8, 3#8, 4#8, 5#8, 6#8], some [0#8, 0#8, 0#8, 0#8, 0#8, 0#8], 6, 0⟩

/-- Two words are sent and received. -/
theorem exact_iff_two : Exact twoHalfwords (fun n => BitVec.ofNat 32 n) { threeHalfwords with len := 4 }
    ⟨{ threeHalfwords with len := 4 }, true, [[0x201#32, 0x403#32]], [], []⟩ :=
  (exact_iff twoHalfwords _ { threeHalfwords with len := 4 } _ (by decide +kernel) (by decide)).mpr
    ⟨Or.inl (by decide), Or.inr (Or.inr (by decide))⟩

/-- The third of three words is read from the receive FIFO, but was never written to the other. -/
theorem third_word_lost : ∃ t, spiIo twoHalfwords threeHalfwords = some t ∧
    ¬ Exact twoHalfwords (fun n => BitVec.ofNat 32 n) threeHalfwords t := by
  refine ⟨_, rfl, fun h => ?_⟩
  have h2 := h.taken 2 (by decide)
  exact absurd h2 (by decide +kernel)

end Emlinux.Spi.Fifo
