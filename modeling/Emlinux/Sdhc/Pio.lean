import Emlinux.Lib.Word

/-!
# Programmed I/O of the SD host controller

`sdhc_pio` moves blocks between the buffer and the data port while the FIFO is ready; the interrupt routine calls it again
for the rest. In a call the pointer goes on by words, and at the start of a call it is calculated from the block size.
The two agree for block sizes that are a multiple of four; for others already the first block is not what it should be.
Addresses are offsets in the buffer.

* `sdhcPio_eq`: what a call does.
* `placed_iff`: over all block sizes, directions and patterns of answers.
-/

namespace Emlinux.Sdhc.Pio

open Lib

abbrev Byte := BitVec 8

abbrev Word := BitVec 32

abbrev Mem := Nat → Byte

/-- Word `word` of block `block` of the card goes through the port, from or to the buffer at `addr`. -/
structure Move where
  block : Nat
  word : Nat
  addr : Nat
deriving DecidableEq, Repr

/-- `sd_dat_t` with its direction, the memory from `dat->buf` on, and what went through the port: all the moves, and the words
written. -/
structure Dat where
  wr : Bool
  blk : Nat
  count : Nat
  actual : Nat
  mem : Mem
  moves : List Move
  sent : List Word

/-- `*d`. -/
def load (m : Mem) (a : Nat) : Word := word32 fun i => m (a + i)

/-- `*d = v`. -/
def store (m : Mem) (a : Nat) (v : Word) : Mem := fun x => if a ≤ x ∧ x < a + 4 then byte v (x - a) else m x

variable (card : Nat → Nat → Word)

/-- One access to the data port, when word `i` of block `b` of the card is `card b i`. -/
def access (t : Dat) (mv : Move) : Dat :=
  if t.wr then { t with moves := t.moves ++ [mv], sent := t.sent ++ [load t.mem mv.addr] }
  else { t with moves := t.moves ++ [mv], mem := store t.mem mv.addr (card mv.block mv.word) }

/-- The words of a block: `for (i = 0; i < blen; i += 4, d++)`. -/
def wordsOf (blk : Nat) : Nat := (blk + 3) / 4

/-- The accesses for block `b` from `d` on. -/
def blockMoves (blk b d : Nat) : List Move := (List.range (wordsOf blk)).map fun i => ⟨b, i, d + 4 * i⟩

/-- The loop over the blocks from `k` on, with `n` blocks left: the value of `k` at the end, and the data. -/
def pioLoop (ready : Nat → Bool) : Nat → Nat → Nat → Dat → Nat × Dat
  | 0, k, _, t => (k, t)
  | n + 1, k, d, t =>
    if ready k then
      pioLoop ready n (k + 1) (d + 4 * wordsOf t.blk) ((blockMoves t.blk (t.actual + k) d).foldl (access card) t)
    else (k, t)

/-- `sdhc_pio`, when `ready k` is the answer of the FIFO for block `k` of the call. -/
def sdhcPio (t : Dat) (ready : Nat → Bool) : Dat :=
  let d := t.blk * t.actual
  let count := t.count - t.actual
  if count = 0 then t
  else
    let (k, t) := pioLoop card ready count 0 d t
    { t with actual := t.actual + k }

/-- A command begins. -/
def begin (wr : Bool) (blk count : Nat) (mem : Mem) : Dat := ⟨wr, blk, count, 0, mem, [], []⟩

/-! ## What should come of it -/

/-- Byte `a` of the blocks of the card. -/
def cardByte (blk a : Nat) : Byte := byte (card (a / blk) (a % blk / 4)) (a % blk % 4)

/-- The blocks are moved, each from or to its place. -/
structure Placed (m : Mem) (t : Dat) : Prop where
  /-- `actual` blocks were moved, each word once. -/
  actual : t.moves.map (fun mv => (mv.block, mv.word)) =
    (List.range t.actual).flatMap fun b => (List.range (wordsOf t.blk)).map fun i => (b, i)
  /-- The bytes of a block are those of its place, and no others. -/
  place : ∀ b < t.actual, ∀ a, (∃ mv ∈ t.moves, mv.block = b ∧ mv.addr ≤ a ∧ a < mv.addr + 4) ↔ b * t.blk ≤ a ∧ a < (b + 1) * t.blk
  inside : ∀ mv ∈ t.moves, mv.addr + 4 ≤ t.count * t.blk
  read : t.wr = false → t.mem = fun a => if a < t.actual * t.blk then cardByte card t.blk a else m a
  written : t.wr = true → t.mem = m ∧ t.sent.length = t.actual * wordsOf t.blk ∧ ∀ b < t.actual, ∀ j < t.blk,
    byte (t.sent.getD (b * wordsOf t.blk + j / 4) 0#32) (j % 4) = m (b * t.blk + j)

/-- The calls for a list of patterns. -/
def pios (wr : Bool) (blk count : Nat) (mem : Mem) (readies : List (Nat → Bool)) : Dat :=
  readies.foldl (sdhcPio card) (begin wr blk count mem)

/-- What comes of the calls is what should, and it does not depend on how the blocks were split over them. -/
def Right (wr : Bool) (blk count : Nat) (mem : Mem) (readies : List (Nat → Bool)) : Prop :=
  Placed card mem (pios card wr blk count mem readies) ∧ ∀ readies',
    (pios card wr blk count mem readies').actual = (pios card wr blk count mem readies).actual →
      pios card wr blk count mem readies' = pios card wr blk count mem readies

/-! ## A call -/

variable {card} {t : Dat} {ready : Nat → Bool} {n k d : Nat}

/-- The number of blocks that a call moves. -/
def run (ready : Nat → Bool) : Nat → Nat → Nat
  | 0, _ => 0
  | n + 1, k => if ready k then run ready n (k + 1) + 1 else 0

theorem run_le (ready : Nat → Bool) (n k : Nat) : run ready n k ≤ n := by
  induction n generalizing k with
  | zero => exact le_rfl
  | succ n ih =>
    unfold run
    split_ifs
    · exact Nat.succ_le_succ (ih _)
    · exact Nat.zero_le _

/-- The fields that an access leaves alone. -/
structure Same (t u : Dat) : Prop where
  wr : u.wr = t.wr
  blk : u.blk = t.blk
  count : u.count = t.count
  actual : u.actual = t.actual

variable (card) in
theorem access_same (t : Dat) (mv : Move) : Same t (access card t mv) := by
  unfold access
  split_ifs
  · exact ⟨rfl, rfl, rfl, rfl⟩
  · exact ⟨rfl, rfl, rfl, rfl⟩

variable (card) in
theorem accesses_same (l : List Move) : ∀ t, Same t (l.foldl (access card) t) := by
  induction l with
  | nil => exact fun t => ⟨rfl, rfl, rfl, rfl⟩
  | cons mv l ih =>
    intro t
    have h1 := access_same card t mv
    have h2 := ih (access card t mv)
    exact ⟨h2.wr.trans h1.wr, h2.blk.trans h1.blk, h2.count.trans h1.count, h2.actual.trans h1.actual⟩

theorem accesses_moves (l : List Move) : ∀ t, (l.foldl (access card) t).moves = t.moves ++ l := by
  induction l with
  | nil => exact fun t => (List.append_nil _).symm
  | cons mv l ih =>
    intro t
    have h1 : (access card t mv).moves = t.moves ++ [mv] := by
      unfold access
      split_ifs <;> rfl
    rw [List.foldl_cons, ih, h1, List.append_assoc, List.singleton_append]

/-- The accesses for `n` blocks from `b` on, in one call. -/
def callMoves (blk b d n : Nat) : List Move := (List.range n).flatMap fun j => blockMoves blk (b + j) (d + 4 * wordsOf blk * j)

theorem callMoves_succ (blk b d n : Nat) : callMoves blk b d (n + 1) = blockMoves blk b d ++ callMoves blk (b + 1) (d + 4 * wordsOf blk) n := by
  unfold callMoves
  rw [List.range_succ_eq_map, List.flatMap_cons, List.flatMap_map]
  congr 1
  refine congrArg (fun f => List.flatMap f (List.range n)) (funext fun j => ?_)
  congr 1
  · omega
  · rw [Nat.succ_eq_add_one, Nat.mul_add]
    omega

theorem pioLoop_eq (n : Nat) : ∀ (k d : Nat) (t : Dat), pioLoop card ready n k d t =
    (k + run ready n k, (callMoves t.blk (t.actual + k) d (run ready n k)).foldl (access card) t) := by
  induction n with
  | zero => exact fun k d t => rfl
  | succ n ih =>
    intro k d t
    unfold pioLoop run
    split_ifs with hr
    · have hs := accesses_same card (blockMoves t.blk (t.actual + k) d) t
      rw [ih, hs.blk, hs.actual, callMoves_succ, List.foldl_append]
      congr 1
      · omega
    · rfl

/-- A call moves the blocks for which the FIFO is ready. -/
theorem sdhcPio_eq (t : Dat) (ready : Nat → Bool) : sdhcPio card t ready =
    { (callMoves t.blk t.actual (t.blk * t.actual) (run ready (t.count - t.actual) 0)).foldl (access card) t with
      actual := t.actual + run ready (t.count - t.actual) 0 } := by
  have hs := accesses_same card (callMoves t.blk t.actual (t.blk * t.actual) (run ready (t.count - t.actual) 0)) t
  unfold sdhcPio
  dsimp only
  split_ifs with hc
  · rw [hc]
    rfl
  · rw [pioLoop_eq, Nat.zero_add, Nat.add_zero]
    dsimp only
    rw [hs.actual]

/-! ## A sequence of calls -/

variable {wr : Bool} {blk count : Nat} {mem : Mem}

theorem pios_append (l l' : List (Nat → Bool)) :
    pios card wr blk count mem (l ++ l') = l'.foldl (sdhcPio card) (pios card wr blk count mem l) :=
  List.foldl_append

/-- What the calls do not change, and the bound of what they do. -/
structure Going (b c : Nat) (t : Dat) : Prop where
  blk : t.blk = b
  count : t.count = c
  actual : t.actual ≤ c

theorem Going.call (h : Going blk count t) (ready : Nat → Bool) : Going blk count (sdhcPio card t ready) := by
  have hs := accesses_same card (callMoves t.blk t.actual (t.blk * t.actual) (run ready (t.count - t.actual) 0)) t
  have hle := run_le ready (t.count - t.actual) 0
  have hcount := h.count
  have hact := h.actual
  rw [sdhcPio_eq]
  refine ⟨hs.blk.trans h.blk, hs.count.trans h.count, ?_⟩
  dsimp only
  omega

theorem going (readies : List (Nat → Bool)) : Going blk count (pios card wr blk count mem readies) := by
  induction readies using List.reverseRecOn with
  | nil => exact ⟨rfl, rfl, Nat.zero_le _⟩
  | append_singleton l r ih =>
    rw [pios_append]
    exact ih.call r

/-- As long as no block was moved, nothing was done. -/
theorem pios_none (readies : List (Nat → Bool)) (h : (pios card wr blk count mem readies).actual = 0) :
    pios card wr blk count mem readies = begin wr blk count mem := by
  induction readies using List.reverseRecOn with
  | nil => rfl
  | append_singleton l r ih =>
    rw [pios_append, List.foldl_cons, List.foldl_nil, sdhcPio_eq] at h ⊢
    obtain ⟨hzero, hrun⟩ := Nat.add_eq_zero_iff.mp h
    rw [hrun]
    exact ih hzero

theorem pios_stuck (readies : List (Nat → Bool)) (h : count = 0 ∨ ∀ r ∈ readies, r 0 = false) :
    (pios card wr blk count mem readies).actual = 0 := by
  induction readies using List.reverseRecOn with
  | nil => rfl
  | append_singleton l r ih =>
    have hl : (pios card wr blk count mem l).actual = 0 := ih (h.imp_right fun h r hr => h r (List.mem_append_left _ hr))
    have hrun : run r ((pios card wr blk count mem l).count - (pios card wr blk count mem l).actual) 0 = 0 := by
      rw [(going l).count, hl]
      rcases h with rfl | h
      · rfl
      · cases count with
        | zero => rfl
        | succ c => rw [Nat.sub_zero, run, h r (by simp), if_neg Bool.false_ne_true]
    rw [pios_append, List.foldl_cons, List.foldl_nil, sdhcPio_eq, hrun]
    exact hl

theorem placed_begin : Placed card mem (begin wr blk count mem) where
  actual := rfl
  place _ hb := absurd hb (Nat.not_lt_zero _)
  inside _ hm := absurd hm List.not_mem_nil
  read _ := funext fun a => (if_neg (by simp [begin])).symm
  written _ := ⟨rfl, (Nat.zero_mul _).symm, fun _ hb => absurd hb (Nat.not_lt_zero _)⟩

/-! ## Blocks of whole words -/

theorem wordsOf_mul (W : Nat) : wordsOf (4 * W) = W := by
  unfold wordsOf
  omega

/-- The words of the first `n` blocks, one after the other. -/
theorem callMoves_words (W : Nat) (hW : 0 < W) (n : Nat) :
    callMoves (4 * W) 0 0 n = (List.range (n * W)).map fun q => ⟨q / W, q % W, 4 * q⟩ := by
  induction n with
  | zero => rw [Nat.zero_mul]; rfl
  | succ n ih =>
    have hlast : callMoves (4 * W) 0 0 (n + 1) = callMoves (4 * W) 0 0 n ++ blockMoves (4 * W) n (4 * W * n) := by
      simp [callMoves, List.range_succ, wordsOf_mul]
    rw [hlast, ih, Nat.succ_mul n, List.range_add, List.map_append, List.map_map, blockMoves, wordsOf_mul]
    congr 1
    refine List.map_congr_left fun i hi => ?_
    have hi : i < W := List.mem_range.mp hi
    have hd : (n * W + i) / W = n := by
      rw [Nat.add_comm, Nat.add_mul_div_right _ _ hW, Nat.div_eq_of_lt hi, Nat.zero_add]
    have hm : (n * W + i) % W = i := by rw [Nat.add_comm, Nat.add_mul_mod_self_right, Nat.mod_eq_of_lt hi]
    rw [Function.comp_apply, hd, hm, Nat.mul_add, Nat.mul_assoc, Nat.mul_comm W n]

/-- The data after the first `n` blocks, moved in one piece. -/
def moved (card : Nat → Nat → Word) (wr : Bool) (blk count : Nat) (mem : Mem) (n : Nat) : Dat :=
  { (callMoves blk 0 0 n).foldl (access card) (begin wr blk count mem) with actual := n }

theorem accesses_actual (l : List Move) (n : Nat) : ∀ t, l.foldl (access card) { t with actual := n } =
    { l.foldl (access card) t with actual := n } := by
  induction l with
  | nil => exact fun t => rfl
  | cons mv l ih =>
    intro t
    have h1 : access card { t with actual := n } mv = { access card t mv with actual := n } := by
      unfold access
      split_ifs <;> rfl
    rw [List.foldl_cons, h1, ih, List.foldl_cons]

theorem callMoves_add (W m n : Nat) :
    callMoves (4 * W) 0 0 (m + n) = callMoves (4 * W) 0 0 m ++ callMoves (4 * W) m (4 * W * m) n := by
  unfold callMoves
  rw [List.range_add, List.flatMap_append, List.flatMap_map, wordsOf_mul]
  congr 1
  refine congrArg (fun f => List.flatMap f (List.range n)) (funext fun j => ?_)
  rw [Nat.zero_add, Nat.zero_add, Nat.mul_add]

/-- The blocks that a list of calls moves are moved as in one piece. -/
theorem pios_words (W : Nat) (readies : List (Nat → Bool)) :
    pios card wr (4 * W) count mem readies =
      moved card wr (4 * W) count mem (pios card wr (4 * W) count mem readies).actual := by
  induction readies using List.reverseRecOn with
  | nil => rfl
  | append_singleton l r ih =>
    have hblk : (pios card wr (4 * W) count mem l).blk = 4 * W := (going l).blk
    rw [pios_append, List.foldl_cons, List.foldl_nil, sdhcPio_eq, hblk]
    generalize (pios card wr (4 * W) count mem l).actual = a at ih ⊢
    generalize run r _ 0 = n
    rw [ih, moved, moved, accesses_actual, callMoves_add, List.foldl_append]

/-- The memory at `a`, when all the accesses that reach `a` bring the same there. -/
theorem reads_apply (a : Nat) (v : Byte) (l : List Move)
    (hv : ∀ mv ∈ l, mv.addr ≤ a ∧ a < mv.addr + 4 → byte (card mv.block mv.word) (a - mv.addr) = v) :
    ∀ t : Dat, t.wr = false → (l.foldl (access card) t).mem a =
      if ∃ mv ∈ l, mv.addr ≤ a ∧ a < mv.addr + 4 then v else t.mem a := by
  induction l with
  | nil => exact fun t _ => (if_neg (by simp)).symm
  | cons mv l ih =>
    intro t hwr
    have hstep : (access card t mv).mem = store t.mem mv.addr (card mv.block mv.word) := by
      rw [access, hwr, if_neg Bool.false_ne_true]
    rw [List.foldl_cons, ih (fun mv' hm => hv mv' (List.mem_cons_of_mem _ hm)) _ ((access_same card t mv).wr.trans hwr), hstep, store]
    have hmv := hv mv List.mem_cons_self
    by_cases hin : mv.addr ≤ a ∧ a < mv.addr + 4
    · rw [if_pos hin, hmv hin, ite_self, if_pos ⟨mv, List.mem_cons_self, hin⟩]
    · rw [if_neg hin]
      simp only [List.mem_cons, exists_eq_or_imp, hin, false_or]

variable (card) in
theorem writes_sent (l : List Move) : ∀ t : Dat, t.wr = true → (l.foldl (access card) t).mem = t.mem ∧
    (l.foldl (access card) t).sent = t.sent ++ l.map fun mv => load t.mem mv.addr := by
  induction l with
  | nil => exact fun t _ => ⟨rfl, (List.append_nil _).symm⟩
  | cons mv l ih =>
    intro t hwr
    have hstep : access card t mv = { t with moves := t.moves ++ [mv], sent := t.sent ++ [load t.mem mv.addr] } := by
      rw [access, hwr, if_pos rfl]
    obtain ⟨hmem, hsent⟩ := ih (access card t mv) ((access_same card t mv).wr.trans hwr)
    rw [hstep] at hmem hsent
    rw [List.foldl_cons, hstep]
    refine ⟨hmem, hsent.trans ?_⟩
    rw [List.map_cons, List.append_assoc, List.singleton_append]

section Words

variable {W : Nat} (hW : 0 < W) (n : Nat)
include hW

theorem mem_words (mv : Move) : mv ∈ callMoves (4 * W) 0 0 n ↔ ∃ q < n * W, mv = ⟨q / W, q % W, 4 * q⟩ := by
  rw [callMoves_words W hW, List.mem_map]
  constructor
  · rintro ⟨q, hq, rfl⟩
    exact ⟨q, List.mem_range.mp hq, rfl⟩
  · rintro ⟨q, hq, rfl⟩
    exact ⟨q, List.mem_range.mpr hq, rfl⟩

/-- The words reach the bytes of the blocks. -/
theorem reached_iff (a : Nat) : (∃ mv ∈ callMoves (4 * W) 0 0 n, mv.addr ≤ a ∧ a < mv.addr + 4) ↔ a < n * (4 * W) := by
  constructor
  · rintro ⟨mv, hm, hlo, hhi⟩
    obtain ⟨q, hq, rfl⟩ := (mem_words hW n mv).mp hm
    rw [Nat.mul_left_comm]
    dsimp only at hhi
    omega
  · intro ha
    rw [Nat.mul_left_comm] at ha
    refine ⟨_, (mem_words hW n _).mpr ⟨a / 4, by omega, rfl⟩, ?_⟩
    dsimp only
    omega

theorem reached_block_iff {b : Nat} (hb : b < n) (a : Nat) :
    (∃ mv ∈ callMoves (4 * W) 0 0 n, mv.block = b ∧ mv.addr ≤ a ∧ a < mv.addr + 4) ↔
      b * (4 * W) ≤ a ∧ a < (b + 1) * (4 * W) := by
  have hblock : ∀ q, q / W = b ↔ b * W ≤ q ∧ q < (b + 1) * W := by
    intro q
    rw [Nat.div_eq_iff hW, Nat.succ_mul]
    omega
  have hn : (b + 1) * W ≤ n * W := Nat.mul_le_mul_right W hb
  rw [Nat.mul_left_comm, Nat.mul_left_comm (b + 1)]
  constructor
  · rintro ⟨mv, hm, hmb, hlo, hhi⟩
    obtain ⟨q, hq, rfl⟩ := (mem_words hW n mv).mp hm
    have hq := (hblock q).mp hmb
    dsimp only at hlo hhi
    omega
  · intro ha
    refine ⟨_, (mem_words hW n _).mpr ⟨a / 4, by omega, rfl⟩, (hblock _).mpr (by omega), ?_⟩
    dsimp only
    omega

/-- The words moved in one piece are where they should be. -/
theorem placed_moved (hn : n ≤ count) : Placed card mem (moved card wr (4 * W) count mem n) := by
  have hs := accesses_same card (callMoves (4 * W) 0 0 n) (begin wr (4 * W) count mem)
  have hmoves : (moved card wr (4 * W) count mem n).moves = callMoves (4 * W) 0 0 n := accesses_moves _ _
  have hblk : (moved card wr (4 * W) count mem n).blk = 4 * W := hs.blk
  have hcount : (moved card wr (4 * W) count mem n).count = count := hs.count
  have hwr : (moved card wr (4 * W) count mem n).wr = wr := hs.wr
  constructor
  · rw [hmoves, hblk]
    simp [callMoves, blockMoves, List.map_flatMap, Function.comp_def, moved]
  · intro b hb a
    rw [hmoves, hblk]
    exact reached_block_iff hW n hb a
  · rw [hmoves, hblk, hcount]
    intro mv hm
    obtain ⟨q, hq, rfl⟩ := (mem_words hW n mv).mp hm
    have hle : n * W ≤ count * W := Nat.mul_le_mul_right W hn
    rw [Nat.mul_left_comm]
    dsimp only
    omega
  · intro hw
    rw [hblk]
    funext a
    have hbytes : ∀ mv ∈ callMoves (4 * W) 0 0 n, mv.addr ≤ a ∧ a < mv.addr + 4 →
        byte (card mv.block mv.word) (a - mv.addr) = cardByte card (4 * W) a := by
      intro mv hm ha
      obtain ⟨q, hq, rfl⟩ := (mem_words hW n mv).mp hm
      dsimp only at ha ⊢
      obtain rfl : q = a / 4 := by omega
      have h1 : a / 4 / W = a / (4 * W) := Nat.div_div_eq_div_mul a 4 W
      have h2 : a / 4 % W = a % (4 * W) / 4 := (Nat.mod_mul_right_div_self a 4 W).symm
      have h3 : a - 4 * (a / 4) = a % (4 * W) % 4 := by
        rw [Nat.mod_mul_right_mod]
        omega
      rw [cardByte, h1, h2, h3]
    refine (reads_apply a _ _ hbytes (begin wr (4 * W) count mem) (hwr.symm.trans hw)).trans ?_
    exact if_congr (reached_iff hW n a) rfl rfl
  · intro hw
    obtain ⟨hmem, hsent⟩ := writes_sent card (callMoves (4 * W) 0 0 n) (begin wr (4 * W) count mem) (hwr.symm.trans hw)
    have hsent : (moved card wr (4 * W) count mem n).sent = (List.range (n * W)).map fun q => load mem (4 * q) := by
      refine hsent.trans ?_
      rw [callMoves_words W hW, List.map_map]
      rfl
    rw [hblk, hsent, wordsOf_mul]
    refine ⟨hmem, by simp [moved], fun b hb j hj => ?_⟩
    have hq : b * W + j / 4 < n * W := by
      have h1 : (b + 1) * W ≤ n * W := Nat.mul_le_mul_right W hb
      rw [Nat.succ_mul] at h1
      omega
    rw [List.getD_eq_getElem?_getD, List.getElem?_map, List.getElem?_range hq, Option.map_some, Option.getD_some, load,
      byte_word32 _ (Nat.mod_lt j (by decide))]
    congr 1
    rw [Nat.mul_left_comm b]
    omega

end Words

/-! ## Blocks with a part of a word -/

/-- The last word of block 0 has gone through the port. -/
def LastWord (blk : Nat) (t : Dat) : Prop := 0 < t.actual ∧ ⟨0, wordsOf blk - 1, 4 * (wordsOf blk - 1)⟩ ∈ t.moves

variable (card) in
theorem sdhcPio_moves (t : Dat) (ready : Nat → Bool) : ∃ l, (sdhcPio card t ready).moves = t.moves ++ l := by
  rw [sdhcPio_eq]
  exact ⟨_, accesses_moves _ _⟩

theorem LastWord.call (h : LastWord blk t) (ready : Nat → Bool) : LastWord blk (sdhcPio card t ready) := by
  obtain ⟨l, hl⟩ := sdhcPio_moves card t ready
  refine ⟨?_, ?_⟩
  · rw [sdhcPio_eq]
    exact Nat.add_pos_left h.1 _
  · rw [hl]
    exact List.mem_append_left _ h.2

theorem LastWord.calls (l : List (Nat → Bool)) (h : LastWord blk t) : LastWord blk (l.foldl (sdhcPio card) t) := by
  induction l generalizing t with
  | nil => exact h
  | cons r l ih => exact ih (h.call r)

theorem lastWord_first (hblk : 0 < blk) (hcount : 0 < count) (hr : ready 0 = true) :
    LastWord blk (sdhcPio card (begin wr blk count mem) ready) := by
  obtain ⟨c, rfl⟩ := Nat.exists_eq_add_one.mpr hcount
  have hrun : run ready (c + 1) 0 = run ready c 1 + 1 := by rw [run, if_pos hr]
  have hwords : wordsOf blk - 1 < wordsOf blk := by
    unfold wordsOf
    omega
  rw [sdhcPio_eq]
  refine ⟨?_, ?_⟩
  · change 0 < 0 + run ready (c + 1) 0
    omega
  · change _ ∈ ((callMoves blk 0 (blk * 0) (run ready (c + 1) 0)).foldl (access card) _).moves
    rw [accesses_moves, hrun, callMoves_succ]
    refine List.mem_append_right _ (List.mem_append_left _ (List.mem_map.mpr ⟨_, List.mem_range.mpr hwords, ?_⟩))
    rw [Nat.mul_zero, Nat.zero_add]

/-- Once a call has found the FIFO ready, block 0 has gone through the port. -/
theorem lastWord_pios (hblk : 0 < blk) (hcount : 0 < count) {readies : List (Nat → Bool)} (hr : ∃ r ∈ readies, r 0 = true) :
    LastWord blk (pios card wr blk count mem readies) := by
  induction readies using List.reverseRecOn with
  | nil => simp at hr
  | append_singleton l r ih =>
    rw [pios_append, List.foldl_cons, List.foldl_nil]
    by_cases hl : ∃ r ∈ l, r 0 = true
    · exact (ih hl).call r
    · obtain ⟨r', hmem, hr'⟩ := hr
      have hzero : (pios card wr blk count mem l).actual = 0 := pios_stuck l (.inr (by simpa using hl))
      rw [pios_none l hzero]
      rcases List.mem_append.mp hmem with h | h
      · exact absurd ⟨r', h, hr'⟩ hl
      · obtain rfl := List.mem_singleton.mp h
        exact lastWord_first hblk hcount hr'

/-- The last word of a block with a part of a word is not inside the block. -/
theorem LastWord.not_placed (h : LastWord blk t) (hb : t.blk = blk) (hblk : ¬ 4 ∣ blk) : ¬ Placed card mem t := by
  intro hp
  have hlast := (hp.place 0 h.1 (4 * (wordsOf blk - 1) + 3)).mp ⟨_, h.2, rfl, by dsimp only; omega⟩
  rw [hb] at hlast
  unfold wordsOf at hlast
  omega

/-- The bytes of a transfer are where they should be, however it is split, when the block size is a multiple of four;
otherwise as long as no block was moved. -/
theorem placed_iff (wr : Bool) (blk count : Nat) (hblk : 0 < blk) (mem : Mem) (card : Nat → Nat → Word)
    (readies : List (Nat → Bool)) :
    Right card wr blk count mem readies ↔ 4 ∣ blk ∨ count = 0 ∨ ∀ r ∈ readies, r 0 = false := by
  constructor
  · intro h
    by_contra hneg
    obtain ⟨hdvd, hcount, hr⟩ : ¬ 4 ∣ blk ∧ count ≠ 0 ∧ ∃ r ∈ readies, r 0 = true := by simpa using hneg
    have hlast : LastWord blk (pios card wr blk count mem readies) := lastWord_pios hblk (Nat.pos_of_ne_zero hcount) hr
    exact hlast.not_placed (going readies).blk hdvd h.1
  · rintro (⟨W, rfl⟩ | hstuck)
    · have hle : (pios card wr (4 * W) count mem readies).actual ≤ count := (going readies).actual
      refine ⟨?_, fun readies' hsame => ?_⟩
      · rw [pios_words]
        exact placed_moved (by omega) _ hle
      · rw [pios_words, hsame, ← pios_words]
    · have hzero : (pios card wr blk count mem readies).actual = 0 := pios_stuck readies hstuck
      refine ⟨?_, fun readies' hsame => ?_⟩
      · rw [pios_none readies hzero]
        exact placed_begin
      · rw [pios_none readies' (hsame.trans hzero), pios_none readies hzero]

/-- Two blocks of eight bytes are read by two calls. -/
theorem placed_iff_eight : Right (fun b i => BitVec.ofNat 32 (b + i)) false 8 2 (fun _ => 0#8) [(· == 0), (· == 0)] :=
  (placed_iff false 8 2 (by decide) (fun _ => 0#8) (fun b i => BitVec.ofNat 32 (b + i)) [(· == 0), (· == 0)]).mpr (.inl (by decide))

/-- A block of six bytes is read into eight. -/
theorem six_bytes_overrun : (pios (fun _ _ => 0xFFFFFFFF#32) false 6 1 (fun _ => 0#8) [fun _ => true]).mem 7 = 0xFF#8 ∧
    ¬ Right (fun _ _ => 0xFFFFFFFF#32) false 6 1 (fun _ => 0#8) [fun _ => true] := by
  refine ⟨by decide +kernel, fun h => ?_⟩
  have hin := h.1.inside ⟨0, 1, 4⟩ (by decide +kernel)
  exact absurd hin (by decide +kernel)

end Emlinux.Sdhc.Pio
