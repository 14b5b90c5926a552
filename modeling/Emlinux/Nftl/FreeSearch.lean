import Emlinux.Nftl.Pool

/-!
# The search for a free block

`nftl_get_free_block` walks `blockstatus` from `lastfree` on. The walk wraps behind index `nr_blks`, not behind the
last block, so a walk that reaches the end of the chip also reads the cell of a block that does not exist.

* `findFree_first`, `findFree_skip`: a walk up to the first free cell, and a walk over the end.
* `getFreeBlock_next`, `getFreeBlock_wrapped`: the block that a search takes.
* `freeSearch_exact_iff`: the search is the one that the allocator wants, on the blocks of the chip only, exactly
  when it need not go over the end.
-/

namespace Emlinux.Nftl

open Lib

/-! ## The cells that a search reads -/

section probes

variable (d : Device)

/-- The indices of `blockstatus` that `findFree` reads. -/
def probes (bs : Nat → Bool) : Nat → Nat → List Nat
  | 0, _ => []
  | k + 1, nextfree =>
    nextfree :: (if nextfree < 4096 ∧ bs nextfree = false then
      probes bs k (if d.blks < nextfree + 1 then 0 else nextfree + 1) else [])

/-- The indices of `blockstatus` that `nftl_get_free_block` reads. -/
def freeBlockReads (al : Alloc) : List Nat :=
  if al.freeBlkcnt = 0 then []
  else probes d al.blockstatus (2 * d.blks - al.lastfree) (if d.blks < al.lastfree then 0 else al.lastfree)

end probes

section walk

variable {d : Device} {bs bs' : Nat → Bool}

/-- The walk depends on no other cell. -/
theorem findFree_congr (k i : Nat) (h : ∀ j ∈ probes d bs k i, bs' j = bs j) :
    findFree d bs' k i = findFree d bs k i := by
  induction k generalizing i with
  | zero => rfl
  | succ k ih =>
    have hi : bs' i = bs i := h i (by simp [probes])
    simp only [findFree, hi]
    by_cases hlt : i < 4096
    · rw [if_pos hlt, if_pos hlt]
      by_cases hb : bs i = true
      · rw [if_pos hb, if_pos hb]
      · rw [if_neg hb, if_neg hb]
        apply ih
        intro j hj
        apply h
        rw [probes, if_pos ⟨hlt, by simpa using hb⟩]
        exact List.mem_cons_of_mem _ hj
    · rw [if_neg hlt, if_neg hlt]

/-- A walk up to the first free cell. -/
theorem findFree_first {b : Nat} (hb : bs b = true) (hle : b ≤ d.blks) (hlt : b < 4096) (k i : Nat) (hi : i ≤ b)
    (hk : b - i < k) (hfirst : ∀ j, i ≤ j → j < b → bs j = false) :
    findFree d bs k i = .ok (some b) ∧ ∀ j ∈ probes d bs k i, j ≤ b := by
  induction k generalizing i with
  | zero => omega
  | succ k ih =>
    by_cases heq : i = b
    · subst heq
      refine ⟨by rw [findFree, if_pos hlt, if_pos hb], fun j hj => ?_⟩
      rw [probes, if_neg (by simp [hb])] at hj
      exact le_of_eq (List.mem_singleton.mp hj)
    · have hbi : bs i = false := hfirst i (le_refl i) (by omega)
      have hnext : ¬ d.blks < i + 1 := by omega
      obtain ⟨h1, h2⟩ := ih (i + 1) (by omega) (by omega) (fun j h1 h2 => hfirst j (by omega) h2)
      refine ⟨?_, fun j hj => ?_⟩
      · rw [findFree, if_pos (by omega), if_neg (by simp [hbi]), if_neg hnext]
        exact h1
      · rw [probes, if_pos ⟨by omega, hbi⟩, if_neg hnext] at hj
        rcases List.mem_cons.mp hj with rfl | hj
        · exact hi
        · exact h2 j hj

/-- A walk over the end of the table reads the cell behind the last block, and starts again. -/
theorem findFree_skip (hd : d.blks < 4096) (k i : Nat) (hi : i ≤ d.blks) (hk : d.blks - i < k)
    (hnone : ∀ j, i ≤ j → j ≤ d.blks → bs j = false) :
    findFree d bs k i = findFree d bs (k - (d.blks - i + 1)) 0 := by
  induction k generalizing i with
  | zero => omega
  | succ k ih =>
    have hbi : bs i = false := hnone i (le_refl i) hi
    rw [findFree, if_pos (by omega), if_neg (by simp [hbi])]
    by_cases hend : i = d.blks
    · rw [if_pos (by omega), hend]
      congr 1
      omega
    · rw [if_neg (by omega), ih (i + 1) (by omega) (by omega) (fun j h1 h2 => hnone j (by omega) h2)]
      congr 1
      omega

/-- Without a free block up to the end of the chip the walk reads the cell of block `nr_blks`. -/
theorem mem_probes_end (k i : Nat) (hi : i ≤ d.blks) (hk : d.blks - i < k)
    (hnone : ∀ j, i ≤ j → j < d.blks → bs j = false) : d.blks ∈ probes d bs k i := by
  induction k generalizing i with
  | zero => omega
  | succ k ih =>
    by_cases hend : i = d.blks
    · subst hend
      simp [probes]
    · have hblks := d.blks_le
      rw [probes, if_pos ⟨by omega, hnone i (le_refl i) (by omega)⟩, if_neg (by omega)]
      exact List.mem_cons_of_mem _ (ih (i + 1) (by omega) (by omega) (fun j h1 h2 => hnone j (by omega) h2))

/-- On a chip of 4096 blocks that cell is behind the array. -/
theorem findFree_overrun (hd : d.blks = 4096) (k i : Nat) (hi : i ≤ d.blks) (hk : d.blks - i < k)
    (hnone : ∀ j, i ≤ j → j < d.blks → bs j = false) : findFree d bs k i = .error (.bounds .blockstatus 4096) := by
  induction k generalizing i with
  | zero => omega
  | succ k ih =>
    by_cases hend : i = d.blks
    · rw [findFree, if_neg (by omega), hend, hd]
    · rw [findFree, if_pos (by omega), if_neg (by simp [hnone i (le_refl i) (by omega)]), if_neg (by omega)]
      exact ih (i + 1) (by omega) (by omega) (fun j h1 h2 => hnone j (by omega) h2)

/-- Without a free cell the walk ends with nothing. -/
theorem findFree_none (hd : d.blks < 4096) (k i : Nat) (hi : i ≤ d.blks) (hnone : ∀ j, j ≤ d.blks → bs j = false) :
    findFree d bs k i = .ok none := by
  induction k generalizing i with
  | zero => rfl
  | succ k ih =>
    rw [findFree, if_pos (by omega), if_neg (by simp [hnone i hi])]
    by_cases hend : d.blks < i + 1
    · rw [if_pos hend]
      exact ih 0 (Nat.zero_le _)
    · rw [if_neg hend]
      exact ih (i + 1) (by omega)

end walk

/-! ## The block that a search takes -/

/-- Block `b` of the chip is free, and no free block comes before it on the way round from `last`. -/
def IsNextFree (d : Device) (bs : Nat → Bool) (last b : Nat) : Prop :=
  b < d.blks ∧ bs b = true ∧
    ∀ c, c < d.blks → bs c = true → (b + d.blks - last) % d.blks ≤ (c + d.blks - last) % d.blks

section search

variable {d : Device} {s : St} {b : Nat}

theorem cyclic_up {n last b : Nat} (h1 : last ≤ b) (h2 : b < n) : (b + n - last) % n = b - last := by
  rw [show b + n - last = (b - last) + n by omega, Nat.add_mod_right, Nat.mod_eq_of_lt (by omega)]

theorem cyclic_down {n last b : Nat} (h1 : b < last) (h2 : last < n) : (b + n - last) % n = b + n - last :=
  Nat.mod_eq_of_lt (by omega)

/-- The first free block at or after `last` is the next one. -/
theorem isNextFree_up {bs : Nat → Bool} {last : Nat} (hb : bs b = true) (hle : last ≤ b) (hlt : b < d.blks)
    (hfirst : ∀ j, last ≤ j → j < b → bs j = false) : IsNextFree d bs last b := by
  refine ⟨hlt, hb, fun c hc hfree => ?_⟩
  rw [cyclic_up hle hlt]
  by_cases h : last ≤ c
  · rw [cyclic_up h hc]
    have : ¬ c < b := fun hcb => by simp [hfirst c h hcb] at hfree
    omega
  · rw [cyclic_down (by omega) (by omega)]
    omega

/-- With none there, it is the first free block of the chip. -/
theorem isNextFree_down {bs : Nat → Bool} {last : Nat} (hb : bs b = true) (hlt : b < d.blks) (hlast : last < d.blks)
    (hfirst : ∀ j, j < b → bs j = false) (hnone : ∀ j, last ≤ j → j < d.blks → bs j = false) :
    IsNextFree d bs last b := by
  refine ⟨hlt, hb, fun c hc hfree => ?_⟩
  have hdown : ∀ x, x < d.blks → bs x = true → x < last := by
    intro x hx hfx
    by_contra hle
    simp [hnone x (by omega) hx] at hfx
  rw [cyclic_down (hdown b hlt hb) hlast, cyclic_down (hdown c hc hfree) hlast]
  have : ¬ c < b := fun hcb => by simp [hfirst c hcb] at hfree
  omega

theorem getFreeBlock_zero (h : s.al.freeBlkcnt = 0) :
    (nftlGetFreeBlock d s).res = .ok noBlock ∧ (nftlGetFreeBlock d s).st = s := by
  have he : nftlGetFreeBlock d s = noFreeBlock d s := by
    rw [nftlGetFreeBlock, Prog.get_bind, if_pos h]
  rw [he]
  exact ⟨rfl, rfl⟩

/-- The rest of a search whose walk did not fault. -/
theorem getFreeBlock_some (h : s.al.freeBlkcnt ≠ 0) (hlast : s.al.lastfree ≤ d.blks) (hb : b ≤ d.blks)
    (hfind : findFree d s.al.blockstatus (2 * d.blks - s.al.lastfree) s.al.lastfree = .ok (some b)) :
    nftlGetFreeBlock d s = ⟨.ok b, { s with al := s.al.take b }, []⟩ := by
  rw [nftlGetFreeBlock, Prog.get_bind, if_neg h]
  simp only [if_neg (show ¬ d.blks < s.al.lastfree by omega), hfind]
  show (nftlSetBlockNofree d b >>= fun _ => pure b) s = _
  rw [nftlSetBlockNofree, if_neg (by omega)]
  rfl

theorem getFreeBlock_none (h : s.al.freeBlkcnt ≠ 0) (hlast : s.al.lastfree ≤ d.blks)
    (hfind : findFree d s.al.blockstatus (2 * d.blks - s.al.lastfree) s.al.lastfree = .ok none) :
    (nftlGetFreeBlock d s).res = .ok noBlock ∧ (nftlGetFreeBlock d s).st = s := by
  have he : nftlGetFreeBlock d s = noFreeBlock d s := by
    rw [nftlGetFreeBlock, Prog.get_bind, if_neg h]
    simp only [if_neg (show ¬ d.blks < s.al.lastfree by omega), hfind]
    rfl
  rw [he]
  exact ⟨rfl, rfl⟩

theorem getFreeBlock_error {e : Fault} (h : s.al.freeBlkcnt ≠ 0) (hlast : s.al.lastfree ≤ d.blks)
    (hfind : findFree d s.al.blockstatus (2 * d.blks - s.al.lastfree) s.al.lastfree = .error e) :
    nftlGetFreeBlock d s = ⟨.error e, s, []⟩ := by
  rw [nftlGetFreeBlock, Prog.get_bind, if_neg h]
  simp only [if_neg (show ¬ d.blks < s.al.lastfree by omega), hfind]
  rfl

/-- A search that finds a block before the end of the chip. -/
theorem getFreeBlock_next (h : s.al.freeBlkcnt ≠ 0) (hb : s.al.blockstatus b = true) (hle : s.al.lastfree ≤ b)
    (hlt : b < d.blks) (hfirst : ∀ j, s.al.lastfree ≤ j → j < b → s.al.blockstatus j = false) :
    nftlGetFreeBlock d s = ⟨.ok b, { s with al := s.al.take b }, []⟩ ∧ ∀ i ∈ freeBlockReads d s.al, i ≤ b := by
  have hblks := d.blks_le
  obtain ⟨hfind, hreads⟩ := findFree_first (d := d) hb (by omega) (by omega) (2 * d.blks - s.al.lastfree) s.al.lastfree hle
    (by omega) hfirst
  refine ⟨getFreeBlock_some h (by omega) (by omega) hfind, fun i hi => ?_⟩
  rw [freeBlockReads, if_neg h, if_neg (by omega)] at hi
  exact hreads i hi

/-- A search over the end takes the right block all the same, as long as the table has a cell for block `nr_blks`
and does not mark it free. -/
theorem getFreeBlock_wrapped (hd : d.blks < 4096) (h : s.al.freeBlkcnt ≠ 0) (hlast : s.al.lastfree < d.blks)
    (hb : s.al.blockstatus b = true) (hlt : b < d.blks) (hfirst : ∀ j, j < b → s.al.blockstatus j = false)
    (hnone : ∀ j, s.al.lastfree ≤ j → j ≤ d.blks → s.al.blockstatus j = false) :
    IsNextFree d s.al.blockstatus s.al.lastfree b ∧
      nftlGetFreeBlock d s = ⟨.ok b, { s with al := s.al.take b }, []⟩ := by
  have hbl : b < s.al.lastfree := by
    by_contra hle
    simp [hnone b (by omega) (by omega)] at hb
  refine ⟨isNextFree_down hb hlt hlast hfirst (fun j h1 h2 => hnone j h1 (by omega)), ?_⟩
  apply getFreeBlock_some h (by omega) (by omega)
  rw [findFree_skip hd _ _ (by omega) (by omega) hnone]
  exact (findFree_first hb (by omega) (by omega) _ 0 (Nat.zero_le b) (by omega) (fun j _ hj => hfirst j hj)).1

/-! ## Exactness -/

/-- What a search for a free block is to do: nothing when no block is free, else take the next free block, without
a look at anything that is not a block. -/
def SearchExact (d : Device) (s : St) : Prop :=
  (((nftlGetFreeBlock d s).res = .ok noBlock ∧ (nftlGetFreeBlock d s).st = s) ↔
    ∀ b, b < d.blks → s.al.blockstatus b = false) ∧
  ((∃ b, b < d.blks ∧ s.al.blockstatus b = true) →
    ∃ b, IsNextFree d s.al.blockstatus s.al.lastfree b ∧ (nftlGetFreeBlock d s).res = .ok b ∧
      (nftlGetFreeBlock d s).st = { s with al := { s.al with
        blockstatus := Function.update s.al.blockstatus b false
        freeBlkcnt := s.al.freeBlkcnt - 1
        lastfree := b } }) ∧
  ∀ i ∈ freeBlockReads d s.al, i < d.blks

theorem freeCount_eq_zero {bs : Nat → Bool} {n : Nat} : freeCount bs n = 0 ↔ ∀ b, b < n → bs b = false := by
  rw [freeCount, Finset.card_eq_zero, Finset.filter_eq_empty_iff]
  simp

/-- No block is free, or the walk from `lastfree` meets a free block before the end of the chip. -/
theorem freeSearch_exact_iff (d : Device) (s : St) (hlast : s.al.lastfree < d.blks)
    (hcount : s.al.freeBlkcnt = freeCount s.al.blockstatus d.blks) :
    SearchExact d s ↔ (∀ b, b < d.blks → s.al.blockstatus b = false) ∨
      ∃ b, s.al.lastfree ≤ b ∧ b < d.blks ∧ s.al.blockstatus b = true := by
  have hzero : s.al.freeBlkcnt = 0 ↔ ∀ b, b < d.blks → s.al.blockstatus b = false := by
    rw [hcount]
    exact freeCount_eq_zero
  constructor
  · rintro ⟨-, -, hreads⟩
    by_contra hcon
    obtain ⟨hsome, hnone⟩ := not_or.mp hcon
    have hend : d.blks ∈ freeBlockReads d s.al := by
      rw [freeBlockReads, if_neg (fun h0 => hsome (hzero.mp h0)), if_neg (by omega)]
      apply mem_probes_end _ _ (by omega) (by omega)
      intro j h1 h2
      by_contra hj
      exact hnone ⟨j, h1, h2, by simpa using hj⟩
    exact lt_irrefl _ (hreads _ hend)
  · intro h
    by_cases h0 : s.al.freeBlkcnt = 0
    · have hall := hzero.mp h0
      refine ⟨⟨fun _ => hall, fun _ => getFreeBlock_zero h0⟩, ?_, ?_⟩
      · rintro ⟨b, hb, hfree⟩
        simp [hall b hb] at hfree
      · simp [freeBlockReads, h0]
    · have hex := h.resolve_left (fun hall => h0 (hzero.mpr hall))
      obtain ⟨hle, hlt, hfree⟩ := Nat.find_spec hex
      have hfirst : ∀ j, s.al.lastfree ≤ j → j < Nat.find hex → s.al.blockstatus j = false := by
        intro j h1 h2
        by_contra hj
        exact Nat.find_min hex h2 ⟨h1, by omega, by simpa using hj⟩
      obtain ⟨hout, hreads⟩ := getFreeBlock_next h0 hfree hle hlt hfirst
      have hcnt : (s.al.take (Nat.find hex)).freeBlkcnt = s.al.freeBlkcnt - 1 := by
        have h1 := freeCount_le s.al.blockstatus d.blks
        have h2 := d.blks_le
        show (s.al.freeBlkcnt + 65535) % 65536 = _
        omega
      rw [SearchExact, hout]
      refine ⟨⟨fun hno => ?_, fun hall => absurd (hzero.mpr hall) h0⟩, fun _ => ?_, fun i hi => ?_⟩
      · have hblks := d.blks_lt_noBlock
        have : Nat.find hex = noBlock := Except.ok.inj hno.1
        omega
      · refine ⟨_, isNextFree_up hfree hle hlt hfirst, rfl, ?_⟩
        rw [← hcnt]
        rfl
      · exact lt_of_le_of_lt (hreads i hi) hlt

end search

/-! ## A chip of four blocks -/

theorem fourBlocks_pos : 0 < 4 := by decide

/-- Four blocks of four pages, whose program operations fail as given. -/
def fourBlocks (progFail : Nat → Bool) : Device where
  writesize := 512
  pgs := 4
  blks := 4
  pgs_pos := fourBlocks_pos
  pgs_le := by decide
  blks_pos := fourBlocks_pos
  blks_le := by decide
  ws_ge := ws_ge_512
  ws_le := ws_le_512
  ws_even := ws_even_512
  progFail := progFail
  torn _ := none
  eraseFail _ := false
  corrected _ := 0
  junk _ := ffData
  junkInfo _ := 0

/-- The erased chip with the blocks of `free` on the free list. -/
def freeState (free : List Nat) (freeBlkcnt lastfree : Nat) : St where
  nand := ⟨fun _ _ => none, fun _ => false, 0, 0⟩
  al := ⟨fun b => free.contains b, freeBlkcnt, lastfree, noBlock, 0, []⟩
  mt := ⟨fun _ => noBlock, LogTab.zero, noBlock, 0xff, ffData⟩
  dl := LogTab.zero
  gBadblkcnt := 0
  gStoragesize := 0

theorem freeSearch_exact_two : SearchExact (fourBlocks fun _ => false) (freeState [2] 1 1) :=
  (freeSearch_exact_iff _ (freeState [2] 1 1) (by decide) (by decide)).mpr (Or.inr ⟨2, by decide, by decide, by decide⟩)

/-- Block 0 is the only free one and the search starts at block 1: it reads the cell of a fifth block. -/
theorem freeSearch_reads_past_end : (freeState [0] 1 1).al.lastfree < (fourBlocks fun _ => false).blks ∧
    (freeState [0] 1 1).al.freeBlkcnt
      = freeCount (freeState [0] 1 1).al.blockstatus (fourBlocks fun _ => false).blks ∧
    ¬ SearchExact (fourBlocks fun _ => false) (freeState [0] 1 1) := by
  refine ⟨by decide, by decide, fun h => ?_⟩
  exact absurd (h.2.2 4 (by decide)) (by decide)

end Emlinux.Nftl
