import Emlinux.Nftl.Contract

/-!
# The block pool

Every block of the chip has one owner (`Role`). The blocks of the role `pool` are those the allocator
accounts for: free blocks, garbage blocks, and the GarbageTab block. `Pool` says how `blockstatus`,
`free_blkcnt`, the garbage list and the GarbageTab block account for them; `AllocInv` adds what the flash
holds in the GarbageTab block.

Taking a block off the pool (`nftl_get_free_block`) and giving blocks to it (`nftl_addto_gt`) are the only
operations of the rest of the translation layer on it: `sat_getFreeBlock` and `sat_addtoGt`.
-/

namespace Emlinux.Nftl

open Lib

/-- What a block is used for. `temp` is a block taken off the pool and not yet in a table. -/
inductive Role where
  | pool | bad | data (lba : Nat) | dl (lba : Nat) | mt (mtindex : Nat) | mtl (mtindex : Nat) | temp
deriving DecidableEq, Repr

abbrev Own := Nat → Role

/-- The blocks of `g` go to the pool. -/
def Own.release (own : Own) (g : List Nat) : Own := fun b => if b ∈ g then .pool else own b

theorem Device.blks_lt_noBlock (d : Device) : d.blks < noBlock :=
  Nat.lt_of_le_of_lt d.blks_le (by decide)

/-- The number of free blocks below `n`. -/
def freeCount (bs : Nat → Bool) (n : Nat) : Nat := ((Finset.range n).filter fun b => bs b = true).card

theorem freeCount_le (bs : Nat → Bool) (n : Nat) : freeCount bs n ≤ n := by
  have := Finset.card_filter_le (Finset.range n) (fun b => bs b = true)
  simpa [freeCount] using this

theorem freeCount_take {bs : Nat → Bool} {n b : Nat} (hb : b < n) (h : bs b = true) :
    freeCount (Function.update bs b false) n + 1 = freeCount bs n := by
  have hset : (Finset.range n).filter (fun x => Function.update bs b false x = true)
      = ((Finset.range n).filter fun x => bs x = true).erase b := by
    ext x
    by_cases hx : x = b
    · subst hx; simp
    · simp [hx]
  have hmem : b ∈ (Finset.range n).filter fun x => bs x = true := by simp [hb, h]
  rw [freeCount, hset, Finset.card_erase_add_one hmem, freeCount]

theorem freeCount_give {bs : Nat → Bool} {n b : Nat} (hb : b < n) (h : bs b = false) :
    freeCount (Function.update bs b true) n = freeCount bs n + 1 := by
  have := freeCount_take (show b < n from hb) (show Function.update bs b true b = true by simp)
  rw [Function.update_idem, show Function.update bs b false = bs by rw [← h]; exact Function.update_eq_self b bs]
    at this
  omega

/-! ## The accounting -/

namespace Alloc

/-- `nftl_set_block_nofree`. -/
def take (al : Alloc) (b : Nat) : Alloc :=
  { al with
    blockstatus := Function.update al.blockstatus b false
    freeBlkcnt := (al.freeBlkcnt + 65535) % 65536
    lastfree := b }

/-- `nftl_set_block_free` of a block that is not free. -/
def give (al : Alloc) (b : Nat) : Alloc :=
  { al with
    blockstatus := Function.update al.blockstatus b true
    freeBlkcnt := (al.freeBlkcnt + 1) % 65536 }

end Alloc

/-- The pool is made of the free blocks, the garbage `gar` and the GarbageTab block `gt`, without overlap;
free blocks are erased and counted. -/
structure Pool (d : Device) (own : Own) (fl : Flash) (al : Alloc) (gar : List Nat) (gt : Nat) : Prop where
  mem : ∀ b, own b = .pool ↔ b < d.blks ∧ (al.blockstatus b = true ∨ b ∈ gar ∨ b = gt)
  free_lt : ∀ b, al.blockstatus b = true → b < d.blks
  free_gar : ∀ b, al.blockstatus b = true → b ∉ gar
  free_gt : ∀ b, al.blockstatus b = true → b ≠ gt
  gt_gar : gt ∉ gar
  gar_nodup : gar.Nodup
  gar_lt : ∀ b ∈ gar, b < d.blks
  gt_lt : gt = noBlock ∨ gt < d.blks
  erased : ∀ b, al.blockstatus b = true → ∀ p, p < d.pgs → fl b p = none
  count : al.freeBlkcnt = freeCount al.blockstatus d.blks
  last : al.lastfree < d.blks

section pool

variable {d : Device} {own : Own} {fl : Flash} {al : Alloc} {gar g : List Nat} {gt b : Nat} {r : Role}

theorem Pool.own_free (h : Pool d own fl al gar gt) (hb : al.blockstatus b = true) : own b = .pool :=
  (h.mem b).mpr ⟨h.free_lt b hb, Or.inl hb⟩

theorem Pool.congr_flash (h : Pool d own fl al gar gt) {fl' : Flash}
    (hfl : ∀ b, al.blockstatus b = true → fl' b = fl b) : Pool d own fl' al gar gt :=
  { h with erased := fun b hb p hp => by rw [hfl b hb]; exact h.erased b hb p hp }

/-- Only the pool and non-pool blocks are told apart. -/
theorem Pool.congr_own (h : Pool d own fl al gar gt) {own' : Own}
    (ho : ∀ b, own' b = .pool ↔ own b = .pool) : Pool d own' fl al gar gt :=
  { h with mem := fun b => (ho b).trans (h.mem b) }

theorem Pool.count_take (h : Pool d own fl al gar gt) (hb : al.blockstatus b = true) :
    (al.take b).freeBlkcnt = freeCount (al.take b).blockstatus d.blks := by
  have h1 := freeCount_take (h.free_lt b hb) hb
  have h2 := freeCount_le al.blockstatus d.blks
  have h3 := d.blks_le
  simp only [Alloc.take]
  rw [h.count, ← h1]
  omega

theorem Pool.free_take (h : Pool d own fl al gar gt) (hb : al.blockstatus b = true) :
    (al.take b).freeBlkcnt + 1 = al.freeBlkcnt := by
  rw [h.count_take hb, h.count]
  exact freeCount_take (h.free_lt b hb) hb

theorem Pool.take (h : Pool d own fl al gar gt) (hb : al.blockstatus b = true) (hr : r ≠ .pool) :
    Pool d (Function.update own b r) fl (al.take b) gar gt := by
  have hfree : ∀ x, (al.take b).blockstatus x = true → x ≠ b ∧ al.blockstatus x = true := by
    intro x hx
    by_cases hxb : x = b
    · subst hxb; simp [Alloc.take] at hx
    · exact ⟨hxb, by simpa [Alloc.take, hxb] using hx⟩
  refine ⟨fun x => ?_, fun x hx => h.free_lt x (hfree x hx).2, fun x hx => h.free_gar x (hfree x hx).2,
    fun x hx => h.free_gt x (hfree x hx).2, h.gt_gar, h.gar_nodup, h.gar_lt, h.gt_lt,
    fun x hx => h.erased x (hfree x hx).2, h.count_take hb, h.free_lt b hb⟩
  by_cases hxb : x = b
  · subst hxb
    have h1 := h.free_gar x hb
    have h2 := h.free_gt x hb
    simp [Alloc.take, hr, h1, h2]
  · simp [Alloc.take, hxb, h.mem x]

/-- A free block becomes the GarbageTab block, which stays in the pool. -/
theorem Pool.takeGt (h : Pool d own fl al gar noBlock) (hb : al.blockstatus b = true) :
    Pool d own fl (al.take b) gar b := by
  have hlt := h.free_lt b hb
  have hblks := d.blks_lt_noBlock
  have hfree : ∀ x, (al.take b).blockstatus x = true → x ≠ b ∧ al.blockstatus x = true := by
    intro x hx
    by_cases hxb : x = b
    · subst hxb; simp [Alloc.take] at hx
    · exact ⟨hxb, by simpa [Alloc.take, hxb] using hx⟩
  refine ⟨fun x => ?_, fun x hx => h.free_lt x (hfree x hx).2, fun x hx => h.free_gar x (hfree x hx).2,
    fun x hx => (hfree x hx).1, h.free_gar b hb, h.gar_nodup, h.gar_lt, Or.inr hlt,
    fun x hx => h.erased x (hfree x hx).2, h.count_take hb, h.free_lt b hb⟩
  by_cases hxb : x = b
  · subst hxb
    simp [h.mem x, hb, hlt]
  · rw [h.mem x]
    simp only [Alloc.take, Function.update_of_ne hxb, hxb, or_false]
    constructor
    · rintro ⟨hx, h1 | h1 | h1⟩
      · exact ⟨hx, Or.inl h1⟩
      · exact ⟨hx, Or.inr h1⟩
      · omega
    · rintro ⟨hx, h1 | h1⟩
      · exact ⟨hx, Or.inl h1⟩
      · exact ⟨hx, Or.inr (Or.inl h1)⟩

theorem Pool.count_give (h : Pool d own fl al gar gt) (hlt : b < d.blks) (hb : al.blockstatus b = false) :
    (al.give b).freeBlkcnt = freeCount (al.give b).blockstatus d.blks := by
  have h1 := freeCount_give hlt hb
  have h2 := freeCount_le al.blockstatus d.blks
  have h3 := d.blks_le
  simp only [Alloc.give]
  rw [h1, h.count]
  omega

/-- Free blocks after `b` was erased and freed. -/
theorem Pool.give_free {x : Nat} (hx : (al.give b).blockstatus x = true) :
    x = b ∨ (x ≠ b ∧ al.blockstatus x = true) := by
  by_cases hxb : x = b
  · exact Or.inl hxb
  · exact Or.inr ⟨hxb, by simpa [Alloc.give, hxb] using hx⟩

/-- A garbage block is erased and freed. -/
theorem Pool.give (h : Pool d own fl al (b :: gar) gt) :
    Pool d own (eraseBlock fl b) (al.give b) gar gt := by
  have hlt := h.gar_lt b (by simp)
  have hnf : al.blockstatus b = false := by
    cases hb : al.blockstatus b with
    | false => rfl
    | true => exact absurd (by simp) (h.free_gar b hb)
  have hnd := List.nodup_cons.mp h.gar_nodup
  have hgt : b ≠ gt := fun e => h.gt_gar (by simp [e])
  refine ⟨fun x => ?_, fun x hx => ?_, fun x hx => ?_, fun x hx => ?_, fun hg => h.gt_gar (by simp [hg]), hnd.2,
    fun x hx => h.gar_lt x (by simp [hx]), h.gt_lt, fun x hx p hp => ?_, h.count_give hlt hnf, h.last⟩
  · rw [h.mem x]
    by_cases hxb : x = b
    · subst hxb; simp [Alloc.give]
    · simp [Alloc.give, hxb]
  · rcases Pool.give_free hx with rfl | ⟨-, hx⟩
    · exact hlt
    · exact h.free_lt x hx
  · rcases Pool.give_free hx with rfl | ⟨-, hx⟩
    · exact hnd.1
    · exact fun hg => h.free_gar x hx (by simp [hg])
  · rcases Pool.give_free hx with rfl | ⟨-, hx⟩
    · exact hgt
    · exact h.free_gt x hx
  · rcases Pool.give_free hx with rfl | ⟨hne, hx⟩
    · simp [eraseBlock]
    · simp only [eraseBlock, Function.update_of_ne hne]
      exact h.erased x hx p hp

/-- The GarbageTab block is erased and freed. -/
theorem Pool.giveGt (h : Pool d own fl al gar gt) (hgt : gt ≠ noBlock) :
    Pool d own (eraseBlock fl gt) (al.give gt) gar noBlock := by
  have hlt := h.gt_lt.resolve_left hgt
  have hblks := d.blks_lt_noBlock
  have hnf : al.blockstatus gt = false := by
    cases hb : al.blockstatus gt with
    | false => rfl
    | true => exact absurd rfl (h.free_gt gt hb)
  refine ⟨fun x => ?_, fun x hx => ?_, fun x hx => ?_, fun x hx => ?_, fun hg => ?_, h.gar_nodup, h.gar_lt,
    Or.inl rfl, fun x hx p hp => ?_, h.count_give hlt hnf, h.last⟩
  · rw [h.mem x]
    by_cases hxb : x = gt
    · subst hxb; simp [Alloc.give]
    · simp only [Alloc.give, Function.update_of_ne hxb, hxb, or_false]
      constructor
      · rintro ⟨hx, h1 | h1⟩
        · exact ⟨hx, Or.inl h1⟩
        · exact ⟨hx, Or.inr (Or.inl h1)⟩
      · rintro ⟨hx, h1 | h1 | h1⟩
        · exact ⟨hx, Or.inl h1⟩
        · exact ⟨hx, Or.inr h1⟩
        · omega
  · rcases Pool.give_free hx with rfl | ⟨-, hx⟩
    · exact hlt
    · exact h.free_lt x hx
  · rcases Pool.give_free hx with rfl | ⟨-, hx⟩
    · exact h.gt_gar
    · exact h.free_gar x hx
  · have : x < d.blks := by
      rcases Pool.give_free hx with rfl | ⟨-, hx⟩
      · exact hlt
      · exact h.free_lt x hx
    omega
  · have := h.gar_lt _ hg
    omega
  · rcases Pool.give_free hx with rfl | ⟨hne, hx⟩
    · simp [eraseBlock]
    · simp only [eraseBlock, Function.update_of_ne hne]
      exact h.erased x hx p hp

/-- Blocks outside the pool become garbage. -/
theorem Pool.addGar (h : Pool d own fl al gar gt) (hnd : g.Nodup) (hlt : ∀ b ∈ g, b < d.blks)
    (hown : ∀ b ∈ g, own b ≠ .pool) : Pool d (own.release g) fl al (gar ++ g) gt := by
  have hnot : ∀ b ∈ g, ¬ (al.blockstatus b = true ∨ b ∈ gar ∨ b = gt) := by
    intro b hb hc
    exact hown b hb ((h.mem b).mpr ⟨hlt b hb, hc⟩)
  refine ⟨fun x => ?_, h.free_lt, fun x hx hg => ?_, h.free_gt, fun hg => ?_, ?_, fun x hx => ?_, h.gt_lt,
    h.erased, h.count, h.last⟩
  · by_cases hx : x ∈ g
    · simp [Own.release, hx, hlt x hx]
    · simp [Own.release, hx, h.mem x]
  · rcases List.mem_append.mp hg with hg | hg
    · exact h.free_gar x hx hg
    · exact hnot x hg (Or.inl hx)
  · rcases List.mem_append.mp hg with hg | hg
    · exact h.gt_gar hg
    · exact hnot gt hg (Or.inr (Or.inr rfl))
  · rw [List.nodup_append]
    refine ⟨h.gar_nodup, hnd, fun a ha b hb e => ?_⟩
    subst e
    exact hnot a hb (Or.inr (Or.inl ha))
  · rcases List.mem_append.mp hx with hx | hx
    · exact h.gar_lt x hx
    · exact hlt x hx

end pool

/-! ## Allocation -/

section alloc

variable {d : Device} {E : Prop} {own : Own} {gar : List Nat} {gt : Nat}

theorem findFree_up {bs : Nat → Bool} (hd : d.blks < 4096) {b : Nat} (hb : bs b = true) (hle : b ≤ d.blks)
    (k i : Nat) (hi : i ≤ b) (hk : b - i < k) : ∃ c, findFree d bs k i = .ok (some c) ∧ bs c = true := by
  induction k generalizing i with
  | zero => omega
  | succ k ih =>
    rw [findFree, if_pos (by omega)]
    by_cases hbi : bs i = true
    · exact ⟨i, by rw [if_pos hbi], hbi⟩
    · have hne : i ≠ b := fun e => hbi (e ▸ hb)
      rw [if_neg hbi, if_neg (by omega)]
      exact ih (i + 1) (by omega) (by omega)

theorem findFree_wrap {bs : Nat → Bool} (hd : d.blks < 4096) {b : Nat} (hb : bs b = true) (hlt : b < d.blks)
    (k i : Nat) (hi : i ≤ d.blks) (hk : d.blks - i + 1 + b < k) :
    ∃ c, findFree d bs k i = .ok (some c) ∧ bs c = true := by
  induction k generalizing i with
  | zero => omega
  | succ k ih =>
    rw [findFree, if_pos (by omega)]
    by_cases hbi : bs i = true
    · exact ⟨i, by rw [if_pos hbi], hbi⟩
    · rw [if_neg hbi]
      by_cases hend : i = d.blks
      · rw [if_pos (by omega)]
        exact findFree_up hd hb (by omega) k 0 (by omega) (by omega)
      · rw [if_neg (by omega)]
        exact ih (i + 1) (by omega) (by omega)

/-- The search covers the whole chip. -/
theorem findFree_complete {bs : Nat → Bool} (hd : d.blks < 4096) {b last : Nat} (hb : bs b = true)
    (hlt : b < d.blks) (hlast : last < d.blks) :
    ∃ c, findFree d bs (2 * d.blks - last) last = .ok (some c) ∧ bs c = true := by
  by_cases h : last ≤ b
  · exact findFree_up hd hb (by omega) _ _ h (by omega)
  · exact findFree_wrap hd hb hlt _ _ (by omega) (by omega)

theorem sat_noFreeBlock {s : St} {Q : Nat → St → Prop} (hE : E) (h : freeCount s.al.blockstatus d.blks = 0) :
    Sat (contract d E) (noFreeBlock d) s Q := by
  have hany : (List.range d.blks).any s.al.blockstatus = false := by
    rw [freeCount, Finset.card_eq_zero, Finset.filter_eq_empty_iff] at h
    simp only [List.any_eq_false, List.mem_range]
    exact fun x hx => h (Finset.mem_range.mpr hx)
  refine Or.inl ⟨[], .noFree false, [], s, ?_, ⟨hE, rfl⟩, (contract d E).step_nil s⟩
  show [Event.noFree ((List.range d.blks).any s.al.blockstatus)] = _
  rw [hany]
  rfl

theorem sat_setBlockNofree {s : St} {b : Nat} (hb : b < d.blks) :
    Sat (contract d E) (nftlSetBlockNofree d b) s (fun _ s' => s' = { s with al := s.al.take b }) := by
  rw [nftlSetBlockNofree, if_neg (by omega)]
  exact Sat.modify_bind (step_ram d E rfl) (Sat.pure rfl)

/-- An allocation takes a free block, or there is none. -/
theorem sat_getFreeBlock {s : St} (hd : d.blks < 4096) (h : Pool d own s.nand.flash s.al gar gt)
    (hE : E ∨ 0 < s.al.freeBlkcnt) :
    Sat (contract d E) (nftlGetFreeBlock d) s
      (fun b s' => s.al.blockstatus b = true ∧ s' = { s with al := s.al.take b }) := by
  refine Sat.get_bind ?_
  by_cases h0 : s.al.freeBlkcnt = 0
  · rw [if_pos h0]
    exact sat_noFreeBlock (hE.resolve_right (by omega)) (by rw [← h.count, h0])
  · rw [if_neg h0]
    have hlast := h.last
    obtain ⟨b, hb⟩ : ∃ b, b ∈ (Finset.range d.blks).filter fun b => s.al.blockstatus b = true := by
      rw [← Finset.Nonempty, Finset.nonempty_iff_ne_empty]
      intro he
      rw [h.count, freeCount, he] at h0
      simp at h0
    simp only [Finset.mem_filter, Finset.mem_range] at hb
    obtain ⟨c, hc, hfree⟩ := findFree_complete hd hb.2 hb.1 hlast
    rw [if_neg (by omega)]
    refine Sat.lift_bind hc ?_
    refine Sat.bind (sat_setBlockNofree (h.free_lt c hfree)) ?_
    rintro r s' rfl
    exact Sat.pure ⟨hfree, rfl⟩

end alloc

end Emlinux.Nftl
