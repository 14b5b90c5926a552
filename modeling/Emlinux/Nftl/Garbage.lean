import Emlinux.Nftl.Pool

/-!
# Garbage

`AllocInv` is the pool together with the GarbageTab block on the flash: page `i` of it lists the `i`-th group
of garbage blocks, in the order of `gar_pbas`, and every garbage block still shows in page 0 what it was.

* `sat_reclaimGarbages`: a reclaim turns the whole pool into free blocks.
* `sat_addtoGt`: recording garbage moves its blocks to the pool and changes no block outside it.
-/

namespace Emlinux.Nftl

open Lib

/-- Page 0 tells the mount scan that the block is not free and not the GarbageTab. -/
def Marked (fl : Flash) (b : Nat) : Prop :=
  ∃ pg, fl b 0 = some pg ∧
    (pg.spare.blocktype = .data ∨ pg.spare.blocktype = .dataLog ∨ pg.spare.blocktype = .mapTab ∨
      pg.spare.blocktype = .mtLog)

/-- One page of the GarbageTab block. -/
def gtPage (c : List Nat) : Page := ⟨gtData c, ⟨.garbageTab, Spare.gtInfo 0 c.length⟩⟩

/-- The block `gt` lists the garbage `gar` in `pgcnt` pages of one or two blocks. -/
structure GtTab (d : Device) (fl : Flash) (gt pgcnt : Nat) (gar : List Nat) (chunks : List (List Nat)) :
    Prop where
  flatten : chunks.flatten = gar
  length : chunks.length = pgcnt
  small : ∀ c ∈ chunks, 1 ≤ c.length ∧ c.length ≤ 2
  page : ∀ i c, chunks[i]? = some c → fl gt i = some (gtPage c)
  rest : ∀ i, pgcnt ≤ i → i < d.pgs → fl gt i = none

theorem GtTab.length_le {d : Device} {fl : Flash} {gt pgcnt : Nat} {gar : List Nat} {chunks : List (List Nat)}
    (h : GtTab d fl gt pgcnt gar chunks) : gar.length ≤ 2 * pgcnt := by
  rw [← h.flatten, ← h.length, List.length_flatten]
  have := List.sum_le_card_nsmul (chunks.map List.length) 2 (by
    intro x hx
    obtain ⟨c, hc, rfl⟩ := List.mem_map.mp hx
    exact (h.small c hc).2)
  simpa [mul_comm] using this

/-- No garbage and no GarbageTab block. -/
def Alloc.Clean (al : Alloc) : Prop := al.gtPba = noBlock ∧ al.gtPgcnt = 0 ∧ al.gar = []

/-- The allocator between two operations. -/
structure AllocInv (d : Device) (own : Own) (fl : Flash) (al : Alloc) : Prop where
  pool : Pool d own fl al al.gar al.gtPba
  marked : ∀ b ∈ al.gar, Marked fl b
  tab : al.Clean ∨ (al.gtPba < d.blks ∧ 0 < al.gtPgcnt ∧ al.gtPgcnt < d.pgs / 2 ∧
    al.gar.length < garbageMaxCntDiv2 ∧ ∃ chunks, GtTab d fl al.gtPba al.gtPgcnt al.gar chunks)

/-- The counters of the log tables are inside their arrays. -/
structure TabOk (dl mtl : LogTab) : Prop where
  dlBlk : dl.blkcnt ≤ dlMaxBlocks
  dlPg : dl.pgcnt ≤ dlMaxPages
  mtlBlk : mtl.blkcnt ≤ mtMaxBlocks

/-- The map, the log tables and all blocks outside the pool are unchanged. -/
structure Frame (own : Own) (s s' : St) : Prop where
  mt : s'.mt = s.mt
  dl : s'.dl = s.dl
  flash : ∀ b, own b ≠ .pool → s'.nand.flash b = s.nand.flash b

section frame

variable {own : Own} {s s' s'' : St}

theorem Frame.refl (own : Own) (s : St) : Frame own s s := ⟨rfl, rfl, fun _ _ => rfl⟩

theorem Frame.trans (h : Frame own s s') (h' : Frame own s' s'') : Frame own s s'' :=
  ⟨h'.mt.trans h.mt, h'.dl.trans h.dl, fun b hb => (h'.flash b hb).trans (h.flash b hb)⟩

theorem Reflash.frame {fl : Flash} (h : Reflash s fl s') (hfl : ∀ b, own b ≠ .pool → fl b = s.nand.flash b) :
    Frame own s s' :=
  ⟨h.mt, h.dl, fun b hb => by rw [h.flash]; exact hfl b hb⟩

theorem Frame.tabOk (h : Frame own s s') (ht : TabOk s.dl s.mt.mtl) : TabOk s'.dl s'.mt.mtl := by
  rw [h.mt, h.dl]; exact ht

end frame

section inv

variable {d : Device} {own own' : Own} {fl fl' : Flash} {al : Alloc}

theorem AllocInv.gar_lt (h : AllocInv d own fl al) : al.gar.length < garbageMaxCntDiv2 := by
  rcases h.tab with hc | hc
  · rw [hc.2.2]; decide
  · exact hc.2.2.2.1

theorem AllocInv.pgcnt_lt (h : AllocInv d own fl al) : al.gtPgcnt < d.pgs := by
  have := d.pgs_pos
  rcases h.tab with hc | hc
  · rw [hc.2.1]; exact this
  · omega

/-- The pool blocks are what the invariant reads. -/
theorem AllocInv.congr (h : AllocInv d own fl al) (ho : ∀ b, own' b = .pool ↔ own b = .pool)
    (hfl : ∀ b, own b = .pool → fl' b = fl b) : AllocInv d own' fl' al := by
  refine ⟨(h.pool.congr_flash fun b hb => hfl b (h.pool.own_free hb)).congr_own ho, fun b hb => ?_, ?_⟩
  · obtain ⟨pg, hpg, hty⟩ := h.marked b hb
    have hown : own b = .pool := (h.pool.mem b).mpr ⟨h.pool.gar_lt b hb, Or.inr (Or.inl hb)⟩
    exact ⟨pg, by rw [hfl b hown]; exact hpg, hty⟩
  · rcases h.tab with hc | ⟨h1, h2, h3, h4, chunks, hg⟩
    · exact Or.inl hc
    · have hown : own al.gtPba = .pool := (h.pool.mem _).mpr ⟨h1, Or.inr (Or.inr rfl)⟩
      refine Or.inr ⟨h1, h2, h3, h4, chunks, hg.flatten, hg.length, hg.small, fun i c hc => ?_, fun i hi hi' => ?_⟩
      · rw [hfl _ hown]; exact hg.page i c hc
      · rw [hfl _ hown]; exact hg.rest i hi hi'

/-- A free block leaves the pool. -/
theorem AllocInv.take (h : AllocInv d own fl al) {b : Nat} {r : Role} (hb : al.blockstatus b = true)
    (hr : r ≠ .pool) : AllocInv d (Function.update own b r) fl (al.take b) :=
  ⟨h.pool.take hb hr, h.marked, h.tab⟩

end inv

section spec

variable {d : Device} {E : Prop} {own : Own}

theorem sat_setBlockFree {s : St} {b : Nat} (hb : b < d.blks) (hnf : s.al.blockstatus b = false) :
    Sat (contract d E) (nftlSetBlockFree d b) s (fun r s' => r = 0 ∧ s' = { s with al := s.al.give b }) := by
  refine Sat.get_bind ?_
  rw [if_neg (by omega), if_neg (by simp [hnf])]
  exact Sat.modify_bind (step_ram d E rfl) (Sat.pure ⟨rfl, rfl⟩)

theorem Pool.not_free_gar {fl : Flash} {al : Alloc} {gar : List Nat} {gt b : Nat} (h : Pool d own fl al gar gt)
    (hb : b ∈ gar) : al.blockstatus b = false := by
  cases hf : al.blockstatus b with
  | false => rfl
  | true => exact absurd hb (h.free_gar b hf)

theorem Pool.not_free_gt {fl : Flash} {al : Alloc} {gar : List Nat} {gt : Nat} (h : Pool d own fl al gar gt) :
    al.blockstatus gt = false := by
  cases hf : al.blockstatus gt with
  | false => rfl
  | true => exact absurd rfl (h.free_gt gt hf)

theorem Pool.free_le_give {fl : Flash} {al : Alloc} {gar : List Nat} {gt b : Nat} (h : Pool d own fl al gar gt) :
    al.freeBlkcnt ≤ (al.give b).freeBlkcnt := by
  have h1 := h.count
  have h2 := freeCount_le al.blockstatus d.blks
  have h3 := d.blks_le
  simp only [Alloc.give]
  omega

/-- One garbage block is erased and freed. -/
theorem sat_reclaimBlock {s : St} {b : Nat} {l : List Nat} {gt : Nat} (ret : Int)
    (h : Pool d own s.nand.flash s.al (b :: l) gt) :
    Sat (contract d E) (reclaimBlock d b ret) s (fun r s' => r = .next 0 ∧ Frame own s s' ∧
      s'.al = s.al.give b ∧ Pool d own s'.nand.flash s'.al l gt) := by
  have hlt := h.gar_lt b (by simp)
  have hno := d.blks_lt_noBlock
  rw [reclaimBlock, if_neg (by omega)]
  refine Sat.bind (sat_mtdErase hlt) ?_
  rintro r s₁ ⟨rfl, h₁⟩
  rw [if_neg (by decide)]
  refine Sat.bind (sat_setBlockFree hlt (by rw [h₁.al]; exact h.not_free_gar (by simp))) ?_
  rintro r s₂ ⟨rfl, rfl⟩
  refine Sat.pure ⟨rfl, ⟨h₁.mt, h₁.dl, fun x hx => ?_⟩, by rw [h₁.al], ?_⟩
  · have hown : own b = .pool := (h.mem b).mpr ⟨hlt, Or.inr (Or.inl (by simp))⟩
    have hne : x ≠ b := fun e => hx (e ▸ hown)
    simp [h₁.flash, eraseBlock, hne]
  · simp only [h₁.flash, h₁.al]
    exact h.give

/-- The GarbageTab block itself. -/
theorem sat_reclaimTab {s : St} {gar : List Nat} (h : Pool d own s.nand.flash s.al gar s.al.gtPba) :
    Sat (contract d E) (reclaimTab d 0) s (fun r s' => r = 0 ∧ Frame own s s' ∧ s'.al.gtPba = noBlock ∧
      s'.al.gar = s.al.gar ∧ s.al.freeBlkcnt ≤ s'.al.freeBlkcnt ∧ Pool d own s'.nand.flash s'.al gar noBlock) := by
  refine Sat.get_bind ?_
  by_cases hgt : s.al.gtPba = noBlock
  · rw [if_pos hgt]
    exact Sat.pure ⟨rfl, Frame.refl own s, hgt, rfl, le_refl _, hgt ▸ h⟩
  · rw [if_neg hgt]
    have hlt := h.gt_lt.resolve_left hgt
    refine Sat.bind (sat_mtdErase hlt) ?_
    rintro r s₁ ⟨rfl, h₁⟩
    rw [if_neg (by decide)]
    refine Sat.bind (sat_setBlockFree hlt (by rw [h₁.al]; exact h.not_free_gt)) ?_
    rintro r s₂ ⟨rfl, rfl⟩
    refine Sat.modify_bind (step_ram d E rfl) (Sat.pure ⟨rfl, ⟨h₁.mt, h₁.dl, fun x hx => ?_⟩, rfl, ?_, ?_, ?_⟩)
    · have hown : own s.al.gtPba = .pool := (h.mem _).mpr ⟨hlt, Or.inr (Or.inr rfl)⟩
      have hne : x ≠ s.al.gtPba := fun e => hx (e ▸ hown)
      simp [h₁.flash, eraseBlock, hne]
    · simp [Alloc.give, h₁.al]
    · simp only [h₁.al]
      exact h.free_le_give
    · simp only [h₁.flash, h₁.al]
      have := h.giveGt hgt
      exact { this with }

/-- After a reclaim every block of the pool is free. -/
theorem sat_reclaimGarbages {s : St} (h : Pool d own s.nand.flash s.al s.al.gar s.al.gtPba)
    (hne : s.al.gar ≠ []) (ht : TabOk s.dl s.mt.mtl) :
    Sat (contract d E) (nftlReclaimGarbages d) s (fun r s' => r = 0 ∧ Frame own s s' ∧ s'.al.Clean ∧
      s.al.freeBlkcnt ≤ s'.al.freeBlkcnt ∧ Pool d own s'.nand.flash s'.al [] noBlock) := by
  refine Sat.get_bind ?_
  rw [if_neg hne]
  refine Sat.bind (Q := fun r s' => r = .next 0 ∧ Frame own s s' ∧ s'.al.gar = s.al.gar ∧
    s'.al.gtPba = s.al.gtPba ∧ s.al.freeBlkcnt ≤ s'.al.freeBlkcnt ∧
    Pool d own s'.nand.flash s'.al [] s.al.gtPba) ?_ ?_
  · refine Sat.each (fun l ret s' => ret = 0 ∧ Frame own s s' ∧ s'.al.gar = s.al.gar ∧
      s'.al.gtPba = s.al.gtPba ∧ s.al.freeBlkcnt ≤ s'.al.freeBlkcnt ∧
      Pool d own s'.nand.flash s'.al l s.al.gtPba) ?_ ?_ s.al.gar
      ⟨rfl, Frame.refl own s, rfl, rfl, le_refl _, h⟩
    · rintro b l ret s₁ ⟨rfl, hf, hg, hgt, hc, hp⟩
      refine (sat_reclaimBlock 0 hp).mono ?_
      rintro r s₂ ⟨rfl, hf₂, hal, hp₂⟩
      refine ⟨rfl, hf.trans hf₂, ?_, ?_, ?_, hp₂⟩
      · rw [hal]; exact hg
      · rw [hal]; exact hgt
      · rw [hal]; exact hc.trans hp.free_le_give
    · rintro ret s₁ ⟨rfl, h₁⟩
      exact ⟨rfl, h₁⟩
  · rintro r s₁ ⟨rfl, hf, hg, hgt, hc, hp⟩
    refine Sat.bind (sat_reclaimTab (hgt ▸ hp)) ?_
    rintro r s₂ ⟨rfl, hf₂, hgt₂, hg₂, hc₂, hp₂⟩
    refine Sat.modify_bind (step_ram d E rfl) ?_
    have hf₃ := hf.trans hf₂
    have ht₂ := hf₃.tabOk ht
    refine Sat.bind (Q := fun _ s' => s' = { s₂ with al := { s₂.al with gar := [], gtPgcnt := 0 } })
      (sat_noteTables ht₂.dlBlk ht₂.dlPg (Nat.zero_le _) ht₂.mtlBlk rfl) ?_
    rintro _ _ rfl
    exact Sat.pure ⟨rfl, ⟨hf₃.mt, hf₃.dl, hf₃.flash⟩, ⟨hgt₂, rfl, rfl⟩, hc.trans hc₂, { hp₂ with }⟩

theorem sat_pushGar {s : St} {b : Nat} (hl : s.al.gar.length < garbageMaxCnt) (ht : TabOk s.dl s.mt.mtl) :
    Sat (contract d E) (pushGar b) s
      (fun _ s' => s' = { s with al := { s.al with gar := s.al.gar ++ [b] } }) := by
  refine Sat.get_bind ?_
  rw [if_pos hl]
  refine Sat.modify_bind (step_ram d E rfl) ?_
  refine sat_noteTables ht.dlBlk ht.dlPg ?_ ht.mtlBlk rfl
  simp only [List.length_append, List.length_singleton]
  exact hl

theorem sat_pushGars {s : St} (g : List Nat) (hl : s.al.gar.length + g.length ≤ garbageMaxCnt)
    (ht : TabOk s.dl s.mt.mtl) :
    Sat (contract d E) (Prog.each (ρ := Unit) (fun b _ => do pushGar b; pure (LoopFlow.next ())) g ()) s
      (fun _ s' => s' = { s with al := { s.al with gar := s.al.gar ++ g } }) := by
  refine Sat.each (fun l _ s' => ∃ done, done ++ l = g ∧
    s' = { s with al := { s.al with gar := s.al.gar ++ done } }) ?_ ?_ g ⟨[], rfl, by simp⟩
  · rintro b l _ s₁ ⟨done, hdone, rfl⟩
    have hlen : done.length + (l.length + 1) = g.length := by rw [← hdone]; simp
    refine Sat.bind (sat_pushGar (s := { s with al := { s.al with gar := s.al.gar ++ done } }) ?_ ht) ?_
    · simp only [List.length_append]; omega
    · rintro _ _ rfl
      exact Sat.pure ⟨done ++ [b], by simp [hdone], by simp⟩
  · rintro _ s₁ ⟨done, hdone, rfl⟩
    rw [List.append_nil] at hdone
    rw [hdone]

/-- The allocator inside `nftl_addto_gt`: there is a GarbageTab block, and it may be due for a reclaim. -/
structure GtOpen (d : Device) (own : Own) (fl : Flash) (al : Alloc) : Prop where
  pool : Pool d own fl al al.gar al.gtPba
  marked : ∀ b ∈ al.gar, Marked fl b
  gt_lt : al.gtPba < d.blks
  tab : ∃ chunks, GtTab d fl al.gtPba al.gtPgcnt al.gar chunks

theorem GtOpen.own_gt {fl : Flash} {al : Alloc} (h : GtOpen d own fl al) : own al.gtPba = .pool :=
  (h.pool.mem _).mpr ⟨h.gt_lt, Or.inr (Or.inr rfl)⟩

theorem sat_openGt {s : St} (hd : d.blks < 4096) (h : AllocInv d own s.nand.flash s.al)
    (hE : E ∨ s.al.gar ≠ [] ∨ 0 < s.al.freeBlkcnt) :
    Sat (contract d E) (openGt d) s (fun _ s' => ∃ al, s' = { s with al := al } ∧ al.gar = s.al.gar ∧
      al.gtPgcnt = s.al.gtPgcnt ∧ s.al.freeBlkcnt ≤ al.freeBlkcnt + 1 ∧ GtOpen d own s.nand.flash al) := by
  refine Sat.get_bind ?_
  rcases h.tab with hc | ⟨h1, h2, h3, h4, htab⟩
  · rw [if_pos hc.1]
    have hpool : Pool d own s.nand.flash s.al s.al.gar noBlock := hc.1 ▸ h.pool
    refine Sat.bind (sat_getFreeBlock hd hpool ?_) ?_
    · rcases hE with hE | hE | hE
      · exact Or.inl hE
      · exact absurd hc.2.2 hE
      · exact Or.inr hE
    rintro b s₁ ⟨hb, rfl⟩
    have ht := hpool.takeGt hb
    have hcnt := hpool.count_take hb
    have hle := freeCount_take (h.pool.free_lt b hb) hb
    refine Sat.modify (step_ram d E rfl) ⟨{ s.al.take b with gtPba := b }, rfl, rfl, rfl, ?_, ?_⟩
    · have := h.pool.count
      simp only [Alloc.take] at hcnt ⊢
      omega
    · refine ⟨{ ht with }, h.marked, h.pool.free_lt b hb, [], ?_, ?_, by simp, by simp, fun i _ hi => ?_⟩
      · simp [Alloc.take, hc.2.2]
      · simp [Alloc.take, hc.2.1]
      · exact h.pool.erased b hb i hi
  · have hno := d.blks_lt_noBlock
    rw [if_neg (by omega)]
    exact Sat.pure ⟨s.al, rfl, rfl, rfl, by omega, h.pool, h.marked, h1, htab⟩

/-- The next page of the GarbageTab block lists the blocks of `g`. -/
theorem GtOpen.add {fl : Flash} {al : Alloc} {g : List Nat} (h : GtOpen d own fl al)
    (hpg : al.gtPgcnt < d.pgs) (hg : 1 ≤ g.length ∧ g.length ≤ 2) (hnd : g.Nodup)
    (hlt : ∀ b ∈ g, b < d.blks) (hown : ∀ b ∈ g, own b ≠ .pool) (hm : ∀ b ∈ g, Marked fl b) :
    GtOpen d (own.release g) (setPage fl al.gtPba al.gtPgcnt (gtPage g))
      { al with gar := al.gar ++ g, gtPgcnt := (al.gtPgcnt + 1) % 256 } := by
  obtain ⟨chunks, htab⟩ := h.tab
  have hpgs := d.pgs_le
  have hmod : (al.gtPgcnt + 1) % 256 = al.gtPgcnt + 1 := Nat.mod_eq_of_lt (by omega)
  have hne : ∀ b, b ∈ al.gar ++ g → b ≠ al.gtPba := by
    intro b hb e
    rcases List.mem_append.mp hb with hb | hb
    · exact h.pool.gt_gar (e ▸ hb)
    · exact hown b hb (e ▸ h.own_gt)
  have hpool : Pool d (own.release g) (setPage fl al.gtPba al.gtPgcnt (gtPage g)) al (al.gar ++ g) al.gtPba :=
    (h.pool.addGar hnd hlt hown).congr_flash fun b hb => setPage_block_ne _ _ _ (h.pool.free_gt b hb)
  refine ⟨{ hpool with }, fun b hb => ?_, h.gt_lt, chunks ++ [g], ?_⟩
  · have hmark : Marked fl b := by
      rcases List.mem_append.mp hb with hb | hb
      · exact h.marked b hb
      · exact hm b hb
    obtain ⟨pg, hpg, hty⟩ := hmark
    exact ⟨pg, by rw [setPage_block_ne _ _ _ (hne b hb)]; exact hpg, hty⟩
  · refine ⟨by simp [htab.flatten], by simp [htab.length, hmod], fun c hc => ?_, fun i c hc => ?_, fun i hi hi' => ?_⟩
    · rcases List.mem_append.mp hc with hc | hc
      · exact htab.small c hc
      · rw [List.mem_singleton.mp hc]; exact hg
    · have hlen := htab.length
      by_cases hi : i < chunks.length
      · rw [List.getElem?_append_left hi] at hc
        rw [setPage_page_ne _ _ _ (by omega)]
        exact htab.page i c hc
      · rw [List.getElem?_append_right (by omega)] at hc
        have hi0 : i - chunks.length = 0 := by
          by_contra hne
          rw [List.getElem?_eq_none (by simp; omega)] at hc
          simp at hc
        rw [hi0] at hc
        have hcg : g = c := by simpa using hc
        have hil : i = al.gtPgcnt := by omega
        rw [hil, hcg, setPage_self]
    · simp only [hmod] at hi
      rw [setPage_page_ne _ _ _ (by omega)]
      exact htab.rest i (by omega) hi'

/-- The allocator after a reclaim. -/
def Reclaimed (d : Device) (own : Own) (s : St) : Prop := s.al.Clean ∧ Pool d own s.nand.flash s.al [] noBlock

theorem Reclaimed.inv {s : St} (h : Reclaimed d own s) : AllocInv d own s.nand.flash s.al :=
  ⟨by rw [h.1.1, h.1.2.2]; exact h.2, fun b hb => by simp [h.1.2.2] at hb, Or.inl h.1⟩

/-- A trigger fires and reclaims, or does not hold. -/
theorem sat_reclaimIf {s : St} (p : Alloc → Bool) (ht : TabOk s.dl s.mt.mtl)
    (h : Reclaimed d own s ∨ (GtOpen d own s.nand.flash s.al ∧ s.al.gar ≠ [])) :
    Sat (contract d E) (reclaimIf d p 0) s (fun r s' => r = 0 ∧ Frame own s s' ∧
      s.al.freeBlkcnt ≤ s'.al.freeBlkcnt ∧ (Reclaimed d own s' ∨ (s' = s ∧ p s.al = false))) := by
  refine Sat.get_bind ?_
  by_cases hp : p s.al = true
  · rw [if_pos hp]
    rcases h with h | ⟨h, hne⟩
    · refine Sat.get_bind ?_
      rw [if_pos h.1.2.2]
      exact Sat.pure ⟨rfl, Frame.refl own s, le_refl _, Or.inl h⟩
    · refine (sat_reclaimGarbages h.pool hne ht).mono ?_
      rintro r s' ⟨rfl, hf, hc, hle, hpool⟩
      exact ⟨rfl, hf, hle, Or.inl ⟨hc, hpool⟩⟩
  · rw [if_neg hp]
    exact Sat.pure ⟨rfl, Frame.refl own s, le_refl _, Or.inr ⟨rfl, by simpa using hp⟩⟩

theorem sat_writeGt {s : St} {p : Nat} (pg : Page) (hgt : s.al.gtPba < d.blks) (hp : p < d.pgs)
    (he : ∀ q, p ≤ q → q < d.pgs → s.nand.flash s.al.gtPba q = none) :
    Sat (contract d E) (writeGt d p pg) s (fun _ s' =>
      Reflash s (setPage s.nand.flash s.al.gtPba p pg) s') := by
  refine Sat.get_bind (Sat.bind (sat_mtdWrite pg hgt hp he) ?_)
  rintro r s' ⟨rfl, hr⟩
  rw [if_neg (by decide)]
  exact Sat.pure hr

/-- The blocks of `g` become garbage, and are recorded on the flash. With few free blocks, or many garbage
blocks, everything is reclaimed at once. -/
theorem sat_addtoGt {s : St} {g : List Nat} (hd : d.blks < 4096) (h : AllocInv d own s.nand.flash s.al)
    (ht : TabOk s.dl s.mt.mtl) (hg : 1 ≤ g.length ∧ g.length ≤ 2) (hnd : g.Nodup) (hlt : ∀ b ∈ g, b < d.blks)
    (hown : ∀ b ∈ g, own b ≠ .pool) (hm : ∀ b ∈ g, Marked s.nand.flash b)
    (hE : E ∨ s.al.gar ≠ [] ∨ 0 < s.al.freeBlkcnt) :
    Sat (contract d E) (nftlAddtoGt d g) s (fun r s' => r = 0 ∧ Frame (own.release g) s s' ∧
      AllocInv d (own.release g) s'.nand.flash s'.al ∧ s.al.freeBlkcnt ≤ s'.al.freeBlkcnt + 1 ∧
      (s'.al.Clean ∨ miniFreeBlock < s'.al.freeBlkcnt)) := by
  have hpgs := d.pgs_pos
  have hcnt := h.pgcnt_lt
  refine Sat.bind sat_kmalloc fun _ s₁ h₁ => ?_
  have hal₁ := h₁.al
  refine Sat.get_bind ?_
  have hdiv : s₁.al.gtPgcnt / d.pgs = 0 := by rw [hal₁]; exact Nat.div_eq_of_lt hcnt
  have hmod : s₁.al.gtPgcnt % d.pgs = s.al.gtPgcnt := by rw [hal₁]; exact Nat.mod_eq_of_lt hcnt
  rw [hdiv, if_neg (by decide), hmod]
  have hinv₁ : AllocInv d own s₁.nand.flash s₁.al := by rw [hal₁, h₁.flash]; exact h
  refine Sat.bind (sat_openGt hd hinv₁ (by rw [hal₁]; exact hE)) ?_
  rintro _ _ ⟨al, rfl, hgar, hpgc, hle, hopen⟩
  rw [hal₁] at hgar hpgc hle
  have hlen := h.gar_lt
  refine Sat.bind (sat_pushGars g ?_ (by rw [h₁.mt, h₁.dl]; exact ht)) ?_
  · simp only [hgar]
    have : garbageMaxCntDiv2 + 2 ≤ garbageMaxCnt := by decide
    omega
  rintro _ _ rfl
  have hopen₁ := hopen.add (by omega) hg hnd hlt hown (by rw [h₁.flash]; exact hm)
  obtain ⟨chunks, htab⟩ := hopen.tab
  refine Sat.bind (sat_writeGt _ hopen.gt_lt hcnt (by rw [← hpgc]; exact htab.rest)) ?_
  rintro _ s₂ h₂
  rw [← hpgc] at h₂
  refine Sat.modify_bind (step_ram d E rfl) ?_
  set s₃ : St := { s₂ with al := { s₂.al with gtPgcnt := (s₂.al.gtPgcnt + 1) % 256 } } with hs₃
  have hal₃ : s₃.al = { al with gar := al.gar ++ g, gtPgcnt := (al.gtPgcnt + 1) % 256 } := by
    rw [hs₃]; simp only [h₂.al]
  have hf₃ : Frame (own.release g) s s₃ := by
    refine ⟨h₂.mt.trans h₁.mt, h₂.dl.trans h₁.dl, fun b hb => ?_⟩
    have hne : b ≠ al.gtPba := by
      intro e
      have := hopen₁.own_gt
      exact hb (e ▸ this)
    show s₂.nand.flash b = _
    rw [h₂.flash, setPage_block_ne _ _ _ hne, h₁.flash]
  have hopen₃ : GtOpen d (own.release g) s₃.nand.flash s₃.al := by
    rw [hal₃]
    show GtOpen d _ s₂.nand.flash _
    rw [h₂.flash]
    exact hopen₁
  have hne₃ : s₃.al.gar ≠ [] := by
    rw [hal₃]
    intro e
    have := congrArg List.length e
    simp only [List.length_append, List.length_nil] at this
    omega
  have hle₃ : s.al.freeBlkcnt ≤ s₃.al.freeBlkcnt + 1 := by rw [hal₃]; exact hle
  clear_value s₃
  refine Sat.bind (sat_reclaimIf _ (hf₃.tabOk ht) (Or.inr ⟨hopen₃, hne₃⟩)) ?_
  rintro r s₄ ⟨rfl, hf₄, hle₄, h₄⟩
  have hf₄' := hf₃.trans hf₄
  have h₄' : Reclaimed d (own.release g) s₄ ∨ (GtOpen d (own.release g) s₄.nand.flash s₄.al ∧ s₄.al.gar ≠ []) :=
    h₄.imp id fun e => by rw [e.1]; exact ⟨hopen₃, hne₃⟩
  refine Sat.bind (sat_reclaimIf _ (hf₄'.tabOk ht) h₄') ?_
  rintro r s₅ ⟨rfl, hf₅, hle₅, h₅⟩
  have hf₅' := hf₄'.trans hf₅
  have h₅' : Reclaimed d (own.release g) s₅ ∨ (GtOpen d (own.release g) s₅.nand.flash s₅.al ∧ s₅.al.gar ≠ []) := by
    rcases h₅ with h₅ | h₅
    · exact Or.inl h₅
    · rw [h₅.1]; exact h₄'
  refine Sat.bind (sat_reclaimIf _ (hf₅'.tabOk ht) h₅') ?_
  rintro r s₆ ⟨rfl, hf₆, hle₆, h₆⟩
  have hfin : AllocInv d (own.release g) s₆.nand.flash s₆.al ∧ (s₆.al.Clean ∨ miniFreeBlock < s₆.al.freeBlkcnt) := by
    rcases h₆ with h₆ | ⟨rfl, hp₆⟩
    · exact ⟨h₆.inv, Or.inl h₆.1⟩
    rcases h₅ with h₅ | ⟨rfl, hp₅⟩
    · exact ⟨h₅.inv, Or.inl h₅.1⟩
    rcases h₄ with h₄ | ⟨rfl, hp₄⟩
    · exact ⟨h₄.inv, Or.inl h₄.1⟩
    have hpos : 0 < s₆.al.gar.length := List.length_pos_iff.mpr hne₃
    obtain ⟨chunks', htab'⟩ := hopen₃.tab
    simp only [Nat.mul_one, decide_eq_false_iff_not, not_le] at hp₄ hp₅
    have hpg : 0 < s₆.al.gtPgcnt := by have := htab'.length_le; omega
    refine ⟨⟨hopen₃.pool, hopen₃.marked, Or.inr ⟨hopen₃.gt_lt, hpg, hp₄, hp₅, chunks', htab'⟩⟩, Or.inr ?_⟩
    simpa [hpos] using hp₆
  refine Sat.get_bind ?_
  rw [if_neg]
  · exact Sat.pure ⟨rfl, hf₅'.trans hf₆, hfin.1, by omega, hfin.2⟩
  · simp only [List.any_eq_true, decide_eq_true_eq, not_exists, not_and, not_lt]
    intro b hb
    exact (hfin.1.pool.gar_lt b hb).le

end spec

/-! ## Counting the pool -/

/-- Free blocks, garbage and the GarbageTab block. -/
def Alloc.poolSize (al : Alloc) : Nat := al.freeBlkcnt + al.gar.length + if al.gtPba = noBlock then 0 else 1

/-- The number of blocks below `n` in the pool. -/
def poolCount (own : Own) (n : Nat) : Nat := ((Finset.range n).filter fun b => own b = .pool).card

section count

variable {d : Device} {own : Own} {fl : Flash} {al : Alloc}

theorem AllocInv.poolSize_eq (h : AllocInv d own fl al) : al.poolSize = poolCount own d.blks := by
  have hno := d.blks_lt_noBlock
  have hset : (Finset.range d.blks).filter (fun b => own b = .pool)
      = ((Finset.range d.blks).filter fun b => al.blockstatus b = true) ∪ al.gar.toFinset ∪
        (if al.gtPba = noBlock then ∅ else {al.gtPba}) := by
    ext b
    simp only [Finset.mem_filter, Finset.mem_range, Finset.mem_union, List.mem_toFinset, h.pool.mem b]
    by_cases hgt : al.gtPba = noBlock
    · have := h.pool.gar_lt b
      simp only [hgt, if_true, Finset.notMem_empty, or_false]
      constructor
      · rintro ⟨hb, -, h1 | h1 | h1⟩
        · exact Or.inl ⟨hb, h1⟩
        · exact Or.inr h1
        · omega
      · rintro (⟨h1, h2⟩ | h1)
        · exact ⟨h1, h1, Or.inl h2⟩
        · exact ⟨this h1, this h1, Or.inr (Or.inl h1)⟩
    · have h1 := h.pool.gar_lt b
      have h2 := h.pool.gt_lt.resolve_left hgt
      simp only [hgt, if_false, Finset.mem_singleton]
      constructor
      · rintro ⟨hb, -, h3 | h3 | h3⟩
        · exact Or.inl (Or.inl ⟨hb, h3⟩)
        · exact Or.inl (Or.inr h3)
        · exact Or.inr h3
      · rintro ((⟨h3, h4⟩ | h3) | h3)
        · exact ⟨h3, h3, Or.inl h4⟩
        · exact ⟨h1 h3, h1 h3, Or.inr (Or.inl h3)⟩
        · exact ⟨h3 ▸ h2, h3 ▸ h2, Or.inr (Or.inr h3)⟩
  have hd1 : Disjoint ((Finset.range d.blks).filter fun b => al.blockstatus b = true) al.gar.toFinset := by
    rw [Finset.disjoint_left]
    intro b hb hg
    exact h.pool.free_gar b (Finset.mem_filter.mp hb).2 (List.mem_toFinset.mp hg)
  have hd2 : Disjoint (((Finset.range d.blks).filter fun b => al.blockstatus b = true) ∪ al.gar.toFinset)
      (if al.gtPba = noBlock then ∅ else {al.gtPba}) := by
    by_cases hgt : al.gtPba = noBlock
    · simp [hgt]
    · rw [if_neg hgt, Finset.disjoint_singleton_right]
      intro hmem
      rcases Finset.mem_union.mp hmem with hm | hm
      · exact h.pool.free_gt _ (Finset.mem_filter.mp hm).2 rfl
      · exact h.pool.gt_gar (List.mem_toFinset.mp hm)
  rw [poolCount, hset, Finset.card_union_of_disjoint hd2, Finset.card_union_of_disjoint hd1,
    List.toFinset_card_of_nodup h.pool.gar_nodup, Alloc.poolSize, h.pool.count, freeCount]
  by_cases hgt : al.gtPba = noBlock
  · simp [hgt]
  · simp [hgt]

theorem poolCount_take {b n : Nat} {r : Role} (hb : b < n) (ho : own b = .pool) (hr : r ≠ .pool) :
    poolCount (Function.update own b r) n + 1 = poolCount own n := by
  have hset : (Finset.range n).filter (fun x => Function.update own b r x = .pool)
      = ((Finset.range n).filter fun x => own x = .pool).erase b := by
    ext x
    by_cases hx : x = b
    · subst hx; simp [hr]
    · simp [hx]
  rw [poolCount, hset, Finset.card_erase_add_one (by simp [hb, ho]), poolCount]

theorem poolCount_release {g : List Nat} {n : Nat} (hnd : g.Nodup) (hlt : ∀ b ∈ g, b < n)
    (ho : ∀ b ∈ g, own b ≠ .pool) : poolCount (own.release g) n = poolCount own n + g.length := by
  have hset : (Finset.range n).filter (fun x => own.release g x = .pool)
      = ((Finset.range n).filter fun x => own x = .pool) ∪ g.toFinset := by
    ext x
    have := hlt x
    by_cases hx : x ∈ g
    · simp [Own.release, hx, this hx]
    · simp [Own.release, hx]
  have hd : Disjoint ((Finset.range n).filter fun x => own x = .pool) g.toFinset := by
    rw [Finset.disjoint_left]
    intro x hx hg
    exact ho x (List.mem_toFinset.mp hg) (Finset.mem_filter.mp hx).2
  rw [poolCount, hset, Finset.card_union_of_disjoint hd, List.toFinset_card_of_nodup hnd, poolCount]

end count

end Emlinux.Nftl
