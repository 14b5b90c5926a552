import Emlinux.Nftl.MountScan

/-!
# The roles found by a mount

The second scan loop, block by block: free blocks are counted, MapTab, MTLog and DataLog blocks go to their
tables, Data blocks and garbage are left alone.
-/

namespace Emlinux.Nftl

open Lib

variable {d : Device} {E : Prop} {bd : Nat → Bool} {own : Own} {fl : Flash} {al : Alloc} {mtPbas : Nat → Nat} {ml L : List Log} {s s' : St} {i : Nat}

/-- The number of bad blocks below `n`. -/
def badCount (bd : Nat → Bool) (n : Nat) : Nat := (List.range n).countP bd

/-- The RAM before block `i` is looked at. -/
structure Scanned (d : Device) (bd : Nat → Bool) (fl : Flash) (al : Alloc) (mtPbas : Nat → Nat) (ml L : List Log) (i : Nat)
    (s : St) : Prop where
  flash : s.nand.flash = fl
  bad : s.nand.bad = bd
  status : ∀ b, s.al.blockstatus b = (decide (b < i) && al.blockstatus b)
  count : s.al.freeBlkcnt = freeCount al.blockstatus i
  gt : s.al.gtPba = al.gtPba
  pgcnt : s.al.gtPgcnt = al.gtPgcnt
  gar : s.al.gar = al.gar
  last : s.al.lastfree < d.blks
  mt : ∀ k, k < d.mtBlkcnt → s.mt.mtPbas k = if mtPbas k < i then mtPbas k else noBlock
  mtl : Rep mtlCap s.mt.mtl (scanned ml i)
  dl : Rep dlCap s.dl (scanned L i)
  cache : s.mt.cacheblock = noBlock
  badcnt : s.gBadblkcnt = badCount bd i

theorem Scanned.reflash (h : Scanned d bd fl al mtPbas ml L i s) (hr : Reflash s fl s') :
    Scanned d bd fl al mtPbas ml L i s' := by
  obtain ⟨e, k, rfl⟩ := hr
  exact ⟨rfl, h.bad, h.status, h.count, h.gt, h.pgcnt, h.gar, h.last, h.mt, h.mtl, h.dl, h.cache, h.badcnt⟩

theorem Scanned.tab (h : Scanned d bd fl al mtPbas ml L i s) : TabOk s.dl s.mt.mtl :=
  ⟨by rw [h.dl.blkcnt]; exact h.dl.blk_le, by rw [h.dl.pgcnt]; exact h.dl.pg_le, by rw [h.mtl.blkcnt]; exact h.mtl.blk_le⟩

/-! ## A block more -/

theorem status_skip (bs : Nat → Bool) (hi : bs i = false) (b : Nat) : (decide (b < i + 1) && bs b) = (decide (b < i) && bs b) := by
  by_cases hb : b = i
  · simp [hb, hi]
  · rw [show decide (b < i + 1) = decide (b < i) by simp only [decide_eq_decide]; omega]

theorem freeCount_succ (bs : Nat → Bool) (i : Nat) : freeCount bs (i + 1) = freeCount bs i + if bs i = true then 1 else 0 := by
  rw [freeCount, Finset.range_add_one, Finset.filter_insert]
  split_ifs with hb
  · rw [Finset.card_insert_of_notMem (by simp)]
    rfl
  · rfl

theorem mt_skip {k : Nat} (h : mtPbas k ≠ i) :
    (if mtPbas k < i + 1 then mtPbas k else noBlock) = if mtPbas k < i then mtPbas k else noBlock := by
  have : mtPbas k < i + 1 ↔ mtPbas k < i := by omega
  simp only [this]

theorem badCount_succ (bd : Nat → Bool) (i : Nat) : badCount bd (i + 1) = badCount bd i + if bd i = true then 1 else 0 := by
  rw [badCount, List.range_succ, List.countP_append, List.countP_singleton]
  rfl

/-- A block that no table shows. -/
structure Hidden (d : Device) (al : Alloc) (mtPbas : Nat → Nat) (ml L : List Log) (i : Nat) : Prop where
  free : al.blockstatus i = false
  mt : ∀ k, k < d.mtBlkcnt → mtPbas k ≠ i
  mtl : ∀ lg ∈ ml, lg.pba ≠ i
  dl : ∀ lg ∈ L, lg.pba ≠ i

theorem Scanned.skip (h : Scanned d bd fl al mtPbas ml L i s) (hh : Hidden d al mtPbas ml L i) (hbad : bd i = false) :
    Scanned d bd fl al mtPbas ml L (i + 1) s :=
  ⟨h.flash, h.bad, fun b => by rw [status_skip _ hh.free]; exact h.status b,
    by rw [freeCount_succ, hh.free]; exact h.count, h.gt, h.pgcnt, h.gar, h.last,
    fun k hk => by rw [mt_skip (hh.mt k hk)]; exact h.mt k hk, by rw [scanned_skip hh.mtl]; exact h.mtl,
    by rw [scanned_skip hh.dl]; exact h.dl, h.cache, by rw [badCount_succ, hbad]; exact h.badcnt⟩

/-! ## What the roles exclude -/

section roles

variable (h : Image d bd own fl al mtPbas ml L) (hi : i < d.blks)

include h in
theorem Image.not_mtl (hne : ∀ k, own i ≠ .mtl k) : ∀ lg ∈ ml, lg.pba ≠ i := fun lg hlg e =>
  hne lg.key (e ▸ h.mtl.owned lg hlg)

include h in
theorem Image.not_dl (hne : ∀ k, own i ≠ .dl k) : ∀ lg ∈ L, lg.pba ≠ i := fun lg hlg e =>
  hne lg.key (e ▸ h.dl.owned lg hlg)

include h hi in
theorem Image.not_mt (hne : ∀ k, own i ≠ .mt k) : ∀ k, k < d.mtBlkcnt → mtPbas k ≠ i := by
  intro k hk e
  have hno := d.blks_lt_noBlock
  rcases h.mt k hk with hx | hx
  · omega
  · exact hne k (e ▸ hx)

include h in
theorem Image.not_free (hne : own i ≠ .pool) : al.blockstatus i = false := by
  by_contra hb
  exact hne (h.alloc.pool.own_free (by simpa using hb))

include h in
theorem Image.not_gar (hne : own i ≠ .pool) : i ∉ al.gar := fun hg =>
  hne ((h.alloc.pool.mem i).mpr ⟨h.alloc.pool.gar_lt i hg, Or.inr (Or.inl hg)⟩)

end roles

/-! ## The kinds of blocks -/

theorem sat_countFree (hs : Scanned d bd fl al mtPbas ml L i s) (hi : i < d.blks) (hb : al.blockstatus i = true)
    (hmt : ∀ k, k < d.mtBlkcnt → mtPbas k ≠ i) (hmtl : ∀ lg ∈ ml, lg.pba ≠ i) (hdl : ∀ lg ∈ L, lg.pba ≠ i)
    (hbad : bd i = false) :
    Sat (contract d E) (nftlSetBlockFree d i) s (fun _ s' => Scanned d bd fl al mtPbas ml L (i + 1) s') := by
  have hle := d.blks_le
  have hcnt := freeCount_le al.blockstatus i
  refine Sat.get_bind ?_
  rw [if_neg (by omega), hs.status i]
  simp only [Nat.lt_irrefl, decide_false, Bool.false_and, Bool.false_eq_true, if_false]
  refine Sat.modify_bind (step_ram d E rfl) (Sat.pure ?_)
  refine ⟨hs.flash, hs.bad, fun b => ?_, ?_, hs.gt, hs.pgcnt, hs.gar, hs.last,
    fun k hk => by rw [mt_skip (hmt k hk)]; exact hs.mt k hk, by rw [scanned_skip hmtl]; exact hs.mtl,
    by rw [scanned_skip hdl]; exact hs.dl, hs.cache, by rw [badCount_succ, hbad]; exact hs.badcnt⟩
  · show Function.update s.al.blockstatus i true b = _
    by_cases hbi : b = i
    · simp [hbi, hb]
    · rw [Function.update_of_ne hbi, hs.status b, show decide (b < i + 1) = decide (b < i) by
        simp only [decide_eq_decide]; omega]
  · show (s.al.freeBlkcnt + 1) % 65536 = _
    rw [hs.count, freeCount_succ, if_pos hb]
    omega

theorem sat_scanMapTab {k : Nat} (hf : d.Fits) (hs : Scanned d bd fl al mtPbas ml L i s) (hi : i < d.blks) (hk : k < d.mtBlkcnt)
    (hki : mtPbas k = i) (hhead : MtHead d fl k i) (hother : ∀ j, j < d.mtBlkcnt → j ≠ k → mtPbas j ≠ i)
    (hfree : al.blockstatus i = false) (hmtl : ∀ lg ∈ ml, lg.pba ≠ i) (hdl : ∀ lg ∈ L, lg.pba ≠ i) (hbad : bd i = false) :
    Sat (contract d E) (scanMapTab d i) s (fun r s' => r = .next () ∧ Scanned d bd fl al mtPbas ml L (i + 1) s') := by
  obtain ⟨pg, hpg, -, htab, hlast⟩ := hhead
  have hk6 : k < mtMaxBlocks := lt_trans hk hf.map_lt
  refine Sat.bind (sat_mtdRead hi d.pgs_pos) ?_
  rintro _ s₁ ⟨rfl, h₁⟩
  rw [hs.flash] at h₁
  have hs₁ := hs.reflash h₁
  rw [show s.nand.read i 0 = pg by rw [Nand.read, hs.flash, hpg]; rfl]
  dsimp only
  rw [if_pos (by rw [htab]; exact hk), htab]
  refine Sat.bind (sat_setMtPba hk6) ?_
  rintro _ _ rfl
  have hmt : ∀ j, j < d.mtBlkcnt → Function.update s₁.mt.mtPbas k i j = if mtPbas j < i + 1 then mtPbas j else noBlock := by
    intro j hj
    by_cases hjk : j = k
    · rw [hjk, Function.update_self, if_pos (by omega), hki]
    · rw [Function.update_of_ne hjk, mt_skip (hother j hj hjk)]
      exact hs₁.mt j hj
  by_cases hk0 : k = 0
  · simp only [hk0, if_true]
    refine Sat.modify_bind (step_ram d E rfl) (Sat.pure ⟨rfl, hs₁.flash, hs₁.bad, fun b => ?_, ?_, hs₁.gt, hs₁.pgcnt, hs₁.gar,
      hlast hk0, hk0 ▸ hmt, by rw [scanned_skip hmtl]; exact hs₁.mtl, by rw [scanned_skip hdl]; exact hs₁.dl, hs₁.cache,
      by rw [badCount_succ, hbad]; exact hs₁.badcnt⟩)
    · rw [status_skip _ hfree]; exact hs₁.status b
    · rw [freeCount_succ, hfree]; exact hs₁.count
  · simp only [hk0, if_false]
    refine Sat.modify_bind (step_ram d E rfl) (Sat.pure ⟨rfl, hs₁.flash, hs₁.bad, fun b => ?_, ?_, hs₁.gt, hs₁.pgcnt, hs₁.gar,
      hs₁.last, hmt, by rw [scanned_skip hmtl]; exact hs₁.mtl, by rw [scanned_skip hdl]; exact hs₁.dl, hs₁.cache,
      by rw [badCount_succ, hbad]; exact hs₁.badcnt⟩)
    · rw [status_skip _ hfree]; exact hs₁.status b
    · rw [freeCount_succ, hfree]; exact hs₁.count

def setMtlTab (s : St) (t : LogTab) : St := { s with mt := { s.mt with mtl := t } }

def setDlTab (s : St) (t : LogTab) : St := { s with dl := t }

theorem mtl_slot (h1 : s.dl.blkcnt ≤ dlMaxBlocks) (h2 : s.dl.pgcnt ≤ dlMaxPages) (hg : s.al.gar.length ≤ garbageMaxCnt) :
    Slot d E mtlCap s (fun s => s.mt.mtl) setMtl setMtlTab :=
  ⟨rfl, fun _ _ => rfl, fun _ _ _ => rfl, fun _ _ => rfl, fun _ _ _ _ _ => rfl, fun _ _ _ _ hb _ => sat_setMtl ⟨h1, h2, hb⟩ hg⟩

theorem dl_slot (h1 : s.mt.mtl.blkcnt ≤ mtMaxBlocks) (hg : s.al.gar.length ≤ garbageMaxCnt) :
    Slot d E dlCap s (fun s => s.dl) setDl setDlTab :=
  ⟨rfl, fun _ _ => rfl, fun _ _ _ => rfl, fun _ _ => rfl, fun _ _ _ _ _ => rfl, fun _ _ _ _ hb hp => sat_setDl ⟨hb, hp, h1⟩ hg⟩

theorem sat_scanMtLog {lg : Log} (hf : d.Fits) (h : Image d bd own fl al mtPbas ml L)
    (hs : Scanned d bd fl al mtPbas ml L lg.pba s) (hlg : lg ∈ ml) (hmt : ∀ k, k < d.mtBlkcnt → mtPbas k ≠ lg.pba)
    (hfree : al.blockstatus lg.pba = false) (hdl : ∀ x ∈ L, x.pba ≠ lg.pba) (hbad : bd lg.pba = false) :
    Sat (contract d E) (scanMtLog d lg.pba) s (fun r s' => r = .next () ∧
      Scanned d bd fl al mtPbas ml L (lg.pba + 1) s') := by
  have hlt := h.mtl.lt lg hlg
  have hpages := h.mtl.pages lg hlg
  have hkey : lg.key < d.mtBlkcnt := h.mtlKey lg hlg
  have h6 : d.mtBlkcnt < 6 := hf.map_lt
  obtain ⟨hlen, hflat⟩ := h.mtl.scanned_le mtl_injective hlg
  obtain ⟨p, hp⟩ := List.exists_mem_of_ne_nil _ hpages.nonempty
  obtain ⟨q, seq, hseq⟩ := List.exists_cons_of_ne_nil hpages.nonempty
  obtain ⟨pg, hpg, -, htab, -⟩ := hpages.done 0 q (by simp [hseq])
  have hq := hpages.key q (by simp [hseq])
  have hgar : s.al.gar.length ≤ garbageMaxCnt := by rw [hs.gar]; exact (le_of_lt h.alloc.gar_lt).trans (by decide)
  refine Sat.bind (sat_mtdRead hlt d.pgs_pos) ?_
  rintro _ s₁ ⟨rfl, h₁⟩
  rw [hs.flash] at h₁
  have hs₁ := hs.reflash h₁
  rw [show s.nand.read lg.pba 0 = pg by rw [Nand.read, hs.flash, hpg]; rfl]
  dsimp only
  rw [htab, hq, if_pos hkey]
  refine Sat.get_bind ?_
  obtain ⟨t, ht, hrep⟩ := scanStart_rep hs₁.mtl (lt_of_lt_of_le hlen h.mtlLen) lg.key lg.pba
  refine Sat.lift_bind ht ?_
  have htb : t.blkcnt ≤ mtMaxBlocks := by
    have := hrep.blk_le
    rw [← hrep.blkcnt] at this
    exact (Nat.le_succ _).trans this
  have hgar₁ : s₁.al.gar.length ≤ garbageMaxCnt := by rw [h₁.al]; exact hgar
  refine Sat.bind (sat_setMtl ⟨hs₁.tab.dlBlk, hs₁.tab.dlPg, htb⟩ hgar₁) ?_
  rintro _ _ rfl
  refine (sat_scanLog (s := setMtlTab s₁ t) (L := scanned ml lg.pba) (mtl_slot hs₁.tab.dlBlk hs₁.tab.dlPg hgar₁)
    (show LogPages d s₁.nand.flash (MtlTag d) lg by rw [hs₁.flash]; exact hpages) hlt (h.mtlShort lg hlg) (by decide)
    (fun p sp hp ht => ?_) (fun n p sp valid hn ht => ?_) hrep (hflat.trans h.mtlPages)).mono ?_
  · have hpk := hpages.key p hp
    obtain ⟨-, ht1, ht2⟩ := ht
    refine ⟨decide_eq_false ?_, ht2⟩
    rw [ht1, hpk]
    omega
  · dsimp only
    split_ifs <;> rfl
  · rintro r _ ⟨rfl, e, k, t', rfl, hrep'⟩
    rw [← h.mtl.scanned_add mtl_injective hlg] at hrep'
    exact ⟨rfl, hs₁.flash, hs₁.bad, fun b => by rw [status_skip _ hfree]; exact hs₁.status b,
      by rw [freeCount_succ, hfree]; exact hs₁.count, hs₁.gt, hs₁.pgcnt, hs₁.gar, hs₁.last,
      fun j hj => by rw [mt_skip (hmt j hj)]; exact hs₁.mt j hj, hrep', by rw [scanned_skip hdl]; exact hs₁.dl, hs₁.cache,
      by rw [badCount_succ, hbad]; exact hs₁.badcnt⟩

theorem sat_scanDataLog {lg : Log} (h : Image d bd own fl al mtPbas ml L)
    (hs : Scanned d bd fl al mtPbas ml L lg.pba s) (hlg : lg ∈ L) (hmt : ∀ k, k < d.mtBlkcnt → mtPbas k ≠ lg.pba)
    (hfree : al.blockstatus lg.pba = false) (hmtl : ∀ x ∈ ml, x.pba ≠ lg.pba) (hbad : bd lg.pba = false) :
    Sat (contract d E) (scanDataLog d lg.pba) s (fun r s' => r = .next () ∧
      Scanned d bd fl al mtPbas ml L (lg.pba + 1) s') := by
  have hlt := h.dl.lt lg hlg
  have hpages := h.dl.pages lg hlg
  have hshort := h.dlShort lg hlg
  have hkey := h.dlKey lg hlg
  have hpos := d.pgs_pos
  obtain ⟨hlen, hflat⟩ := h.dl.scanned_le dl_injective hlg
  have hblk := lt_of_lt_of_le hlen h.dlLen
  refine Sat.bind (sat_mtdRead hlt (by omega)) ?_
  rintro _ s₁ ⟨rfl, h₁⟩
  rw [hs.flash] at h₁
  have hs₁ := hs.reflash h₁
  have hlast : s.nand.read lg.pba (d.pgs - 1) = Page.erased := by
    rw [Nand.read, hs.flash, hpages.rest _ (by omega) (by omega)]
    rfl
  rw [hlast]
  dsimp only
  rw [if_neg (by decide)]
  refine Sat.get_bind ?_
  refine Sat.lift_bind (LogTab.blockAt_ok (show s₁.dl.blkcnt < dlCap.maxBlocks by rw [hs₁.dl.blkcnt]; exact hblk)) ?_
  obtain ⟨t, ht, hrep⟩ := scanStart_rep hs₁.dl hblk (s₁.dl.blocktab s₁.dl.blkcnt).key lg.pba
  refine Sat.lift_bind ht ?_
  have htb : t.blkcnt ≤ dlMaxBlocks := by
    have := hrep.blk_le
    rw [← hrep.blkcnt] at this
    exact (Nat.le_succ _).trans this
  have htp : t.pgcnt ≤ dlMaxPages := by
    have := hrep.pg_le
    rw [← hrep.pgcnt] at this
    exact this
  have hgar₁ : s₁.al.gar.length ≤ garbageMaxCnt := by
    rw [hs₁.gar]
    exact (le_of_lt h.alloc.gar_lt).trans (by decide)
  refine Sat.bind (sat_setDl ⟨htb, htp, hs₁.tab.mtlBlk⟩ hgar₁) ?_
  rintro _ _ rfl
  refine (sat_scanLog (s := setDlTab s₁ t) (L := scanned L lg.pba) (dl_slot hs₁.tab.mtlBlk hgar₁)
    (show LogPages d s₁.nand.flash DlTag lg by rw [hs₁.flash]; exact hpages) hlt hshort (by decide)
    (fun p sp hp ht => ?_) (fun n p sp valid hn ht => ?_) hrep (hflat.trans h.dlPages)).mono ?_
  · have hpk := hpages.key p hp
    have hple : p < d.blks * d.pgs := by
      have := Nat.div_add_mod p d.pgs
      have hm := Nat.mod_lt p hpos
      rw [hpk] at this
      have : d.pgs * lg.key + d.pgs ≤ d.pgs * d.blks := by
        rw [← Nat.mul_succ]
        exact Nat.mul_le_mul_left _ hkey
      rw [Nat.mul_comm d.blks]
      omega
    have hmax : d.blks * d.pgs ≤ 4096 * 128 := Nat.mul_le_mul d.blks_le d.pgs_le
    refine ⟨decide_eq_false ?_, ht.2⟩
    rw [ht.2]
    omega
  · dsimp only
    by_cases hn0 : n = 0
    · rw [if_pos (by omega), ht.2]
      exact hpages.key p (List.mem_of_getElem? hn)
    · rw [if_neg (by omega), if_neg hn0]
  · rintro r _ ⟨rfl, e, k, t', rfl, hrep'⟩
    rw [← h.dl.scanned_add dl_injective hlg] at hrep'
    exact ⟨rfl, hs₁.flash, hs₁.bad, fun b => by rw [status_skip _ hfree]; exact hs₁.status b,
      by rw [freeCount_succ, hfree]; exact hs₁.count, hs₁.gt, hs₁.pgcnt, hs₁.gar, hs₁.last,
      fun j hj => by rw [mt_skip (hmt j hj)]; exact hs₁.mt j hj, by rw [scanned_skip hmtl]; exact hs₁.mtl, hrep', hs₁.cache,
      by rw [badCount_succ, hbad]; exact hs₁.badcnt⟩

/-- A converted DataLog block is left alone. -/
theorem sat_scanConverted (hs : Scanned d bd fl al mtPbas ml L i s) (hi : i < d.blks)
    (hlast : (pageAt fl i (d.pgs - 1)).spare.blocktype = .data) :
    Sat (contract d E) (scanDataLog d i) s (fun r s' => r = .next () ∧ Scanned d bd fl al mtPbas ml L i s') := by
  have hpos := d.pgs_pos
  refine Sat.bind (sat_mtdRead hi (by omega)) ?_
  rintro _ s₁ ⟨rfl, h₁⟩
  rw [hs.flash] at h₁
  rw [show s.nand.read i (d.pgs - 1) = pageAt fl i (d.pgs - 1) by rw [Nand.read, hs.flash]; rfl]
  dsimp only
  rw [if_pos hlast]
  exact Sat.pure ⟨rfl, hs.reflash h₁⟩

/-- The second scan loop, for one block. -/
theorem sat_scanBlock {types : Nat → BlockState} (hf : d.Fits) (h : Image d bd own fl al mtPbas ml L) (hi : i < d.blks)
    (hty : types i = typeAt fl i) (hs : Scanned d bd fl al mtPbas ml L i s) :
    Sat (contract d E) (scanBlock d types i ()) s (fun r s' => r = .next () ∧
      Scanned d bd fl al mtPbas ml L (i + 1) s') := by
  refine Sat.get_bind ?_
  rw [hty, hs.bad]
  by_cases hbad : bd i = true
  · -- bad blocks are counted
    have hown := (h.bad i hi).mpr hbad
    rw [if_pos (Or.inl hbad)]
    refine Sat.modify_bind (step_ram d E rfl) (Sat.pure ⟨rfl, hs.flash, hs.bad, fun b => ?_, ?_, hs.gt, hs.pgcnt, hs.gar,
      hs.last, fun k hk => ?_, ?_, ?_, hs.cache, ?_⟩)
    · rw [status_skip _ (h.not_free (by simp [hown]))]; exact hs.status b
    · rw [freeCount_succ, h.not_free (by simp [hown])]; exact hs.count
    · rw [mt_skip (h.not_mt hi (by simp [hown]) k hk)]; exact hs.mt k hk
    · rw [scanned_skip (h.not_mtl (by simp [hown]))]; exact hs.mtl
    · rw [scanned_skip (h.not_dl (by simp [hown]))]; exact hs.dl
    · rw [badCount_succ, if_pos hbad, ← hs.badcnt]
  have hgood : bd i = false := by simpa using hbad
  have hskip : (∀ k, own i ≠ .mt k) → (∀ k, own i ≠ .mtl k) → (∀ k, own i ≠ .dl k) → al.blockstatus i = false →
      Scanned d bd fl al mtPbas ml L (i + 1) s := fun h1 h2 h3 h4 =>
    hs.skip ⟨h4, h.not_mt hi h1, h.not_mtl h2, h.not_dl h3⟩ hgood
  have hcond : ∀ ty, ty ≠ .bbt → ¬ (bd i = true ∨ ty = BlockState.bbt) := fun ty hx hc => hc.elim hbad hx
  cases ho : own i with
  | bad => exact absurd ((h.bad i hi).mp ho) hbad
  | temp => exact absurd ho (h.noTemp i)
  | pool =>
    obtain ⟨-, hp | hp | hp⟩ := (h.alloc.pool.mem i).mp ho
    · rw [h.free_type hp, if_neg (hcond _ (by simp))]
      refine Sat.bind (sat_countFree hs hi hp (h.not_mt hi (by simp [ho])) (h.not_mtl (by simp [ho]))
        (h.not_dl (by simp [ho])) hgood) ?_
      intro _ s' hs'
      exact Sat.pure ⟨rfl, hs'⟩
    · have hsk := hskip (by simp [ho]) (by simp [ho]) (by simp [ho]) (by
        by_contra hb
        exact h.alloc.pool.free_gar i (by simpa using hb) hp)
      have hg : i ∈ s.al.gar := by rw [hs.gar]; exact hp
      rcases (h.alloc.marked i hp).type with e | e | e | e <;> rw [e, if_neg (hcond _ (by simp))]
      · exact Sat.pure ⟨rfl, hsk⟩
      all_goals
        dsimp only
        rw [if_pos hg]
        exact Sat.pure ⟨rfl, hsk⟩
    · have hgt := (h.gt_iff hi hgood).mpr hp
      rw [hgt.1, if_neg (hcond _ (by simp))]
      refine Sat.pure ⟨rfl, hskip (by simp [ho]) (by simp [ho]) (by simp [ho]) ?_⟩
      by_contra hb
      exact h.alloc.pool.free_gt i (by simpa using hb) hp
  | data k =>
    have hsk := hskip (by simp [ho]) (by simp [ho]) (by simp [ho]) (h.not_free (by simp [ho]))
    have hg : i ∉ s.al.gar := by rw [hs.gar]; exact h.not_gar (by simp [ho])
    rcases (h.data i k ho).type with e | ⟨e, hlast⟩
    · rw [e, if_neg (hcond _ (by simp))]
      exact Sat.pure ⟨rfl, hsk⟩
    · rw [e, if_neg (hcond _ (by simp))]
      dsimp only
      rw [if_neg hg]
      refine (sat_scanConverted hs hi hlast).mono ?_
      rintro r s' ⟨rfl, hs'⟩
      exact ⟨rfl, hs'.skip ⟨h.not_free (by simp [ho]), h.not_mt hi (by simp [ho]), h.not_mtl (by simp [ho]),
        h.not_dl (by simp [ho])⟩ hgood⟩
  | dl k =>
    obtain ⟨lg, hlg, -, rfl⟩ := h.dl.mem i k ho
    obtain ⟨pg, p, hpg, ht, -⟩ := (h.dl.pages lg hlg).head
    have hg : lg.pba ∉ s.al.gar := by rw [hs.gar]; exact h.not_gar (by simp [ho])
    rw [typeAt_of_some hpg, ht, if_neg (hcond _ (by simp))]
    dsimp only
    rw [if_neg hg]
    exact sat_scanDataLog h hs hlg (h.not_mt hi (by simp [ho])) (h.not_free (by simp [ho])) (h.not_mtl (by simp [ho])) hgood
  | mtl k =>
    obtain ⟨lg, hlg, -, rfl⟩ := h.mtl.mem i k ho
    obtain ⟨pg, p, hpg, ht, -⟩ := (h.mtl.pages lg hlg).head
    have hg : lg.pba ∉ s.al.gar := by rw [hs.gar]; exact h.not_gar (by simp [ho])
    rw [typeAt_of_some hpg, ht, if_neg (hcond _ (by simp))]
    dsimp only
    rw [if_neg hg]
    exact sat_scanMtLog hf h hs hlg (h.not_mt hi (by simp [ho])) (h.not_free (by simp [ho])) (h.not_dl (by simp [ho])) hgood
  | mt k =>
    obtain ⟨hk, hki, hhead⟩ := h.mem_mt i k ho
    have hg : i ∉ s.al.gar := by rw [hs.gar]; exact h.not_gar (by simp [ho])
    have hty' : typeAt fl i = .mapTab := by
      obtain ⟨pg, hpg, ht, -⟩ := hhead
      rw [typeAt_of_some hpg, ht]
    rw [hty', if_neg (hcond _ (by simp))]
    dsimp only
    rw [if_neg hg]
    refine sat_scanMapTab hf hs hi hk hki hhead (fun j hj hjk e => ?_) (h.not_free (by simp [ho])) (h.not_mtl (by simp [ho]))
      (h.not_dl (by simp [ho])) hgood
    rcases h.mt j hj with hx | hx
    · have := d.blks_lt_noBlock
      omega
    · rw [e, ho] at hx
      exact hjk (Role.mt.inj hx).symm

end Emlinux.Nftl
