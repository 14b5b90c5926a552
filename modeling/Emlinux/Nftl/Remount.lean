import Emlinux.Nftl.MountRoles

/-!
# Mounting again

`sat_mountScan` runs the scan loops of `NFTL_mount` on an `Image`. A chip in use is an `Image`, and what the
loops rebuild is the state before, up to the order of the log tables: `sat_remount`.
-/

namespace Emlinux.Nftl

open Lib

variable {d : Device} {E : Prop} {bd : Nat → Bool} {own : Own} {map : Nat → Nat} {al : Alloc} {mtPbas : Nat → Nat} {ml L : List Log} {s s' : St} {n : Nand}

/-- The RAM after the initialisation at the head of the mount. -/
def St.mounting (d : Device) (n : Nand) : St where
  nand := n
  al := ⟨fun _ => false, 0, 0, noBlock, 0, []⟩
  mt := ⟨fun i => if i < d.mtBlkcnt then noBlock else 0, LogTab.zero, 0xffff, 0xff, ffData⟩
  dl := LogTab.zero
  gBadblkcnt := 0
  gStoragesize := 0

theorem sat_mountInit (hf : d.Fits) :
    Sat (contract d E) (mountInit d) (St.boot n) (fun _ s' => s' = St.mounting d n) := by
  have h6 := hf.map_lt
  unfold mountInit
  rw [if_neg (by omega)]
  exact Sat.modify (step_ram d E rfl) rfl

theorem Image.scanned_zero (_ : Image d n.bad own n.flash al mtPbas ml L) (hr : Reflash (withGar (withGt (St.mounting d n) al.gtPba)
    al.gar al.gtPgcnt) n.flash s) : Scanned d n.bad n.flash al mtPbas ml L 0 s := by
  obtain ⟨e, k, rfl⟩ := hr
  refine ⟨rfl, rfl, fun b => by simp [withGar, withGt, St.mounting, St.reflash], ?_, rfl, rfl, rfl, d.blks_pos, fun k hk => ?_,
    rep_zero _, rep_zero _, rfl, rfl⟩
  · simp [withGar, withGt, St.mounting, St.reflash, freeCount]
  · rw [if_neg (Nat.not_lt_zero _)]
    exact if_pos hk

/-- The scan loops of a mount rebuild what the image shows. -/
theorem sat_mountScan {Q : Int → St → Prop} (hf : d.Fits) (h : Image d n.bad own n.flash al mtPbas ml L)
    (hend : ∀ s', Scanned d n.bad n.flash al mtPbas ml L d.blks s' → Sat (contract d E) (mountEnd d) s' Q) :
    Sat (contract d E) (nftlMount d) (St.boot n) Q := by
  have hno := d.blks_lt_noBlock
  refine Sat.bind (sat_mountInit hf) ?_
  rintro _ _ rfl
  refine Sat.bind (sat_scanTypes (s := St.mounting d n) h rfl rfl) ?_
  rintro _ s₁ ⟨types, rfl, htypes, h₁⟩
  dsimp only
  refine Sat.get_bind ?_
  have hgt₁ : s₁.al.gtPba = al.gtPba := by rw [h₁.al]; rfl
  rw [hgt₁]
  refine Sat.bind (Q := fun r s' => r = 0 ∧ Scanned d n.bad n.flash al mtPbas ml L 0 s') ?_ ?_
  · by_cases hg : al.gtPba = noBlock
    · rw [if_neg (not_not.mpr hg)]
      have hc : al.Clean := h.alloc.tab.resolve_right fun hx => by
        have := hx.1
        omega
      refine Sat.pure ⟨rfl, h.scanned_zero ?_⟩
      rw [hc.2.1, hc.2.2]
      exact h₁
    · rw [if_pos hg]
      have hglt := h.alloc.pool.gt_lt.resolve_left hg
      have ht : TabOk s₁.dl s₁.mt.mtl := by
        rw [h₁.dl, h₁.mt]
        exact ⟨Nat.zero_le _, Nat.zero_le _, Nat.zero_le _⟩
      refine (sat_getGarBlks h h₁.flash hglt ht).mono ?_
      rintro r s₂ ⟨rfl, h₂⟩
      refine ⟨rfl, h.scanned_zero ?_⟩
      obtain ⟨e, k, rfl⟩ := h₁
      obtain ⟨e', k', rfl⟩ := h₂
      exact ⟨e', k', rfl⟩
  rintro _ s₂ ⟨rfl, hs₂⟩
  rw [if_neg (by decide)]
  refine Sat.bind (Q := fun r s' => r = .next () ∧ Scanned d n.bad n.flash al mtPbas ml L d.blks s') ?_ ?_
  · refine Sat.loop (fun i (_ : Unit) s' => Scanned d n.bad n.flash al mtPbas ml L i s') d.blks 0 ?_ ?_ hs₂
    · rintro i _ s₃ - hi hs₃
      rw [Nat.zero_add] at hi
      refine (sat_scanBlock hf h hi (htypes i hi) hs₃).mono ?_
      rintro r s' ⟨rfl, hs'⟩
      exact hs'
    · intro _ s' hs'
      rw [Nat.zero_add] at hs'
      exact ⟨rfl, hs'⟩
  rintro _ s₃ ⟨rfl, hs₃⟩
  exact hend s₃ hs₃

/-! ## A chip in use -/

theorem Ftl.image (h : Ftl d bd own map ml L s) (hshort : ∀ lg ∈ L, lg.seq.length < d.pgs) :
    Image d bd own s.nand.flash s.al s.mt.mtPbas ml L where
  alloc := h.core.alloc
  bad := h.bad
  noTemp := h.noTemp
  data := h.data.head
  dl := h.logs
  dlShort := hshort
  dlKey := h.key_lt
  dlLen := h.rep.blk_le
  dlPages := h.rep.pg_le
  mtl := h.core.inv.logs
  mtlShort := h.core.short
  mtlKey := fun _ hlg => h.core.inv.key_lt hlg
  mtlLen := h.core.rep.blk_le
  mtlPages := h.core.rep.pg_le
  mt := fun k hk => Or.inr (h.core.inv.own_mt k hk)
  mem_mt := fun b k hb => by
    obtain ⟨hk, he⟩ := h.core.inv.mem_mt b k hb
    exact ⟨hk, he, he ▸ h.core.inv.head k hk⟩

/-- The tables in another order, and the MapTab blocks, hold the same map. -/
theorem MapInv.congr {fl : Flash} {mtPbas' : Nat → Nat} {ml' : List Log} (h : MapInv d own map ml fl mtPbas) (hp : ml.Perm ml')
    (hmt : ∀ k, k < d.mtBlkcnt → mtPbas' k = mtPbas k) : MapInv d own map ml' fl mtPbas' := by
  have hlogs := h.logs.perm hp
  have hloc : ∀ p, p < d.nrMtpage → mtLoc d mtPbas' ml' p = mtLoc d mtPbas ml p := by
    intro p hp'
    rw [mtLoc, mtLoc, hmt _ (d.mtIndex_lt hp'), lookupIn_congr hlogs.nodup h.logs.nodup (fun x _ => hp.symm.mem_iff)]
  refine ⟨hlogs, fun lg hlg => h.page_lt lg (hp.mem_iff.mpr hlg), fun k hk => ?_, fun k hk => ?_, fun b k hb => ?_,
    fun k hk => ?_, fun lba hlba => ?_, h.range⟩
  · rw [hmt k hk]; exact h.pba_lt k hk
  · rw [hmt k hk]; exact h.own_mt k hk
  · obtain ⟨hk, he⟩ := h.mem_mt b k hb
    exact ⟨hk, by rw [hmt k hk, he]⟩
  · rw [hmt k hk]; exact h.head k hk
  · rw [mtData, hloc _ (d.mtPage_lt hlba)]
    exact h.entry lba hlba

/-- The rebuilt allocator is the one before. -/
theorem Scanned.alloc {fl : Flash} (h : AllocInv d own fl al) (hs : Scanned d bd fl al mtPbas ml L d.blks s') :
    AllocInv d own fl s'.al := by
  have hst : s'.al.blockstatus = al.blockstatus := by
    funext b
    rw [hs.status b]
    by_cases hb : al.blockstatus b = true
    · simp [hb, h.pool.free_lt b hb]
    · simp [hb]
  refine ⟨?_, by rw [hs.gar]; exact h.marked, ?_⟩
  · rw [hs.gar, hs.gt]
    have hp := h.pool
    exact ⟨fun b => by rw [hst]; exact hp.mem b, fun b hb => hp.free_lt b (hst ▸ hb), fun b hb => hp.free_gar b (hst ▸ hb),
      fun b hb => hp.free_gt b (hst ▸ hb), hp.gt_gar, hp.gar_nodup, hp.gar_lt, hp.gt_lt,
      fun b hb => hp.erased b (hst ▸ hb), by rw [hst]; exact hs.count, hs.last⟩
  · unfold Alloc.Clean
    rw [hs.gar, hs.gt, hs.pgcnt]
    exact h.tab

theorem Ftl.rebuilt (h : Ftl d bd own map ml L s)
    (hs : Scanned d bd s.nand.flash s.al s.mt.mtPbas ml L d.blks s') :
    Ftl d bd own map (scanned ml d.blks) (scanned L d.blks) s' := by
  have hmlp := h.core.inv.logs.scanned_perm mtl_injective
  have hLp := h.logs.scanned_perm dl_injective
  have hmt : ∀ k, k < d.mtBlkcnt → s'.mt.mtPbas k = s.mt.mtPbas k := fun k hk => by
    rw [hs.mt k hk, if_pos (h.core.inv.pba_lt k hk)]
  have hinv : MapInv d own map (scanned ml d.blks) s'.nand.flash s'.mt.mtPbas := by
    rw [hs.flash]
    exact h.core.inv.congr hmlp.symm hmt
  refine ⟨⟨?_, hinv, hs.mtl, fun p hp hloc => ?_, fun lg hlg => h.core.short lg (hmlp.mem_iff.mp hlg), hs.tab⟩, ?_, hs.dl,
    fun lg hlg => h.key_lt lg (hLp.mem_iff.mp hlg), by rw [hs.flash]; exact h.data, h.noTemp, h.bad⟩
  · rw [hs.flash]
    exact hs.alloc h.core.alloc
  · -- nothing is cached yet
    have h1 := (hinv.loc_lt (d.mtIndex_lt hp)).1
    have h2 := d.blks_lt_noBlock
    rw [hloc, hs.cache] at h1
    omega
  · rw [hs.flash]
    exact h.logs.perm hLp.symm

/-- A mount of a chip in use rebuilds the state, and changes nothing on the chip. -/
theorem sat_remount (hf : d.Fits) (h : Ftl d s.nand.bad own map ml L s) (hshort : ∀ lg ∈ L, lg.seq.length < d.pgs)
    (hsize : 500 ≤ storagesize d (badCount s.nand.bad d.blks)) :
    Sat (contract d E) (nftlMount d) (St.boot s.nand) (fun r s' => r = 0 ∧
      Scanned d s.nand.bad s.nand.flash s.al s.mt.mtPbas ml L d.blks s' ∧
      Ftl d s.nand.bad own map (scanned ml d.blks) (scanned L d.blks) s') := by
  have hno := d.blks_lt_noBlock
  have h6 := hf.map_lt
  have hpos := d.mtBlkcnt_pos
  refine sat_mountScan hf (h.image hshort) fun s₁ hs₁ => ?_
  refine Sat.modify_bind (step_ram d E rfl) (Sat.get_bind ?_)
  rw [if_neg (by show ¬ storagesize d s₁.gBadblkcnt < 500; rw [hs₁.badcnt]; omega)]
  have hs₂ : Scanned d s.nand.bad s.nand.flash s.al s.mt.mtPbas ml L d.blks
      { s₁ with gStoragesize := storagesize d s₁.gBadblkcnt } :=
    ⟨hs₁.flash, hs₁.bad, hs₁.status, hs₁.count, hs₁.gt, hs₁.pgcnt, hs₁.gar, hs₁.last, hs₁.mt, hs₁.mtl, hs₁.dl, hs₁.cache,
      hs₁.badcnt⟩
  have hmt : ∀ k, k < d.mtBlkcnt → s₁.mt.mtPbas k ≠ noBlock := fun k hk => by
    rw [hs₁.mt k hk, if_pos (h.core.inv.pba_lt k hk)]
    have := h.core.inv.pba_lt k hk
    omega
  refine Sat.bind (sat_mtPbaAt (show 0 < mtMaxBlocks by omega)) ?_
  rintro _ s₃ ⟨rfl, rfl⟩
  refine Sat.bind (sat_mtPbaAt (show d.mtBlkcnt - 1 < mtMaxBlocks by omega)) ?_
  rintro _ s₃ ⟨rfl, rfl⟩
  refine Sat.get_bind ?_
  rw [if_neg (fun hc => hc.1.elim (hmt 0 hpos) (hmt _ (by omega)))]
  exact Sat.pure ⟨rfl, hs₂, h.rebuilt hs₂⟩

end Emlinux.Nftl
