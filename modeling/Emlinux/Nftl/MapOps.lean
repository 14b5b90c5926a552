import Emlinux.Nftl.MapSpec

/-!
# Reading and writing the map

The specifications of `nftl_update_mt` and `nftl_lba_to_pba` over the invariant `Core` of the allocator and
the map.
-/

namespace Emlinux.Nftl

open Lib

variable {d : Device} {E : Prop} {own : Own} {map : Nat → Nat} {ml pre post : List Log} {lg : Log}

/-- The allocator and the map between two operations. -/
structure Core (d : Device) (own : Own) (map : Nat → Nat) (ml : List Log) (s : St) : Prop where
  alloc : AllocInv d own s.nand.flash s.al
  inv : MapInv d own map ml s.nand.flash s.mt.mtPbas
  rep : Rep mtlCap s.mt.mtl ml
  cache : CacheOk d ml s.nand.flash s.mt
  short : ∀ lg ∈ ml, lg.seq.length < d.pgs
  tab : TabOk s.dl s.mt.mtl

theorem Core.gar_le {s : St} (h : Core d own map ml s) : s.al.gar.length ≤ garbageMaxCnt :=
  (le_of_lt h.alloc.gar_lt).trans (by decide)

/-- Only the chip's counters changed. -/
theorem Core.reflash {s s' : St} (h : Core d own map ml s) (hr : Reflash s s.nand.flash s') :
    Core d own map ml s' := by
  obtain ⟨e, t, rfl⟩ := hr
  exact ⟨h.alloc, h.inv, h.rep, h.cache, h.short, h.tab⟩

/-- Blocks outside the pool and the map changed their role or content. -/
theorem Core.keeps {s s' : St} {own' : Own} (h : Core d own map ml s) (hal : s'.al = s.al) (hmt : s'.mt = s.mt)
    (hdl : TabOk s'.dl s'.mt.mtl)
    (hk : Keeps (fun r => !r.user) own s.nand.flash own' s'.nand.flash) : Core d own' map ml s' := by
  have hmap : Keeps Role.map own s.nand.flash own' s'.nand.flash := fun b => (hk b).imp id fun hb => by
    constructor
    · cases ho : own b <;> simp_all [Role.map, Role.user]
    · cases ho : own' b <;> simp_all [Role.map, Role.user]
  refine ⟨?_, ?_, ?_, ?_, h.short, hdl⟩
  · rw [hal]
    exact h.alloc.congr (fun b => hk.role rfl b) fun b hb => hk.flash (r := .pool) rfl hb
  · rw [hmt]; exact h.inv.keeps hmap
  · rw [hmt]; exact h.rep
  · rw [hmt]; exact h.cache.congr h.inv hmap

/-- Room for another map page in the MTLog tables. -/
theorem Core.flat_lt {s : St} (hf : d.Fits) (h : Core d own map ml s) : (flat ml).length < mtlMaxPages := by
  have h1 := length_flat_le (n := 127) fun lg hlg => by
    have := h.short lg hlg
    have := d.pgs_le
    omega
  have h2 := h.inv.length_le
  have h3 : d.mtBlkcnt < 6 := hf.map_lt
  show _ < 768
  omega

/-! ## Writing -/

theorem sat_writeMtlPage {s : St} {op : RamOp} {ri b p : Nat} {pg : Page} (hb : b < d.blks) (hp : p < d.pgs)
    (he : ∀ q, p ≤ q → q < d.pgs → s.nand.flash b q = none) :
    Sat (contract d E) (writeMtlPage d op ri b p pg) s (fun _ s' =>
      s'.nand.flash = setPage s.nand.flash b p pg ∧ s'.al = s.al ∧ s'.dl = s.dl ∧
      s'.mt = { s.mt with cacheblock := b, cachepage := p }) := by
  refine Sat.bind (sat_mtdWrite pg hb hp he) ?_
  rintro r s₁ ⟨rfl, h₁⟩
  refine Sat.modify_bind (step_ram d E rfl) ?_
  rw [if_neg (by decide)]
  exact Sat.pure ⟨h₁.flash, h₁.al, h₁.dl, by simp only [h₁.mt]⟩

theorem sat_findMtlRam {C : Contract St Event} {s : St} (hr : Rep mtlCap s.mt.mtl ml) (k : Nat) :
    Sat C (nftlFindMtlRam k) s (fun r s' => r = ml.findIdx (fun lg => lg.key = k) ∧ s' = s) := by
  refine Sat.get_bind ?_
  have := findBlock_rep (show Rep mtlCap s.mt.mtl ([] ++ ml) from hr) (fun b => b.key = k)
  rw [List.length_nil, Nat.zero_add, ← hr.blkcnt] at this
  exact Sat.lift_ok this ⟨rfl, rfl⟩

/-- The state after the map page was programmed and entered in the MTLog table, before a merge. -/
structure Written (d : Device) (own : Own) (map : Nat → Nat) (lba pba : Nat) (s s' : St) (own' : Own)
    (pre : List Log) (lg : Log) (post : List Log) : Prop where
  result : MapPost d own (Function.update map lba pba) s s' own' (pre ++ lg :: post)
  short : ∀ x ∈ pre ++ post, x.seq.length < d.pgs
  fits : lg.seq.length ≤ d.pgs
  cache : s'.mt.cacheblock = lg.pba
  gar : s'.al.gar = s.al.gar
  free : s.al.freeBlkcnt ≤ s'.al.freeBlkcnt + 1
  full : lg.seq.length = d.pgs → s'.al = s.al ∨ d.pgs = 1

theorem setTab_tabindx (old ofs : Nat) {tab : Nat} (h : tab < 256) :
    (⟨.mtLog, Spare.setTab old tab ofs⟩ : Spare).tabindx = tab := by
  simp only [Spare.tabindx, Spare.setTab]
  omega

theorem setTab_pageofs (old tab : Nat) {ofs : Nat} (h : ofs < 65536) :
    (⟨.mtLog, Spare.setTab old tab ofs⟩ : Spare).pageofs = ofs := by
  simp only [Spare.pageofs, Spare.setTab]
  omega

theorem mtlTag_setTab (hf : d.Fits) (old : Nat) {p : Nat} (hp : p < d.nrMtpage) :
    MtlTag d p ⟨.mtLog, Spare.setTab old (p / d.pgs) p⟩ := by
  have h1 : p / d.pgs < 6 := lt_trans (d.mtIndex_lt hp) hf.map_lt
  have h2 := d.nrMtpage_lt
  exact ⟨rfl, setTab_tabindx _ _ (by omega), setTab_pageofs _ _ (by omega)⟩

/-- The map after page `i` of block `blk` was programmed with the changed map page. -/
theorem Core.written {s₀ s' : St} {own' : Own} {ml' : List Log} {lba pba blk i : Nat} {dat : PageData} {sp : Spare}
    (h : Core d own map ml s₀) (hlba : lba < d.blks) (hpba : pba < d.blks)
    (hmv : Moved d s₀.mt.mtPbas ml ml' (lba / d.words) blk i)
    (hne : ∀ q, q < d.nrMtpage → q ≠ lba / d.words → mtLoc d s₀.mt.mtPbas ml q ≠ (blk, i))
    (hblk : ∀ k, own blk ≠ .mt k) (hmt : ∀ b k, own' b = .mt k ↔ own b = .mt k)
    (hlogs : Logs d .mtl (MtlTag d) own' s'.nand.flash ml')
    (hpage : ∀ x ∈ ml', ∀ q ∈ x.seq, q = lba / d.words ∨ ∃ y ∈ ml, q ∈ y.seq)
    (hfl : s'.nand.flash = setPage s₀.nand.flash blk i ⟨dat, sp⟩)
    (hdat : dat = setWord (mtData d s₀.nand.flash s₀.mt.mtPbas ml (lba / d.words)) (lba % d.words) pba)
    (hpbas : s'.mt.mtPbas = s₀.mt.mtPbas) (hcb : s'.mt.cacheblock = blk) (hcp : s'.mt.cachepage = i)
    (hrc : s'.mt.readcache = dat) (hrep : Rep mtlCap s'.mt.mtl ml') (hal : AllocInv d own' s'.nand.flash s'.al)
    (hdl : s'.dl = s₀.dl) (hk : Keeps Role.user own s₀.nand.flash own' s'.nand.flash) :
    MapPost d own (Function.update map lba pba) s₀ s' own' ml' := by
  have hdata : ∀ q, q < d.nrMtpage → mtData d (setPage s₀.nand.flash blk i ⟨dat, sp⟩) s₀.mt.mtPbas ml' q =
      if q = lba / d.words then dat else mtData d s₀.nand.flash s₀.mt.mtPbas ml q := hmv.data hne
  refine ⟨hal, ?_, hrep, ?_, hdl, hk⟩
  · rw [hpbas]
    refine h.inv.write hlogs (fun x hx q hq => ?_) hmt (fun b k hb => ?_) hpba (fun q hq => ?_)
    · rcases hpage x hx q hq with rfl | ⟨y, hy, hqy⟩
      · exact d.mtPage_lt hlba
      · exact h.inv.page_lt y hy q hqy
    · rw [hfl]
      exact setPage_block_ne _ _ _ fun e => hblk k (e ▸ hb)
    · rw [hfl, hdata q hq, hdat]
      by_cases hqp : q = lba / d.words
      · rw [if_pos hqp, if_pos hqp, hqp]
      · rw [if_neg hqp, if_neg hqp]
  · intro q hq hl
    rw [hpbas, hcb, hcp, hmv q] at hl
    rw [hpbas, hrc, hfl, hdata q hq]
    by_cases hqp : q = lba / d.words
    · rw [if_pos hqp]
    · rw [if_neg hqp] at hl
      exact absurd hl (hne q hq hqp)

/-- The state in which the changed map page is in the cache and about to be programmed. -/
structure Ready (d : Device) (ml : List Log) (lba pba : Nat) (s₀ s : St) : Prop where
  flash : s.nand.flash = s₀.nand.flash
  dl : s.dl = s₀.dl
  pbas : s.mt.mtPbas = s₀.mt.mtPbas
  mtl : s.mt.mtl = s₀.mt.mtl
  dat : s.mt.readcache = setWord (mtData d s₀.nand.flash s₀.mt.mtPbas ml (lba / d.words)) (lba % d.words) pba

/-- The page goes to the MTLog block there is. -/
theorem sat_insertMtl {s s₀ : St} (hf : d.Fits) (h : Core d own map (pre ++ lg :: post) s₀) {lba pba info : Nat}
    (hlba : lba < d.blks) (hpba : pba < d.blks) (hk : lg.key = lba / d.words / d.pgs)
    (hs : Ready d (pre ++ lg :: post) lba pba s₀ s) (hal : s.al = s₀.al) :
    Sat (contract d E) (do
      writeMtlPage d .insert pre.length lg.pba lg.seq.length
        ⟨s.mt.readcache, ⟨.mtLog, Spare.setTab info (lba / d.words / d.pgs) (lba / d.words)⟩⟩
      nftlUpdateMtlRam d .insert pre.length (lba / d.words) lg.pba 0) s (fun r s' => r = 0 ∧
      Written d own map lba pba s₀ s' own pre ⟨lg.key, lg.pba, lg.seq ++ [lba / d.words]⟩ post) := by
  have hp := d.mtPage_lt hlba
  have hpg := h.inv.logs.pages lg (by simp)
  have hlen := h.short lg (by simp)
  have hlog := h.inv.logs.owned lg (by simp)
  refine Sat.bind (sat_writeMtlPage (h.inv.logs.lt lg (by simp)) hlen (by rw [hs.flash]; exact hpg.rest)) ?_
  rintro _ s₁ ⟨hfl₁, hal₁, hdl₁, hmt₁⟩
  rw [hs.flash] at hfl₁
  obtain ⟨t, hins, hrep⟩ := insert_rep h.rep (lba / d.words) (Or.inr (h.flat_lt hf))
  refine Sat.get_bind ?_
  refine Sat.lift_bind (show LogTab.insert mtlCap s₁.mt.mtl pre.length (lba / d.words) = .ok t by
    rw [hmt₁, hs.mtl]; exact hins) ?_
  refine Sat.bind (sat_setMtl (hrep.tabOk (by rw [hmt₁, hdl₁, hs.dl, hs.mtl]; exact h.tab))
    (by rw [hal₁, hal]; exact h.gar_le)) ?_
  rintro _ _ rfl
  have hkeep : ∀ P : Role → Bool, P (.mtl lg.key) = false → Keeps P own s₀.nand.flash own s₁.nand.flash := by
    intro P hP
    refine Keeps.content (b := lg.pba) (by rw [hlog]; exact hP) fun x hx => ?_
    rw [hfl₁, setPage_block_ne _ _ _ hx]
  refine Sat.pure ⟨rfl, ?_, fun x hx => h.short x (mem_middle.mpr (Or.inr hx)), ?_, by rw [hmt₁], ?_, ?_,
    fun _ => Or.inl (hal₁.trans hal)⟩
  · refine h.written hlba hpba (moved_put h.inv.logs.nodup hk.symm) (fun q hq _ e => ?_) (fun k => by rw [hlog]; simp)
      (fun _ _ => Iff.rfl) ?_ (fun x hx q hq => ?_) hfl₁ hs.dat (by rw [hmt₁, hs.pbas]) (by rw [hmt₁]) (by rw [hmt₁])
      (by rw [hmt₁]) hrep ?_ (hdl₁.trans hs.dl) (hkeep _ rfl)
    · -- the next page of a log is no page of the map yet
      rcases h.inv.loc_cases q with ⟨x, hx, i, -, hi, hloc⟩ | ⟨-, hloc⟩
      · rw [hloc, Prod.mk.injEq] at e
        have ho := h.inv.logs.owned x hx
        rw [e.1, hlog] at ho
        have hxl : x = lg := eq_of_key h.inv.logs.nodup hx (by simp) (Role.mtl.inj ho).symm
        have := lookup_lt hi
        rw [hxl] at this
        omega
      · rw [hloc, Prod.mk.injEq] at e
        have ho := h.inv.own_mt _ (d.mtIndex_lt hq)
        rw [e.1, hlog] at ho
        simp at ho
    · show Logs d _ _ own s₁.nand.flash _
      rw [hfl₁]
      exact h.inv.logs.put mtl_injective hlen (mtlTag_setTab hf info hp) hk.symm
    · rcases mem_middle.mp hx with rfl | hx
      · rcases List.mem_append.mp hq with hq | hq
        · exact Or.inr ⟨lg, by simp, hq⟩
        · exact Or.inl (List.mem_singleton.mp hq)
      · exact Or.inr ⟨x, mem_middle.mpr (Or.inr hx), hq⟩
    · show AllocInv d own s₁.nand.flash s₁.al
      rw [hal₁, hal]
      exact h.alloc.congr (fun _ => Iff.rfl) fun b hb =>
        (hkeep (fun r => r = .pool) (by simp)).flash (r := .pool) (by simp) hb
  · simp only [List.length_append, List.length_singleton]; omega
  · show s₁.al.gar = _
    rw [hal₁, hal]
  · show _ ≤ s₁.al.freeBlkcnt + 1
    rw [hal₁, hal]; omega

/-- The page opens a new MTLog block. -/
theorem sat_appendMtl {s s₀ : St} (hf : d.Fits) (h : Core d own map ml s₀) {lba pba info b : Nat}
    (hlba : lba < d.blks) (hpba : pba < d.blks) (hk : ∀ x ∈ ml, x.key ≠ lba / d.words / d.pgs)
    (hb : s₀.al.blockstatus b = true) (hs : Ready d ml lba pba s₀ s) (hal : s.al = s₀.al.take b) :
    Sat (contract d E) (do
      writeMtlPage d .append ml.length b 0
        ⟨s.mt.readcache, ⟨.mtLog, Spare.setTab info (lba / d.words / d.pgs) (lba / d.words)⟩⟩
      nftlUpdateMtlRam d .append ml.length (lba / d.words) b 0) s (fun r s' => r = 0 ∧
      Written d own map lba pba s₀ s' (Function.update own b (.mtl (lba / d.words / d.pgs))) ml
        ⟨lba / d.words / d.pgs, b, [lba / d.words]⟩ []) := by
  have hp := d.mtPage_lt hlba
  have hpool : own b = .pool := h.alloc.pool.own_free hb
  have hlt := h.alloc.pool.free_lt b hb
  have her := h.alloc.pool.erased b hb
  have ha := h.alloc.take hb (show Role.mtl (lba / d.words / d.pgs) ≠ .pool by simp)
  have hcnt := h.alloc.pool.free_take hb
  refine Sat.bind (sat_writeMtlPage hlt d.pgs_pos (by rw [hs.flash]; exact fun q _ hq => her q hq)) ?_
  rintro _ s₁ ⟨hfl₁, hal₁, hdl₁, hmt₁⟩
  rw [hs.flash] at hfl₁
  have hlen : ml.length < mtlCap.maxBlocks := lt_of_le_of_lt h.inv.length_le hf.map_lt
  obtain ⟨t, happ, hrep⟩ := append_rep h.rep (lba / d.words / d.pgs) (lba / d.words) b hlen (h.flat_lt hf)
  refine Sat.get_bind ?_
  refine Sat.lift_bind (show LogTab.append mtlCap s₁.mt.mtl (lba / d.words / d.pgs) (lba / d.words) b = .ok t by
    rw [hmt₁, hs.mtl]; exact happ) ?_
  refine Sat.bind (sat_setMtl (hrep.tabOk (by rw [hmt₁, hdl₁, hs.dl, hs.mtl]; exact h.tab))
    (by rw [hal₁, hal]; exact h.gar_le)) ?_
  rintro _ _ rfl
  have hne : ∀ x, own x ≠ .pool → x ≠ b := fun x hx e => hx (e ▸ hpool)
  refine Sat.pure ⟨rfl, ?_, fun x hx => h.short x (by simpa using hx), d.pgs_pos, by rw [hmt₁], ?_, ?_,
    fun e => Or.inr e.symm⟩
  · refine h.written hlba hpba (moved_add h.inv.logs.nodup hk) (fun q hq _ e => ?_) (fun k => by rw [hpool]; simp)
      (fun x k => ?_) ?_ (fun x hx q hq => ?_) hfl₁ hs.dat (by rw [hmt₁, hs.pbas]) (by rw [hmt₁]) (by rw [hmt₁])
      (by rw [hmt₁]) hrep ?_ (hdl₁.trans hs.dl) ?_
    · have hm := h.inv.loc_map (d.mtIndex_lt hq)
      rw [e, hpool] at hm
      simp [Role.map] at hm
    · by_cases hx : x = b
      · subst hx; simp [hpool]
      · rw [Function.update_of_ne hx]
    · show Logs d _ _ _ s₁.nand.flash _
      rw [hfl₁]
      refine h.inv.logs.add mtl_injective hk hlt (fun k => by rw [hpool]; simp) (by simp) (fun x hx k => ?_)
        (fun x hx k _ => setPage_block_ne _ _ _ hx) (LogPages.single her (mtlTag_setTab hf info hp))
      rw [Function.update_of_ne hx]
    · rcases List.mem_append.mp hx with hx | hx
      · exact Or.inr ⟨x, hx, hq⟩
      · rw [List.mem_singleton.mp hx] at hq
        exact Or.inl (List.mem_singleton.mp hq)
    · show AllocInv d _ s₁.nand.flash s₁.al
      rw [hal₁, hal, hfl₁]
      refine ha.congr (fun _ => Iff.rfl) fun x hx => setPage_block_ne _ _ _ fun e => ?_
      rw [e, Function.update_self] at hx
      simp at hx
    · intro x
      by_cases hx : x = b
      · subst hx; exact Or.inr ⟨by rw [hpool]; rfl, by rw [Function.update_self]; rfl⟩
      · refine Or.inl ⟨Function.update_of_ne hx _ _, ?_⟩
        show s₁.nand.flash x = _
        rw [hfl₁, setPage_block_ne _ _ _ hx]
  · show s₁.al.gar = _
    rw [hal₁, hal]; rfl
  · show _ ≤ s₁.al.freeBlkcnt + 1
    rw [hal₁, hal]; omega

/-- What `nftl_update_mt` and the operations over it leave of the allocator: at most `k` blocks were taken, or
it was settled after garbage was recorded. -/
def Spent (k : Nat) (al al' : Alloc) : Prop :=
  (al'.gar = al.gar ∧ al.freeBlkcnt ≤ al'.freeBlkcnt + k) ∨ Settled al'

theorem MapPost.core {s s' : St} {own' : Own} (h : MapPost d own map s s' own' ml)
    (hshort : ∀ lg ∈ ml, lg.seq.length < d.pgs) (ht : TabOk s.dl s.mt.mtl) : Core d own' map ml s' :=
  ⟨h.alloc, h.inv, h.rep, h.cache, hshort, by rw [h.dl]; exact h.rep.tabOk ht⟩

/-- After the page was written, a full MTLog block is merged. -/
theorem sat_updateMtEnd {s s₀ : St} {own' : Own} {lba pba : Nat} (hf : d.Fits) (ht : TabOk s₀.dl s₀.mt.mtl)
    (hE : Enough d E s₀.al) (h : Written d own map lba pba s₀ s own' pre lg post) :
    Sat (contract d E) (do
      let s ← Prog.get
      let b ← Prog.lift (s.mt.mtl.blockAt mtlCap pre.length)
      if b.used = d.pgs then nftlMergeMtlblk d pre.length else pure 0) s (fun r s' => r = 0 ∧ ∃ own' ml',
      Core d own' (Function.update map lba pba) ml' s' ∧ s'.dl = s₀.dl ∧
      Keeps Role.user own s₀.nand.flash own' s'.nand.flash ∧ Spent 1 s₀.al s'.al) := by
  have hres := h.result
  have ht₁ : TabOk s.dl s.mt.mtl := by rw [hres.dl]; exact hres.rep.tabOk ht
  refine Sat.get_bind ?_
  refine Sat.lift_bind (LogTab.blockAt_ok hres.rep.mid_lt) ?_
  rw [hres.rep.block_mid]
  by_cases hfull : lg.block.used = d.pgs
  · rw [if_pos hfull]
    refine (sat_mergeMtlblk hf hres.alloc hres.inv hres.rep ht₁ h.cache ?_).mono ?_
    · rcases hE with hE | ⟨h2, h3⟩
      · exact Or.inl hE
      · rcases h.full hfull with e | e
        · rw [e]; exact Or.inr h3
        · omega
    · rintro r s' ⟨rfl, own'', hp, hset⟩
      exact ⟨rfl, own'', _, hp.core h.short ht₁, hp.dl.trans hres.dl, hres.keeps.trans hp.keeps, Or.inr hset⟩
  · rw [if_neg hfull]
    refine Sat.pure ⟨rfl, own', _, hres.core (fun x hx => ?_) ht, hres.dl, hres.keeps, Or.inl ⟨h.gar, h.free⟩⟩
    rcases mem_middle.mp hx with rfl | hx
    · exact lt_of_le_of_ne h.fits hfull
    · exact h.short x hx

/-- `nftl_update_mt` changes the map at `lba`. -/
theorem sat_updateMt {s : St} {lba pba : Nat} (hf : d.Fits) (h : Core d own map ml s) (hlba : lba < d.blks)
    (hpba : pba < d.blks) (hE : Enough d E s.al) :
    Sat (contract d E) (nftlUpdateMt d lba pba) s (fun r s' => r = 0 ∧ ∃ own' ml',
      Core d own' (Function.update map lba pba) ml' s' ∧ s'.dl = s.dl ∧
      Keeps Role.user own s.nand.flash own' s'.nand.flash ∧ Spent 1 s.al s'.al) := by
  have hp := d.mtPage_lt hlba
  have hk6 : lba / d.words / d.pgs < mtMaxBlocks := lt_trans (d.mtIndex_lt hp) hf.map_lt
  refine Sat.bind sat_stackInfo ?_
  rintro info s₁ ⟨-, h₁⟩
  have hc₁ := h.reflash h₁
  refine Sat.bind (sat_getPhysicalMt hc₁.rep hc₁.inv.logs.nodup hk6) ?_
  rintro _ _ ⟨rfl, rfl⟩
  refine Sat.bind (sat_cacheMtPage hc₁.inv hc₁.cache hp) ?_
  rintro _ s₂ ⟨-, h₂⟩
  refine Sat.modify_bind (step_ram d E rfl) ?_
  set s₃ : St := { s₂ with mt := { s₂.mt with readcache := setWord s₂.mt.readcache (lba % d.words) pba } } with hs₃
  have hr₃ : Ready d ml lba pba s s₃ := by
    refine ⟨h₂.flash.trans h₁.flash, h₂.dl.trans h₁.dl, ?_, ?_, ?_⟩
    · simp only [hs₃, h₂.mt, h₁.mt]
    · simp only [hs₃, h₂.mt, h₁.mt]
    · simp only [hs₃, h₂.mt, h₁.mt, h₁.flash]
  have hal₃ : s₃.al = s.al := h₂.al.trans h₁.al
  clear_value s₃
  have hrep₃ : Rep mtlCap s₃.mt.mtl ml := by rw [hr₃.mtl]; exact h.rep
  refine Sat.bind (sat_findMtlRam hrep₃ _) ?_
  rintro _ s₃ ⟨rfl, rfl⟩
  by_cases hex : ∃ x ∈ ml, (fun lg : Log => decide (lg.key = lba / d.words / d.pgs)) x = true
  · obtain ⟨pre, lg, post, rfl, hkey, -, hidx⟩ := exists_split_findIdx hex
    rw [hidx]
    have hlt : pre.length < s₃.mt.mtl.blkcnt := by rw [hrep₃.blkcnt]; simp
    refine Sat.bind (Q := fun o s' => o = (RamOp.insert, lg.pba, lg.seq.length) ∧ s' = s₃) ?_ ?_
    · refine Sat.get_bind ?_
      rw [if_pos hlt]
      refine Sat.lift_bind (LogTab.blockAt_ok hrep₃.mid_lt) (Sat.pure ⟨?_, rfl⟩)
      rw [hrep₃.block_mid]
      rfl
    rintro _ _ ⟨rfl, rfl⟩
    refine Sat.get_bind ?_
    rw [← Prog.bind_assoc]
    refine Sat.bind (sat_insertMtl hf h hlba hpba (by simpa using hkey) hr₃ hal₃) ?_
    rintro _ s₄ ⟨rfl, h₄⟩
    exact sat_updateMtEnd hf h.tab hE h₄
  · have hno : ∀ x ∈ ml, x.key ≠ lba / d.words / d.pgs := by
      intro x hx e
      exact hex ⟨x, hx, by simpa using e⟩
    have hidx : ml.findIdx (fun lg => decide (lg.key = lba / d.words / d.pgs)) = ml.length := by
      rw [List.findIdx_eq_length]
      intro x hx
      simpa using hno x hx
    rw [hidx]
    have hge : ¬ ml.length < s₃.mt.mtl.blkcnt := by rw [hrep₃.blkcnt]; omega
    refine Sat.bind (Q := fun o s' => ∃ b, s.al.blockstatus b = true ∧ o = (RamOp.append, b, 0) ∧
      s' = { s₃ with al := s.al.take b }) ?_ ?_
    · refine Sat.get_bind ?_
      rw [if_neg hge]
      have hpool₃ : Pool d own s₃.nand.flash s₃.al s.al.gar s.al.gtPba := by
        rw [hr₃.flash, hal₃]
        exact h.alloc.pool
      refine Sat.bind (sat_getFreeBlock hf.blks_lt hpool₃ (by rw [hal₃]; exact hE.pos)) ?_
      rintro b _ ⟨hb, rfl⟩
      rw [hal₃] at hb
      exact Sat.pure ⟨b, hb, rfl, by rw [hal₃]⟩
    rintro _ _ ⟨b, hb, rfl, rfl⟩
    refine Sat.get_bind ?_
    rw [← Prog.bind_assoc]
    refine Sat.bind (sat_appendMtl (s := { s₃ with al := s.al.take b }) hf h hlba hpba hno hb
      ⟨hr₃.flash, hr₃.dl, hr₃.pbas, hr₃.mtl, hr₃.dat⟩ rfl) ?_
    rintro _ s₄ ⟨rfl, h₄⟩
    exact sat_updateMtEnd hf h.tab hE h₄

end Emlinux.Nftl
