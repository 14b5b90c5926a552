import Emlinux.Nftl.MapInv

/-!
# Specifications of the mapping table

`Core` is the invariant of the allocator and the map. `sat_lbaToPba` and `sat_updateMt` are the read and the
write of the map: the read answers `map lba`, the write changes `map` at one place. Both may move blocks of
the map (a merge of a full MTLog block, a block whose reads need too many corrections) and use the allocator,
but blocks of other roles are unchanged (`Keeps Role.user`).
-/

namespace Emlinux.Nftl

open Lib

variable {d : Device} {E : Prop} {own : Own} {map : Nat → Nat} {ml pre post : List Log} {lg : Log}

/-! ## Looking up a map page -/

theorem sat_findMtpgInMtl {C : Contract St Event} {s : St} (hr : Rep mtlCap s.mt.mtl ml) (hnd : (ml.map Log.key).Nodup) (p : Nat) :
    Sat C (nftlFindMtpgInMtl d p) s (fun r s' => r = lookupIn ml (p / d.pgs) p ∧ s' = s) := by
  refine Sat.get_bind ?_
  have h : s.mt.mtl.findPage mtlCap (p / d.pgs) p s.mt.mtl.blkcnt 0 0 = .ok (lookupIn ml (p / d.pgs) p) := by
    have := findPage_rep (show Rep mtlCap s.mt.mtl ([] ++ ml) from hr) hnd (p / d.pgs) p
    rwa [← hr.blkcnt] at this
  exact Sat.lift_ok h ⟨rfl, rfl⟩

theorem sat_mtPbaAt {C : Contract St Event} {s : St} {k : Nat} (hk : k < mtMaxBlocks) :
    Sat C (mtPbaAt k) s (fun r s' => r = s.mt.mtPbas k ∧ s' = s) := by
  refine Sat.get_bind ?_
  rw [if_pos hk]
  exact Sat.pure ⟨rfl, rfl⟩

theorem sat_getPhysicalMt {C : Contract St Event} {s : St} (hr : Rep mtlCap s.mt.mtl ml) (hnd : (ml.map Log.key).Nodup)
    {p : Nat} (hp : p / d.pgs < mtMaxBlocks) :
    Sat C (nftlGetPhysicalMt d p) s (fun r s' => r = mtLoc d s.mt.mtPbas ml p ∧ s' = s) := by
  refine Sat.bind (sat_findMtpgInMtl hr hnd p) ?_
  rintro r s' ⟨rfl, rfl⟩
  cases hl : lookupIn ml (p / d.pgs) p with
  | some a => exact Sat.pure ⟨by simp [mtLoc, hl], rfl⟩
  | none =>
    refine Sat.bind (sat_mtPbaAt hp) ?_
    rintro r s'' ⟨rfl, rfl⟩
    exact Sat.pure ⟨by simp [mtLoc, hl], rfl⟩

/-- `s'` is `s` with map page `p` in the cache. -/
structure Cached (d : Device) (ml : List Log) (p : Nat) (s s' : St) : Prop where
  flash : s'.nand.flash = s.nand.flash
  al : s'.al = s.al
  dl : s'.dl = s.dl
  mt : s'.mt = { s.mt with
    cacheblock := (mtLoc d s.mt.mtPbas ml p).1, cachepage := (mtLoc d s.mt.mtPbas ml p).2
    readcache := mtData d s.nand.flash s.mt.mtPbas ml p }

/-- What `ecc_stats.corrected` says after page `p` of block `b` was looked up through the cache: on a hit it is
left over from an earlier read. -/
def accessEcc (d : Device) (s : St) (b p : Nat) : Nat :=
  if b = s.mt.cacheblock ∧ p = s.mt.cachepage then s.nand.ecc else d.corrected s.nand.tick

theorem sat_cacheMtPage_ecc {s : St} (h : MapInv d own map ml s.nand.flash s.mt.mtPbas)
    (hc : CacheOk d ml s.nand.flash s.mt) {p : Nat} (hp : p < d.nrMtpage) :
    Sat (contract d E) (cacheMtPage d (mtLoc d s.mt.mtPbas ml p).1 (mtLoc d s.mt.mtPbas ml p).2) s
      (fun r s' => r = true ∧ Cached d ml p s s' ∧
        s'.nand.ecc = accessEcc d s (mtLoc d s.mt.mtPbas ml p).1 (mtLoc d s.mt.mtPbas ml p).2) := by
  obtain ⟨hb, hpg⟩ := h.loc_lt (d.mtIndex_lt hp)
  refine Sat.get_bind ?_
  by_cases hit : (mtLoc d s.mt.mtPbas ml p).1 = s.mt.cacheblock ∧ (mtLoc d s.mt.mtPbas ml p).2 = s.mt.cachepage
  · rw [if_pos hit]
    refine Sat.pure ⟨rfl, ⟨rfl, rfl, rfl, ?_⟩, by rw [accessEcc, if_pos hit]⟩
    rw [hit.1, hit.2, ← hc p hp (Prod.ext hit.1 hit.2)]
  · rw [if_neg hit]
    refine Sat.bind (sat_mtdRead_ecc hb hpg) ?_
    rintro r s₁ ⟨rfl, h₁, he⟩
    refine Sat.modify_bind (step_ram d E rfl) (Sat.pure ⟨rfl, ⟨h₁.flash, h₁.al, h₁.dl, ?_⟩, ?_⟩)
    · simp only [h₁.mt]
      rfl
    · rw [accessEcc, if_neg hit]
      exact he

theorem sat_cacheMtPage {s : St} (h : MapInv d own map ml s.nand.flash s.mt.mtPbas)
    (hc : CacheOk d ml s.nand.flash s.mt) {p : Nat} (hp : p < d.nrMtpage) :
    Sat (contract d E) (cacheMtPage d (mtLoc d s.mt.mtPbas ml p).1 (mtLoc d s.mt.mtPbas ml p).2) s
      (fun r s' => r = true ∧ Cached d ml p s s') :=
  (sat_cacheMtPage_ecc h hc hp).mono fun _ _ h => ⟨h.1, h.2.1⟩

/-! ## Merging an MTLog block -/

section merge

variable {fl fl' : Flash} {mtPbas : Nat → Nat} {temp : Nat}

theorem lookupIn_removed (h : ((pre ++ lg :: post).map Log.key).Nodup) {key : Nat} (p : Nat)
    (hk : key ≠ lg.key) : lookupIn (pre ++ post) key p = lookupIn (pre ++ lg :: post) key p := by
  have hnd := h
  rw [List.map_append, List.map_cons, List.nodup_middle, ← List.map_append] at hnd
  refine lookupIn_congr (List.nodup_cons.mp hnd).2 h (fun x hx => ?_) p
  rw [mem_middle]
  constructor
  · exact Or.inr
  · rintro (rfl | hx')
    · exact absurd hx.symm hk
    · exact hx'

/-- In the merge of `lg`, page `i` of the new block comes from where map page `lg.key * pgs + i` is. -/
theorem mtLoc_of_fact (hnd : ((pre ++ lg :: post).map Log.key).Nodup) (hfit : lg.seq.length ≤ d.pgs) {i : Nat}
    (hi : i < d.pgs) :
    mtLoc d mtPbas (pre ++ lg :: post) (lg.key * d.pgs + i)
      = if (lookup lg.seq (lg.key * d.pgs + i)).getD 0xff ≠ 0xff then
          (lg.pba, (lookup lg.seq (lg.key * d.pgs + i)).getD 0xff)
        else (mtPbas lg.key, i) := by
  have hdiv : (lg.key * d.pgs + i) / d.pgs = lg.key := by
    rw [Nat.mul_comm, Nat.mul_add_div d.pgs_pos, Nat.div_eq_of_lt hi, Nat.add_zero]
  have hmod : (lg.key * d.pgs + i) % d.pgs = i := by
    rw [Nat.mul_comm, Nat.mul_add_mod, Nat.mod_eq_of_lt hi]
  rw [mtLoc, hdiv, hmod, lookupIn_of_mem hnd (by simp)]
  cases hl : lookup lg.seq (lg.key * d.pgs + i) with
  | none => simp
  | some j =>
    have h1 := lookup_lt hl
    have h2 := d.pgs_le
    have hj : j ≠ 255 := by omega
    simp [hj]

/-- The owners after the merge of `lg` into `temp`. -/
def mergeOwn (own : Own) (old : Nat) (lg : Log) (temp : Nat) : Own :=
  Function.update (Own.release (Function.update own temp .temp) [old, lg.pba]) temp (.mt lg.key)

theorem mergeOwn_temp (own : Own) (old : Nat) (lg : Log) (temp : Nat) : mergeOwn own old lg temp temp = .mt lg.key := by
  simp [mergeOwn]

theorem mergeOwn_pool {old x : Nat} (hx : x = old ∨ x = lg.pba) (hne : x ≠ temp) :
    mergeOwn own old lg temp x = .pool := by
  simp [mergeOwn, hne, Own.release, hx]

theorem mergeOwn_other {old x : Nat} (h1 : x ≠ old) (h2 : x ≠ lg.pba) (hne : x ≠ temp) :
    mergeOwn own old lg temp x = own x := by
  simp [mergeOwn, hne, Own.release, h1, h2]

section merged

variable (h : MapInv d own map (pre ++ lg :: post) fl mtPbas) (hpool : own temp = .pool)

include h

/-- The block of the map that is merged with the log. -/
theorem MapInv.own_old : own (mtPbas lg.key) = .mt lg.key := h.own_mt _ (h.key_lt (by simp))

theorem MapInv.own_log : own lg.pba = .mtl lg.key := h.logs.owned lg (by simp)

theorem MapInv.old_ne_log : mtPbas lg.key ≠ lg.pba := by
  intro e
  have hold := h.own_old
  rw [e, h.own_log] at hold
  cases hold

theorem MapInv.ne_old {j : Nat} (hj : j < d.mtBlkcnt) (hjk : j ≠ lg.key) :
    mtPbas j ≠ mtPbas lg.key ∧ mtPbas j ≠ lg.pba := by
  have ho := h.own_mt j hj
  constructor
  · intro e
    rw [e, h.own_old] at ho
    exact hjk (Role.mt.inj ho).symm
  · intro e
    rw [e, h.own_log] at ho
    cases ho

/-- A page of another part of the map is in neither of the two blocks. -/
theorem MapInv.loc_ne {p : Nat} (hp : p < d.nrMtpage) (hpk : p / d.pgs ≠ lg.key) :
    (mtLoc d mtPbas (pre ++ lg :: post) p).1 ≠ mtPbas lg.key ∧ (mtLoc d mtPbas (pre ++ lg :: post) p).1 ≠ lg.pba := by
  rcases h.loc_cases p with ⟨x, hx, i, hxk, -, hl⟩ | ⟨-, hl⟩
  · have ho := h.logs.owned x hx
    rw [hl]
    constructor
    · intro (e : x.pba = _)
      rw [e, h.own_old] at ho
      cases ho
    · intro (e : x.pba = _)
      rw [e, h.own_log] at ho
      exact hpk (hxk.symm.trans (Role.mtl.inj ho).symm)
  · rw [hl]
    exact h.ne_old (d.mtIndex_lt hp) hpk

include hpool

theorem MapInv.old_ne_temp : mtPbas lg.key ≠ temp := by
  intro e
  have hold := h.own_old
  rw [e, hpool] at hold
  cases hold

theorem MapInv.log_ne_temp : lg.pba ≠ temp := by
  intro e
  have hlog := h.own_log
  rw [e, hpool] at hlog
  cases hlog

omit h in
/-- A block of the map other than the three of the merge keeps its owner and its content. -/
theorem mergeOwn_keeps (hfl : ∀ b, b ≠ temp → mergeOwn own (mtPbas lg.key) lg temp b ≠ .pool → fl' b = fl b) {b : Nat}
    (hne : b ≠ mtPbas lg.key ∧ b ≠ lg.pba) (hm : (own b).map = true) :
    mergeOwn own (mtPbas lg.key) lg temp b = own b ∧ fl' b = fl b := by
  have h3 : b ≠ temp := by
    rintro rfl
    rw [hpool] at hm
    cases hm
  have ho : mergeOwn own (mtPbas lg.key) lg temp b = own b := mergeOwn_other hne.1 hne.2 h3
  refine ⟨ho, hfl b h3 ?_⟩
  rw [ho]
  intro e
  rw [e] at hm
  cases hm

variable (hfill : ∀ i, i < d.pgs → fl' temp i = some (copyPage .mapTab
    (pageAt fl (mtLoc d mtPbas (pre ++ lg :: post) (lg.key * d.pgs + i)).1
      (mtLoc d mtPbas (pre ++ lg :: post) (lg.key * d.pgs + i)).2)))
  (hfl : ∀ b, b ≠ temp → mergeOwn own (mtPbas lg.key) lg temp b ≠ .pool → fl' b = fl b)

include hfill

omit hpool in
/-- The new block shows its place in the map. -/
theorem MapInv.merged_head : MtHead d fl' lg.key temp := by
  have h0 := hfill 0 d.pgs_pos
  rw [Nat.add_zero] at h0
  refine ⟨_, h0, rfl, ?_⟩
  rcases h.loc_cases (lg.key * d.pgs) with ⟨x, hx, i, hxk, hi, hl⟩ | ⟨-, hl⟩
  · obtain ⟨pg, hpg, ht⟩ := (h.logs.pages x hx).done i _ (getElem?_of_lookup hi)
    rw [hl]
    simp only [pageAt, hpg, Option.getD_some]
    refine ⟨ht.2.1.trans (Nat.mul_div_cancel _ d.pgs_pos), fun h0 => ?_⟩
    have hpo : (copyPage .mapTab pg).spare.pageofs = lg.key * d.pgs := ht.2.2
    rw [hpo, h0, Nat.zero_mul]
    exact d.blks_pos
  · obtain ⟨pg, hpg, -, h2, h3⟩ := h.head lg.key (h.key_lt (by simp))
    rw [hl, Nat.mul_div_cancel _ d.pgs_pos, Nat.mul_mod_left]
    simp only [pageAt, hpg, Option.getD_some]
    exact ⟨h2, h3⟩

include hfl

/-- Every page of the map reads the same. -/
theorem MapInv.merged_data {p : Nat} (hp : p < d.nrMtpage) :
    mtData d fl' (Function.update mtPbas lg.key temp) (pre ++ post) p = mtData d fl mtPbas (pre ++ lg :: post) p := by
  by_cases hpk : p / d.pgs = lg.key
  · have hnone : lookupIn (pre ++ post) (p / d.pgs) p = none :=
      lookupIn_of_not_mem (fun x hx => hpk ▸ h.logs.key_ne hx) p
    have hmod := Nat.mod_lt p d.pgs_pos
    have hpe : lg.key * d.pgs + p % d.pgs = p := by
      rw [← hpk, Nat.mul_comm]
      exact Nat.div_add_mod p d.pgs
    have hloc : mtLoc d (Function.update mtPbas lg.key temp) (pre ++ post) p = (temp, p % d.pgs) := by
      rw [mtLoc, hnone, hpk, Function.update_self, Option.getD_none]
    have := hfill _ hmod
    rw [hpe] at this
    simp only [mtData, pageAt, hloc, this]
    rfl
  · have hloc : mtLoc d (Function.update mtPbas lg.key temp) (pre ++ post) p = mtLoc d mtPbas (pre ++ lg :: post) p := by
      simp only [mtLoc, lookupIn_removed h.logs.nodup p hpk, Function.update_of_ne hpk]
    rw [mtData, mtData, hloc, pageAt, pageAt, (mergeOwn_keeps hpool hfl (h.loc_ne hp hpk) (h.loc_map (d.mtIndex_lt hp))).2]

omit hfill in
theorem MapInv.merged_logs : Logs d .mtl (MtlTag d) (mergeOwn own (mtPbas lg.key) lg temp) fl' (pre ++ post) := by
  refine h.logs.remove mtl_injective ?_ ?_ ?_
  · intro k
    rw [mergeOwn_pool (Or.inr rfl) (h.log_ne_temp hpool)]
    simp
  · intro x hx k
    by_cases hxt : x = temp
    · subst hxt
      simp [mergeOwn_temp, hpool]
    · by_cases hxo : x = mtPbas lg.key
      · rw [mergeOwn_pool (Or.inl hxo) hxt, hxo, h.own_old]
        simp
      · rw [mergeOwn_other hxo hx hxt]
  · intro x hx k hxk
    refine (mergeOwn_keeps hpool hfl ⟨?_, hx⟩ (by rw [hxk]; rfl)).2
    intro e
    rw [e, h.own_old] at hxk
    cases hxk

/-- The map after the merge of `lg` into `temp`. -/
theorem MapInv.merged (htemp : temp < d.blks) :
    MapInv d (mergeOwn own (mtPbas lg.key) lg temp) map (pre ++ post) fl' (Function.update mtPbas lg.key temp) where
  logs := h.merged_logs hpool hfl
  page_lt := fun x hx => h.page_lt x (mem_middle.mpr (Or.inr hx))
  pba_lt := by
    intro j hj
    by_cases hjk : j = lg.key
    · subst hjk
      simpa using htemp
    · simpa [hjk] using h.pba_lt j hj
  own_mt := by
    intro j hj
    by_cases hjk : j = lg.key
    · subst hjk
      simp [mergeOwn_temp]
    · have ho := h.own_mt j hj
      rw [Function.update_of_ne hjk, (mergeOwn_keeps hpool hfl (h.ne_old hj hjk) (by rw [ho]; rfl)).1, ho]
  mem_mt := by
    intro b j hb
    by_cases hbt : b = temp
    · subst hbt
      rw [mergeOwn_temp] at hb
      obtain rfl := Role.mt.inj hb
      exact ⟨h.key_lt (by simp), by simp⟩
    · by_cases hbo : b = mtPbas lg.key ∨ b = lg.pba
      · rw [mergeOwn_pool hbo hbt] at hb
        cases hb
      · push Not at hbo
        rw [mergeOwn_other hbo.1 hbo.2 hbt] at hb
        obtain ⟨hj, he⟩ := h.mem_mt b j hb
        have hjk : j ≠ lg.key := fun e => hbo.1 (e ▸ he.symm)
        exact ⟨hj, by rw [Function.update_of_ne hjk, he]⟩
  head := by
    intro j hj
    by_cases hjk : j = lg.key
    · subst hjk
      rw [Function.update_self]
      exact h.merged_head hfill
    · have ho := h.own_mt j hj
      rw [Function.update_of_ne hjk, MtHead, (mergeOwn_keeps hpool hfl (h.ne_old hj hjk) (by rw [ho]; rfl)).2]
      exact h.head j hj
  entry := by
    intro lba hlba
    rw [h.merged_data hpool hfill hfl (d.mtPage_lt hlba)]
    exact h.entry lba hlba
  range := h.range

end merged

end merge

/-- Enough free blocks for one change of the map: one for an MTLog block, or one for a merge and one for the
GarbageTab block it may need. With `E`, running out is excused. -/
def Enough (d : Device) (E : Prop) (al : Alloc) : Prop :=
  E ∨ (2 ≤ d.pgs ∧ 1 ≤ al.freeBlkcnt ∧ (al.gar ≠ [] ∨ 2 ≤ al.freeBlkcnt))

theorem Enough.pos {al : Alloc} (h : Enough d E al) : E ∨ 0 < al.freeBlkcnt := h.imp id fun h => h.2.1

/-- With few free blocks left, the garbage was reclaimed. -/
def Settled (al : Alloc) : Prop := al.Clean ∨ miniFreeBlock < al.freeBlkcnt

theorem sat_setMtl {s : St} {t : LogTab} (ht : TabOk s.dl t) (hg : s.al.gar.length ≤ garbageMaxCnt) :
    Sat (contract d E) (setMtl t) s (fun _ s' => s' = { s with mt := { s.mt with mtl := t } }) :=
  Sat.modify_bind (step_ram d E rfl) (sat_noteTables ht.dlBlk ht.dlPg hg ht.mtlBlk rfl)

theorem sat_setMtPba {s : St} {k b : Nat} (hk : k < mtMaxBlocks) :
    Sat (contract d E) (setMtPba k b) s
      (fun _ s' => s' = { s with mt := { s.mt with mtPbas := Function.update s.mt.mtPbas k b } }) := by
  rw [setMtPba, if_pos hk]
  exact Sat.modify (step_ram d E rfl) rfl

theorem Rep.tabOk {s : St} {t : LogTab} (hr : Rep mtlCap t ml) (ht : TabOk s.dl s.mt.mtl) : TabOk s.dl t :=
  ⟨ht.dlBlk, ht.dlPg, by rw [hr.blkcnt]; exact hr.blk_le⟩

/-- The copy loop of a merge. -/
theorem sat_mergeMtlLoop {s : St} (h : MapInv d own map (pre ++ lg :: post) s.nand.flash s.mt.mtPbas)
    {temp : Nat} (htemp : temp < d.blks) (hpool : own temp = .pool)
    (he : ∀ p, p < d.pgs → s.nand.flash temp p = none) :
    Sat (contract d E) (Prog.loop (ρ := Int) (fun i temp =>
      let fact := ((List.range d.pgs).map fun i => (lookup lg.seq (lg.key * d.pgs + i)).getD 0xff).getD i 0xff
      if fact ≠ 0xff then mergePage d lg.pba fact temp i .mapTab
      else mergePage d (s.mt.mtPbas lg.key) i temp i .mapTab) d.pgs 0 temp) s
      (fun r s' => r = .next temp ∧ ∃ fl, Reflash s fl s' ∧ Filled d s.nand.flash temp (fun i =>
        some (copyPage .mapTab (pageAt s.nand.flash
          (mtLoc d s.mt.mtPbas (pre ++ lg :: post) (lg.key * d.pgs + i)).1
          (mtLoc d s.mt.mtPbas (pre ++ lg :: post) (lg.key * d.pgs + i)).2))) d.pgs fl) := by
  have hk := h.key_lt (show lg ∈ pre ++ lg :: post by simp)
  refine Sat.loop (fun i t s' => t = temp ∧ ∃ fl, Reflash s fl s' ∧ Filled d s.nand.flash temp (fun i =>
    some (copyPage .mapTab (pageAt s.nand.flash
      (mtLoc d s.mt.mtPbas (pre ++ lg :: post) (lg.key * d.pgs + i)).1
      (mtLoc d s.mt.mtPbas (pre ++ lg :: post) (lg.key * d.pgs + i)).2))) i fl) d.pgs 0 ?_ ?_
    ⟨rfl, _, ⟨_, _, rfl⟩, Filled.zero he⟩
  · rintro i t s₁ - hi ⟨rfl, fl, h₁, hfill⟩
    rw [Nat.zero_add] at hi
    set loc := mtLoc d s.mt.mtPbas (pre ++ lg :: post) (lg.key * d.pgs + i) with hloc
    have hdiv : (lg.key * d.pgs + i) / d.pgs = lg.key := by
      rw [Nat.mul_comm, Nat.mul_add_div d.pgs_pos, Nat.div_eq_of_lt hi, Nat.add_zero]
    obtain ⟨hb, hp⟩ := h.loc_lt (show (lg.key * d.pgs + i) / d.pgs < d.mtBlkcnt by rw [hdiv]; exact hk)
    have hne : loc.1 ≠ t := by
      intro e
      have := h.loc_map (show (lg.key * d.pgs + i) / d.pgs < d.mtBlkcnt by rw [hdiv]; exact hk)
      rw [← hloc, e, hpool] at this
      simp [Role.map] at this
    have hbody : (let fact := ((List.range d.pgs).map fun i => (lookup lg.seq (lg.key * d.pgs + i)).getD 0xff).getD i 0xff
        if fact ≠ 0xff then mergePage d lg.pba fact t i .mapTab
        else mergePage d (s.mt.mtPbas lg.key) i t i .mapTab) = mergePage d loc.1 loc.2 t i .mapTab := by
      have hget : ((List.range d.pgs).map fun i => (lookup lg.seq (lg.key * d.pgs + i)).getD 0xff).getD i 0xff
          = (lookup lg.seq (lg.key * d.pgs + i)).getD 0xff := by
        simp [List.getD_eq_getElem?_getD, hi]
      rw [hloc, mtLoc_of_fact h.logs.nodup (h.logs.pages lg (by simp)).fits hi]
      simp only [hget]
      split_ifs <;> rfl
    rw [hbody]
    refine (sat_mergePage .mapTab hb hp htemp hi (by rw [h₁.flash]; exact hfill.todo)).mono ?_
    rintro r s₂ ⟨rfl, h₂⟩
    refine ⟨rfl, setPage fl t i (copyPage .mapTab (pageAt s.nand.flash loc.1 loc.2)), ?_, hfill.put rfl⟩
    have hrd : s₁.nand.read loc.1 loc.2 = pageAt s.nand.flash loc.1 loc.2 := by
      rw [Nand.read, h₁.flash, hfill.other _ hne, pageAt]
    have := h₁.trans h₂
    rwa [hrd, h₁.flash] at this
  · rintro t s' ⟨rfl, hx⟩
    rw [Nat.zero_add] at hx
    exact ⟨rfl, hx⟩

/-- What an operation on the map leaves. -/
structure MapPost (d : Device) (own : Own) (map : Nat → Nat) (s s' : St) (own' : Own) (ml' : List Log) : Prop where
  alloc : AllocInv d own' s'.nand.flash s'.al
  inv : MapInv d own' map ml' s'.nand.flash s'.mt.mtPbas
  rep : Rep mtlCap s'.mt.mtl ml'
  cache : CacheOk d ml' s'.nand.flash s'.mt
  dl : s'.dl = s.dl
  keeps : Keeps Role.user own s.nand.flash own' s'.nand.flash

/-- A full MTLog block is merged with its MapTab block into a new one. -/
theorem sat_mergeMtlblk {s : St} (hf : d.Fits) (ha : AllocInv d own s.nand.flash s.al)
    (h : MapInv d own map (pre ++ lg :: post) s.nand.flash s.mt.mtPbas)
    (hr : Rep mtlCap s.mt.mtl (pre ++ lg :: post)) (ht : TabOk s.dl s.mt.mtl)
    (hc : s.mt.cacheblock = lg.pba)
    (hE : E ∨ (1 ≤ s.al.freeBlkcnt ∧ (s.al.gar ≠ [] ∨ 2 ≤ s.al.freeBlkcnt))) :
    Sat (contract d E) (nftlMergeMtlblk d pre.length) s (fun r s' => r = 0 ∧
      ∃ own', MapPost d own map s s' own' (pre ++ post) ∧ Settled s'.al) := by
  have hk := h.key_lt (show lg ∈ pre ++ lg :: post by simp)
  have hk6 : lg.key < mtMaxBlocks := lt_trans hk hf.map_lt
  have hold := h.own_old
  have hlog := h.own_log
  refine Sat.get_bind ?_
  refine Sat.lift_bind (LogTab.blockAt_ok hr.mid_lt) ?_
  rw [hr.block_mid]
  refine Sat.bind (sat_getFreeBlock hf.blks_lt ha.pool (hE.imp id fun h => h.1)) ?_
  rintro temp s₁ ⟨hfree, rfl⟩
  have hpool : own temp = .pool := ha.pool.own_free hfree
  have htemp := ha.pool.free_lt temp hfree
  have ha₁ := ha.take hfree (show Role.temp ≠ .pool by simp)
  have hcnt := ha.pool.free_take hfree
  refine Sat.lift_bind (factPpas_rep hr _ _) ?_
  refine Sat.bind (sat_mtPbaAt hk6) ?_
  rintro _ _ ⟨rfl, rfl⟩
  refine Sat.bind (sat_mergeMtlLoop (s := { s with al := s.al.take temp }) h htemp hpool (ha.pool.erased temp hfree)) ?_
  rintro _ s₂ ⟨rfl, fl, h₂, hfill⟩
  have hne1 := h.old_ne_temp hpool
  have hne2 := h.log_ne_temp hpool
  have ha₂ : AllocInv d (Function.update own temp .temp) s₂.nand.flash s₂.al := by
    rw [h₂.al, h₂.flash]
    refine ha₁.congr (fun _ => Iff.rfl) fun b hb => hfill.other b fun e => ?_
    rw [e, Function.update_self] at hb
    simp at hb
  have hmark : ∀ b ∈ [s.mt.mtPbas lg.key, lg.pba], Marked s₂.nand.flash b := by
    intro b hb
    rw [h₂.flash, Marked]
    rcases List.mem_pair.mp hb with rfl | rfl
    · obtain ⟨pg, hpg, hty, -⟩ := h.head _ hk
      exact ⟨pg, by rw [hfill.other _ hne1]; exact hpg, Or.inr (Or.inr (Or.inl hty))⟩
    · obtain ⟨pg, p, hpg, hty, -⟩ := (h.logs.pages lg (by simp)).head
      exact ⟨pg, by rw [hfill.other _ hne2]; exact hpg, Or.inr (Or.inr (Or.inr hty))⟩
  refine Sat.bind (sat_addtoGt (g := [s.mt.mtPbas lg.key, lg.pba]) hf.blks_lt ha₂
    (by rw [h₂.mt, h₂.dl]; exact ht) (by simp) (by simpa using h.old_ne_log) ?_ ?_ hmark ?_) ?_
  · intro b hb
    rcases List.mem_pair.mp hb with rfl | rfl
    · exact h.pba_lt _ hk
    · exact h.logs.lt lg (by simp)
  · intro b hb
    rcases List.mem_pair.mp hb with rfl | rfl
    · rw [Function.update_of_ne hne1, hold]; simp
    · rw [Function.update_of_ne hne2, hlog]; simp
  · rw [h₂.al]
    rcases hE with hE | ⟨-, hE | hE⟩
    · exact Or.inl hE
    · exact Or.inr (Or.inl hE)
    · exact Or.inr (Or.inr (show 0 < (s.al.take temp).freeBlkcnt by omega))
  rintro r s₃ ⟨rfl, hf₃, ha₃, -, hset⟩
  refine Sat.bind (sat_setMtPba hk6) ?_
  rintro _ _ rfl
  have hmt₃ : s₃.mt = s.mt := hf₃.mt.trans h₂.mt
  have hdl₃ : s₃.dl = s.dl := hf₃.dl.trans h₂.dl
  have hlen : (pre ++ lg :: post).length < mtMaxBlocks := lt_of_le_of_lt h.length_le hf.map_lt
  obtain ⟨t, hdel, hrep⟩ := delete_rep (c := mtlCap) hr hlen
  refine Sat.get_bind ?_
  refine Sat.lift_bind (show LogTab.delete mtlCap s₃.mt.mtl pre.length = .ok t by rw [hmt₃]; exact hdel) ?_
  refine Sat.bind (sat_setMtl (hrep.tabOk (s := s₃) (by rw [hmt₃, hdl₃]; exact ht)) ?_) ?_
  · exact (le_of_lt ha₃.gar_lt).trans (by decide)
  rintro _ _ rfl
  set own' := mergeOwn own (s.mt.mtPbas lg.key) lg temp with hown'
  have howneq : ∀ b, b ≠ temp →
      own' b = Own.release (Function.update own temp .temp) [s.mt.mtPbas lg.key, lg.pba] b := by
    intro b hb
    rw [hown', mergeOwn, Function.update_of_ne hb]
  have hreltemp : Own.release (Function.update own temp .temp) [s.mt.mtPbas lg.key, lg.pba] temp = .temp := by
    simp [Own.release, hne1.symm, hne2.symm]
  have hflash : ∀ b, b ≠ temp → own' b ≠ .pool → s₃.nand.flash b = s.nand.flash b := by
    intro b hb hbp
    rw [hf₃.flash b (howneq b hb ▸ hbp), h₂.flash, hfill.other b hb]
  have hnew := h.merged hpool (fun i hi => ?_) hflash htemp
  · refine Sat.pure ⟨rfl, own', ⟨?_, ?_, hrep, ?_, hdl₃, ?_⟩, hset⟩
    · refine ha₃.congr (fun b => ?_) (fun _ _ => rfl)
      by_cases hb : b = temp
      · subst hb; rw [hown', mergeOwn_temp, hreltemp]; simp
      · rw [howneq b hb]
    · rw [hmt₃]; exact hnew
    · intro p hp hl
      have hm := hnew.loc_map (d.mtIndex_lt hp)
      simp only [hmt₃] at hl
      change mtLoc d (Function.update s.mt.mtPbas lg.key temp) (pre ++ post) p = _ at hl
      rw [hl, hc, mergeOwn_pool (Or.inr rfl) hne2] at hm
      simp [Role.map] at hm
    · intro b
      by_cases hb : b = temp
      · subst hb; exact Or.inr ⟨by rw [hpool]; rfl, by rw [hown', mergeOwn_temp]; rfl⟩
      · by_cases hbo : b = s.mt.mtPbas lg.key ∨ b = lg.pba
        · refine Or.inr ⟨?_, by rw [hown', mergeOwn_pool hbo hb]; rfl⟩
          rcases hbo with rfl | rfl
          · rw [hold]; rfl
          · rw [hlog]; rfl
        · push Not at hbo
          have ho : own' b = own b := mergeOwn_other hbo.1 hbo.2 hb
          by_cases hbp : own b = .pool
          · exact Or.inr ⟨by rw [hbp]; rfl, by rw [ho, hbp]; rfl⟩
          · exact Or.inl ⟨ho, hflash b hb (by rw [ho]; exact hbp)⟩
  · have hnp : Own.release (Function.update own temp .temp) [s.mt.mtPbas lg.key, lg.pba] temp ≠ .pool := by
      rw [hreltemp]; simp
    rw [hf₃.flash temp hnp, h₂.flash, hfill.done i hi]

/-! ## Writing the map -/

section write

variable {own' : Own} {ml' : List Log} {fl fl' : Flash} {mtPbas : Nat → Nat} {lba pba n : Nat}

/-- One word of one map page changes. -/
theorem MapInv.write (h : MapInv d own map ml fl mtPbas) (hlogs : Logs d .mtl (MtlTag d) own' fl' ml')
    (hpage : ∀ lg ∈ ml', ∀ q ∈ lg.seq, q < d.nrMtpage) (hmt : ∀ b k, own' b = .mt k ↔ own b = .mt k)
    (hfl : ∀ b k, own b = .mt k → fl' b = fl b) (hpba : pba < d.blks)
    (hdata : ∀ q, q < d.nrMtpage → mtData d fl' mtPbas ml' q =
      if q = lba / d.words then setWord (mtData d fl mtPbas ml q) (lba % d.words) pba
      else mtData d fl mtPbas ml q) :
    MapInv d own' (Function.update map lba pba) ml' fl' mtPbas := by
  refine ⟨hlogs, hpage, h.pba_lt, fun k hk => (hmt _ _).mpr (h.own_mt k hk),
    fun b k hb => h.mem_mt b k ((hmt b k).mp hb), fun k hk => ?_, fun x hx => ?_, fun x hx => ?_⟩
  · rw [MtHead, hfl _ _ (h.own_mt k hk)]
    exact h.head k hk
  · rw [hdata _ (d.mtPage_lt hx)]
    by_cases hq : x / d.words = lba / d.words
    · rw [if_pos hq]
      by_cases hw : x % d.words = lba % d.words
      · have hxl : x = lba := by rw [← Nat.div_add_mod x d.words, hq, hw, Nat.div_add_mod]
        have := d.blks_le
        rw [hxl, Function.update_self]
        exact word_setWord_self _ _ (by omega)
      · have hxl : x ≠ lba := fun e => hw (by rw [e])
        rw [word_setWord_ne _ _ hw, Function.update_of_ne hxl]
        exact h.entry x hx
    · have hxl : x ≠ lba := fun e => hq (by rw [e])
      rw [if_neg hq, Function.update_of_ne hxl]
      exact h.entry x hx
  · by_cases hxl : x = lba
    · subst hxl; rw [Function.update_self]; exact Or.inr hpba
    · rw [Function.update_of_ne hxl]; exact h.range x hx

/-- Where the map pages are when page `p` was just written to page `i` of block `blk`. -/
def Moved (d : Device) (mtPbas : Nat → Nat) (ml ml' : List Log) (p blk i : Nat) : Prop :=
  ∀ q, mtLoc d mtPbas ml' q = if q = p then (blk, i) else mtLoc d mtPbas ml q

theorem moved_put (hnd : ((pre ++ lg :: post).map Log.key).Nodup) {p : Nat} (hp : p / d.pgs = lg.key) :
    Moved d mtPbas (pre ++ lg :: post) (pre ++ ⟨lg.key, lg.pba, lg.seq ++ [p]⟩ :: post) p lg.pba lg.seq.length := by
  intro q
  rw [mtLoc, mtLoc, lookupIn_put hnd hp]
  split_ifs <;> rfl

theorem moved_add (hnd : (ml.map Log.key).Nodup) {p b : Nat} (hkey : ∀ x ∈ ml, x.key ≠ p / d.pgs) :
    Moved d mtPbas ml (ml ++ [⟨p / d.pgs, b, [p]⟩]) p b 0 := by
  intro q
  rw [mtLoc, mtLoc, lookupIn_add hnd hkey]
  split_ifs <;> rfl

/-- The new content of the map pages, when no other page was at the place programmed. -/
theorem Moved.data (h : Moved d mtPbas ml ml' (lba / d.words) pba n) {dat : PageData} {sp : Spare}
    (hne : ∀ q, q < d.nrMtpage → q ≠ lba / d.words → mtLoc d mtPbas ml q ≠ (pba, n)) (q : Nat)
    (hq : q < d.nrMtpage) :
    mtData d (setPage fl pba n ⟨dat, sp⟩) mtPbas ml' q =
      if q = lba / d.words then dat else mtData d fl mtPbas ml q := by
  rw [mtData, h q]
  by_cases hqp : q = lba / d.words
  · rw [if_pos hqp, if_pos hqp, pageAt, setPage_self, Option.getD_some]
  · rw [if_neg hqp, if_neg hqp, mtData, pageAt, pageAt, setPage_eq]
    intro e1 e2
    exact hne q hq hqp (Prod.ext e1 e2)

end write

end Emlinux.Nftl
