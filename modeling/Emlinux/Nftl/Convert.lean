import Emlinux.Nftl.Format
import Emlinux.Nftl.ReadSpec

/-!
# Converting a DataLog block

A DataLog block whose first `nr_pgsinblk - 1` pages were written in order becomes the Data block when its last
page is written. `nftl_write_logicpage` does not look at which logical page that is: `sat_writeConverted` says
what every page holds afterwards, and `conversion_sound_iff` when that is what was written last.
-/

namespace Emlinux.Nftl

open Lib

variable {d : Device} {E : Prop} {bd : Nat → Bool} {own own' : Own} {map map' : Nat → Nat} {ml ml' L L' pre post : List Log} {lg : Log} {s : St} {lpa : Nat}

/-! ## The content is a function of the state -/

/-- Two descriptions of one table find the same pages. -/
theorem Rep.lookupIn_unique {c : LogCap} {t : LogTab} (h : Rep c t L) (h' : Rep c t L') (hnd : (L.map Log.key).Nodup)
    (hnd' : (L'.map Log.key).Nodup) (key page : Nat) : lookupIn L key page = lookupIn L' key page := by
  have h1 := findPage_rep (show Rep c t ([] ++ L) from h) hnd key page
  have h2 := findPage_rep (show Rep c t ([] ++ L') from h') hnd' key page
  rw [← h.blkcnt] at h1
  rw [← h'.blkcnt, h1] at h2
  exact Except.ok.inj h2

theorem Ftl.map_unique (h : Ftl d bd own map ml L s) (h' : Ftl d bd own' map' ml' L' s) {lba : Nat} (hlba : lba < d.blks) :
    map lba = map' lba := by
  have hl := h.core.rep.lookupIn_unique h'.core.rep h.core.inv.logs.nodup h'.core.inv.logs.nodup
    (lba / d.words / d.pgs) (lba / d.words)
  rw [← h.core.inv.entry lba hlba, ← h'.core.inv.entry lba hlba, mtData, mtData, mtLoc, mtLoc, hl]

theorem Ftl.content_unique (h : Ftl d bd own map ml L s) (h' : Ftl d bd own' map' ml' L' s) (hlpa : lpa / d.pgs < d.blks) :
    content d s.nand.flash map L lpa = content d s.nand.flash map' L' lpa := by
  unfold content
  rw [h.rep.lookupIn_unique h'.rep h.logs.nodup h'.logs.nodup, h.map_unique h' hlpa]

/-- The bytes of a page agree. -/
def SamePage (d : Device) (p q : PageData) : Prop := ∀ k, k < d.writesize → p k = q k

theorem SamePage.refl (d : Device) (p : PageData) : SamePage d p p := fun _ _ => rfl

/-! ## The page that fills a DataLog block in order -/

/-- What logical page `q` holds after the conversion of the block of `lba`. -/
def convertedContent (d : Device) (fl : Flash) (map : Nat → Nat) (L : List Log) (lba : Nat) (dat : PageData) (q : Nat) : PageData :=
  if q / d.pgs = lba ∧ q % d.pgs + 1 = d.pgs then dat else content d fl map L q

/-- The log of `lg` is left by the merges at the head of a write, so that the page of `lpa` converts it. -/
structure Converts (d : Device) (map : Nat → Nat) (L : List Log) (lg : Log) (lpa : Nat) : Prop where
  mem : lg ∈ L
  left : lg.block ∈ survivors (isMapped map) (L.map Log.block)
  key : lg.key = lpa / d.pgs
  used : lg.seq.length + 1 = d.pgs
  order : InOrder d lg

theorem sat_convertBody (dat : PageData) (hf : d.Fits) (h : Ftl d bd own map ml (pre ++ lg :: post) s)
    (hk : lpa / d.pgs = lg.key) (hused : lg.seq.length + 1 = d.pgs) (hord : InOrder d lg)
    (hshort : ∀ x ∈ pre ++ post, x.seq.length < d.pgs) (hlen : (pre ++ lg :: post).length < dlMaxBlocks)
    (hq : Quiet d True s) :
    Sat (contract d True) (writeBody d lpa dat) s (fun r s' => r = 0 ∧ ∃ own' map' ml' L', Ftl d bd own' map' ml' L' s' ∧
      (∀ x ∈ L', x.key ≠ lg.key) ∧ map' lg.key ≠ noBlock ∧ ∀ q, q / d.pgs < d.blks →
        content d s'.nand.flash map' L' q = convertedContent d s.nand.flash map (pre ++ lg :: post) lg.key dat q) := by
  classical
  have hno := d.blks_lt_noBlock
  have hlt := h.logs.lt lg (by simp)
  have hne : lg.pba ≠ noBlock := by omega
  refine Sat.bind (hk ▸ sat_writeTarget h) ?_
  rintro _ s ⟨rfl, rfl⟩
  rw [if_pos ⟨hused, hord⟩]
  refine Sat.bind ((sat_convertBlock dat hf h hused hord hk hlen hq (Or.inl trivial)).with_inv quiet_step hq) ?_
  rintro _ s₁ ⟨⟨rfl, -, own₁, ml₁, h₁, hc₁⟩, hq₁⟩
  rw [if_pos rfl]
  have hlen₁ : (pre ++ post).length < dlMaxBlocks := by
    rw [List.length_append] at hlen ⊢
    rw [List.length_cons] at hlen
    omega
  have hused₁ : (s₁.dl.blocktab pre.length).used ≠ d.pgs := by
    have hpos := d.pgs_pos
    rw [h₁.rep.blocks, List.getD_eq_getElem?_getD, List.getElem?_map]
    cases hl : (pre ++ post)[pre.length]? with
    | none => simp only [Option.map_none, Option.getD_none]; omega
    | some x =>
      have := hshort x (List.mem_of_getElem? hl)
      show x.seq.length ≠ _
      omega
  refine Sat.bind (Q := fun r s' => r = 0 ∧ s' = s₁) ?_ ?_
  · refine Sat.get_bind (Sat.lift_bind (LogTab.blockAt_ok h.rep.mid_lt) ?_)
    rw [if_neg hused₁]
    exact Sat.pure ⟨rfl, rfl⟩
  rintro _ s₁ ⟨rfl, rfl⟩
  rw [if_neg (by decide)]
  refine (sat_mergeTail (U := 0) hf h₁ (fun _ => Or.inl hlen₁) hq₁ (Or.inl trivial)).mono ?_
  rintro r s' ⟨rfl, own', map', ml', L', hred, -⟩
  refine ⟨rfl, own', map', ml', L', hred.ftl, fun x hx => h.logs.key_ne (hred.sub.subset hx), fun e => hne ?_,
    fun q hlq => ?_⟩
  · have := (hred.mapped lg.key).mp e
    rwa [Function.update_self] at this
  · rw [hred.content q hlq, hc₁ q hlq, convertedContent]

/-- A write that takes the convert path. -/
theorem sat_writeConverted (dat : PageData) (hf : d.Fits) (h : Ftl d bd own map ml L s)
    (hshort : ∀ x ∈ L, x.seq.length < d.pgs) (hq : Quiet d True s) (hc : Converts d map L lg lpa) (hlen : L.length < dlMaxBlocks) :
    Sat (contract d True) (nftlWriteLogicpage d lpa dat) s (fun r s' => r = 0 ∧ ∃ own' map' ml' L',
      Ftl d bd own' map' ml' L' s' ∧ (∀ x ∈ L', x.key ≠ lg.key) ∧ map' lg.key ≠ noBlock ∧ ∀ q, q / d.pgs < d.blks →
        content d s'.nand.flash map' L' q = convertedContent d s.nand.flash map L lg.key dat q) := by
  refine Sat.bind (sat_mergeHead (U := 0) hf h (Or.inl hlen) hq (Or.inl trivial)) ?_
  rintro _ s₁ ⟨rfl, hq₁, own₁, map₁, ml₁, L₁, hred, hblk, -⟩
  have hlg : lg ∈ L₁ := by
    have := hc.left
    rw [← hblk] at this
    obtain ⟨x, hx, he⟩ := List.mem_map.mp this
    have hk : x.key = lg.key := congrArg LogBlock.key he
    rwa [eq_of_key h.logs.nodup (hred.sub.subset hx) hc.mem hk] at hx
  obtain ⟨pre, post, rfl⟩ := List.append_of_mem hlg
  refine (sat_convertBody dat hf hred.ftl hc.key.symm hc.used hc.order
    (fun x hx => hshort x (hred.sub.subset (mem_middle.mpr (Or.inr hx)))) (lt_of_le_of_lt hred.sub.length_le hlen) hq₁).mono ?_
  rintro r s' ⟨rfl, own', map', ml', L', h', hnk, hm, hcont⟩
  refine ⟨rfl, own', map', ml', L', h', hnk, hm, fun q hlq => ?_⟩
  rw [hcont q hlq, convertedContent, convertedContent, hred.content q hlq]

/-- With a full table, a write that takes the convert path overruns it. -/
theorem fails_writeConverted (dat : PageData) (hf : d.Fits) (h : Ftl d bd own map ml L s) (hq : Quiet d True s)
    (hc : Converts d map L lg lpa) (hfull : L.length = dlMaxBlocks) :
    Fails (contract d True) (nftlWriteLogicpage d lpa dat) s dlOverrun := by
  classical
  by_cases hex : ∃ x ∈ L, map x.key ≠ noBlock
  · exact Fails.bind (fails_mergeHead hf h hfull hex hq trivial)
  · push Not at hex
    refine Fails.after (sat_mergeHead (U := 0) hf h (Or.inr hex) hq (Or.inl trivial)) ?_
    rintro _ s₁ ⟨rfl, hq₁, own₁, map₁, ml₁, L₁, hred, hblk, -⟩
    have hL : L₁ = L := by
      refine hred.sub.eq_of_length ?_
      have := congrArg List.length hblk
      rwa [survivors_unmapped, List.length_map, List.length_map] at this
      intro b hb
      obtain ⟨x, hx, rfl⟩ := List.mem_map.mp hb
      exact (isMapped_false_iff _ _).mpr (hex x hx)
    subst hL
    obtain ⟨pre, post, rfl⟩ := List.append_of_mem hc.mem
    refine Fails.after (hc.key ▸ sat_writeTarget hred.ftl) ?_
    rintro _ s₁ ⟨rfl, rfl⟩
    rw [if_pos ⟨hc.used, hc.order⟩]
    exact Fails.bind (fails_convertBlock dat hf hred.ftl hc.used hc.key.symm hfull hq₁ (Or.inl trivial))

/-- In the state `s'` after the write, each page of the Data block of `lba` holds what was written last. -/
def Latest (d : Device) (bd : Nat → Bool) (map : Nat → Nat) (L : List Log) (lpa : Nat) (dat : PageData) (s s' : St) : Prop :=
  ∃ own' map' ml' L', Ftl d bd own' map' ml' L' s' ∧ map' (lpa / d.pgs) ≠ noBlock ∧ ∀ i, i < d.pgs →
    SamePage d (pageAt s'.nand.flash (map' (lpa / d.pgs)) i).data
      (if lpa / d.pgs * d.pgs + i = lpa then dat else content d s.nand.flash map L (lpa / d.pgs * d.pgs + i))

theorem page_div {lba i : Nat} (hi : i < d.pgs) : (lba * d.pgs + i) / d.pgs = lba := by
  rw [Nat.mul_comm, Nat.mul_add_div d.pgs_pos, Nat.div_eq_of_lt hi, Nat.add_zero]

theorem page_mod {lba i : Nat} (hi : i < d.pgs) : (lba * d.pgs + i) % d.pgs = i := by
  rw [Nat.mul_comm, Nat.mul_add_mod, Nat.mod_eq_of_lt hi]

/-- What a page of the Data block of a logical block without log holds is the content of the logical page. -/
theorem content_data {fl : Flash} {lba i : Nat} (hi : i < d.pgs) (hnk : ∀ x ∈ L, x.key ≠ lba) (hm : map lba ≠ noBlock) :
    content d fl map L (lba * d.pgs + i) = (pageAt fl (map lba) i).data := by
  unfold content
  rw [page_div hi, page_mod hi, lookupIn_of_not_mem hnk, if_neg hm]

/-- The converted block is right when the page written is its last page, or holds nothing new. -/
theorem convertedContent_latest_iff {fl : Flash} (dat : PageData) :
    (∀ i, i < d.pgs → SamePage d (convertedContent d fl map L (lpa / d.pgs) dat (lpa / d.pgs * d.pgs + i))
      (if lpa / d.pgs * d.pgs + i = lpa then dat else content d fl map L (lpa / d.pgs * d.pgs + i))) ↔
    lpa % d.pgs + 1 = d.pgs ∨ SamePage d (content d fl map L lpa) dat ∧
      SamePage d dat (content d fl map L (lpa / d.pgs * d.pgs + (d.pgs - 1))) := by
  have hpos := d.pgs_pos
  have hdm : lpa / d.pgs * d.pgs + lpa % d.pgs = lpa := by rw [Nat.mul_comm]; exact Nat.div_add_mod lpa d.pgs
  have hmod := Nat.mod_lt lpa hpos
  have hval : ∀ i, i < d.pgs → convertedContent d fl map L (lpa / d.pgs) dat (lpa / d.pgs * d.pgs + i)
      = if i + 1 = d.pgs then dat else content d fl map L (lpa / d.pgs * d.pgs + i) := by
    intro i hi
    rw [convertedContent, page_div hi, page_mod hi]
    simp only [true_and]
  constructor
  · intro h
    by_cases hl : lpa % d.pgs + 1 = d.pgs
    · exact Or.inl hl
    · right
      constructor
      · have := h _ hmod
        rwa [hval _ hmod, if_neg hl, if_pos hdm, hdm] at this
      · have := h (d.pgs - 1) (by omega)
        rwa [hval _ (by omega), if_pos (by omega), if_neg (by omega)] at this
  · rintro (hl | ⟨h1, h2⟩) i hi
    · rw [hval i hi]
      by_cases hil : i + 1 = d.pgs
      · rw [if_pos hil, if_pos (by omega)]
        exact SamePage.refl _ _
      · rw [if_neg hil, if_neg (by omega)]
        exact SamePage.refl _ _
    · rw [hval i hi]
      by_cases hil : i + 1 = d.pgs
      · rw [if_pos hil]
        by_cases hq : lpa / d.pgs * d.pgs + i = lpa
        · rw [if_pos hq]
          exact SamePage.refl _ _
        · rw [if_neg hq, show i = d.pgs - 1 by omega]
          exact h2
      · rw [if_neg hil]
        by_cases hq : lpa / d.pgs * d.pgs + i = lpa
        · rw [if_pos hq, hq]
          exact h1
        · rw [if_neg hq]
          exact SamePage.refl _ _

/-- After a conversion, exactly when the pages are the latest. -/
theorem Ftl.latest_iff {s' : St} (dat : PageData) (h' : Ftl d bd own' map' ml' L' s') (hlba : lpa / d.pgs < d.blks)
    (hnk : ∀ x ∈ L', x.key ≠ lpa / d.pgs) (hm : map' (lpa / d.pgs) ≠ noBlock)
    (hcont : ∀ q, q / d.pgs < d.blks → content d s'.nand.flash map' L' q
      = convertedContent d s.nand.flash map L (lpa / d.pgs) dat q) :
    Latest d bd map L lpa dat s s' ↔ lpa % d.pgs + 1 = d.pgs ∨ SamePage d (content d s.nand.flash map L lpa) dat ∧
      SamePage d dat (content d s.nand.flash map L (lpa / d.pgs * d.pgs + (d.pgs - 1))) := by
  rw [← convertedContent_latest_iff]
  have hpage : ∀ i, i < d.pgs → (pageAt s'.nand.flash (map' (lpa / d.pgs)) i).data
      = convertedContent d s.nand.flash map L (lpa / d.pgs) dat (lpa / d.pgs * d.pgs + i) := by
    intro i hi
    rw [← hcont _ (by rw [page_div hi]; exact hlba), content_data hi hnk hm]
  constructor
  · rintro ⟨own₂, map₂, ml₂, L₂, h₂, -, hp⟩ i hi
    have := hp i hi
    rwa [← h'.map_unique h₂ hlba, hpage i hi] at this
  · intro hp
    exact ⟨own', map', ml', L', h', hm, fun i hi => by rw [hpage i hi]; exact hp i hi⟩

/-- In-order conversion: the block newly mapped holds the latest data in each page exactly when the page that fills
it is the last page of the logical block (or brings no new data), and the table has an entry behind the last. -/
theorem conversion_sound_iff (dat : PageData) (hf : d.Fits) (h : Ftl d bd own map ml L s)
    (hshort : ∀ x ∈ L, x.seq.length < d.pgs) (hq : Quiet d True s) (hc : Converts d map L lg lpa)
    (hrun : (nftlWriteLogicpage d lpa dat s).log.all Event.ok = true) :
    ((∃ r, (nftlWriteLogicpage d lpa dat s).res = .ok r) ∧ Latest d bd map L lpa dat s (nftlWriteLogicpage d lpa dat s).st) ↔
      L.length < dlMaxBlocks ∧ (lpa % d.pgs + 1 = d.pgs ∨ SamePage d (content d s.nand.flash map L lpa) dat ∧
        SamePage d dat (content d s.nand.flash map L (lpa / d.pgs * d.pgs + (d.pgs - 1)))) := by
  have hlba : lpa / d.pgs < d.blks := hc.key ▸ h.key_lt lg hc.mem
  by_cases hlen : L.length < dlMaxBlocks
  · obtain ⟨r, hr, -, own', map', ml', L', h', hnk, hm, hcont⟩ :=
      (sat_writeConverted dat hf h hshort hq hc hlen).of_clean (not_excused_of_ok hrun)
    rw [hc.key] at hnk hm hcont
    rw [h'.latest_iff dat hlba hnk hm hcont]
    exact ⟨fun hx => ⟨hlen, hx.2⟩, fun hx => ⟨⟨r, hr⟩, hx.2⟩⟩
  · have hfull : L.length = dlMaxBlocks := le_antisymm h.rep.blk_le (not_lt.mp hlen)
    have he := (fails_writeConverted dat hf h hq hc hfull).of_clean (not_excused_of_ok hrun)
    constructor
    · rintro ⟨⟨r, hr⟩, -⟩
      rw [he] at hr
      simp at hr
    · rintro ⟨hx, -⟩
      exact absurd hx hlen

/-! ## A conversion on the small chip -/

/-- The first page written after the first mount: `lpa` goes to the DataLog block 1. -/
def firstPage (lpa : Nat) (dat : PageData) : Out Fault St Event Bool :=
  storePage smallChip ⟨.append, 0, 1, 0⟩ lpa dat { fresh with al := fresh.al.take 1 }

theorem ftl_firstPage (lpa : Nat) (dat : PageData) (hlpa : lpa / smallChip.pgs < smallChip.blks)
    (hrun : (firstPage lpa dat).log.all Event.ok = true) :
    ∃ own, Ftl smallChip (fun _ => false) own (fun _ => noBlock) [] [⟨lpa / smallChip.pgs, 1, [lpa]⟩] (firstPage lpa dat).st := by
  obtain ⟨own, h⟩ := ftl_fresh
  have hs : Sat (contract smallChip True) (storePage smallChip ⟨.append, 0, 1, 0⟩ lpa dat)
      { fresh with al := fresh.al.take 1 } _ :=
    sat_appendDl dat h (by decide +kernel) (by simp) hlpa (by decide) (by decide)
  obtain ⟨r, -, -, -, hst⟩ := hs.of_clean (not_excused_of_ok hrun)
  exact ⟨_, hst.ftl⟩

/-- Page 0 of logical block 0 is in the DataLog block 1. -/
def logged : St := (firstPage 0 fun _ => 1).st

theorem ftl_logged : ∃ own, Ftl smallChip (fun _ => false) own (fun _ => noBlock) [] [⟨0, 1, [0]⟩] logged :=
  ftl_firstPage 0 (fun _ => 1) (by decide) (by decide +kernel)

theorem converts_logged (lpa : Nat) (h : 0 = lpa / smallChip.pgs) :
    Converts smallChip (fun _ => noBlock) [⟨0, 1, [0]⟩] ⟨0, 1, [0]⟩ lpa :=
  ⟨by simp, by decide, h, by decide, fun i hi => by
    obtain rfl : i = 0 := by
      have : i + 1 < 2 := hi
      omega
    decide⟩

/-- Writing logical page 1 converts the block, and both pages are right. -/
theorem conversion_sound_iff_small : Latest smallChip (fun _ => false) (fun _ => noBlock) [⟨0, 1, [0]⟩] 1 (fun _ => 2) logged
    (nftlWriteLogicpage smallChip 1 (fun _ => 2) logged).st := by
  obtain ⟨own, h⟩ := ftl_logged
  have hiff := conversion_sound_iff (fun _ => 2) smallChip_fits h (by decide) (smallChip_quiet _)
    (converts_logged 1 (by decide)) (by decide +kernel)
  exact (hiff.mpr ⟨by decide, Or.inl (by decide)⟩).2

/-- Writing logical page 0 again converts the block too: the new data goes to page 1, page 0 is stale. -/
theorem conversion_stale : (∃ own, Ftl smallChip (fun _ => false) own (fun _ => noBlock) [] [⟨0, 1, [0]⟩] logged) ∧
    Converts smallChip (fun _ => noBlock) [⟨0, 1, [0]⟩] ⟨0, 1, [0]⟩ 0 ∧
    (nftlWriteLogicpage smallChip 0 (fun _ => 2) logged).log.all Event.ok = true ∧
    ¬ Latest smallChip (fun _ => false) (fun _ => noBlock) [⟨0, 1, [0]⟩] 0 (fun _ => 2) logged
      (nftlWriteLogicpage smallChip 0 (fun _ => 2) logged).st := by
  have hc := converts_logged 0 (by decide)
  have hrun : (nftlWriteLogicpage smallChip 0 (fun _ => 2) logged).log.all Event.ok = true := by decide +kernel
  refine ⟨ftl_logged, hc, hrun, fun hlatest => ?_⟩
  obtain ⟨own, h⟩ := ftl_logged
  obtain ⟨r, -, -, own', map', ml', L', h', hnk, hm, hcont⟩ := (sat_writeConverted (fun _ => 2) smallChip_fits h
    (by decide) (smallChip_quiet _) hc (by decide)).of_clean (not_excused_of_ok hrun)
  rcases (h'.latest_iff (fun _ => 2) (by decide) hnk hm hcont).mp hlatest with hx | ⟨hx, -⟩
  · exact absurd hx (by decide)
  · exact absurd (hx 0 (by decide)) (by decide +kernel)

end Emlinux.Nftl
