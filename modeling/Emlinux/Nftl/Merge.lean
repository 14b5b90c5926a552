import Emlinux.Nftl.Store

/-!
# Merging a DataLog block

`nftl_merge_dlblk` copies the newest page of every logical page of one logical block to a new Data block,
records the two old blocks as garbage and changes the map. `sat_mergeDlblk` says that this keeps the
invariant and the content of every logical page, with one exception: when the logical block had no Data block
and its page 0 is not in the log, page 0 of the new Data block is what `kmalloc` returned.
-/

namespace Emlinux.Nftl

open Lib

variable {d : Device} {E : Prop} {bd : Nat → Bool} {own : Own} {map : Nat → Nat} {ml L pre post : List Log} {lg : Log}

/-! ## The copy loop -/

/-- The pages of the new Data block: from the log, else from the old Data block `pba`, else none but page 0, which
is `tempbuf` as it is. -/
def MergeNew (d : Device) (fl : Flash) (lg : Log) (pba : Nat) (tempbuf : PageData) (new : Nat → Option Page) : Prop :=
  ∀ i, i < d.pgs → match lookup lg.seq (lg.key * d.pgs + i) with
    | some ppa => new i = some (copyPage .data (pageAt fl lg.pba ppa))
    | none => if pba ≠ noBlock then new i = some (copyPage .data (pageAt fl pba i))
      else if i = 0 then ∃ info, new i = some ⟨tempbuf, ⟨.data, info⟩⟩ else new i = none

theorem mergeNew_exists (d : Device) (fl : Flash) (lg : Log) (pba : Nat) (tempbuf : PageData) :
    ∃ new, MergeNew d fl lg pba tempbuf new := by
  refine ⟨fun i => match lookup lg.seq (lg.key * d.pgs + i) with
    | some ppa => some (copyPage .data (pageAt fl lg.pba ppa))
    | none => if pba ≠ noBlock then some (copyPage .data (pageAt fl pba i))
      else if i = 0 then some ⟨tempbuf, ⟨.data, 0⟩⟩ else none, fun i _ => ?_⟩
  dsimp only
  cases lookup lg.seq (lg.key * d.pgs + i) with
  | some ppa => rfl
  | none =>
    by_cases h1 : pba ≠ noBlock
    · simp [h1]
    · by_cases h2 : i = 0
      · simp [h1, h2]
      · simp [h1, h2]

/-- Page 0 of a merge shows the type. -/
theorem MergeNew.head {fl : Flash} {pba : Nat} {tempbuf : PageData} {new : Nat → Option Page}
    (h : MergeNew d fl lg pba tempbuf new) :
    ∃ pg, new 0 = some pg ∧ pg.spare.blocktype = .data := by
  have h0 := h 0 d.pgs_pos
  cases hl : lookup lg.seq (lg.key * d.pgs + 0) with
  | some ppa =>
    rw [hl] at h0
    exact ⟨_, h0, rfl⟩
  | none =>
    rw [hl] at h0
    by_cases h1 : pba ≠ noBlock
    · simp only [if_pos h1] at h0
      exact ⟨_, h0, rfl⟩
    · simp only [if_neg h1, if_true] at h0
      obtain ⟨info, h0⟩ := h0
      exact ⟨_, h0, rfl⟩

theorem MergeNew.set_zero {fl : Flash} {pba : Nat} {tempbuf : PageData} {new : Nat → Option Page}
    (h : MergeNew d fl lg pba tempbuf new) (hl : lookup lg.seq (lg.key * d.pgs) = none) (hpba : pba = noBlock) (info : Nat) :
    MergeNew d fl lg pba tempbuf (Function.update new 0 (some ⟨tempbuf, ⟨.data, info⟩⟩)) := by
  intro i hi
  have hnew := h i hi
  cases i with
  | zero =>
    rw [Nat.add_zero, hl]
    simp [hpba]
  | succ i => simpa using hnew

theorem sat_markDataBlock {s : St} {temp i : Nat} (tempbuf : PageData) (ht : temp < d.blks) (hi : i < d.pgs)
    (he : ∀ q, i ≤ q → q < d.pgs → s.nand.flash temp q = none) :
    Sat (contract d E) (markDataBlock d temp i tempbuf) s (fun r s' => r = .next temp ∧ ∃ info,
      Reflash s (setPage s.nand.flash temp i ⟨tempbuf, ⟨.data, info⟩⟩) s') := by
  refine Sat.bind sat_stackInfo ?_
  rintro info s₁ ⟨-, h₁⟩
  refine Sat.bind (sat_mtdWrite _ ht hi (by rw [h₁.flash]; exact he)) ?_
  rintro r s₂ ⟨rfl, h₂⟩
  rw [if_neg (by decide)]
  refine Sat.pure ⟨rfl, info, ?_⟩
  have := h₁.trans h₂
  rwa [h₁.flash] at this

theorem sat_mergeDlLoop {s : St} {temp pba : Nat} (tempbuf : PageData) (hp : LogPages d s.nand.flash DlTag lg)
    (hb : lg.pba < d.blks) (ht : temp < d.blks) (hne : lg.pba ≠ temp) (hpba : pba = noBlock ∨ pba < d.blks)
    (hne' : pba ≠ temp) (he : ∀ q, q < d.pgs → s.nand.flash temp q = none) :
    Sat (contract d E) (Prog.loop (mergeDlPage d lg.pba
      ((List.range d.pgs).map fun i => (lookup lg.seq (lg.key * d.pgs + i)).getD 0xff) pba tempbuf) d.pgs 0 temp) s
      (fun r s' => r = .next temp ∧ ∃ fl new, Reflash s fl s' ∧ MergeNew d s.nand.flash lg pba tempbuf new ∧
        Filled d s.nand.flash temp new d.pgs fl) := by
  have hno := d.blks_lt_noBlock
  obtain ⟨new₀, hnew₀⟩ := mergeNew_exists d s.nand.flash lg pba tempbuf
  refine Sat.loop (fun i t s' => t = temp ∧ ∃ fl new, Reflash s fl s' ∧ MergeNew d s.nand.flash lg pba tempbuf new ∧
    Filled d s.nand.flash temp new i fl) d.pgs 0 ?_ ?_ ⟨rfl, _, new₀, ⟨_, _, rfl⟩, hnew₀, Filled.zero he⟩
  · rintro i t s₁ - hi ⟨rfl, fl, new, h₁, hnew, hfill⟩
    rw [Nat.zero_add] at hi
    have hget : ((List.range d.pgs).map fun i => (lookup lg.seq (lg.key * d.pgs + i)).getD 0xff).getD i 0xff
        = (lookup lg.seq (lg.key * d.pgs + i)).getD 0xff := by
      simp [List.getD_eq_getElem?_getD, hi]
    have hnewi := hnew i hi
    have htodo : ∀ q, i ≤ q → q < d.pgs → s₁.nand.flash t q = none := by rw [h₁.flash]; exact hfill.todo
    -- a page copied from another block `b`
    have hcopy : ∀ b p, b < d.blks → p < d.pgs → b ≠ t →
        new i = some (copyPage .data (pageAt s.nand.flash b p)) →
        Sat (contract d E) (mergePage d b p t i .data) s₁ (fun r s' => r = .next t ∧ ∃ fl new, Reflash s fl s' ∧
          MergeNew d s.nand.flash lg pba tempbuf new ∧ Filled d s.nand.flash t new (i + 1) fl) := by
      intro b p hbb hpp hbt hn
      refine (sat_mergePage .data hbb hpp ht hi htodo).mono ?_
      rintro r s₂ ⟨rfl, h₂⟩
      refine ⟨rfl, setPage fl t i (copyPage .data (pageAt s.nand.flash b p)), new, ?_, hnew, hfill.put hn⟩
      have hrd : s₁.nand.read b p = pageAt s.nand.flash b p := by
        rw [Nand.read, h₁.flash, hfill.other _ hbt, pageAt]
      have := h₁.trans h₂
      rwa [hrd, h₁.flash] at this
    refine Sat.bind (Q := fun r s' => r = .next t ∧ ∃ fl new, Reflash s fl s' ∧
      MergeNew d s.nand.flash lg pba tempbuf new ∧ Filled d s.nand.flash t new (i + 1) fl) ?_ ?_
    · rw [hget]
      cases hl : lookup lg.seq (lg.key * d.pgs + i) with
      | some ppa =>
        have h1 := lookup_lt hl
        have h2 := hp.fits
        have h3 := d.pgs_le
        rw [hl] at hnewi
        rw [Option.getD_some, if_pos (by omega)]
        exact hcopy lg.pba ppa hb (by omega) hne hnewi
      | none =>
        rw [hl] at hnewi
        rw [Option.getD_none, if_neg (by decide)]
        by_cases hm : pba ≠ noBlock
        · simp only [if_pos hm] at hnewi
          rw [if_pos hm]
          exact hcopy pba i (hpba.resolve_left hm) hi hne' hnewi
        · simp only [if_neg hm] at hnewi
          rw [if_neg hm]
          by_cases hi0 : i = 0
          · subst hi0
            rw [if_pos rfl]
            refine (sat_markDataBlock tempbuf ht hi htodo).mono ?_
            rintro r s₂ ⟨rfl, info, h₂⟩
            have hnew' := hnew.set_zero (by rwa [Nat.add_zero] at hl) (not_not.mp hm) info
            refine ⟨rfl, setPage fl t 0 ⟨tempbuf, ⟨.data, info⟩⟩, _, ?_, hnew', ?_⟩
            · have := h₁.trans h₂
              rwa [h₁.flash] at this
            · have hfill' : Filled d s.nand.flash t (Function.update new 0 (some ⟨tempbuf, ⟨.data, info⟩⟩)) 0 fl :=
                ⟨hfill.other, fun j hj => absurd hj (Nat.not_lt_zero _), hfill.todo⟩
              exact hfill'.put (by simp)
          · rw [if_neg hi0]
            rw [if_neg hi0] at hnewi
            exact Sat.pure ⟨rfl, fl, new, h₁, hnew, hfill.skip hi hnewi⟩
    · rintro r s₂ ⟨rfl, hx⟩
      have htn : t ≠ noBlock := by omega
      simp only [if_neg htn]
      exact Sat.pure ⟨rfl, hx⟩
  · rintro t s' ⟨rfl, hx⟩
    rw [Nat.zero_add] at hx
    exact ⟨rfl, hx⟩

/-! ## The merge -/

/-- With little garbage or many free blocks, the next operation finds a block. -/
def Low (al : Alloc) : Prop := al.gar = [] ∨ miniFreeBlock ≤ al.freeBlkcnt

theorem Low.of_spent {al al' : Alloc} (h : Settled al) (hs : Spent 1 al al') : Low al' := by
  have h20 : miniFreeBlock = 20 := rfl
  rcases hs with ⟨hg, hle⟩ | hs
  · rcases h with h | h
    · exact Or.inl (hg.trans h.2.2)
    · exact Or.inr (by omega)
  · rcases hs with hs | hs
    · exact Or.inl hs.2.2
    · exact Or.inr (le_of_lt hs)

/-- What page `lpa` holds after the merge of `lg`: page 0 is `tempbuf` when it was never written. -/
def mergedContent (d : Device) (fl : Flash) (map : Nat → Nat) (L : List Log) (lg : Log) (tempbuf : PageData) (lpa : Nat) :
    PageData :=
  if lpa = lg.key * d.pgs ∧ map lg.key = noBlock ∧ lg.key * d.pgs ∉ lg.seq then tempbuf else content d fl map L lpa

/-- The content of the merged logical block. -/
theorem content_merged {fl fl' : Flash} {tempbuf : PageData} {new : Nat → Option Page} {tb lpa : Nat} (htb : tb ≠ noBlock)
    (hl : Logs d .dl DlTag own fl (pre ++ lg :: post)) (hnew : MergeNew d fl lg (map lg.key) tempbuf new)
    (hfl : ∀ i, i < d.pgs → fl' tb i = new i) (hlpa : lpa / d.pgs = lg.key) :
    content d fl' (Function.update map lg.key tb) (pre ++ post) lpa
      = mergedContent d fl map (pre ++ lg :: post) lg tempbuf lpa := by
  have hmod := Nat.mod_lt lpa d.pgs_pos
  have hpe : lg.key * d.pgs + lpa % d.pgs = lpa := by
    rw [← hlpa, Nat.mul_comm]; exact Nat.div_add_mod lpa d.pgs
  have hnone : lookupIn (pre ++ post) (lpa / d.pgs) lpa = none :=
    lookupIn_of_not_mem (fun x hx => hlpa ▸ hl.key_ne hx) lpa
  have hn := hnew _ hmod
  rw [hpe] at hn
  unfold mergedContent content
  rw [hnone, hlpa, Function.update_self, if_neg htb, pageAt, hfl _ hmod, lookupIn_of_mem hl.nodup (by simp)]
  cases hlook : lookup lg.seq lpa with
  | some ppa =>
    have hmem : lpa ∈ lg.seq := List.mem_of_getElem? (getElem?_of_lookup hlook)
    rw [hlook] at hn
    rw [if_neg (fun hx => hx.2.2 (hx.1 ▸ hmem))]
    simp only [hn, Option.map_some, Option.getD_some]
    rfl
  | none =>
    have hmem := lookup_eq_none.mp hlook
    rw [hlook] at hn
    simp only [Option.map_none]
    by_cases hm : map lg.key = noBlock
    · simp only [hm, ne_eq, not_true, if_false] at hn
      by_cases h0 : lpa % d.pgs = 0
      · rw [h0, Nat.add_zero] at hpe
        rw [if_pos h0] at hn
        obtain ⟨info, hn⟩ := hn
        rw [if_pos ⟨hpe.symm, hm, hpe ▸ hmem⟩, hn]
        rfl
      · rw [if_neg h0] at hn
        rw [if_neg (fun hx => h0 (by rw [hx.1]; exact Nat.mul_mod_left _ _)), if_pos hm, hn]
        rfl
    · simp only [ne_eq, hm, not_false_eq_true, if_true] at hn
      rw [if_neg (fun hx => hm hx.2.1), if_neg hm, hn]
      rfl

/-- All of `nftl_merge_dlblk` but the change of the table. -/
def mergeStore (d : Device) (index : Nat) : M (LoopFlow Int Unit) := do
  let tempbuf ← kmalloc d
  let s ← Prog.get
  let b ← Prog.lift (s.dl.blockAt dlCap index)
  let lba := b.key
  let factppa ← Prog.lift (s.dl.factPpas dlCap (lba * d.pgs) index d.pgs)
  let m ← nftlLbaToPba d lba
  let pba := m.2
  let tempdatablock ← nftlGetFreeBlock d
  if tempdatablock = noBlock then pure (.brk (-1))
  else
    match ← Prog.loop (mergeDlPage d b.pba factppa pba tempbuf) d.pgs 0 tempdatablock with
    | .brk ret => pure (.brk ret)
    | .next temp => do
      let _ ← nftlAddtoGt d (if pba ≠ noBlock then [b.pba, pba] else [b.pba])
      let _ ← nftlUpdateMt d lba temp
      pure (.next ())

theorem nftlMergeDlblk_eq (d : Device) (index : Nat) : nftlMergeDlblk d index = (do
    match ← mergeStore d index with
    | .brk ret => pure ret
    | .next _ => nftlUpdateDlRam d .delete index 0 0) := by
  unfold nftlMergeDlblk mergeStore
  simp only [Prog.bind_assoc]
  refine congrArg _ (funext fun tempbuf => congrArg _ (funext fun s => congrArg _ (funext fun b => ?_)))
  refine congrArg _ (funext fun factppa => congrArg _ (funext fun m => congrArg _ (funext fun tb => ?_)))
  by_cases hb : tb = noBlock
  · rw [if_pos hb, if_pos hb, Prog.pure_bind]
  · rw [if_neg hb, if_neg hb, Prog.bind_assoc]
    refine congrArg _ (funext fun r => ?_)
    cases r with
    | brk ret => rw [Prog.pure_bind]
    | next temp => simp only [Prog.bind_assoc, Prog.pure_bind]

/-- Before the log is dropped from the table: `tb` is the Data block, and no block has the role of the log. -/
structure Merging (d : Device) (own : Own) (map : Nat → Nat) (pre post : List Log) (lg : Log) (tempbuf : PageData) (s s' : St)
    (own' : Own) (ml' : List Log) (tb : Nat) : Prop where
  core : Core d own' (Function.update map lg.key tb) ml' s'
  dl : s'.dl = s.dl
  keeps : Keeps (Role.others lg.key) own s.nand.flash own' s'.nand.flash
  data : ∀ b, own' b = .data lg.key ↔ b = tb
  dlog : ∀ b, own' b ≠ .dl lg.key
  noTemp : ∀ b, own' b ≠ .temp
  lt : tb < d.blks
  head : DataHead d s'.nand.flash tb
  low : Low s'.al
  holds : ∀ lpa, lpa / d.pgs = lg.key → content d s'.nand.flash (Function.update map lg.key tb) (pre ++ post) lpa
    = mergedContent d s.nand.flash map (pre ++ lg :: post) lg tempbuf lpa

/-- The log is dropped. -/
theorem Merging.ftl {s s' : St} {own' : Own} {ml' : List Log} {tb : Nat} {tempbuf : PageData} {t : LogTab}
    (hm : Merging d own map pre post lg tempbuf s s' own' ml' tb) (h : Ftl d bd own map ml (pre ++ lg :: post) s)
    (hrep : Rep dlCap t (pre ++ post)) :
    Ftl d bd own' (Function.update map lg.key tb) ml' (pre ++ post) { s' with dl := t } :=
  ⟨hm.core.setDl hrep, h.logs.drop hm.keeps hm.dlog, hrep, fun x hx => h.key_lt x (mem_middle.mpr (Or.inr hx)),
    h.data.swap hm.keeps hm.data hm.lt (h.key_lt lg (by simp)) hm.head, hm.noTemp,
    fun b hb => (hm.keeps.role rfl b).trans (h.bad b hb)⟩

theorem Merging.content {s s' : St} {own' : Own} {ml' : List Log} {tb : Nat} {tempbuf : PageData}
    (hm : Merging d own map pre post lg tempbuf s s' own' ml' tb) (h : Ftl d bd own map ml (pre ++ lg :: post) s) {lpa : Nat}
    (hlpa : lpa / d.pgs < d.blks) :
    content d s'.nand.flash (Function.update map lg.key tb) (pre ++ post) lpa
      = mergedContent d s.nand.flash map (pre ++ lg :: post) lg tempbuf lpa := by
  by_cases hl : lpa / d.pgs = lg.key
  · exact hm.holds lpa hl
  · rw [mergedContent, if_neg (fun hx => hl (by rw [hx.1, Nat.mul_div_cancel _ d.pgs_pos]))]
    refine content_other h.logs (h.logs.drop hm.keeps hm.dlog).nodup (fun x hx => ?_) h.data hm.keeps hlpa hl
    rw [mem_middle]
    constructor
    · exact Or.inr
    · rintro (rfl | hx')
      · exact absurd rfl hx
      · exact hx'

theorem sat_junk {s : St} :
    Sat (contract d E) (kmalloc d) s (fun r s' => r = d.junk s.nand.tick ∧ Reflash s s.nand.flash s') :=
  Or.inr ⟨_, rfl, step_read d E rfl rfl (fun _ h => h), rfl, _, _, rfl⟩

/-! ## The blocks given up -/

/-- The DataLog block, and the Data block when there is one. -/
def oldBlocks (map : Nat → Nat) (lg : Log) : List Nat :=
  if map lg.key ≠ noBlock then [lg.pba, map lg.key] else [lg.pba]

theorem mem_oldBlocks (b : Nat) : b ∈ oldBlocks map lg ↔ b = lg.pba ∨ (map lg.key ≠ noBlock ∧ b = map lg.key) := by
  unfold oldBlocks
  split_ifs with hm <;> simp [hm]

theorem oldBlocks_length : 1 ≤ (oldBlocks map lg).length ∧ (oldBlocks map lg).length ≤ 2 := by
  unfold oldBlocks
  split_ifs <;> simp

section old

variable {s : St} (h : Ftl d bd own map ml (pre ++ lg :: post) s)

include h

theorem Ftl.own_log : own lg.pba = .dl lg.key := h.logs.owned lg (by simp)

theorem Ftl.own_data (hm : map lg.key ≠ noBlock) : own (map lg.key) = .data lg.key :=
  h.data.owned _ (h.key_lt lg (by simp)) hm

/-- They are the blocks with a role for this logical block. -/
theorem Ftl.mem_oldBlocks_iff (b : Nat) : b ∈ oldBlocks map lg ↔ own b = .dl lg.key ∨ own b = .data lg.key := by
  have hno := d.blks_lt_noBlock
  rw [mem_oldBlocks]
  constructor
  · rintro (rfl | ⟨hm, rfl⟩)
    · exact Or.inl h.own_log
    · exact Or.inr (h.own_data hm)
  · rintro (hb | hb)
    · obtain ⟨x, hx, hxk, hxb⟩ := h.logs.mem b _ hb
      have hxl : x = lg := eq_of_key h.logs.nodup hx (by simp) hxk
      exact Or.inl (by rw [← hxb, hxl])
    · obtain ⟨hlt, -, he⟩ := h.data.mem b lg.key hb
      exact Or.inr ⟨by omega, he.symm⟩

theorem Ftl.oldBlocks_lt (b : Nat) (hb : b ∈ oldBlocks map lg) : b < d.blks := by
  rcases (mem_oldBlocks b).mp hb with rfl | ⟨hm, rfl⟩
  · exact h.logs.lt lg (by simp)
  · exact (h.core.inv.range _ (h.key_lt lg (by simp))).resolve_left hm

theorem Ftl.oldBlocks_nodup : (oldBlocks map lg).Nodup := by
  unfold oldBlocks
  split_ifs with hm
  · have hne : lg.pba ≠ map lg.key := by
      intro e
      have := h.own_data hm
      rw [← e, h.own_log] at this
      simp at this
    simp [hne]
  · simp

theorem Ftl.oldBlocks_marked (b : Nat) (hb : b ∈ oldBlocks map lg) : Marked s.nand.flash b := by
  rcases (mem_oldBlocks b).mp hb with rfl | ⟨hm, rfl⟩
  · obtain ⟨pg, p, hpg, hty, -⟩ := (h.logs.pages lg (by simp)).head
    exact ⟨pg, hpg, Or.inr (Or.inl hty)⟩
  · exact (h.data.head _ _ (h.own_data hm)).marked

theorem Ftl.oldBlocks_ne {tb : Nat} (hp : own tb = .pool) (b : Nat) (hb : b ∈ oldBlocks map lg) : b ≠ tb := by
  rintro rfl
  rcases (h.mem_oldBlocks_iff b).mp hb with ho | ho
  · rw [hp] at ho
    cases ho
  · rw [hp] at ho
    cases ho

/-- When they are released, the only block in work is `tb`. -/
theorem Ftl.release_temp {tb : Nat} (hp : own tb = .pool) (b : Nat) :
    Own.release (Function.update own tb .temp) (oldBlocks map lg) b = .temp ↔ b = tb := by
  by_cases hb : b ∈ oldBlocks map lg
  · simp [Own.release, hb, h.oldBlocks_ne hp b hb]
  · by_cases hbt : b = tb
    · subst hbt
      simp [Own.release, hb]
    · simp [Own.release, hb, hbt, h.noTemp b]

/-- And no block has a role for this logical block. -/
theorem Ftl.release_none {tb : Nat} (b : Nat) :
    Own.release (Function.update own tb .temp) (oldBlocks map lg) b ≠ .dl lg.key ∧
      Own.release (Function.update own tb .temp) (oldBlocks map lg) b ≠ .data lg.key := by
  by_cases hb : b ∈ oldBlocks map lg
  · simp [Own.release, hb]
  · have hr := mt (h.mem_oldBlocks_iff b).mpr hb
    by_cases hbt : b = tb
    · subst hbt
      simp [Own.release, hb]
    · simpa [Own.release, hb, hbt, not_or] using hr

/-- The other roles stay when `tb` is filled and the old blocks go to the pool. -/
theorem Ftl.release_keeps {tb : Nat} {fl fl' : Flash} (hp : own tb = .pool) (hfl : ∀ x, x ≠ tb → fl x = s.nand.flash x)
    (hfl' : ∀ b, Own.release (Function.update own tb .temp) (oldBlocks map lg) b ≠ .pool → fl' b = fl b) :
    Keeps (Role.others lg.key) own s.nand.flash (Own.release (Function.update own tb .temp) (oldBlocks map lg)) fl' := by
  have htake : Keeps (Role.others lg.key) own s.nand.flash (Function.update own tb .temp) s.nand.flash :=
    Keeps.update tb .temp (by rw [hp]; rfl) rfl
  have hfill : Keeps (Role.others lg.key) (Function.update own tb .temp) s.nand.flash (Function.update own tb .temp) fl :=
    Keeps.content (b := tb) (by simp [Role.others]) hfl
  refine (htake.trans hfill).trans (Keeps.release rfl ?_ hfl')
  intro b hb
  rw [Function.update_of_ne (h.oldBlocks_ne hp b hb)]
  rcases (h.mem_oldBlocks_iff b).mp hb with ho | ho <;> simp [ho, Role.others]

end old

theorem sat_mergeStore {s : St} (hf : d.Fits) (h : Ftl d bd own map ml (pre ++ lg :: post) s) (hq : Quiet d E s)
    (hE : Enough d E s.al) :
    Sat (contract d E) (mergeStore d pre.length) s (fun r s' => r = .next () ∧ ∃ own' ml' tb,
      Merging d own map pre post lg (d.junk s.nand.tick) s s' own' ml' tb) := by
  have hno := d.blks_lt_noBlock
  have hkey := h.key_lt lg (by simp)
  refine Sat.bind (sat_junk.with_inv quiet_step hq) ?_
  rintro _ s₁ ⟨⟨rfl, h₁⟩, hq₁⟩
  have hftl₁ := h.reflash h₁
  refine Sat.get_bind ?_
  refine Sat.lift_bind (LogTab.blockAt_ok hftl₁.rep.mid_lt) ?_
  rw [hftl₁.rep.block_mid]
  refine Sat.lift_bind (factPpas_rep hftl₁.rep _ _) ?_
  refine Sat.bind (sat_lbaToPba hf hftl₁.core hkey hq₁) ?_
  rintro _ s₂ ⟨rfl, own₁, ml₁, hc₂, hdl₂, hk₂, hal₂⟩
  have hftl₂ := hftl₁.keeps hc₂ hdl₂ hk₂
  rw [h₁.flash] at hk₂
  have hE₂ : Enough d E s₂.al := hal₂.carry hq₁ Or.inl (by rw [h₁.al]; exact hE)
  refine Sat.bind (sat_getFreeBlock hf.blks_lt hc₂.alloc.pool hE₂.pos) ?_
  rintro tb _ ⟨hb, rfl⟩
  have hpool := hc₂.alloc.pool.own_free hb
  have htb := hc₂.alloc.pool.free_lt tb hb
  have hfree := hc₂.alloc.pool.free_take hb
  rw [if_neg (show tb ≠ noBlock by omega)]
  have hne := hftl₂.oldBlocks_ne hpool
  have hne1 : lg.pba ≠ tb := hne _ ((mem_oldBlocks _).mpr (Or.inl rfl))
  have hne2 : map lg.key ≠ tb := by
    by_cases hm : map lg.key = noBlock
    · omega
    · exact hne _ ((mem_oldBlocks _).mpr (Or.inr ⟨hm, rfl⟩))
  refine Sat.bind (sat_mergeDlLoop (s := { s₂ with al := s₂.al.take tb }) (d.junk s.nand.tick) (hftl₂.logs.pages lg (by simp))
    (hftl₂.logs.lt lg (by simp)) htb hne1 (hc₂.inv.range _ hkey) hne2 (hc₂.alloc.pool.erased tb hb)) ?_
  rintro _ s₃ ⟨rfl, fl, new, h₃, hnew, hfill⟩
  -- the state with the new block filled
  have hfl₃ : ∀ x, x ≠ tb → s₃.nand.flash x = s₂.nand.flash x := by
    intro x hx
    rw [h₃.flash]
    exact hfill.other x hx
  have hcore₃ : Core d (Function.update own₁ tb .temp) map ml₁ s₃ :=
    (hc₂.take hb).keeps h₃.al h₃.mt (by rw [h₃.mt, h₃.dl]; exact hc₂.tab) (Keeps.content (b := tb) (by simp [Role.user]) hfl₃)
  refine Sat.bind (sat_dropGar (g := oldBlocks map lg) hf hcore₃ oldBlocks_length hftl₂.oldBlocks_nodup hftl₂.oldBlocks_lt ?_ ?_ ?_) ?_
  · intro b hb'
    rw [Function.update_of_ne (hne b hb')]
    rcases (hftl₂.mem_oldBlocks_iff b).mp hb' with ho | ho <;> rw [ho] <;> rfl
  · intro b hb'
    rw [Marked, hfl₃ b (hne b hb')]
    exact hftl₂.oldBlocks_marked b hb'
  · rw [h₃.al]
    rcases hE₂ with hx | ⟨-, hx1, hx | hx⟩
    · exact Or.inl hx
    · exact Or.inr (Or.inl hx)
    · exact Or.inr (Or.inr (show 0 < (s₂.al.take tb).freeBlkcnt by omega))
  rintro _ s₄ ⟨rfl, hcore₄, hdl₄, hfl₄, hset₄, hsize₄⟩
  have hsize : s₂.al.poolSize ≤ s₄.al.poolSize := by
    have htake : s₃.al.poolSize + 1 = s₂.al.poolSize := by
      rw [hcore₃.alloc.poolSize_eq, hc₂.alloc.poolSize_eq]
      exact poolCount_take htb hpool (by simp)
    have hlen : 1 ≤ (oldBlocks map lg).length := oldBlocks_length.1
    omega
  have htemp₄ := hftl₂.release_temp hpool
  refine Sat.bind (sat_mapTo hf hcore₄ hkey htb htemp₄ (hset₄.enough hE₂.poolSize hsize)) ?_
  rintro _ s₅ ⟨rfl, ⟨own₅, ml₅, hm₅⟩, hsp₅⟩
  have hdl₅ : s₅.dl = s.dl := by rw [hm₅.dl, hdl₄, h₃.dl]; exact hdl₂.trans h₁.dl
  have hk := ((hk₂.others lg.key).trans (hftl₂.release_keeps hpool hfl₃ hfl₄)).trans hm₅.keeps
  have hnodl : ∀ b, own₅ b ≠ .dl lg.key := fun b hb' => (hftl₂.release_none b).1 (hm₅.dlog b hb')
  have hdata : ∀ b, own₅ b = .data lg.key ↔ b = tb := by
    intro b
    constructor
    · intro hb'
      by_contra hbt
      exact (hftl₂.release_none b).2 (hm₅.data b hbt hb')
    · rintro rfl
      exact hm₅.target
  have hfltb : ∀ i, i < d.pgs → s₅.nand.flash tb i = new i := by
    intro i hi
    rw [hm₅.flash, hfl₄ tb (by rw [(htemp₄ tb).mpr rfl]; simp), h₃.flash, hfill.done i hi]
  have hhead : DataHead d s₅.nand.flash tb := by
    obtain ⟨pg, hpg, hty⟩ := hnew.head
    exact ⟨pg, by rw [hfltb 0 d.pgs_pos]; exact hpg, Or.inl hty⟩
  refine Sat.pure ⟨rfl, own₅, ml₅, tb, hm₅.core, hdl₅, hk, hdata, hnodl, hm₅.noTemp, htb, hhead, Low.of_spent hset₄ hsp₅, ?_⟩
  intro lpa hl
  have hcm := content_merged (show tb ≠ noBlock by omega) hftl₂.logs hnew hfltb hl
  rwa [mergedContent, content_congr h.logs h.data hk₂ (by rw [hl]; exact hkey)] at hcm

/-- The merge of a DataLog block, exactly. -/
theorem sat_mergeDlblk_exact {s : St} (hf : d.Fits) (h : Ftl d bd own map ml (pre ++ lg :: post) s)
    (hlen : (pre ++ lg :: post).length < dlMaxBlocks) (hq : Quiet d E s) (hE : Enough d E s.al) :
    Sat (contract d E) (nftlMergeDlblk d pre.length) s (fun r s' => r = 0 ∧ ∃ own' ml' tb,
      Ftl d bd own' (Function.update map lg.key tb) ml' (pre ++ post) s' ∧ tb < d.blks ∧ Low s'.al ∧
      ∀ lpa, lpa / d.pgs < d.blks → content d s'.nand.flash (Function.update map lg.key tb) (pre ++ post) lpa
        = mergedContent d s.nand.flash map (pre ++ lg :: post) lg (d.junk s.nand.tick) lpa) := by
  rw [nftlMergeDlblk_eq]
  refine Sat.bind (sat_mergeStore hf h hq hE) ?_
  rintro _ s₁ ⟨rfl, own₁, ml₁, tb, hm⟩
  refine (sat_deleteDl (show Rep dlCap s₁.dl (pre ++ lg :: post) by rw [hm.dl]; exact h.rep) hlen hm.core.tab
    hm.core.gar_le).mono ?_
  rintro _ _ ⟨rfl, t, hrep, rfl⟩
  exact ⟨rfl, own₁, ml₁, tb, hm.ftl h hrep, hm.lt, hm.low, fun lpa hlpa => hm.content h hlpa⟩

/-- With a full table, the last step of the merge reads behind it. -/
theorem fails_mergeDlblk {s : St} (hf : d.Fits) (h : Ftl d bd own map ml (pre ++ lg :: post) s)
    (hfull : (pre ++ lg :: post).length = dlMaxBlocks) (hq : Quiet d E s) (hE : Enough d E s.al) :
    Fails (contract d E) (nftlMergeDlblk d pre.length) s dlOverrun := by
  rw [nftlMergeDlblk_eq]
  refine Fails.after (sat_mergeStore hf h hq hE) ?_
  rintro _ s₁ ⟨rfl, own₁, ml₁, tb, hm⟩
  exact fails_deleteDl (show Rep dlCap s₁.dl (pre ++ lg :: post) by rw [hm.dl]; exact h.rep) hfull

/-- `nftl_merge_dlblk` keeps the content of every logical page, page 0 of the merged block apart when it was never
written. -/
theorem sat_mergeDlblk {s : St} (hf : d.Fits) (h : Ftl d bd own map ml (pre ++ lg :: post) s)
    (hlen : (pre ++ lg :: post).length < dlMaxBlocks) (hq : Quiet d E s) (hE : Enough d E s.al) :
    Sat (contract d E) (nftlMergeDlblk d pre.length) s (fun r s' => r = 0 ∧ ∃ own' ml' tb,
      Ftl d bd own' (Function.update map lg.key tb) ml' (pre ++ post) s' ∧ tb < d.blks ∧ Low s'.al ∧
      ∀ lpa, lpa / d.pgs < d.blks → (map lg.key ≠ noBlock ∨ lg.key * d.pgs ∈ lg.seq ∨ lpa ≠ lg.key * d.pgs) →
        content d s'.nand.flash (Function.update map lg.key tb) (pre ++ post) lpa
          = content d s.nand.flash map (pre ++ lg :: post) lpa) := by
  refine (sat_mergeDlblk_exact hf h hlen hq hE).mono ?_
  rintro r s' ⟨hr, own', ml', tb, h', htb, hlow, hc⟩
  refine ⟨hr, own', ml', tb, h', htb, hlow, fun lpa hlpa hok => ?_⟩
  rw [hc lpa hlpa, mergedContent, if_neg]
  rintro ⟨h1, h2, h3⟩
  rcases hok with hx | hx | hx
  · exact hx h2
  · exact h3 hx
  · exact hx h1

end Emlinux.Nftl
