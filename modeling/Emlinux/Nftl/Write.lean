import Emlinux.Nftl.Head

/-!
# Writing a logical page

`nftl_write_logicpage` after the merges at its head: the page goes to the DataLog block of its logical block
(an insert, or an append of a new DataLog block), or, at the last page of a block filled in order, turns that
block into the Data block. A DataLog block that is full then is merged, and one more block is merged when few
free blocks are left.
-/

namespace Emlinux.Nftl

open Lib

variable {d : Device} {E : Prop} {bd : Nat → Bool} {own : Own} {map : Nat → Nat} {ml L pre post : List Log} {lg : Log} {s : St} {U lpa : Nat}

/-! ## Content after one program operation -/

theorem content_write {fl : Flash} {L' : List Log} {q blk i : Nat} (pg : Page)
    (hlook : lookupIn L' (q / d.pgs) q = if q = lpa then some (blk, i) else lookupIn L (q / d.pgs) q)
    (hfree : ∀ a, lookupIn L (q / d.pgs) q = some a → a.1 = blk → a.2 ≠ i)
    (hdat : map (q / d.pgs) ≠ noBlock → map (q / d.pgs) ≠ blk) :
    content d (setPage fl blk i pg) map L' q = if q = lpa then pg.data else content d fl map L q := by
  unfold content
  rw [hlook]
  by_cases hq : q = lpa
  · simp only [if_pos hq, pageAt, setPage_self, Option.getD_some]
  · simp only [if_neg hq]
    cases hl : lookupIn L (q / d.pgs) q with
    | some a => simp only [pageAt, setPage_eq fl pg (hfree a hl)]
    | none =>
      by_cases hm : map (q / d.pgs) = noBlock
      · simp only [hm, if_true]
      · simp only [hm, if_false, pageAt, setPage_block_ne _ _ _ (hdat hm)]

/-- The data blocks are not log blocks. -/
theorem Ftl.data_ne_log (h : Ftl d bd own map ml L s) {k : Nat} (hk : k < d.blks) (hm : map k ≠ noBlock) {x : Log}
    (hx : x ∈ L) : map k ≠ x.pba := by
  intro e
  have h1 := h.data.owned k hk hm
  rw [e, h.logs.owned x hx] at h1
  simp at h1

/-! ## The three ways to store the page -/

theorem sat_writeDlPage {t : Target} {pg : Page} (hb : t.block < d.blks) (hp : t.page < d.pgs)
    (he : ∀ q, t.page ≤ q → q < d.pgs → s.nand.flash t.block q = none) :
    Sat (contract d E) (writeDlPage d t pg) s (fun r s' => r = t.block ∧
      Reflash s (setPage s.nand.flash t.block t.page pg) s') := by
  refine Sat.bind (sat_mtdWrite pg hb hp he) ?_
  rintro r s₁ ⟨rfl, h₁⟩
  rw [if_neg (by decide)]
  exact Sat.pure ⟨rfl, h₁⟩

/-- The page is added to the log in the tables. -/
theorem sat_insertRam {pba : Nat} (hr : Rep dlCap s.dl (pre ++ lg :: post))
    (hroom : lpa ∈ lg.seq ∨ (flat (pre ++ lg :: post)).length < dlMaxPages) (ht : TabOk s.dl s.mt.mtl)
    (hg : s.al.gar.length ≤ garbageMaxCnt) :
    Sat (contract d E) (nftlUpdateDlRam d .insert pre.length lpa pba) s (fun r s' => r = 0 ∧ ∃ t,
      Rep dlCap t (pre ++ ⟨lg.key, lg.pba, lg.seq ++ [lpa]⟩ :: post) ∧ s' = { s with dl := t }) := by
  obtain ⟨t, hins, hrep⟩ := insert_rep hr lpa hroom
  refine Sat.get_bind (Sat.lift_bind hins ?_)
  refine Sat.bind (sat_setDl (hrep.tabOkDl ht) hg) ?_
  rintro _ _ rfl
  exact Sat.pure ⟨rfl, t, hrep, rfl⟩

/-- A log of one page is added to the tables. -/
theorem sat_appendRam {pba i : Nat} (hr : Rep dlCap s.dl L) (hlen : L.length < dlMaxBlocks)
    (hroom : (flat L).length < dlMaxPages) (ht : TabOk s.dl s.mt.mtl) (hg : s.al.gar.length ≤ garbageMaxCnt) :
    Sat (contract d E) (nftlUpdateDlRam d .append i lpa pba) s (fun r s' => r = 0 ∧ ∃ t,
      Rep dlCap t (L ++ [⟨lpa / d.pgs, pba, [lpa]⟩]) ∧ s' = { s with dl := t }) := by
  obtain ⟨t, happ, hrep⟩ := append_rep hr (lpa / d.pgs) lpa pba hlen hroom
  refine Sat.get_bind (Sat.lift_bind happ ?_)
  refine Sat.bind (sat_setDl (hrep.tabOkDl ht) hg) ?_
  rintro _ _ rfl
  exact Sat.pure ⟨rfl, t, hrep, rfl⟩

/-- The result of a store, before a full log is merged. -/
structure Stored (d : Device) (bd : Nat → Bool) (map : Nat → Nat) (L : List Log) (lpa : Nat) (dat : PageData) (ok : Prop) (s s' : St)
    (own' : Own) (map' : Nat → Nat) (ml' L' : List Log) : Prop where
  ftl : Ftl d bd own' map' ml' L' s'
  content : ok → ∀ q, q / d.pgs < d.blks → content d s'.nand.flash map' L' q =
    if q = lpa then dat else content d s.nand.flash map L q

/-- The page is programmed behind the pages of the log. -/
theorem sat_insertDl (dat : PageData) (h : Ftl d bd own map ml (pre ++ lg :: post) s) (hlen : lg.seq.length < d.pgs)
    (hk : lpa / d.pgs = lg.key) (hroom : lpa ∈ lg.seq ∨ (flat (pre ++ lg :: post)).length < dlMaxPages) :
    Sat (contract d E) (storePage d ⟨.insert, pre.length, lg.pba, lg.seq.length⟩ lpa dat) s (fun r s' => r = true ∧ s'.al = s.al ∧
      Stored d bd map (pre ++ lg :: post) lpa dat True s s' own map ml
        (pre ++ ⟨lg.key, lg.pba, lg.seq ++ [lpa]⟩ :: post)) := by
  have hlog := h.logs.owned lg (by simp)
  refine Sat.bind (sat_writeDlPage (h.logs.lt lg (by simp)) hlen (h.logs.pages lg (by simp)).rest) ?_
  rintro _ s₁ ⟨rfl, h₁⟩
  refine Sat.bind (Q := fun c s' => c = 0 ∧ s' = s₁) (Sat.pure ⟨rfl, rfl⟩) ?_
  rintro _ s₁ ⟨rfl, rfl⟩
  rw [if_neg (by decide)]
  refine Sat.bind (sat_insertRam (by rw [h₁.dl]; exact h.rep) hroom (by rw [h₁.mt, h₁.dl]; exact h.core.tab)
    (by rw [h₁.al]; exact h.core.gar_le)) ?_
  rintro _ _ ⟨rfl, t, hrep, rfl⟩
  have hfl := h₁.flash
  have hkeep : ∀ P : Role → Bool, P (.dl lg.key) = false → Keeps P own s.nand.flash own s₁.nand.flash := by
    intro P hP
    refine Keeps.content (b := lg.pba) (by rw [hlog]; exact hP) fun x hx => ?_
    rw [hfl, setPage_block_ne _ _ _ hx]
  have hcore : Core d own map ml s₁ := h.core.keeps h₁.al h₁.mt (by rw [h₁.mt, h₁.dl]; exact h.core.tab) (hkeep _ rfl)
  refine Sat.pure ⟨rfl, h₁.al, ⟨hcore.setDl hrep, ?_, hrep, fun x hx => ?_, ?_, h.noTemp, h.bad⟩, fun _ q hq => ?_⟩
  · show Logs d .dl DlTag own s₁.nand.flash _
    rw [hfl]
    exact h.logs.put dl_injective hlen ⟨rfl, rfl⟩ hk
  · rcases mem_middle.mp hx with rfl | hx
    · exact h.key_lt lg (by simp)
    · exact h.key_lt x (mem_middle.mpr (Or.inr hx))
  · refine h.data.congr (fun _ _ => Iff.rfl) fun b k hb => ?_
    show s₁.nand.flash b = _
    rw [hfl]
    exact setPage_block_ne _ _ _ fun e => by rw [e, hlog] at hb; simp at hb
  · show content d s₁.nand.flash _ _ q = _
    rw [hfl]
    refine content_write _ (lookupIn_put h.logs.nodup hk q) (fun a ha e1 e2 => ?_) fun hm => h.data_ne_log hq hm (by simp)
    obtain ⟨x, hx, -, hb, hi⟩ := lookupIn_some h.logs.nodup (show lookupIn _ _ q = some (a.1, a.2) from ha)
    have ho := h.logs.owned x hx
    rw [hb, e1, hlog] at ho
    have hxl : x = lg := eq_of_key h.logs.nodup hx (by simp) (Role.dl.inj ho).symm
    have hlt := lookup_lt hi
    rw [hxl] at hlt
    exact absurd (show a.2 = lg.seq.length from e2) (by omega)

/-- The page opens a new DataLog block. -/
theorem sat_appendDl (dat : PageData) (h : Ftl d bd own map ml L s) {b : Nat} (hb : s.al.blockstatus b = true)
    (hkey : ∀ x ∈ L, x.key ≠ lpa / d.pgs) (hlpa : lpa / d.pgs < d.blks) (hlen : L.length < dlMaxBlocks)
    (hroom : (flat L).length < dlMaxPages) :
    Sat (contract d E) (storePage d ⟨.append, L.length, b, 0⟩ lpa dat) { s with al := s.al.take b } (fun r s' => r = true ∧ s'.al = s.al.take b ∧
      Stored d bd map L lpa dat True s s' (Function.update own b (.dl (lpa / d.pgs))) map ml
        (L ++ [⟨lpa / d.pgs, b, [lpa]⟩])) := by
  have hpool := h.core.alloc.pool.own_free hb
  have hlt := h.core.alloc.pool.free_lt b hb
  have her := h.core.alloc.pool.erased b hb
  refine Sat.bind (sat_writeDlPage hlt d.pgs_pos fun q _ hq => her q hq) ?_
  rintro tb s₁ ⟨htb, h₁⟩
  obtain rfl : b = tb := htb.symm
  refine Sat.bind (Q := fun c s' => c = 0 ∧ s' = s₁) (Sat.pure ⟨rfl, rfl⟩) ?_
  rintro _ s₁ ⟨rfl, rfl⟩
  rw [if_neg (by decide)]
  refine Sat.bind (sat_appendRam (L := L) (by rw [h₁.dl]; exact h.rep) hlen hroom (by rw [h₁.mt, h₁.dl]; exact h.core.tab)
    (by rw [h₁.al]; exact h.core.gar_le)) ?_
  rintro _ _ ⟨rfl, t, hrep, rfl⟩
  have hfl : s₁.nand.flash = setPage s.nand.flash b 0 ⟨dat, ⟨.dataLog, lpa⟩⟩ := h₁.flash
  have hne : ∀ x, own x ≠ .pool → x ≠ b := fun x hx e => hx (e ▸ hpool)
  have hkeep : Keeps (fun r => !r.user) (Function.update own b .temp) s.nand.flash
      (Function.update own b (.dl (lpa / d.pgs))) s₁.nand.flash := by
    intro x
    by_cases hx : x = b
    · subst hx; exact Or.inr ⟨by simp [Role.user], by simp [Role.user]⟩
    · exact Or.inl ⟨by simp [hx], by rw [hfl, setPage_block_ne _ _ _ hx]⟩
  have hcore : Core d (Function.update own b (.dl (lpa / d.pgs))) map ml s₁ :=
    (h.core.take hb).keeps h₁.al h₁.mt (by rw [h₁.mt, h₁.dl]; exact h.core.tab) hkeep
  have hother : ∀ r : Role, r ≠ .pool → r ≠ .dl (lpa / d.pgs) → ∀ x,
      Function.update own b (.dl (lpa / d.pgs)) x = r ↔ own x = r := by
    intro r h1 h2 x
    by_cases hx : x = b
    · subst hx; simp [hpool, h1.symm, h2.symm]
    · rw [Function.update_of_ne hx]
  refine Sat.pure ⟨rfl, h₁.al, ⟨hcore.setDl hrep, ?_, hrep, fun x hx => ?_, ?_, fun x => ?_, fun x hx => ?_⟩, fun _ q hq => ?_⟩
  · show Logs d .dl DlTag _ s₁.nand.flash _
    rw [hfl]
    refine h.logs.add dl_injective hkey hlt (fun k => by rw [hpool]; simp) (by simp) (fun x hx k => ?_)
      (fun x hx k _ => setPage_block_ne _ _ _ hx) (LogPages.single her ⟨rfl, rfl⟩)
    rw [Function.update_of_ne hx]
  · rcases List.mem_append.mp hx with hx | hx
    · exact h.key_lt x hx
    · rw [List.mem_singleton.mp hx]; exact hlpa
  · refine h.data.congr (fun x k => hother _ (by simp) (by simp) x) fun x k hx => ?_
    show s₁.nand.flash x = _
    rw [hfl]
    exact setPage_block_ne _ _ _ (hne x (by rw [hx]; simp))
  · exact mt (hother _ (by simp) (by simp) x).mp (h.noTemp x)
  · exact (hother _ (by simp) (by simp) x).trans (h.bad x hx)
  · show content d s₁.nand.flash _ _ q = _
    rw [hfl]
    refine content_write _ (lookupIn_add h.logs.nodup hkey q) (fun a ha e1 e2 => ?_) fun hm => ?_
    · obtain ⟨x, hx, -, hbx, -⟩ := lookupIn_some h.logs.nodup (show lookupIn _ _ q = some (a.1, a.2) from ha)
      have ho := h.logs.owned x hx
      rw [hbx, e1, hpool] at ho
      simp at ho
    · exact hne _ (by rw [h.data.owned _ hq hm]; simp)

/-! ## Conversion -/

/-- Page `i` of the block holds page `i` of the logical block, the last page apart. -/
def InOrder (d : Device) (lg : Log) : Prop := ∀ i, i + 1 < d.pgs → lookup lg.seq (lg.key * d.pgs + i) = some i

theorem content_converted {fl fl' : Flash} {q : Nat} {pg : Page} (hno : lg.pba ≠ noBlock)
    (hl : Logs d .dl DlTag own fl (pre ++ lg :: post)) (hord : InOrder d lg)
    (hfl : fl' lg.pba = setPage fl lg.pba (d.pgs - 1) pg lg.pba) (hq : q / d.pgs = lg.key) :
    content d fl' (Function.update map lg.key lg.pba) (pre ++ post) q
      = if q % d.pgs + 1 = d.pgs then pg.data else content d fl map (pre ++ lg :: post) q := by
  have hmod := Nat.mod_lt q d.pgs_pos
  have hqe : lg.key * d.pgs + q % d.pgs = q := by rw [← hq, Nat.mul_comm]; exact Nat.div_add_mod q d.pgs
  have hnone : lookupIn (pre ++ post) (q / d.pgs) q = none := lookupIn_of_not_mem (fun x hx => hq ▸ hl.key_ne hx) q
  unfold content
  rw [hnone, hq, Function.update_self, if_neg hno, pageAt, hfl]
  by_cases he : q % d.pgs + 1 = d.pgs
  · rw [if_pos he, show q % d.pgs = d.pgs - 1 by omega, setPage_self]
    rfl
  · have hlook := hord _ (show q % d.pgs + 1 < d.pgs by omega)
    rw [hqe] at hlook
    rw [if_neg he, setPage_page_ne _ _ _ (by omega), lookupIn_of_mem hl.nodup (by simp), hlook]
    rfl

/-- The old Data block of `lba`, if there is one, becomes garbage. -/
theorem sat_dropOld {lba : Nat} (hf : d.Fits) (h : Core d own map ml s)
    (hdat : map lba ≠ noBlock → own (map lba) = .data lba ∧ map lba < d.blks ∧ Marked s.nand.flash (map lba))
    (hmem : ∀ b, own b = .data lba → b < d.blks ∧ map lba = b) (hE : Enough d E s.al) :
    Sat (contract d E) (if map lba ≠ noBlock then nftlAddtoGt d [map lba] else pure 0) s (fun _ s' => ∃ own',
      Core d own' map ml s' ∧ s'.dl = s.dl ∧ (∀ b, own' b = own b ∨ (own b = .data lba ∧ own' b = .pool)) ∧
      (∀ b, own' b ≠ .data lba) ∧ (∀ b, own' b ≠ .pool → s'.nand.flash b = s.nand.flash b) ∧ Enough d E s'.al ∧
      (s'.al = s.al ∨ Settled s'.al)) := by
  have hno := d.blks_lt_noBlock
  by_cases hm : map lba = noBlock
  · rw [if_neg (not_not.mpr hm)]
    refine Sat.pure ⟨own, h, rfl, fun b => Or.inl rfl, fun b hb => ?_, fun _ _ => rfl, hE, Or.inl rfl⟩
    have := hmem b hb
    omega
  · obtain ⟨ho, hlt, hmark⟩ := hdat hm
    rw [if_pos hm]
    refine (sat_dropGar (g := [map lba]) hf h (by simp) (by simp) (by simpa using hlt) (by simp [ho, Role.user])
      (by simpa using hmark) ?_).mono ?_
    · rcases hE with hx | ⟨-, hx, -⟩
      · exact Or.inl hx
      · exact Or.inr (Or.inr (by omega))
    · rintro _ s' ⟨-, hc, hdl, hfl, hset, hsize⟩
      refine ⟨own.release [map lba], hc, hdl, fun b => ?_, fun b hb => ?_, hfl,
        hset.enough hE.poolSize (by omega), Or.inr hset⟩
      · by_cases hb : b = map lba
        · exact Or.inr ⟨hb ▸ ho, by simp [Own.release, hb]⟩
        · exact Or.inl (by simp [Own.release, hb])
      · by_cases hbm : b = map lba
        · simp [Own.release, hbm] at hb
        · rw [show own.release [map lba] b = own b by simp [Own.release, hbm]] at hb
          exact hbm (hmem b hb).2.symm

theorem Settled.low {al : Alloc} (h : Settled al) : Low al := by
  rcases h with h | h
  · exact Or.inl h.2.2
  · exact Or.inr (le_of_lt h)

/-- The old Data block becomes garbage and the map points to the DataLog block, which was just filled. -/
theorem sat_convertDl {s₁ : St} {pg : Page} (hf : d.Fits) (h : Ftl d bd own map ml (pre ++ lg :: post) s)
    (h₁ : Reflash s (setPage s.nand.flash lg.pba lg.seq.length pg) s₁) (hq₁ : Quiet d E s₁) (hE : Enough d E s.al) :
    Sat (contract d E) (convertDl d lg.key lg.pba) s₁ (fun r s' => r = 0 ∧ s'.dl = s.dl ∧
      (E ∨ Low s'.al ∨ s.al.freeBlkcnt ≤ s'.al.freeBlkcnt + 1) ∧ ∃ own' ml',
      Mapped d (Function.update own lg.pba .temp) map lg.key lg.pba s₁ s' own' ml' ∧
      (∀ b, own' b = .data lg.key → b = lg.pba) ∧ ∀ b, own' b ≠ .dl lg.key) := by
  have hkey := h.key_lt lg (by simp)
  have hlog := h.logs.owned lg (by simp)
  have hlt := h.logs.lt lg (by simp)
  have hne : ∀ x, x ≠ lg.pba → s₁.nand.flash x = s.nand.flash x := fun x hx => by
    rw [h₁.flash, setPage_block_ne _ _ _ hx]
  -- the block has no role until the map points to it
  have hk₁ : Keeps (fun r => !r.user) own s.nand.flash (Function.update own lg.pba .temp) s₁.nand.flash :=
    (Keeps.update lg.pba .temp (by rw [hlog]; rfl) rfl).trans (Keeps.content (b := lg.pba) (by simp [Role.user]) hne)
  have hc₁ : Core d (Function.update own lg.pba .temp) map ml s₁ :=
    h.core.keeps h₁.al h₁.mt (by rw [h₁.mt, h₁.dl]; exact h.core.tab) hk₁
  have hrole : ∀ b r, r ≠ .temp → Function.update own lg.pba .temp b = r → own b = r ∧ b ≠ lg.pba := by
    intro b r hr hb
    by_cases hbl : b = lg.pba
    · rw [hbl, Function.update_self] at hb; exact absurd hb.symm hr
    · rw [Function.update_of_ne hbl] at hb; exact ⟨hb, hbl⟩
  refine Sat.bind (sat_lbaToPba hf hc₁ hkey hq₁) ?_
  rintro _ s₂ ⟨rfl, own₂, ml₂, hc₂, hdl₂, hk₂, hal₂⟩
  have hE₂ : Enough d E s₂.al := hal₂.carry hq₁ Or.inl (by rw [h₁.al]; exact hE)
  have hfree₂ : E ∨ s.al.freeBlkcnt = s₂.al.freeBlkcnt :=
    hal₂.carry (Q := fun al => E ∨ s.al.freeBlkcnt = al.freeBlkcnt) hq₁ Or.inl (Or.inr (by rw [h₁.al]))
  refine Sat.bind (sat_dropOld hf hc₂ (fun hm => ?_) (fun b hb => ?_) hE₂) ?_
  · have hd := h.data.owned _ hkey hm
    have hdl : map lg.key ≠ lg.pba := fun e => by rw [e, hlog] at hd; simp at hd
    have hd₁ : Function.update own lg.pba .temp (map lg.key) = .data lg.key := by
      rw [Function.update_of_ne hdl]; exact hd
    refine ⟨(hk₂.role rfl _).mpr hd₁, (h.core.inv.range _ hkey).resolve_left hm, ?_⟩
    have hmark := (h.data.head _ _ hd).marked
    rwa [Marked, hk₂.flash (r := .data lg.key) rfl hd₁, hne _ hdl]
  · obtain ⟨hx, -, hy⟩ := h.data.mem b _ (hrole b _ (by simp) ((hk₂.role rfl b).mp hb)).1
    exact ⟨hx, hy⟩
  rintro _ s₃ ⟨own₃, hc₃, hdl₃, hown₃, hnd₃, hfl₃, hE₃, hal₃⟩
  have htemp₃ : ∀ b, own₃ b = .temp ↔ b = lg.pba := by
    intro b
    have h2 : own₂ b = .temp ↔ b = lg.pba := by
      rw [hk₂.role rfl b]
      by_cases hbl : b = lg.pba
      · simp [hbl]
      · simp [hbl, h.noTemp b]
    rcases hown₃ b with ho | ⟨ho, ho'⟩
    · rw [ho, h2]
    · rw [← h2, ho, ho']
      simp
  refine (sat_mapTo hf hc₃ hkey hlt htemp₃ hE₃).mono ?_
  rintro _ s₄ ⟨rfl, ⟨own₄, ml₄, hm₄⟩, hsp₄⟩
  have hk₃ : Keeps (Role.others lg.key) own₂ s₂.nand.flash own₃ s₃.nand.flash := by
    intro b
    rcases hown₃ b with ho | ⟨ho, ho'⟩
    · by_cases hp : own₃ b = .pool
      · exact Or.inr ⟨by rw [← ho, hp]; rfl, by rw [hp]; rfl⟩
      · exact Or.inl ⟨ho, hfl₃ b hp⟩
    · exact Or.inr ⟨by simp [ho, Role.others], by rw [ho']; rfl⟩
  refine ⟨rfl, by rw [hm₄.dl, hdl₃, hdl₂, h₁.dl], ?_, own₄, ml₄, ⟨hm₄.core, by rw [hm₄.dl, hdl₃, hdl₂],
    ((hk₂.others lg.key).trans hk₃).trans hm₄.keeps, hm₄.target, fun b hb hx => absurd (hm₄.data b hb hx) (hnd₃ b),
    fun b hb => ?_, hm₄.noTemp, ?_⟩, fun b hb => ?_, fun b hb => ?_⟩
  · rcases hal₃ with hal₃ | hal₃
    · rcases hsp₄ with ⟨-, hle⟩ | hset
      · rw [hal₃] at hle
        rcases hfree₂ with hx | hx
        · exact Or.inl hx
        · exact Or.inr (Or.inr (by omega))
      · exact Or.inr (Or.inl hset.low)
    · exact Or.inr (Or.inl (Low.of_spent hal₃ hsp₄))
  · rcases hown₃ b with ho | ⟨-, ho'⟩
    · exact (hk₂.role rfl b).mp (ho ▸ hm₄.dlog b hb)
    · have := hm₄.dlog b hb
      rw [ho'] at this
      simp at this
  · rw [hm₄.flash, hfl₃ _ (by rw [(htemp₃ _).mpr rfl]; simp)]
    exact hk₂.flash (r := .temp) rfl (by simp)
  · by_contra hbl
    exact hnd₃ b (hm₄.data b hbl hb)
  · rcases hown₃ b with ho | ⟨-, ho'⟩
    · have h1 := (hk₂.role rfl b).mp (ho ▸ hm₄.dlog b hb)
      obtain ⟨h2, h3⟩ := hrole b _ (by simp) h1
      obtain ⟨x, hx, hxk, hxb⟩ := h.logs.mem b _ h2
      exact h3 (by rw [← hxb, eq_of_key h.logs.nodup hx (by simp) hxk])
    · have := hm₄.dlog b hb
      rw [ho'] at this
      simp at this

/-- The DataLog block of the logical block is its Data block from now on, with `dat` in the last page. -/
theorem sat_convertBlock (dat : PageData) (hf : d.Fits) (h : Ftl d bd own map ml (pre ++ lg :: post) s)
    (hused : lg.seq.length + 1 = d.pgs) (hord : InOrder d lg) (hk : lpa / d.pgs = lg.key)
    (hlen : (pre ++ lg :: post).length < dlMaxBlocks) (hq : Quiet d E s) (hE : Enough d E s.al) :
    Sat (contract d E) (storePage d ⟨.delete, pre.length, lg.pba, lg.seq.length⟩ lpa dat) s (fun r s' => r = true ∧
      (E ∨ Low s'.al ∨ s.al.freeBlkcnt ≤ s'.al.freeBlkcnt + 1) ∧ ∃ own' ml',
      Ftl d bd own' (Function.update map lg.key lg.pba) ml' (pre ++ post) s' ∧ ∀ q, q / d.pgs < d.blks →
        content d s'.nand.flash (Function.update map lg.key lg.pba) (pre ++ post) q
          = if q / d.pgs = lg.key ∧ q % d.pgs + 1 = d.pgs then dat
            else content d s.nand.flash map (pre ++ lg :: post) q) := by
  have hno := d.blks_lt_noBlock
  have hkey := h.key_lt lg (by simp)
  have hlog := h.logs.owned lg (by simp)
  have hlt := h.logs.lt lg (by simp)
  have hpages := h.logs.pages lg (by simp)
  refine Sat.bind ((sat_writeDlPage hlt (by show lg.seq.length < _; omega) hpages.rest).with_inv quiet_step hq) ?_
  rintro _ s₁ ⟨⟨rfl, h₁⟩, hq₁⟩
  have hfl₁ : s₁.nand.flash = setPage s.nand.flash lg.pba lg.seq.length ⟨dat, ⟨.data, lpa⟩⟩ := h₁.flash
  have hne : ∀ x, x ≠ lg.pba → s₁.nand.flash x = s.nand.flash x := fun x hx => by
    rw [hfl₁, setPage_block_ne _ _ _ hx]
  -- the block has no role until the map points to it
  have hk₁ : ∀ P : Role → Bool, P (.dl lg.key) = false → P .temp = false →
      Keeps P own s.nand.flash (Function.update own lg.pba .temp) s₁.nand.flash := fun P h1 h2 =>
    (Keeps.update lg.pba .temp (by rw [hlog]; exact h1) h2).trans (Keeps.content (b := lg.pba) (by simpa using h2) hne)
  simp only [if_true]
  rw [hk]
  refine Sat.bind (sat_convertDl hf h h₁ hq₁ hE) ?_
  rintro _ s₄ ⟨rfl, hdl₄, hal₄, own₄, ml₄, hm₄, hdat₄, hndl₄⟩
  rw [if_neg (by decide)]
  refine Sat.bind (sat_deleteDl (show Rep dlCap s₄.dl (pre ++ lg :: post) by rw [hdl₄]; exact h.rep) hlen hm₄.core.tab
    hm₄.core.gar_le) ?_
  rintro _ _ ⟨rfl, t, hrep, rfl⟩
  have hk₄ := (hk₁ (Role.others lg.key) (by simp [Role.others]) rfl).trans hm₄.keeps
  have hblk : s₄.nand.flash lg.pba = setPage s.nand.flash lg.pba (d.pgs - 1) ⟨dat, ⟨.data, lpa⟩⟩ lg.pba := by
    rw [hm₄.flash, hfl₁, show lg.seq.length = d.pgs - 1 by omega]
  have hhead : DataHead d s₄.nand.flash lg.pba := by
    obtain ⟨pg, p, hpg, hty, -⟩ := hpages.head
    have hpos := List.length_pos_iff.mpr hpages.nonempty
    refine ⟨pg, ?_, Or.inr ⟨hty, ⟨dat, ⟨.data, lpa⟩⟩, ?_, rfl⟩⟩
    · rw [hblk, setPage_page_ne _ _ _ (by omega)]; exact hpg
    · rw [hblk, setPage_self]
  refine Sat.pure ⟨rfl, hal₄, own₄, ml₄, ⟨hm₄.core.setDl hrep, h.logs.drop hk₄ hndl₄, hrep,
    fun x hx => h.key_lt x (mem_middle.mpr (Or.inr hx)),
    h.data.swap hk₄ (fun b => ⟨hdat₄ b, fun e => e ▸ hm₄.target⟩) hlt hkey hhead, hm₄.noTemp,
    fun b hb => (hk₄.role rfl b).trans (h.bad b hb)⟩, fun q hlq => ?_⟩
  by_cases hql : q / d.pgs = lg.key
  · rw [content_converted (show lg.pba ≠ noBlock by omega) h.logs hord hblk hql]
    simp only [hql, true_and]
  · rw [if_neg (fun hx => hql hx.1)]
    refine content_other h.logs (h.logs.drop hk₄ hndl₄).nodup (fun x hx => ?_) h.data hk₄ hlq hql
    rw [mem_middle]
    constructor
    · exact Or.inr
    · rintro (rfl | hx')
      · exact absurd rfl hx
      · exact hx'

/-- With a full table, the last step of the conversion reads behind it. -/
theorem fails_convertBlock (dat : PageData) (hf : d.Fits) (h : Ftl d bd own map ml (pre ++ lg :: post) s)
    (hused : lg.seq.length + 1 = d.pgs) (hk : lpa / d.pgs = lg.key)
    (hfull : (pre ++ lg :: post).length = dlMaxBlocks) (hq : Quiet d E s) (hE : Enough d E s.al) :
    Fails (contract d E) (storePage d ⟨.delete, pre.length, lg.pba, lg.seq.length⟩ lpa dat) s dlOverrun := by
  have hpages := h.logs.pages lg (by simp)
  refine Fails.after ((sat_writeDlPage (h.logs.lt lg (by simp)) (by show lg.seq.length < _; omega) hpages.rest).with_inv
    quiet_step hq) ?_
  rintro _ s₁ ⟨⟨rfl, h₁⟩, hq₁⟩
  simp only [if_true]
  rw [hk]
  refine Fails.after (sat_convertDl hf h h₁ hq₁ hE) ?_
  rintro _ s₂ ⟨rfl, hdl, -⟩
  rw [if_neg (by decide)]
  exact Fails.bind (fails_deleteDl (show Rep dlCap s₂.dl (pre ++ lg :: post) by rw [hdl]; exact h.rep) hfull)

/-- The last page of a logical block is the only one whose offset is the last. -/
theorem eq_iff_last {q : Nat} (hlast : lpa % d.pgs + 1 = d.pgs) :
    (q / d.pgs = lpa / d.pgs ∧ q % d.pgs + 1 = d.pgs) ↔ q = lpa := by
  constructor
  · rintro ⟨h1, h2⟩
    rw [← Nat.div_add_mod q d.pgs, ← Nat.div_add_mod lpa d.pgs, h1, show q % d.pgs = lpa % d.pgs by omega]
  · rintro rfl
    exact ⟨rfl, hlast⟩

/-- The page fills the block in order: the DataLog block is the Data block from now on. -/
theorem sat_convert (dat : PageData) (hf : d.Fits) (h : Ftl d bd own map ml (pre ++ lg :: post) s)
    (hused : lg.seq.length + 1 = d.pgs) (hord : InOrder d lg) (hk : lpa / d.pgs = lg.key)
    (hlen : (pre ++ lg :: post).length < dlMaxBlocks) (hq : Quiet d E s) (hE : Enough d E s.al) :
    Sat (contract d E) (storePage d ⟨.delete, pre.length, lg.pba, lg.seq.length⟩ lpa dat) s (fun r s' => r = true ∧
      (E ∨ Low s'.al ∨ s.al.freeBlkcnt ≤ s'.al.freeBlkcnt + 1) ∧ ∃ own' ml',
      Stored d bd map (pre ++ lg :: post) lpa dat (lpa % d.pgs + 1 = d.pgs) s s' own'
        (Function.update map lg.key lg.pba) ml' (pre ++ post)) := by
  refine (sat_convertBlock dat hf h hused hord hk hlen hq hE).mono ?_
  rintro r s' ⟨hr, hal, own', ml', h', hc⟩
  refine ⟨hr, hal, own', ml', h', fun hlast q hlq => ?_⟩
  rw [hc q hlq, ← hk]
  simp only [eq_iff_last hlast]

/-! ## The merges behind a write -/

/-- Enough free blocks for a merge, if a DataLog block can be merged. -/
def Payable (d : Device) (E : Prop) (U : Nat) (bd : Nat → Bool) (map : Nat → Nat) (L : List Log) (al : Alloc) : Prop :=
  E ∨ ((bd = fun _ => false) ∧ Budget d U map L ∧ (Enough d E al ∨ ∀ lg ∈ L, map lg.key = noBlock))

theorem Payable.enough {al : Alloc} (h : Payable d E U bd map L al) {lg : Log} (hlg : lg ∈ L)
    (hm : map lg.key ≠ noBlock) : Enough d E al := by
  rcases h with h | ⟨-, -, h | h⟩
  · exact Or.inl h
  · exact h
  · exact absurd (h lg hlg) hm

theorem Solvent.payable {al : Alloc} (h : Solvent d E U bd map L al) : Payable d E U bd map L al := by
  rcases h with h | ⟨hbd, hB, h⟩
  · exact Or.inl h
  · refine Or.inr ⟨hbd, hB, h.imp (fun h => ?_) id⟩
    have : (20 : Nat) ≤ al.freeBlkcnt := h
    exact Or.inr ⟨hB.pgs, by omega, Or.inr (by omega)⟩

/-- With few free blocks, one log more is merged. -/
theorem sat_mergeTail (hf : d.Fits) (h : Ftl d bd own map ml L s)
    (hlen : s.al.freeBlkcnt ≤ miniFreeBlock → L.length < dlMaxBlocks ∨ ∀ lg ∈ L, map lg.key = noBlock)
    (hq : Quiet d E s) (hP : Payable d E U bd map L s.al) :
    Sat (contract d E) (mergeTail d 0) s (fun r s' => r = 0 ∧ ∃ own' map' ml' L',
      Reduced d bd map L s.nand.flash s' own' map' ml' L' ∧ Solvent d E U bd map' L' s'.al) := by
  have hno := d.blks_lt_noBlock
  refine Sat.get_bind ?_
  by_cases hfree : s.al.freeBlkcnt ≤ miniFreeBlock
  · rw [if_pos hfree]
    refine Sat.bind ((sat_findMappedDl hf h hq).with_inv quiet_step hq) ?_
    rintro ⟨r, ret⟩ s₁ ⟨⟨hfound, hret, own₁, ml₁, h₁, hk₁, hal₁⟩, hq₁⟩
    obtain rfl : ret = 0 := hret
    have hP₁ : Payable d E U bd map L s₁.al := hal₁.carry hq Or.inl hP
    rcases hfound with ⟨hr, hun⟩ | ⟨pre, lg, post, rfl, hr, hmap, -⟩
    · obtain rfl : r = none := hr
      refine Sat.pure ⟨rfl, own₁, map, ml₁, L, ⟨h₁, List.Sublist.refl _, fun _ => Iff.rfl, fun q hl =>
        content_congr h.logs h.data hk₁ hl⟩, ?_⟩
      exact hP₁.imp id fun hP => ⟨hP.1, hP.2.1, Or.inr hun⟩
    · obtain rfl : r = some pre.length := hr
      have hlen' : (pre ++ lg :: post).length < dlMaxBlocks := (hlen hfree).resolve_right fun hx => hmap (hx lg (by simp))
      refine Sat.bind (sat_mergeDlblk hf h₁ hlen' hq₁ (hP₁.enough (show lg ∈ pre ++ lg :: post by simp) hmap)) ?_
      rintro _ s₂ ⟨rfl, own₂, ml₂, tb, h₂, htb, hlow, hcont⟩
      rw [if_neg (by decide)]
      have hiff : ∀ k, Function.update map lg.key tb k = noBlock ↔ map k = noBlock :=
        update_mapped hmap (show tb ≠ noBlock by omega)
      have hsub : (pre ++ post).Sublist (pre ++ lg :: post) :=
        List.Sublist.append (List.Sublist.refl _) (List.sublist_cons_self _ _)
      refine Sat.pure ⟨rfl, own₂, _, ml₂, pre ++ post, ⟨h₂, hsub, hiff, fun q hl => by
        rw [hcont q hl (Or.inl hmap), content_congr h.logs h.data hk₁ hl]⟩, ?_⟩
      rcases hP₁ with hx | ⟨hbd, hB, -⟩
      · exact Or.inl hx
      · subst hbd
        exact Or.inr ⟨rfl, hB.mono hsub hiff, Or.inl (h₂.free_of_low (hB.mono hsub hiff) hlow)⟩
  · rw [if_neg hfree]
    refine Sat.pure ⟨rfl, own, map, ml, L, ⟨h, List.Sublist.refl _, fun _ => Iff.rfl, fun _ _ => rfl⟩, ?_⟩
    exact hP.imp id fun hP => ⟨hP.1, hP.2.1, Or.inl (by omega)⟩

/-- A write is done: all logs have an erased page again, and, if `ok`, no logical page changed since `s`. -/
def Finished (d : Device) (E : Prop) (U : Nat) (bd : Nat → Bool) (map : Nat → Nat) (L : List Log) (ok : Prop) (s s' : St) : Prop :=
  ∃ own' map' ml' L', Ftl d bd own' map' ml' L' s' ∧ (∀ lg ∈ L', lg.seq.length < d.pgs) ∧
    Solvent d E U bd map' L' s'.al ∧ (ok → ∀ q, q / d.pgs < d.blks →
      content d s'.nand.flash map' L' q = content d s.nand.flash map L q)

/-- No log is full. -/
theorem sat_finishWrite {i : Nat} (hf : d.Fits) (h : Ftl d bd own map ml L s) (hi : i < dlMaxBlocks)
    (hshort : ∀ lg ∈ L, lg.seq.length < d.pgs)
    (hlen : s.al.freeBlkcnt ≤ miniFreeBlock → L.length < dlMaxBlocks ∨ ∀ lg ∈ L, map lg.key = noBlock)
    (hq : Quiet d E s) (hP : Payable d E U bd map L s.al) :
    Sat (contract d E) (finishWrite d i) s (fun r s' => r = 0 ∧ Finished d E U bd map L True s s') := by
  have hused : (s.dl.blocktab i).used ≠ d.pgs := by
    have hpos := d.pgs_pos
    rw [h.rep.blocks, List.getD_eq_getElem?_getD, List.getElem?_map]
    cases hl : L[i]? with
    | none => simp only [Option.map_none, Option.getD_none]; omega
    | some lg =>
      have := hshort lg (List.mem_of_getElem? hl)
      show lg.seq.length ≠ _
      omega
  refine Sat.bind (Q := fun r s' => r = 0 ∧ s' = s) ?_ ?_
  · refine Sat.get_bind (Sat.lift_bind (LogTab.blockAt_ok hi) ?_)
    rw [if_neg hused]
    exact Sat.pure ⟨rfl, rfl⟩
  rintro _ s ⟨rfl, rfl⟩
  rw [if_neg (by decide)]
  refine (sat_mergeTail hf h hlen hq hP).mono ?_
  rintro r s' ⟨rfl, own', map', ml', L', hred, hS⟩
  exact ⟨rfl, own', map', ml', L', hred.ftl, fun lg hlg => hshort lg (hred.sub.subset hlg), hS, fun _ => hred.content⟩

/-- The log at the index is full. -/
theorem sat_finishWrite_full (hf : d.Fits) (h : Ftl d bd own map ml (pre ++ lg :: post) s) (hfull : lg.seq.length = d.pgs)
    (hshort : ∀ x ∈ pre ++ post, x.seq.length < d.pgs) (hlen : (pre ++ lg :: post).length < dlMaxBlocks)
    (hq : Quiet d E s) (hE : Enough d E s.al)
    (hB : E ∨ ((bd = fun _ => false) ∧ ∀ tb, Budget d U (Function.update map lg.key tb) (pre ++ post))) :
    Sat (contract d E) (finishWrite d pre.length) s (fun r s' => r = 0 ∧
      Finished d E U bd map (pre ++ lg :: post) (map lg.key ≠ noBlock ∨ lg.key * d.pgs ∈ lg.seq) s s') := by
  refine Sat.bind (Q := fun r s' => r = 0 ∧ Quiet d E s' ∧ ∃ own' ml' tb,
      Ftl d bd own' (Function.update map lg.key tb) ml' (pre ++ post) s' ∧ Low s'.al ∧
      ∀ q, q / d.pgs < d.blks → (map lg.key ≠ noBlock ∨ lg.key * d.pgs ∈ lg.seq ∨ q ≠ lg.key * d.pgs) →
        content d s'.nand.flash (Function.update map lg.key tb) (pre ++ post) q
          = content d s.nand.flash map (pre ++ lg :: post) q) ?_ ?_
  · refine Sat.get_bind (Sat.lift_bind (LogTab.blockAt_ok h.rep.mid_lt) ?_)
    rw [h.rep.block_mid, if_pos (show lg.block.used = d.pgs from hfull)]
    refine ((sat_mergeDlblk hf h hlen hq hE).with_inv quiet_step hq).mono ?_
    rintro r s₁ ⟨⟨rfl, own₁, ml₁, tb, h₁, -, hlow, hcont⟩, hq₁⟩
    exact ⟨rfl, hq₁, own₁, ml₁, tb, h₁, hlow, hcont⟩
  rintro _ s₁ ⟨rfl, hq₁, own₁, ml₁, tb, h₁, hlow, hcont⟩
  rw [if_neg (by decide)]
  have hlen₁ : (pre ++ post).length < dlMaxBlocks := by
    have : (pre ++ lg :: post).length = (pre ++ post).length + 1 := by simp; omega
    omega
  have hP : Payable d E U bd (Function.update map lg.key tb) (pre ++ post) s₁.al := by
    rcases hB with hx | ⟨hbd, hB⟩
    · exact Or.inl hx
    · subst hbd
      have : (20 : Nat) ≤ s₁.al.freeBlkcnt := h₁.free_of_low (hB tb) hlow
      exact Or.inr ⟨rfl, hB tb, Or.inl (Or.inr ⟨(hB tb).pgs, by omega, Or.inr (by omega)⟩)⟩
  refine (sat_mergeTail hf h₁ (fun _ => Or.inl hlen₁) hq₁ hP).mono ?_
  rintro r s' ⟨rfl, own', map', ml', L', hred, hS⟩
  refine ⟨rfl, own', map', ml', L', hred.ftl, fun x hx => hshort x (hred.sub.subset hx), hS, fun hok q hlq => ?_⟩
  rw [hred.content q hlq]
  exact hcont q hlq (hok.imp id Or.inl)

/-! ## The budget of a write -/

theorem length_mappedLogs (map : Nat → Nat) (L : List Log) :
    (mappedLogs map L).length = (L.map Log.key).countP (isMapped map) := by
  rw [mappedLogs, List.countP_map, List.countP_eq_length_filter]
  rfl

/-- The budget depends on the keys of the logs only. -/
theorem Budget.of_keys {L' : List Log} (h : Budget d U map L) (hk : L'.map Log.key = L.map Log.key) : Budget d U map L' := by
  refine ⟨h.pgs, h.one, h.room, h.lba, fun x hx => ?_, ?_⟩
  · have : x.key ∈ L.map Log.key := hk ▸ List.mem_map_of_mem hx
    obtain ⟨y, hy, e⟩ := List.mem_map.mp this
    exact e ▸ h.key y hy
  · rw [length_mappedLogs, hk, ← length_mappedLogs]
    exact h.mapped

theorem Budget.add (h : Budget d U map L) (hk : lg.key < U) (hfew : (mappedLogs map L).length ≤ 32) :
    Budget d U map (L ++ [lg]) := by
  refine ⟨h.pgs, h.one, h.room, h.lba, fun x hx => ?_, ?_⟩
  · rcases List.mem_append.mp hx with hx | hx
    · exact h.key x hx
    · rw [List.mem_singleton.mp hx]; exact hk
  · have : (mappedLogs map [lg]).length ≤ 1 := List.length_filter_le _ _
    rw [mappedLogs, List.filter_append, List.length_append]
    change (mappedLogs map L).length + (mappedLogs map [lg]).length ≤ 33
    omega

/-- A log was merged into a new Data block, or became the Data block. -/
theorem Budget.merged (h : Budget d U map (pre ++ lg :: post)) (hnd : ((pre ++ lg :: post).map Log.key).Nodup) (tb : Nat) :
    Budget d U (Function.update map lg.key tb) (pre ++ post) := by
  have hsub : (pre ++ post).Sublist (pre ++ lg :: post) :=
    List.Sublist.append (List.Sublist.refl _) (List.sublist_cons_self _ _)
  rw [List.map_append, List.map_cons, List.nodup_middle, List.nodup_cons, ← List.map_append] at hnd
  refine ⟨h.pgs, h.one, h.room, fun k hk hm => ?_, fun x hx => h.key x (hsub.subset hx), ?_⟩
  · by_cases hkl : k = lg.key
    · rw [hkl]; exact h.key lg (by simp)
    · rw [Function.update_of_ne hkl] at hm
      exact h.lba k hk hm
  · have : mappedLogs (Function.update map lg.key tb) (pre ++ post) = mappedLogs map (pre ++ post) := by
      refine List.filter_congr fun x hx => ?_
      have hx : x.key ≠ lg.key := fun e => hnd.1 (e ▸ List.mem_map_of_mem hx)
      rw [Function.update_of_ne hx]
    rw [this]
    exact (List.Sublist.length_le (hsub.filter _)).trans h.mapped

/-- One free block is enough for a merge: either there is garbage, or many blocks are free. -/
theorem Ftl.enough (h : Ftl d (fun _ => false) own map ml L s) (hB : Budget d U map L) (hpos : 1 ≤ s.al.freeBlkcnt) :
    Enough d E s.al := by
  refine Or.inr ⟨hB.pgs, hpos, ?_⟩
  by_cases hg : s.al.gar = []
  · have : (20 : Nat) ≤ s.al.freeBlkcnt := h.free_of_low hB (Or.inl hg)
    exact Or.inr (by omega)
  · exact Or.inl hg

end Emlinux.Nftl
