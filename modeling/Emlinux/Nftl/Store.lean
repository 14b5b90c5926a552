import Emlinux.Nftl.MapMove

/-!
# The logical page store

`Ftl` is the invariant of the whole translation layer: the allocator and the map (`Core`), the DataLog blocks
(`Logs`) with their RAM tables (`Rep`), and the Data blocks (`DataInv`). Every block has one role, so `Ftl`
also says that no block is lost or used twice.

`content` is the abstract content of a logical page: the last copy in the DataLog block, else the page of the
Data block, else `0xff`.
-/

namespace Emlinux.Nftl

open Lib

/-! ## Data blocks -/

/-- The spare area of logical page `p` in a DataLog block. -/
def DlTag (p : Nat) (sp : Spare) : Prop := sp.blocktype = .dataLog ∧ sp.lpa = p

/-- A Data block shows its type in page 0, or, when it was a DataLog block, in its last page. -/
def DataHead (d : Device) (fl : Flash) (b : Nat) : Prop :=
  ∃ pg, fl b 0 = some pg ∧ (pg.spare.blocktype = .data ∨ (pg.spare.blocktype = .dataLog ∧
    ∃ pg', fl b (d.pgs - 1) = some pg' ∧ pg'.spare.blocktype = .data))

theorem DataHead.marked {d : Device} {fl : Flash} {b : Nat} (h : DataHead d fl b) : Marked fl b := by
  obtain ⟨pg, hpg, hty | ⟨hty, -⟩⟩ := h
  · exact ⟨pg, hpg, Or.inl hty⟩
  · exact ⟨pg, hpg, Or.inr (Or.inl hty)⟩

/-- The mapped blocks are the blocks of role `data`. -/
structure DataInv (d : Device) (own : Own) (map : Nat → Nat) (fl : Flash) : Prop where
  owned : ∀ lba, lba < d.blks → map lba ≠ noBlock → own (map lba) = .data lba
  mem : ∀ b lba, own b = .data lba → b < d.blks ∧ lba < d.blks ∧ map lba = b
  head : ∀ b lba, own b = .data lba → DataHead d fl b

/-- What a logical page holds. -/
def content (d : Device) (fl : Flash) (map : Nat → Nat) (L : List Log) (lpa : Nat) : PageData :=
  match lookupIn L (lpa / d.pgs) lpa with
  | some a => (pageAt fl a.1 a.2).data
  | none => if map (lpa / d.pgs) = noBlock then ffData
    else (pageAt fl (map (lpa / d.pgs)) (lpa % d.pgs)).data

theorem dl_injective : Function.Injective Role.dl := fun _ _ h => Role.dl.inj h

/-- The translation layer, with logs `L` that may be full. `bd` are the bad blocks. -/
structure Ftl (d : Device) (bd : Nat → Bool) (own : Own) (map : Nat → Nat) (ml L : List Log) (s : St) : Prop where
  core : Core d own map ml s
  logs : Logs d .dl DlTag own s.nand.flash L
  rep : Rep dlCap s.dl L
  key_lt : ∀ lg ∈ L, lg.key < d.blks
  data : DataInv d own map s.nand.flash
  noTemp : ∀ b, own b ≠ .temp
  bad : ∀ b, b < d.blks → (own b = .bad ↔ bd b = true)

section store

variable {d : Device} {bd : Nat → Bool} {own own' : Own} {map : Nat → Nat} {ml ml' L : List Log} {fl fl' : Flash} {s s' : St}

theorem DataInv.congr (h : DataInv d own map fl) (ho : ∀ b lba, own' b = .data lba ↔ own b = .data lba)
    (hfl : ∀ b lba, own b = .data lba → fl' b = fl b) : DataInv d own' map fl' :=
  ⟨fun lba hl hm => (ho _ _).mpr (h.owned lba hl hm), fun b lba hb => h.mem b lba ((ho b lba).mp hb),
    fun b lba hb => by
      have hb' := (ho b lba).mp hb
      rw [DataHead, hfl b lba hb']
      exact h.head b lba hb'⟩

theorem DataInv.keeps (h : DataInv d own map fl) (hk : Keeps Role.user own fl own' fl') : DataInv d own' map fl' :=
  h.congr (fun b _ => hk.role rfl b) fun _ _ hb => hk.flash rfl hb

theorem Logs.keeps (h : Logs d .dl DlTag own fl L) (hk : Keeps Role.user own fl own' fl') :
    Logs d .dl DlTag own' fl' L :=
  h.congr (fun b _ => hk.role rfl b) fun _ _ hb => hk.flash rfl hb

/-- The map and the allocator moved on; the rest of the store is as before. -/
theorem Ftl.keeps (h : Ftl d bd own map ml L s) (hc : Core d own' map ml' s') (hdl : s'.dl = s.dl)
    (hk : Keeps Role.user own s.nand.flash own' s'.nand.flash) : Ftl d bd own' map ml' L s' :=
  ⟨hc, h.logs.keeps hk, by rw [hdl]; exact h.rep, h.key_lt, h.data.keeps hk,
    fun b => mt (hk.role rfl b).mp (h.noTemp b), fun b hb => (hk.role rfl b).trans (h.bad b hb)⟩

/-- Only the counters of the chip changed. -/
theorem Ftl.reflash (h : Ftl d bd own map ml L s) (hr : Reflash s s.nand.flash s') : Ftl d bd own map ml L s' :=
  h.keeps (h.core.reflash hr) hr.dl (by rw [hr.flash]; exact Keeps.refl _ _ _)

/-- The content of the store depends on the DataLog and the Data blocks only. -/
theorem content_congr (hl : Logs d .dl DlTag own fl L) (hd : DataInv d own map fl)
    (hk : Keeps Role.user own fl own' fl') {lpa : Nat} (hlpa : lpa / d.pgs < d.blks) :
    content d fl' map L lpa = content d fl map L lpa := by
  unfold content
  cases hlook : lookupIn L (lpa / d.pgs) lpa with
  | some a =>
    obtain ⟨lg, hlg, hkey, hb, -⟩ := lookupIn_some hl.nodup (show lookupIn L (lpa / d.pgs) lpa = some (a.1, a.2) from hlook)
    have ho := hl.owned lg hlg
    rw [hb] at ho
    simp only [pageAt, hk.flash rfl ho]
  | none =>
    by_cases hm : map (lpa / d.pgs) = noBlock
    · simp only [hm, if_true]
    · simp only [hm, if_false, pageAt, hk.flash rfl (hd.owned _ hlpa hm)]

theorem Device.maxlp_eq (d : Device) : d.maxlp = d.blks * d.pgs := by
  have h1 := d.blks_le
  have h2 := d.pgs_le
  have h3 := d.ws_le
  have h4 : d.blks * (d.pgs * d.writesize) ≤ 4096 * (128 * 4096) := Nat.mul_le_mul h1 (Nat.mul_le_mul h2 h3)
  have hpos : 0 < d.writesize := by have := d.ws_ge; omega
  rw [Device.maxlp, Device.erasesize, Nat.mod_eq_of_lt (by omega), ← Nat.mul_assoc, Nat.mul_div_cancel _ hpos]

theorem Device.lba_lt (d : Device) {lpa : Nat} (h : lpa < d.maxlp) : lpa / d.pgs < d.blks := by
  rw [d.maxlp_eq] at h
  exact Nat.div_lt_of_lt_mul (by rwa [Nat.mul_comm])

end store

/-! ## Giving a logical block another Data block -/

/-- The roles that an operation on logical block `lba` leaves alone. -/
def Role.others (lba : Nat) : Role → Bool
  | .dl k => k ≠ lba
  | .data k => k ≠ lba
  | .bad => true
  | _ => false

theorem others_of_user {lba : Nat} (r : Role) (h : r.user = false) : r.others lba = false := by
  cases r <;> simp_all [Role.user, Role.others]

section swap

variable {d : Device} {own own' : Own} {map : Nat → Nat} {L pre post : List Log} {lg : Log} {fl fl' : Flash} {lba tb : Nat}

theorem Keeps.others (h : Keeps Role.user own fl own' fl') (lba : Nat) : Keeps (Role.others lba) own fl own' fl' :=
  h.mono others_of_user

/-- The log of `lba` is gone. -/
theorem Logs.drop (h : Logs d .dl DlTag own fl (pre ++ lg :: post))
    (hk : Keeps (Role.others lg.key) own fl own' fl') (hdl : ∀ b, own' b ≠ .dl lg.key) :
    Logs d .dl DlTag own' fl' (pre ++ post) := by
  refine h.remove dl_injective (fun k hx => ?_) (fun x hx k => ?_) (fun x hx k hxk => ?_)
  · by_cases hkl : k = lg.key
    · exact hdl _ (hkl ▸ hx)
    · have := (hk.role (show Role.others lg.key (.dl k) = true by simp [Role.others, hkl]) _).mp hx
      rw [h.owned lg (by simp)] at this
      exact hkl (Role.dl.inj this).symm
  · by_cases hkl : k = lg.key
    · subst hkl
      constructor
      · exact fun e => absurd e (hdl x)
      · intro e
        obtain ⟨y, hy, hyk, hyx⟩ := h.mem x _ e
        rcases mem_middle.mp hy with rfl | hy
        · exact absurd hyx.symm hx
        · exact absurd hyk (h.key_ne hy)
    · exact hk.role (by simp [Role.others, hkl]) x
  · have hkl : k ≠ lg.key := by
      rintro rfl
      obtain ⟨y, hy, hyk, hyx⟩ := h.mem x _ hxk
      rcases mem_middle.mp hy with rfl | hy
      · exact absurd hyx.symm hx
      · exact absurd hyk (h.key_ne hy)
    exact hk.flash (show Role.others lg.key (.dl k) = true by simp [Role.others, hkl]) hxk

/-- The Data block of `lba` is `tb`. -/
theorem DataInv.swap (h : DataInv d own map fl) (hk : Keeps (Role.others lba) own fl own' fl')
    (hdata : ∀ b, own' b = .data lba ↔ b = tb) (htb : tb < d.blks) (hlba : lba < d.blks) (hhead : DataHead d fl' tb) :
    DataInv d own' (Function.update map lba tb) fl' := by
  refine ⟨fun k hk' hm => ?_, fun b k hb => ?_, fun b k hb => ?_⟩
  · by_cases hkl : k = lba
    · subst hkl; rw [Function.update_self]; exact (hdata _).mpr rfl
    · rw [Function.update_of_ne hkl] at hm ⊢
      exact (hk.role (by simp [Role.others, hkl]) _).mpr (h.owned k hk' hm)
  · by_cases hkl : k = lba
    · subst hkl
      have := (hdata b).mp hb
      exact ⟨this ▸ htb, hlba, by rw [Function.update_self, this]⟩
    · rw [Function.update_of_ne hkl]
      exact h.mem b k ((hk.role (by simp [Role.others, hkl]) _).mp hb)
  · by_cases hkl : k = lba
    · subst hkl; rw [(hdata b).mp hb]; exact hhead
    · have hb' := (hk.role (show Role.others lba (.data k) = true by simp [Role.others, hkl]) _).mp hb
      rw [DataHead, hk.flash (show Role.others lba (.data k) = true by simp [Role.others, hkl]) hb']
      exact h.head b k hb'

/-- Other logical blocks keep their content. -/
theorem content_other {L' : List Log} (hl : Logs d .dl DlTag own fl L) (hnd' : (L'.map Log.key).Nodup)
    (hL : ∀ x : Log, x.key ≠ lba → (x ∈ L' ↔ x ∈ L)) (hd : DataInv d own map fl)
    (hk : Keeps (Role.others lba) own fl own' fl') {lpa v : Nat} (hlpa : lpa / d.pgs < d.blks)
    (hne : lpa / d.pgs ≠ lba) : content d fl' (Function.update map lba v) L' lpa = content d fl map L lpa := by
  have hlook : lookupIn L' (lpa / d.pgs) lpa = lookupIn L (lpa / d.pgs) lpa :=
    lookupIn_congr hnd' hl.nodup (fun x hx => hL x (hx ▸ hne)) lpa
  unfold content
  rw [hlook, Function.update_of_ne hne]
  cases hx : lookupIn L (lpa / d.pgs) lpa with
  | some a =>
    obtain ⟨lg, hlg, hkey, hb, -⟩ := lookupIn_some hl.nodup (show lookupIn L (lpa / d.pgs) lpa = some (a.1, a.2) from hx)
    have ho := hl.owned lg hlg
    rw [hb, hkey] at ho
    simp only [pageAt, hk.flash (show Role.others lba (.dl (lpa / d.pgs)) = true by simp [Role.others, hne]) ho]
  | none =>
    by_cases hm : map (lpa / d.pgs) = noBlock
    · simp only [hm, if_true]
    · simp only [hm, if_false, pageAt,
        hk.flash (show Role.others lba (.data (lpa / d.pgs)) = true by simp [Role.others, hne]) (hd.owned _ hlpa hm)]

end swap

/-! ## Steps shared by merge, conversion and move -/

section steps

variable {d : Device} {E : Prop} {own : Own} {map : Nat → Nat} {ml L pre post : List Log} {lg : Log} {s : St} {lba tb : Nat}

/-- A free block is taken for a temporary role. -/
theorem Core.take (h : Core d own map ml s) {b : Nat} (hb : s.al.blockstatus b = true) :
    Core d (Function.update own b .temp) map ml { s with al := s.al.take b } := by
  have hpool := h.alloc.pool.own_free hb
  have hk : Keeps Role.map own s.nand.flash (Function.update own b .temp) s.nand.flash :=
    Keeps.update b .temp (by rw [hpool]; rfl) rfl
  exact ⟨h.alloc.take hb (by simp), h.inv.keeps hk, h.rep, h.cache.congr h.inv hk, h.short, h.tab⟩

/-- Blocks of no map role become garbage. -/
theorem sat_dropGar {g : List Nat} (hf : d.Fits) (h : Core d own map ml s) (hg : 1 ≤ g.length ∧ g.length ≤ 2)
    (hnd : g.Nodup) (hlt : ∀ b ∈ g, b < d.blks) (hown : ∀ b ∈ g, (own b).user = true)
    (hm : ∀ b ∈ g, Marked s.nand.flash b) (hE : E ∨ s.al.gar ≠ [] ∨ 0 < s.al.freeBlkcnt) :
    Sat (contract d E) (nftlAddtoGt d g) s (fun r s' => r = 0 ∧ Core d (own.release g) map ml s' ∧ s'.dl = s.dl ∧
      (∀ b, own.release g b ≠ .pool → s'.nand.flash b = s.nand.flash b) ∧ Settled s'.al ∧
      s'.al.poolSize = s.al.poolSize + g.length) := by
  have hpool : ∀ b ∈ g, own b ≠ .pool := fun b hb e => by have := hown b hb; rw [e] at this; simp [Role.user] at this
  refine (sat_addtoGt hf.blks_lt h.alloc h.tab hg hnd hlt hpool hm hE).mono ?_
  rintro r s' ⟨rfl, hfr, ha, -, hset⟩
  have hk : Keeps Role.map own s.nand.flash (own.release g) s'.nand.flash := by
    refine Keeps.release rfl (fun b hb => ?_) hfr.flash
    have := hown b hb
    cases ho : own b <;> simp_all [Role.user, Role.map]
  refine ⟨rfl, ⟨ha, ?_, ?_, ?_, h.short, hfr.tabOk h.tab⟩, hfr.dl, hfr.flash, hset, ?_⟩
  · rw [hfr.mt]; exact h.inv.keeps hk
  · rw [hfr.mt]; exact h.rep
  · rw [hfr.mt]; exact h.cache.congr h.inv hk
  · rw [ha.poolSize_eq, h.alloc.poolSize_eq, poolCount_release hnd hlt hpool]

/-- After garbage was recorded there is enough for a change of the map, if there was before. -/
theorem Settled.enough {al al' : Alloc} (h : Settled al') (hE : E ∨ (2 ≤ d.pgs ∧ 2 ≤ al.poolSize))
    (hle : al.poolSize ≤ al'.poolSize) : Enough d E al' := by
  rcases hE with hE | ⟨hp, h2⟩
  · exact Or.inl hE
  · refine Or.inr ⟨hp, ?_⟩
    rcases h with ⟨h3, -, h4⟩ | h3
    · have : al'.poolSize = al'.freeBlkcnt := by simp [Alloc.poolSize, h3, h4]
      exact ⟨by omega, Or.inr (by omega)⟩
    · have : (20 : Nat) < al'.freeBlkcnt := h3
      exact ⟨by omega, Or.inr (by omega)⟩

theorem Enough.poolSize {al : Alloc} (h : Enough d E al) : E ∨ (2 ≤ d.pgs ∧ 2 ≤ al.poolSize) := by
  refine h.imp id fun h => ⟨h.1, ?_⟩
  have h1 := h.2.1
  unfold Alloc.poolSize
  rcases h.2.2 with h2 | h2
  · have := List.length_pos_iff.mpr h2
    omega
  · omega

/-- The state after the map entry of `lba` was set to `tb`, which is its Data block from now on. -/
structure Mapped (d : Device) (own : Own) (map : Nat → Nat) (lba tb : Nat) (s s' : St) (own' : Own) (ml' : List Log) :
    Prop where
  core : Core d own' (Function.update map lba tb) ml' s'
  dl : s'.dl = s.dl
  keeps : Keeps (Role.others lba) own s.nand.flash own' s'.nand.flash
  target : own' tb = .data lba
  data : ∀ b, b ≠ tb → own' b = .data lba → own b = .data lba
  dlog : ∀ b, own' b = .dl lba → own b = .dl lba
  noTemp : ∀ b, own' b ≠ .temp
  flash : s'.nand.flash tb = s.nand.flash tb

theorem sat_mapTo (hf : d.Fits) (h : Core d own map ml s) (hlba : lba < d.blks) (htb : tb < d.blks)
    (htemp : ∀ b, own b = .temp ↔ b = tb) (hE : Enough d E s.al) :
    Sat (contract d E) (nftlUpdateMt d lba tb) s (fun r s' => r = 0 ∧ (∃ own' ml', Mapped d own map lba tb s s' own' ml') ∧
      Spent 1 s.al s'.al) := by
  refine (sat_updateMt hf h hlba htb hE).mono ?_
  rintro r s' ⟨rfl, own₁, ml', hc, hdl, hk, hsp⟩
  have htb₁ : own₁ tb = .temp := (hk.role rfl tb).mpr ((htemp tb).mpr rfl)
  have hk₁ : ∀ P : Role → Bool, P .temp = false → P (.data lba) = false →
      Keeps P own₁ s'.nand.flash (Function.update own₁ tb (.data lba)) s'.nand.flash :=
    fun P h1 h2 => Keeps.update tb _ (by rw [htb₁]; exact h1) h2
  refine ⟨rfl, ⟨Function.update own₁ tb (.data lba), ml', ⟨?_, hdl, ?_, Function.update_self _ _ _, fun b hb hd => ?_,
    fun b hd => ?_, fun b => ?_, hk.flash (r := .temp) rfl ((htemp tb).mpr rfl)⟩⟩, hsp⟩
  · exact hc.keeps rfl rfl hc.tab (hk₁ _ rfl rfl)
  · exact (hk.others lba).trans (hk₁ _ rfl (by simp [Role.others]))
  · rw [Function.update_of_ne hb] at hd
    exact (hk.role rfl b).mp hd
  · have hb : b ≠ tb := fun e => by rw [e, Function.update_self] at hd; simp at hd
    rw [Function.update_of_ne hb] at hd
    exact (hk.role rfl b).mp hd
  · by_cases hb : b = tb
    · subst hb; simp
    · rw [Function.update_of_ne hb]
      exact fun e => hb ((htemp b).mp ((hk.role rfl b).mp e))

theorem sat_setDl {t : LogTab} (ht : TabOk t s.mt.mtl) (hg : s.al.gar.length ≤ garbageMaxCnt) :
    Sat (contract d E) (setDl t) s (fun _ s' => s' = { s with dl := t }) :=
  Sat.modify_bind (step_ram d E rfl) (sat_noteTables ht.dlBlk ht.dlPg hg ht.mtlBlk rfl)

theorem Rep.tabOkDl {t : LogTab} (hr : Rep dlCap t L) (ht : TabOk s.dl s.mt.mtl) : TabOk t s.mt.mtl :=
  ⟨by rw [hr.blkcnt]; exact hr.blk_le, by rw [hr.pgcnt]; exact hr.pg_le, ht.mtlBlk⟩

/-- A log is deleted from the tables. The table must not be full: the entry behind the last is read. -/
theorem sat_deleteDl (hr : Rep dlCap s.dl (pre ++ lg :: post)) (hlen : (pre ++ lg :: post).length < dlMaxBlocks)
    (ht : TabOk s.dl s.mt.mtl) (hg : s.al.gar.length ≤ garbageMaxCnt) :
    Sat (contract d E) (nftlUpdateDlRam d .delete pre.length lba tb) s (fun r s' => r = 0 ∧ ∃ t,
      Rep dlCap t (pre ++ post) ∧ s' = { s with dl := t }) := by
  obtain ⟨t, hdel, hrep⟩ := delete_rep (c := dlCap) hr hlen
  refine Sat.get_bind (Sat.lift_bind hdel ?_)
  refine Sat.bind (sat_setDl (hrep.tabOkDl ht) hg) ?_
  rintro _ _ rfl
  exact Sat.pure ⟨rfl, t, hrep, rfl⟩

/-- The access behind the last entry of `dl_blocktab`. -/
abbrev dlOverrun : Fault := .bounds .dlBlocktab dlMaxBlocks

/-- A full table is overrun. -/
theorem fails_deleteDl (hr : Rep dlCap s.dl (pre ++ lg :: post)) (hfull : (pre ++ lg :: post).length = dlMaxBlocks) :
    Fails (contract d E) (nftlUpdateDlRam d .delete pre.length lba tb) s dlOverrun :=
  Fails.get_bind (Fails.bind (Fails.lift (delete_full (c := dlCap) hr hfull)))

/-- Another DataLog table. -/
theorem Core.setDl (h : Core d own map ml s) {t : LogTab} (hr : Rep dlCap t L) : Core d own map ml { s with dl := t } :=
  ⟨h.alloc, h.inv, h.rep, h.cache, h.short, hr.tabOkDl (s := s) h.tab⟩

end steps

end Emlinux.Nftl
