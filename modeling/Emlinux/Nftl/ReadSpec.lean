import Emlinux.Nftl.WriteSpec

/-!
# The specification of a read

`nftl_read_logicpage` returns the content of the page. When the chip corrected too many bits, the block that
was read is copied to a free block, which takes over its role; no logical page changes by that.
-/

namespace Emlinux.Nftl

open Lib

variable {d : Device} {E : Prop} {bd : Nat → Bool} {own : Own} {map : Nat → Nat} {ml L pre post : List Log} {lg : Log} {s : St} {lba lpa : Nat}

/-! ## The move of a DataLog block -/

theorem content_moveLog {fl fl' : Flash} {own' : Own} {nb : Nat} (hl : Logs d .dl DlTag own fl (pre ++ lg :: post))
    (hd : DataInv d own map fl) (hk : Keeps (Role.others lg.key) own fl own' fl')
    (hcopy : ∀ i, i < lg.seq.length → fl' nb i = some (pageAt fl lg.pba i))
    (hdat : map lg.key ≠ noBlock → fl' (map lg.key) = fl (map lg.key)) {q : Nat} (hq : q / d.pgs < d.blks) :
    content d fl' map (pre ++ ⟨lg.key, nb, lg.seq⟩ :: post) q = content d fl map (pre ++ lg :: post) q := by
  have hnd' : ((pre ++ (⟨lg.key, nb, lg.seq⟩ : Log) :: post).map Log.key).Nodup := by simpa using hl.nodup
  by_cases hql : q / d.pgs = lg.key
  · have h1 := lookupIn_of_mem hl.nodup (show lg ∈ pre ++ lg :: post by simp) q
    have h2 := lookupIn_of_mem hnd' (show (⟨lg.key, nb, lg.seq⟩ : Log) ∈ _ by simp) q
    unfold content
    rw [hql, h1, h2]
    cases hlook : lookup lg.seq q with
    | some i => simp only [Option.map_some, pageAt, hcopy i (lookup_lt hlook), Option.getD_some]
    | none =>
      simp only [Option.map_none]
      by_cases hm : map lg.key = noBlock
      · simp only [hm, if_true]
      · simp only [hm, if_false, pageAt, hdat hm]
  · have := content_other hl hnd' (fun x hx => ?_) hd hk (v := map lg.key) hq hql
    · rwa [Function.update_eq_self] at this
    · rw [mem_middle, mem_middle]
      constructor <;>
      · rintro (rfl | hx')
        · exact absurd rfl hx
        · exact Or.inr hx'

theorem sat_moveDlBlock (hf : d.Fits) (h : Ftl d bd own map ml (pre ++ lg :: post) s) (hk : lpa / d.pgs = lg.key) (hE : E) :
    Sat (contract d E) (moveDlBlock d lpa lg.pba) s (fun r s' => r = 0 ∧ ∃ own' nb,
      Ftl d bd own' map ml (pre ++ ⟨lg.key, nb, lg.seq⟩ :: post) s' ∧ ∀ q, q / d.pgs < d.blks →
        content d s'.nand.flash map (pre ++ ⟨lg.key, nb, lg.seq⟩ :: post) q
          = content d s.nand.flash map (pre ++ lg :: post) q) := by
  have hno := d.blks_lt_noBlock
  have hlog := h.logs.owned lg (by simp)
  have hlt := h.logs.lt lg (by simp)
  have hpages := h.logs.pages lg (by simp)
  have hkey := h.key_lt lg (by simp)
  refine Sat.bind (sat_getFreeBlock hf.blks_lt h.core.alloc.pool (Or.inl hE)) ?_
  rintro nb _ ⟨hb, rfl⟩
  have hpool := h.core.alloc.pool.own_free hb
  have hnb := h.core.alloc.pool.free_lt nb hb
  have hne : lg.pba ≠ nb := fun e => by rw [e, hpool] at hlog; simp at hlog
  rw [if_neg (show nb ≠ noBlock by omega)]
  obtain ⟨t, hup, hrep⟩ := update_rep h.rep (p := fun b => decide (b.key = lpa / d.pgs)) nb
    (fun x hx => by
      have := h.logs.key_ne (List.mem_append_left post hx)
      simp [Log.block, hk, this]) (by simp [Log.block, hk])
  refine Sat.bind (Q := fun c s' => c = (lg.seq.length : Int) ∧ s' = { s with al := s.al.take nb, dl := t }) ?_ ?_
  · refine Sat.get_bind (Sat.lift_bind hup ?_)
    refine Sat.bind (sat_setDl (hrep.tabOkDl h.core.tab) h.core.gar_le) ?_
    rintro _ _ rfl
    exact Sat.pure ⟨rfl, rfl⟩
  rintro _ _ ⟨rfl, rfl⟩
  have hle := d.pgs_le
  have hfits := hpages.fits
  rw [toU8_natCast (by omega)]
  refine Sat.bind (sat_blockReplace hlt hnb hne hfits (h.core.alloc.pool.erased nb hb)) ?_
  rintro _ s₂ ⟨rfl, fl, h₂, hfill⟩
  rw [if_neg (by decide)]
  have hfl₂ : s₂.nand.flash = fl := h₂.flash
  have hcore₂ : Core d (Function.update own nb .temp) map ml s₂ := by
    refine ((h.core.take hb).setDl hrep).keeps h₂.al h₂.mt (by rw [h₂.mt, h₂.dl]; exact hrep.tabOkDl (s := s) h.core.tab) ?_
    exact Keeps.content (b := nb) (by simp [Role.user]) fun x hx => by rw [hfl₂]; exact hfill.other x hx
  have hmark : Marked s₂.nand.flash lg.pba := by
    obtain ⟨pg, p, hpg, hty, -⟩ := hpages.head
    exact ⟨pg, by rw [hfl₂, hfill.other _ hne]; exact hpg, Or.inr (Or.inl hty)⟩
  refine Sat.bind (sat_dropGar (g := [lg.pba]) hf hcore₂ (by simp) (by simp) (by simpa using hlt)
    (by simp [Function.update_of_ne hne, hlog, Role.user]) (by simpa using hmark) (Or.inl hE)) ?_
  rintro _ s₃ ⟨rfl, hcore₃, hdl₃, hfl₃, -, -⟩
  rw [if_neg (by decide)]
  have hrel : Own.release (Function.update own nb .temp) [lg.pba] nb = .temp := by simp [Own.release, hne.symm]
  have hcore : Core d (moveOwn own lg.pba nb (.dl lg.key)) map ml s₃ :=
    hcore₃.keeps rfl rfl hcore₃.tab (Keeps.update nb _ (by rw [hrel]; rfl) rfl)
  have hflash : ∀ b, b ≠ nb → moveOwn own lg.pba nb (.dl lg.key) b ≠ .pool → s₃.nand.flash b = s.nand.flash b := by
    intro b hb' hp
    rw [hfl₃ b (by rwa [moveOwn, Function.update_of_ne hb'] at hp), hfl₂, hfill.other b hb']
  have hnbfl : s₃.nand.flash nb = fl nb := by rw [hfl₃ nb (by rw [hrel]; simp), hfl₂]
  have hother : ∀ r : Role, r ≠ .pool → r ≠ .dl lg.key → ∀ b, moveOwn own lg.pba nb (.dl lg.key) b = r ↔ own b = r := by
    intro r h1 h2 b
    by_cases hb1 : b = nb
    · subst hb1; simp [moveOwn_new, hpool, h1.symm, h2.symm]
    · by_cases hb2 : b = lg.pba
      · subst hb2; simp [moveOwn_old _ hne, hlog, h1.symm, h2.symm]
      · rw [moveOwn_other _ hb2 hb1]
  have hdat : ∀ b k, own b = .data k → s₃.nand.flash b = s.nand.flash b := by
    intro b k hbk
    refine hflash b (fun e => by rw [e, hpool] at hbk; simp at hbk) ?_
    rw [(hother (.data k) (by simp) (by simp) b).mpr hbk]
    simp
  have hkeep : Keeps (Role.others lg.key) own s.nand.flash (moveOwn own lg.pba nb (.dl lg.key)) s₃.nand.flash :=
    keeps_move rfl hpool hne (by simp [hlog, Role.others]) (by simp [Role.others]) hflash
  refine Sat.pure ⟨rfl, _, nb, ⟨hcore, ?_, by rw [hdl₃, h₂.dl]; exact hrep, fun x hx => ?_, ?_, fun b => ?_, fun b hb' => ?_⟩,
    fun q hq => content_moveLog h.logs h.data hkeep (fun i hi => ?_) (fun hm => hdat _ _ (h.data.owned _ hkey hm)) hq⟩
  · refine h.logs.replace dl_injective rfl hnb (moveOwn_new _ _ _ _) (Or.inr fun k => by rw [moveOwn_old _ hne]; simp)
      (fun x h1 h2 k => by rw [moveOwn_other _ h1 h2]) (Or.inr fun k => by rw [hpool]; simp) (fun x hx k hxk => ?_)
      ((hpages.moved hfill).congr hnbfl)
    have hxn : x ≠ nb := fun e => by rw [e, hpool] at hxk; simp at hxk
    refine hflash x hxn ?_
    rw [moveOwn_other _ hx hxn, hxk]
    simp
  · rcases mem_middle.mp hx with rfl | hx
    · exact hkey
    · exact h.key_lt x (mem_middle.mpr (Or.inr hx))
  · exact h.data.congr (fun b k => hother _ (by simp) (by simp) b) hdat
  · exact mt (hother _ (by simp) (by simp) b).mp (h.noTemp b)
  · exact (hother _ (by simp) (by simp) b).trans (h.bad b hb')
  · rw [hnbfl, hfill.done i hi]
    rfl

/-! ## The move of a Data block -/

/-- The roles that the move of the Data block of `lba` leaves alone. -/
def Role.notData (lba : Nat) : Role → Bool
  | .dl _ => true
  | .data k => k ≠ lba
  | .bad => true
  | _ => false

theorem notData_of_user (r : Role) (h : r.user = false) : r.notData lba = false := by
  cases r <;> simp_all [Role.user, Role.notData]

theorem others_of_notData (r : Role) (h : r.notData lba = false) : r.others lba = false := by
  cases r <;> simp_all [Role.others, Role.notData]

theorem DataHead.copy {fl fl' : Flash} {b b' : Nat} (h : DataHead d fl b)
    (hcopy : ∀ i, i < d.pgs → fl' b' i = some (pageAt fl b i)) : DataHead d fl' b' := by
  have hpos := d.pgs_pos
  obtain ⟨pg, hpg, hty⟩ := h
  refine ⟨pg, by rw [hcopy 0 hpos, pageAt, hpg]; rfl, hty.imp id fun ⟨h1, pg', hpg', h2⟩ => ⟨h1, pg', ?_, h2⟩⟩
  rw [hcopy _ (by omega), pageAt, hpg']
  rfl

theorem sat_moveDataBlock (hf : d.Fits) (h : Ftl d bd own map ml L s) (hlba : lba < d.blks) (hm : map lba ≠ noBlock) (hE : E) :
    Sat (contract d E) (moveDataBlock d lba (map lba)) s (fun r s' => r = 0 ∧ ∃ own' ml' nb,
      Ftl d bd own' (Function.update map lba nb) ml' L s' ∧ nb < d.blks ∧ ∀ q, q / d.pgs < d.blks →
        content d s'.nand.flash (Function.update map lba nb) L q = content d s.nand.flash map L q) := by
  have hno := d.blks_lt_noBlock
  have hdat := h.data.owned lba hlba hm
  have hlt := (h.core.inv.range _ hlba).resolve_left hm
  refine Sat.bind (sat_getFreeBlock hf.blks_lt h.core.alloc.pool (Or.inl hE)) ?_
  rintro nb _ ⟨hb, rfl⟩
  have hpool := h.core.alloc.pool.own_free hb
  have hnb := h.core.alloc.pool.free_lt nb hb
  have hne : map lba ≠ nb := fun e => by rw [e, hpool] at hdat; simp at hdat
  rw [if_neg (show nb ≠ noBlock by omega)]
  refine Sat.bind (sat_blockReplace (s := { s with al := s.al.take nb }) hlt hnb hne (le_refl _)
    (h.core.alloc.pool.erased nb hb)) ?_
  rintro _ s₁ ⟨rfl, fl, h₁, hfill⟩
  rw [if_neg (by decide)]
  have hfl₁ : s₁.nand.flash = fl := h₁.flash
  have hk₁ : ∀ P : Role → Bool, P .pool = false → P .temp = false →
      Keeps P own s.nand.flash (Function.update own nb .temp) s₁.nand.flash := fun P hp ht =>
    (Keeps.update nb .temp (by rw [hpool]; exact hp) ht).trans
      (Keeps.content (b := nb) (by simpa using ht) fun x hx => by rw [hfl₁]; exact hfill.other x hx)
  have hcore₁ : Core d (Function.update own nb .temp) map ml s₁ := by
    refine (h.core.take hb).keeps h₁.al h₁.mt (by rw [h₁.mt, h₁.dl]; exact h.core.tab) ?_
    exact Keeps.content (b := nb) (by simp [Role.user]) fun x hx => by rw [hfl₁]; exact hfill.other x hx
  refine Sat.bind (sat_updateMt hf hcore₁ hlba hnb (Or.inl hE)) ?_
  rintro _ s₂ ⟨rfl, own₂, ml₂, hcore₂, hdl₂, hk₂, -⟩
  rw [if_neg (by decide)]
  have hnb₂ : own₂ nb = .temp := (hk₂.role rfl nb).mpr (by simp)
  have hold₁ : Function.update own nb .temp (map lba) = .data lba := by rw [Function.update_of_ne hne]; exact hdat
  have hold₂ : own₂ (map lba) = .data lba := (hk₂.role rfl _).mpr hold₁
  have hmark : Marked s₂.nand.flash (map lba) := by
    have := (h.data.head _ _ hdat).marked
    rwa [Marked, hk₂.flash (r := .data lba) rfl hold₁, hfl₁, hfill.other _ hne]
  refine Sat.bind (sat_dropGar (g := [map lba]) hf hcore₂ (by simp) (by simp) (by simpa using hlt)
    (by simp [hold₂, Role.user]) (by simpa using hmark) (Or.inl hE)) ?_
  rintro _ s₃ ⟨rfl, hcore₃, hdl₃, hfl₃, -, -⟩
  rw [if_neg (by decide)]
  have hrel : own₂.release [map lba] nb = .temp := by simp [Own.release, hne.symm, hnb₂]
  have hcore : Core d (Function.update (own₂.release [map lba]) nb (.data lba)) (Function.update map lba nb) ml₂ s₃ :=
    hcore₃.keeps rfl rfl hcore₃.tab (Keeps.update nb _ (by rw [hrel]; rfl) rfl)
  have hkeep : Keeps (Role.notData lba) own s.nand.flash (Function.update (own₂.release [map lba]) nb (.data lba))
      s₃.nand.flash :=
    ((hk₁ _ rfl rfl).trans (hk₂.mono notData_of_user)).trans
      ((Keeps.release rfl (by simp [hold₂, Role.notData]) hfl₃).trans
        (Keeps.update nb _ (by rw [hrel]; rfl) (by simp [Role.notData])))
  have hcopy : ∀ i, i < d.pgs → s₃.nand.flash nb i = some (pageAt s.nand.flash (map lba) i) := by
    intro i hi
    rw [hfl₃ nb (by rw [hrel]; simp), hk₂.flash (r := .temp) rfl (by simp), hfl₁, hfill.done i hi]
    rfl
  have hdata : ∀ b, Function.update (own₂.release [map lba]) nb (.data lba) b = .data lba ↔ b = nb := by
    intro b
    by_cases hb1 : b = nb
    · simp [hb1]
    · rw [Function.update_of_ne hb1]
      simp only [hb1, iff_false]
      intro e
      by_cases hb2 : b = map lba
      · simp [Own.release, hb2] at e
      · rw [show own₂.release [map lba] b = own₂ b by simp [Own.release, hb2]] at e
        have := (hk₂.role rfl b).mp e
        rw [Function.update_of_ne hb1] at this
        exact hb2 (h.data.mem b lba this).2.2.symm
  have hlogs : Logs d .dl DlTag (Function.update (own₂.release [map lba]) nb (.data lba)) s₃.nand.flash L :=
    h.logs.congr (fun b k => hkeep.role rfl b) fun b k hbk => hkeep.flash (r := .dl k) rfl hbk
  refine Sat.pure ⟨rfl, _, ml₂, nb, ⟨hcore, hlogs, by rw [hdl₃, hdl₂, h₁.dl]; exact h.rep, h.key_lt,
    h.data.swap (hkeep.mono others_of_notData) hdata hnb hlba ((h.data.head _ _ hdat).copy hcopy), fun b => ?_,
    fun b hb' => (hkeep.role rfl b).trans (h.bad b hb')⟩, hnb, fun q hq => ?_⟩
  · by_cases hb1 : b = nb
    · simp [hb1]
    · rw [Function.update_of_ne hb1]
      intro e
      by_cases hb2 : b = map lba
      · simp [Own.release, hb2] at e
      · rw [show own₂.release [map lba] b = own₂ b by simp [Own.release, hb2], hk₂.role rfl b,
          Function.update_of_ne hb1] at e
        exact h.noTemp b e
  · by_cases hql : q / d.pgs = lba
    · unfold content
      rw [hql, Function.update_self]
      cases hlook : lookupIn L lba q with
      | some a =>
        obtain ⟨lg, hlg, -, hb', -⟩ := lookupIn_some h.logs.nodup (show lookupIn L lba q = some (a.1, a.2) from hlook)
        have ho := h.logs.owned lg hlg
        rw [hb'] at ho
        simp only [pageAt, hkeep.flash (r := .dl lg.key) rfl ho]
      | none =>
        have hmod := Nat.mod_lt q d.pgs_pos
        simp only [hm, if_false, if_neg (show nb ≠ noBlock by omega)]
        rw [pageAt, hcopy _ hmod]
        rfl
    · exact content_other h.logs h.logs.nodup (fun _ _ => Iff.rfl) h.data (hkeep.mono others_of_notData) hq hql

/-! ## The read -/

/-- What a read leaves: the same logs in other blocks perhaps, and every logical page as before. Without a move,
only the chip counters and the map cache change. -/
structure ReadPost (d : Device) (bd : Nat → Bool) (map : Nat → Nat) (L : List Log) (s s' : St) (own' : Own)
    (map' : Nat → Nat) (ml' L' : List Log) : Prop where
  ftl : Ftl d bd own' map' ml' L' s'
  seqs : L'.map Log.seq = L.map Log.seq
  content : ∀ q, q / d.pgs < d.blks → content d s'.nand.flash map' L' q = content d s.nand.flash map L q

theorem sat_readPage {move : M Int} {Q : St → Prop} {b p : Nat} (hb : b < d.blks) (hp : p < d.pgs) (hq : Mobile d E s)
    (hstay : ∀ s', Reflash s s.nand.flash s' → Q s')
    (hmove : ∀ s', Reflash s s.nand.flash s' → E → Sat (contract d E) move s' (fun r s'' => r = 0 ∧ Q s'')) :
    Sat (contract d E) (nftlReadPage d b p move) s (fun r s' => r = (0, some (pageAt s.nand.flash b p).data) ∧ Q s') := by
  refine Sat.bind ((sat_mtdRead hb hp).with_inv mobile_step hq) ?_
  rintro _ s₁ ⟨⟨rfl, h₁⟩, hq₁⟩
  refine Sat.get_bind ?_
  by_cases he : eccErrLimit < s₁.nand.ecc
  · rw [if_pos he]
    refine Sat.bind (hmove s₁ h₁ (hq₁.of_ecc he)) ?_
    rintro _ s₂ ⟨rfl, hQ⟩
    exact Sat.pure ⟨rfl, hQ⟩
  · rw [if_neg he]
    exact Sat.pure ⟨rfl, hstay s₁ h₁⟩

/-- `nftl_read_logicpage` returns the content of the page, when a move of a map block finds its table entry. -/
theorem sat_nftlReadLogicpage_of (hf : d.Fits) (h : Ftl d bd own map ml L s) (hlpa : lpa < d.maxlp) (hq : Mobile d E s)
    (hok : lookupIn L (lpa / d.pgs) lpa = none → MoveOk d ml s (lpa / d.pgs / d.words)) :
    Sat (contract d E) (nftlReadLogicpage d lpa) s (fun r s' => r = (0, some (content d s.nand.flash map L lpa)) ∧
      ∃ own' map' ml' L', ReadPost d bd map L s s' own' map' ml' L') := by
  have hlba := d.lba_lt hlpa
  have hno := d.blks_lt_noBlock
  unfold nftlReadLogicpage
  rw [if_neg (by omega)]
  have hfind : s.dl.findPage dlCap (lpa / d.pgs) lpa s.dl.blkcnt 0 0 = .ok (lookupIn L (lpa / d.pgs) lpa) := by
    have : Rep dlCap s.dl ([] ++ L) := h.rep
    rw [h.rep.blkcnt]
    exact findPage_rep this h.logs.nodup (lpa / d.pgs) lpa
  refine Sat.bind (Q := fun r s' => r = lookupIn L (lpa / d.pgs) lpa ∧ s' = s)
    (Sat.get_bind (Sat.lift_ok hfind ⟨rfl, rfl⟩)) ?_
  rintro _ s ⟨rfl, rfl⟩
  cases hlook : lookupIn L (lpa / d.pgs) lpa with
  | some a =>
    obtain ⟨lg, hlg, hk, hb, hi⟩ := lookupIn_some h.logs.nodup (show lookupIn L (lpa / d.pgs) lpa = some (a.1, a.2) from hlook)
    obtain ⟨pre, post, rfl⟩ := List.append_of_mem hlg
    have hpage : a.2 < d.pgs := lt_of_lt_of_le (lookup_lt hi) (h.logs.pages lg hlg).fits
    have hcont : content d s.nand.flash map (pre ++ lg :: post) lpa = (pageAt s.nand.flash a.1 a.2).data := by
      unfold content
      rw [hlook]
    rw [hcont]
    refine sat_readPage (hb ▸ h.logs.lt lg hlg) hpage hq (fun s' hr => ?_) fun s' hr hE => ?_
    · exact ⟨own, map, ml, _, h.reflash hr, rfl, fun q _ => by rw [hr.flash]⟩
    · rw [← hb]
      refine (sat_moveDlBlock hf (h.reflash hr) hk.symm hE).mono ?_
      rintro r s'' ⟨rfl, own', nb, h', hc'⟩
      exact ⟨rfl, own', map, ml, _, h', by simp, fun q hql => by rw [hc' q hql, hr.flash]⟩
  | none =>
    refine Sat.bind ((sat_lbaToPba_of hf h.core hlba hq (hok hlook)).with_inv mobile_step hq) ?_
    rintro _ s₁ ⟨⟨rfl, own₁, ml₁, hc₁, hdl₁, hk₁, -⟩, hq₁⟩
    have h₁ := h.keeps hc₁ hdl₁ hk₁
    have hcont₁ : ∀ q, q / d.pgs < d.blks → content d s₁.nand.flash map L q = content d s.nand.flash map L q :=
      fun q hql => content_congr h.logs h.data hk₁ hql
    by_cases hm : map (lpa / d.pgs) = noBlock
    · rw [if_neg (not_not.mpr hm)]
      refine Sat.pure ⟨?_, own₁, map, ml₁, L, h₁, rfl, hcont₁⟩
      unfold content
      rw [hlook]
      simp only [hm, if_true]
    · rw [if_pos hm]
      have hcont : content d s.nand.flash map L lpa = (pageAt s₁.nand.flash (map (lpa / d.pgs)) (lpa % d.pgs)).data := by
        rw [← hcont₁ lpa hlba]
        unfold content
        rw [hlook]
        simp only [hm, if_false]
      rw [hcont]
      refine sat_readPage ((h.core.inv.range _ hlba).resolve_left hm) (Nat.mod_lt _ d.pgs_pos) hq₁ (fun s' hr => ?_)
        fun s' hr hE => ?_
      · exact ⟨own₁, map, ml₁, L, h₁.reflash hr, rfl, fun q hql => by rw [hr.flash, hcont₁ q hql]⟩
      · refine (sat_moveDataBlock hf (h₁.reflash hr) hlba hm hE).mono ?_
        rintro r s'' ⟨rfl, own', ml', nb, h', -, hc'⟩
        exact ⟨rfl, own', _, ml', L, h', rfl, fun q hql => by rw [hc' q hql, hr.flash, hcont₁ q hql]⟩

/-- `nftl_read_logicpage` returns the content of the page. -/
theorem sat_nftlReadLogicpage (hf : d.Fits) (h : Ftl d bd own map ml L s) (hlpa : lpa < d.maxlp) (hq : Quiet d E s) :
    Sat (contract d E) (nftlReadLogicpage d lpa) s (fun r s' => r = (0, some (content d s.nand.flash map L lpa)) ∧
      ∃ own' map' ml' L', ReadPost d bd map L s s' own' map' ml' L') :=
  sat_nftlReadLogicpage_of hf h hlpa hq.mobile fun _ => hq.moveOk (d.mtPage_lt (d.lba_lt hlpa))

end Emlinux.Nftl
