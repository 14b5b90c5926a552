import Emlinux.Nftl.MapOps

/-!
# Looking up the map

`nftl_lba_to_pba` answers the map, and moves the block of the map page to a new block when the last read of
the chip corrected too many bits. The move of an MTLog block finds its table entry by the page inside the
block instead of the map page, which is the right entry only when there is a single MapTab block
(`Quiet`).
-/

namespace Emlinux.Nftl

open Lib

variable {d : Device} {E : Prop} {own : Own} {map : Nat → Nat} {ml pre post : List Log} {lg : Log}

/-- The owners after the block `old` was copied to `nb`, which takes over its role. -/
def moveOwn (own : Own) (old nb : Nat) (r : Role) : Own :=
  Function.update (Own.release (Function.update own nb .temp) [old]) nb r

theorem moveOwn_new (own : Own) (old nb : Nat) (r : Role) : moveOwn own old nb r nb = r := by
  simp [moveOwn]

theorem moveOwn_old {old nb : Nat} (r : Role) (h : old ≠ nb) : moveOwn own old nb r old = .pool := by
  simp [moveOwn, h, Own.release]

theorem moveOwn_other {old nb x : Nat} (r : Role) (h1 : x ≠ old) (h2 : x ≠ nb) : moveOwn own old nb r x = own x := by
  simp [moveOwn, h2, Own.release, h1]

/-- A move concerns the pool and the roles of the block moved. -/
theorem keeps_move {P : Role → Bool} {fl fl' : Flash} {old nb : Nat} {r : Role} (hp : P .pool = false)
    (hnb : own nb = .pool) (hne : old ≠ nb) (hold : P (own old) = false) (hr : P r = false)
    (hfl : ∀ b, b ≠ nb → moveOwn own old nb r b ≠ .pool → fl' b = fl b) :
    Keeps P own fl (moveOwn own old nb r) fl' := by
  intro b
  by_cases h1 : b = nb
  · subst h1; exact Or.inr ⟨hnb ▸ hp, by rw [moveOwn_new]; exact hr⟩
  · by_cases h2 : b = old
    · subst h2; exact Or.inr ⟨hold, by rw [moveOwn_old r hne]; exact hp⟩
    · have ho : moveOwn own old nb r b = own b := moveOwn_other r h2 h1
      by_cases h3 : own b = .pool
      · exact Or.inr ⟨h3 ▸ hp, by rw [ho, h3]; exact hp⟩
      · exact Or.inl ⟨ho, hfl b h1 (by rw [ho]; exact h3)⟩

section move

variable {fl fl' : Flash} {mtPbas : Nat → Nat} {nb : Nat}

/-- The map after an MTLog block was moved. -/
theorem MapInv.moveLog (h : MapInv d own map (pre ++ lg :: post) fl mtPbas) (hnb : nb < d.blks)
    (hpool : own nb = .pool) (hp : LogPages d fl' (MtlTag d) ⟨lg.key, nb, lg.seq⟩)
    (hcopy : ∀ i, i < lg.seq.length → fl' nb i = some (pageAt fl lg.pba i))
    (hfl : ∀ b, b ≠ nb → moveOwn own lg.pba nb (.mtl lg.key) b ≠ .pool → fl' b = fl b) :
    MapInv d (moveOwn own lg.pba nb (.mtl lg.key)) map (pre ++ ⟨lg.key, nb, lg.seq⟩ :: post) fl' mtPbas := by
  have hlog := h.logs.owned lg (by simp)
  have hne : lg.pba ≠ nb := fun e => by rw [e, hpool] at hlog; simp at hlog
  have hother : ∀ b, b ≠ lg.pba → (own b).map = true →
      moveOwn own lg.pba nb (.mtl lg.key) b = own b ∧ fl' b = fl b := by
    intro b h1 hm
    have h2 : b ≠ nb := fun e => by rw [e, hpool] at hm; simp [Role.map] at hm
    have ho : moveOwn own lg.pba nb (.mtl lg.key) b = own b := moveOwn_other _ h1 h2
    refine ⟨ho, hfl b h2 ?_⟩
    rw [ho]
    intro e
    rw [e] at hm
    simp [Role.map] at hm
  have hnd' : ((pre ++ ⟨lg.key, nb, lg.seq⟩ :: post).map Log.key).Nodup := by
    have := h.logs.nodup
    simpa using this
  have hdata : ∀ q, q < d.nrMtpage → mtData d fl' mtPbas (pre ++ ⟨lg.key, nb, lg.seq⟩ :: post) q
      = mtData d fl mtPbas (pre ++ lg :: post) q := by
    intro q hq
    by_cases hqk : q / d.pgs = lg.key
    · have h1 := lookupIn_of_mem h.logs.nodup (show lg ∈ pre ++ lg :: post by simp) q
      have h2 := lookupIn_of_mem hnd' (show (⟨lg.key, nb, lg.seq⟩ : Log) ∈ _ by simp) q
      rw [mtData, mtData, mtLoc, mtLoc, hqk, h1, h2]
      cases hl : lookup lg.seq q with
      | some i =>
        simp only [Option.map_some, Option.getD_some, pageAt, hcopy i (lookup_lt hl)]
      | none =>
        simp only [Option.map_none, Option.getD_none, pageAt]
        have ho := h.own_mt _ (hqk ▸ d.mtIndex_lt hq)
        rw [(hother _ (fun e => ?_) (by rw [ho]; rfl)).2]
        rw [e, hlog] at ho
        simp at ho
    · have hloc : mtLoc d mtPbas (pre ++ ⟨lg.key, nb, lg.seq⟩ :: post) q = mtLoc d mtPbas (pre ++ lg :: post) q := by
        rw [mtLoc, mtLoc, lookupIn_congr hnd' h.logs.nodup (fun x (hx : x.key = q / d.pgs) => ?_) q]
        rw [mem_middle, mem_middle]
        constructor <;>
        · rintro (rfl | hx')
          · exact absurd hx.symm hqk
          · exact Or.inr hx'
      rw [mtData, mtData, hloc, pageAt, pageAt]
      rw [(hother _ (fun e => ?_) (h.loc_map (d.mtIndex_lt hq))).2]
      rcases h.loc_cases q with ⟨x, hx, i, hxk, -, hl⟩ | ⟨-, hl⟩
      · have ho := h.logs.owned x hx
        rw [hl] at e
        rw [show x.pba = lg.pba from e, hlog] at ho
        exact hqk (hxk.symm.trans (Role.mtl.inj ho).symm)
      · have ho := h.own_mt _ (d.mtIndex_lt hq)
        rw [hl] at e
        rw [show mtPbas (q / d.pgs) = lg.pba from e, hlog] at ho
        simp at ho
  have hmt : ∀ b k, moveOwn own lg.pba nb (.mtl lg.key) b = .mt k ↔ own b = .mt k := by
    intro b k
    by_cases h1 : b = nb
    · subst h1; simp [moveOwn_new, hpool]
    · by_cases h2 : b = lg.pba
      · subst h2; simp [moveOwn_old _ hne, hlog]
      · rw [moveOwn_other _ h2 h1]
  refine ⟨?_, fun x hx q hq => ?_, h.pba_lt, fun k hk => (hmt _ _).mpr (h.own_mt k hk),
    fun b k hb => h.mem_mt b k ((hmt b k).mp hb), fun k hk => ?_, fun lba hlba => ?_, h.range⟩
  · refine h.logs.replace mtl_injective rfl hnb (moveOwn_new _ _ _ _) (Or.inr fun k => ?_) (fun x h1 h2 k => ?_)
      (Or.inr fun k => by rw [hpool]; simp) (fun x h1 k hx => ?_) hp
    · rw [moveOwn_old _ hne]; simp
    · rw [moveOwn_other _ h1 h2]
    · exact (hother x h1 (by rw [hx]; rfl)).2
  · rcases mem_middle.mp hx with rfl | hx
    · exact h.page_lt lg (by simp) q hq
    · exact h.page_lt x (mem_middle.mpr (Or.inr hx)) q hq
  · have ho := h.own_mt k hk
    rw [MtHead, (hother _ (fun e => ?_) (by rw [ho]; rfl)).2]
    · exact h.head k hk
    · rw [e, hlog] at ho; simp at ho
  · rw [hdata _ (d.mtPage_lt hlba)]
    exact h.entry lba hlba

/-- The map after a MapTab block was moved. -/
theorem MapInv.moveTab (h : MapInv d own map ml fl mtPbas) {k : Nat} (hk : k < d.mtBlkcnt) (hnb : nb < d.blks)
    (hpool : own nb = .pool) (hcopy : ∀ i, i < d.pgs → fl' nb i = some (pageAt fl (mtPbas k) i))
    (hfl : ∀ b, b ≠ nb → moveOwn own (mtPbas k) nb (.mt k) b ≠ .pool → fl' b = fl b) :
    MapInv d (moveOwn own (mtPbas k) nb (.mt k)) map ml fl' (Function.update mtPbas k nb) := by
  have hold := h.own_mt k hk
  have hne : mtPbas k ≠ nb := fun e => by rw [e, hpool] at hold; simp at hold
  have hother : ∀ b, b ≠ mtPbas k → (own b).map = true →
      moveOwn own (mtPbas k) nb (.mt k) b = own b ∧ fl' b = fl b := by
    intro b h1 hm
    have h2 : b ≠ nb := fun e => by rw [e, hpool] at hm; simp [Role.map] at hm
    have ho : moveOwn own (mtPbas k) nb (.mt k) b = own b := moveOwn_other _ h1 h2
    refine ⟨ho, hfl b h2 ?_⟩
    rw [ho]
    intro e
    rw [e] at hm
    simp [Role.map] at hm
  have hdata : ∀ q, q < d.nrMtpage → mtData d fl' (Function.update mtPbas k nb) ml q = mtData d fl mtPbas ml q := by
    intro q hq
    rcases h.loc_cases q with ⟨x, hx, i, hxk, hi, hl⟩ | ⟨hnone, hl⟩
    · have hl' : mtLoc d (Function.update mtPbas k nb) ml q = (x.pba, i) := by
        rw [← hl, mtLoc, mtLoc, ← hxk, lookupIn_of_mem h.logs.nodup hx, hi]
        rfl
      have ho := h.logs.owned x hx
      rw [mtData, mtData, hl, hl', pageAt, pageAt, (hother _ (fun (e : x.pba = _) => ?_) (by rw [ho]; rfl)).2]
      rw [e, hold] at ho
      simp at ho
    · by_cases hqk : q / d.pgs = k
      · have hl' : mtLoc d (Function.update mtPbas k nb) ml q = (nb, q % d.pgs) := by
          rw [mtLoc, hnone, hqk, Function.update_self, Option.getD_none]
        rw [mtData, mtData, hl, hl', hqk]
        simp only [pageAt, hcopy _ (Nat.mod_lt _ d.pgs_pos), Option.getD_some]
      · have hl' : mtLoc d (Function.update mtPbas k nb) ml q = mtLoc d mtPbas ml q := by
          rw [mtLoc, mtLoc, Function.update_of_ne hqk]
        have ho := h.own_mt _ (d.mtIndex_lt hq)
        rw [mtData, mtData, hl', hl, pageAt, pageAt, (hother _ (fun (e : mtPbas _ = _) => ?_) (by rw [ho]; rfl)).2]
        rw [e, hold] at ho
        exact hqk (Role.mt.inj ho).symm
  refine ⟨?_, h.page_lt, fun j hj => ?_, fun j hj => ?_, fun b j hb => ?_, fun j hj => ?_, fun lba hlba => ?_, h.range⟩
  · refine h.logs.congr (fun b j => ?_) (fun b j hb => ?_)
    · by_cases h1 : b = nb
      · subst h1; simp [moveOwn_new, hpool]
      · by_cases h2 : b = mtPbas k
        · subst h2; simp [moveOwn_old _ hne, hold]
        · rw [moveOwn_other _ h2 h1]
    · refine (hother b (fun e => ?_) (by rw [hb]; rfl)).2
      rw [e, hold] at hb
      simp at hb
  · by_cases hjk : j = k
    · subst hjk; rw [Function.update_self]; exact hnb
    · rw [Function.update_of_ne hjk]; exact h.pba_lt j hj
  · by_cases hjk : j = k
    · subst hjk; rw [Function.update_self]; exact moveOwn_new _ _ _ _
    · have ho := h.own_mt j hj
      rw [Function.update_of_ne hjk, (hother _ (fun e => ?_) (by rw [ho]; rfl)).1, ho]
      rw [e, hold] at ho
      exact hjk (Role.mt.inj ho).symm
  · by_cases h1 : b = nb
    · subst h1
      rw [moveOwn_new] at hb
      obtain rfl := Role.mt.inj hb
      exact ⟨hk, Function.update_self _ _ _⟩
    · by_cases h2 : b = mtPbas k
      · rw [h2, moveOwn_old _ hne] at hb
        simp at hb
      · rw [moveOwn_other _ h2 h1] at hb
        obtain ⟨hj, he⟩ := h.mem_mt b j hb
        refine ⟨hj, ?_⟩
        have hjk : j ≠ k := fun e => h2 (e ▸ he.symm)
        rw [Function.update_of_ne hjk, he]
  · by_cases hjk : j = k
    · subst hjk
      obtain ⟨pg, hpg, hx⟩ := h.head j hj
      rw [Function.update_self]
      exact ⟨pg, by rw [hcopy 0 d.pgs_pos, pageAt, hpg]; rfl, hx⟩
    · have ho := h.own_mt j hj
      rw [Function.update_of_ne hjk, MtHead, (hother _ (fun e => ?_) (by rw [ho]; rfl)).2]
      · exact h.head j hj
      · rw [e, hold] at ho
        exact hjk (Role.mt.inj ho).symm
  · rw [hdata _ (d.mtPage_lt hlba)]
    exact h.entry lba hlba

end move

/-! ## Block moves -/

/-- The end of every block move: copy `cnt` pages, and record the old block as garbage. -/
def copyAndDrop (d : Device) (old nb cnt : Nat) : M Int := do
  let ret ← nftlBlockReplace d old nb cnt
  if ret ≠ 0 then pure 1
  else
    let ret ← nftlAddtoGt d [old]
    if ret ≠ 0 then pure 1 else pure 0

/-- The flash and the allocator after `old` was copied to `nb` and dropped. -/
structure Copied (d : Device) (own : Own) (old nb cnt : Nat) (s s' : St) : Prop where
  mt : s'.mt = s.mt
  dl : s'.dl = s.dl
  alloc : ∀ r, r ≠ Role.pool → AllocInv d (moveOwn own old nb r) s'.nand.flash s'.al
  copy : ∀ i, i < cnt → s'.nand.flash nb i = some (pageAt s.nand.flash old i)
  rest : ∀ i, cnt ≤ i → i < d.pgs → s'.nand.flash nb i = none
  other : ∀ r b, b ≠ nb → moveOwn own old nb r b ≠ .pool → s'.nand.flash b = s.nand.flash b

theorem sat_copyAndDrop {s : St} {old nb cnt : Nat} (hd : d.blks < 4096) (hE : E)
    (ha : AllocInv d (Function.update own nb .temp) s.nand.flash s.al) (ht : TabOk s.dl s.mt.mtl) (hnb : nb < d.blks)
    (hold : old < d.blks) (hne : old ≠ nb) (ho : own old ≠ .pool) (hm : Marked s.nand.flash old) (hc : cnt ≤ d.pgs)
    (he : ∀ q, q < d.pgs → s.nand.flash nb q = none) :
    Sat (contract d E) (copyAndDrop d old nb cnt) s (fun r s' => r = 0 ∧ Copied d own old nb cnt s s') := by
  refine Sat.bind (sat_blockReplace hold hnb hne hc he) ?_
  rintro r s₁ ⟨rfl, fl, h₁, hfill⟩
  rw [if_neg (by decide)]
  have ha₁ : AllocInv d (Function.update own nb .temp) s₁.nand.flash s₁.al := by
    rw [h₁.al, h₁.flash]
    refine ha.congr (fun _ => Iff.rfl) fun b hb => hfill.other b fun e => ?_
    rw [e, Function.update_self] at hb
    simp at hb
  have hm₁ : Marked s₁.nand.flash old := by rw [h₁.flash, Marked, hfill.other _ hne]; exact hm
  refine Sat.bind (sat_addtoGt (g := [old]) hd ha₁ (by rw [h₁.mt, h₁.dl]; exact ht) (by simp) (by simp)
    (by simpa using hold) (by simpa [Function.update_of_ne hne] using ho) (by simpa using hm₁) (Or.inl hE)) ?_
  rintro r s₂ ⟨rfl, hf, ha₂, -, -⟩
  rw [if_neg (by decide)]
  have heq : ∀ r b, b ≠ nb → moveOwn own old nb r b = Own.release (Function.update own nb .temp) [old] b := by
    intro r b hb
    rw [moveOwn, Function.update_of_ne hb]
  have hnbrel : Own.release (Function.update own nb .temp) [old] nb = .temp := by simp [Own.release, hne.symm]
  have hnbfl : s₂.nand.flash nb = fl nb := by rw [hf.flash nb (by rw [hnbrel]; simp), h₁.flash]
  refine Sat.pure ⟨rfl, hf.mt.trans h₁.mt, hf.dl.trans h₁.dl, fun r hr => ?_, fun i hi => ?_, fun i hi hi' => ?_,
    fun r b hb hbp => ?_⟩
  · refine ha₂.congr (fun b => ?_) (fun _ _ => rfl)
    by_cases hb : b = nb
    · subst hb; rw [moveOwn_new, hnbrel]; simp [hr]
    · rw [heq r b hb]
  · rw [hnbfl, hfill.done i hi]; rfl
  · rw [hnbfl, hfill.todo i hi hi']
  · rw [hf.flash b (by rw [← heq r b hb]; exact hbp), h₁.flash, hfill.other b hb]

/-- The reads of the chip move no block. -/
def Calm (d : Device) (s : St) : Prop := d.NoEcc ∧ s.nand.ecc ≤ eccErrLimit

/-- The reads of the chip move no block, or a move of a map block finds the right table entry. -/
def Quiet (d : Device) (E : Prop) (s : St) : Prop := (E ∧ d.mtBlkcnt = 1) ∨ Calm d s

theorem calm_step {s : St} {l : List Event} {s' : St} (h : (contract d E).step s l s') (hc : Calm d s) : Calm d s' :=
  ⟨hc.1, h.ecc hc.1 hc.2⟩

theorem quiet_step (s : St) (l : List Event) (s' : St) (h : (contract d E).step s l s') (hq : Quiet d E s) :
    Quiet d E s' :=
  hq.imp id (calm_step h)

/-- On a chip whose reads move no block, the allocator is unchanged. -/
def Steady (d : Device) (s s' : St) : Prop := Calm d s → Calm d s' ∧ s'.al = s.al

theorem Steady.trans {s s' s'' : St} (h : Steady d s s') (h' : Steady d s' s'') : Steady d s s'' := fun hc =>
  ⟨(h' (h hc).1).1, (h' (h hc).1).2.trans (h hc).2⟩

theorem Steady.refl (d : Device) (s : St) : Steady d s s := fun hc => ⟨hc, rfl⟩

/-- What holds of the allocator, and is excused by `E`, carries over. -/
theorem Steady.carry {s s' : St} {Q : Alloc → Prop} (h : Steady d s s') (hq : Quiet d E s) (hE : E → Q s'.al)
    (hQ : Q s.al) : Q s'.al := by
  by_cases hx : E
  · exact hE hx
  · have hc : Calm d s := hq.resolve_left fun hy => hx hy.1
    rw [(h hc).2]
    exact hQ

theorem toU8_natCast {n : Nat} (h : n < 256) : toU8 (n : Int) = n := by
  unfold toU8
  omega

/-- The table entry that the move of map page `p` looks for is the right one: the one of index 0, or none. -/
def RightEntry (d : Device) (ml : List Log) (p : Nat) : Prop := p / d.pgs = 0 ∨ lookupIn ml (p / d.pgs) p = none

theorem rightEntry_single {p : Nat} (h1 : d.mtBlkcnt = 1) (hp : p < d.nrMtpage) : RightEntry d ml p := by
  have h := d.mtIndex_lt hp
  rw [h1] at h
  exact Or.inl (Nat.lt_one_iff.mp h)

theorem sat_moveMtPage {s : St} (hf : d.Fits) (h : Core d own map ml s) (hE : E) {p : Nat} (hright : RightEntry d ml p)
    (hp : p < d.nrMtpage) (hc : s.mt.cacheblock = (mtLoc d s.mt.mtPbas ml p).1) :
    Sat (contract d E) (moveMtPage d p) s (fun r s' => r = 0 ∧ ∃ own' ml', Core d own' map ml' s' ∧ s'.dl = s.dl ∧
      Keeps Role.user own s.nand.flash own' s'.nand.flash) := by
  have hpk := d.mtIndex_lt hp
  have hno := d.blks_lt_noBlock
  refine Sat.bind (sat_findMtpgInMtl h.rep h.inv.logs.nodup p) ?_
  rintro _ s ⟨rfl, rfl⟩
  rcases h.inv.loc_cases p with ⟨lg, hlg, i, hk, hi, hloc⟩ | ⟨hnone, hloc⟩
  · -- the page is in an MTLog block
    have hlook : lookupIn ml (p / d.pgs) p = some (lg.pba, i) := by
      rw [← hk, lookupIn_of_mem h.inv.logs.nodup hlg, hi]; rfl
    rw [hlook]
    refine Sat.bind (sat_getFreeBlock hf.blks_lt h.alloc.pool (Or.inl hE)) ?_
    rintro nb _ ⟨hb, rfl⟩
    have hnb := h.alloc.pool.free_lt nb hb
    have hpool := h.alloc.pool.own_free hb
    rw [if_neg (by omega)]
    obtain ⟨pre, post, rfl⟩ := List.append_of_mem hlg
    have hlog := h.inv.logs.owned lg hlg
    have hpg := h.inv.logs.pages lg hlg
    have hil : i < d.pgs := lt_of_lt_of_le (lookup_lt hi) hpg.fits
    have hk0 : lg.key = i / d.pgs := by
      rw [Nat.div_eq_of_lt hil, hk]
      exact hright.resolve_right (by rw [hlook]; simp)
    have hpre : ∀ x ∈ pre, (decide (x.block.key = i / d.pgs) && decide (x.block.pba = lg.pba)) = false := by
      intro x hx
      have := h.inv.logs.key_ne (x := x) (by simp [hx])
      rw [hk0] at this
      simp [Log.block, this]
    obtain ⟨t, hupd, hrep⟩ := update_rep (c := mtlCap)
      (p := fun b => decide (b.key = i / d.pgs) && decide (b.pba = lg.pba)) h.rep nb hpre (by simp [Log.block, hk0])
    refine Sat.bind (Q := fun r s' => r = (lg.seq.length : Int) ∧
      s' = { s with al := s.al.take nb, mt := { s.mt with mtl := t } }) ?_ ?_
    · refine Sat.get_bind (Sat.lift_bind hupd ?_)
      refine Sat.bind (sat_setMtl (s := { s with al := s.al.take nb }) (hrep.tabOk (s := s) h.tab) h.gar_le) ?_
      rintro _ _ rfl
      exact Sat.pure ⟨rfl, rfl⟩
    rintro _ _ ⟨rfl, rfl⟩
    have hlen := hpg.fits
    have hpgs := d.pgs_le
    rw [toU8_natCast (by omega)]
    have hne : lg.pba ≠ nb := fun e => by rw [e, hpool] at hlog; simp at hlog
    have ha := h.alloc.take hb (show Role.temp ≠ .pool by simp)
    obtain ⟨pg0, p0, hpg0, hty, -⟩ := hpg.head
    refine (sat_copyAndDrop (s := { s with al := s.al.take nb, mt := { s.mt with mtl := t } }) hf.blks_lt hE ha
      (hrep.tabOk (s := s) h.tab) hnb (h.inv.logs.lt lg hlg) hne (by rw [hlog]; simp)
      ⟨pg0, hpg0, Or.inr (Or.inr (Or.inr hty))⟩ hlen (h.alloc.pool.erased nb hb)).mono ?_
    rintro r s' ⟨rfl, hcp⟩
    have hinv := h.inv.moveLog hnb hpool (show LogPages d s'.nand.flash (MtlTag d) ⟨lg.key, nb, lg.seq⟩ from
      ⟨fun j q hj => ?_, hcp.rest, hpg.nonempty, hpg.fits, hpg.key⟩) hcp.copy (hcp.other _)
    · refine ⟨rfl, _, pre ++ ⟨lg.key, nb, lg.seq⟩ :: post, ⟨hcp.alloc (.mtl lg.key) (by simp), ?_, ?_, ?_, ?_, ?_⟩,
        hcp.dl, ?_⟩
      · rw [hcp.mt]; exact hinv
      · rw [hcp.mt]; exact hrep
      · intro q hq hl
        have hm := hinv.loc_map (d.mtIndex_lt hq)
        rw [hcp.mt] at hl
        simp only at hl
        rw [hl, hc, hloc, moveOwn_old _ hne] at hm
        simp [Role.map] at hm
      · intro x hx
        rcases mem_middle.mp hx with rfl | hx
        · exact h.short lg hlg
        · exact h.short x (mem_middle.mpr (Or.inr hx))
      · rw [hcp.mt, hcp.dl]; exact hrep.tabOk (s := s) h.tab
      · exact keeps_move rfl hpool hne (by rw [hlog]; rfl) rfl (hcp.other _)
    · obtain ⟨pg, hpg', ht⟩ := hpg.done j q hj
      refine ⟨pg, ?_, ht⟩
      rw [hcp.copy j (List.getElem?_eq_some_iff.mp hj).1]
      simp [pageAt, hpg']
  · -- the page is in its MapTab block
    rw [hnone]
    refine Sat.bind (sat_getFreeBlock hf.blks_lt h.alloc.pool (Or.inl hE)) ?_
    rintro nb _ ⟨hb, rfl⟩
    have hnb := h.alloc.pool.free_lt nb hb
    have hpool := h.alloc.pool.own_free hb
    have hold := h.inv.own_mt _ hpk
    have hk6 := lt_trans hpk hf.map_lt
    rw [if_neg (by omega)]
    refine Sat.bind (sat_mtPbaAt hk6) ?_
    rintro _ _ ⟨rfl, rfl⟩
    refine Sat.bind (sat_setMtPba hk6) ?_
    rintro _ _ rfl
    have hne : s.mt.mtPbas (p / d.pgs) ≠ nb := fun e => by rw [e, hpool] at hold; simp at hold
    have ha := h.alloc.take hb (show Role.temp ≠ .pool by simp)
    obtain ⟨pg0, hpg0, hty, -⟩ := h.inv.head _ hpk
    refine (sat_copyAndDrop (s := { s with al := s.al.take nb, mt := { s.mt with
      mtPbas := Function.update s.mt.mtPbas (p / d.pgs) nb } }) hf.blks_lt hE ha h.tab hnb (h.inv.pba_lt _ hpk) hne
      (by rw [hold]; simp) ⟨pg0, hpg0, Or.inr (Or.inr (Or.inl hty))⟩ (le_refl _) (h.alloc.pool.erased nb hb)).mono ?_
    rintro r s' ⟨rfl, hcp⟩
    have hinv := h.inv.moveTab hpk hnb hpool hcp.copy (hcp.other _)
    refine ⟨rfl, _, ml, ⟨hcp.alloc (.mt (p / d.pgs)) (by simp), ?_, ?_, ?_, h.short, ?_⟩, hcp.dl, ?_⟩
    · rw [hcp.mt]; exact hinv
    · rw [hcp.mt]; exact h.rep
    · intro q hq hl
      have hm := hinv.loc_map (d.mtIndex_lt hq)
      rw [hcp.mt] at hl
      simp only at hl
      rw [hl, hc, hloc, moveOwn_old _ hne] at hm
      simp [Role.map] at hm
    · rw [hcp.mt, hcp.dl]; exact h.tab
    · exact keeps_move rfl hpool hne (by rw [hold]; rfl) rfl (hcp.other _)

theorem clampPba_range {pba : Nat} (h : pba = noBlock ∨ pba < d.blks) : clampPba d pba = pba := by
  rw [clampPba, if_neg]
  rintro ⟨h1, h2⟩
  rcases h with h | h
  · exact h1 h
  · omega

/-- A state with another page of the map in the cache. -/
theorem Core.cached {s s' : St} (h : Core d own map ml s) {p : Nat} (hc : Cached d ml p s s') :
    Core d own map ml s' := by
  have hpb : s'.mt.mtPbas = s.mt.mtPbas := by rw [hc.mt]
  refine ⟨by rw [hc.flash, hc.al]; exact h.alloc, by rw [hc.flash, hpb]; exact h.inv, by rw [hc.mt]; exact h.rep, ?_,
    h.short, by rw [hc.dl, hc.mt]; exact h.tab⟩
  intro q hq hl
  rw [hpb, hc.flash]
  rw [hpb, hc.mt] at hl
  rw [hc.mt, mtData, mtData, hl]

/-- A lookup of map page `p` that moves its block finds the right table entry. -/
def MoveOk (d : Device) (ml : List Log) (s : St) (p : Nat) : Prop :=
  eccErrLimit < accessEcc d s (mtLoc d s.mt.mtPbas ml p).1 (mtLoc d s.mt.mtPbas ml p).2 → RightEntry d ml p

theorem accessEcc_le {s : St} (hc : Calm d s) (b p : Nat) : accessEcc d s b p ≤ eccErrLimit := by
  rw [accessEcc]
  split_ifs
  · exact hc.2
  · exact hc.1 _

theorem Quiet.moveOk {s : St} (hq : Quiet d E s) {p : Nat} (hp : p < d.nrMtpage) : MoveOk d ml s p := by
  intro he
  rcases hq with hq | hq
  · exact rightEntry_single hq.2 hp
  · exact absurd he (not_lt.mpr (accessEcc_le hq _ _))

/-- A block may be moved, or no read of the chip moves one. -/
def Mobile (d : Device) (E : Prop) (s : St) : Prop := E ∨ Calm d s

theorem Quiet.mobile {s : St} (hq : Quiet d E s) : Mobile d E s := hq.imp And.left id

theorem mobile_step (s : St) (l : List Event) (s' : St) (h : (contract d E).step s l s') (hq : Mobile d E s) :
    Mobile d E s' :=
  hq.imp id (calm_step h)

theorem Mobile.of_ecc {s : St} (hq : Mobile d E s) (he : eccErrLimit < s.nand.ecc) : E :=
  hq.resolve_right fun hc => absurd he (not_lt.mpr hc.2)

/-- `nftl_lba_to_pba` answers the map when the move of the map block, if there is one, finds its table entry. -/
theorem sat_lbaToPba_of {s : St} (hf : d.Fits) (h : Core d own map ml s) {lba : Nat} (hlba : lba < d.blks)
    (hq : Mobile d E s) (hok : MoveOk d ml s (lba / d.words)) :
    Sat (contract d E) (nftlLbaToPba d lba) s (fun r s' => r = (0, map lba) ∧ ∃ own' ml', Core d own' map ml' s' ∧
      s'.dl = s.dl ∧ Keeps Role.user own s.nand.flash own' s'.nand.flash ∧ Steady d s s') := by
  have hp := d.mtPage_lt hlba
  have hk6 : lba / d.words / d.pgs < mtMaxBlocks := lt_trans (d.mtIndex_lt hp) hf.map_lt
  refine Sat.bind (sat_getPhysicalMt h.rep h.inv.logs.nodup hk6) ?_
  rintro _ s ⟨rfl, rfl⟩
  refine Sat.bind (((sat_cacheMtPage_ecc h.inv h.cache hp).with_inv mobile_step hq).with_inv
    (I := fun s' => Calm d s → Calm d s') (fun _ _ _ hst hx hc => calm_step hst (hx hc)) id) ?_
  rintro _ s₁ ⟨⟨⟨rfl, h₁, hacc⟩, hq₁⟩, hcalm⟩
  have hc₁ := h.cached h₁
  rw [if_pos rfl]
  refine Sat.get_bind ?_
  have hword : word s₁.mt.readcache (lba % d.words) = map lba := by
    rw [h₁.mt]; exact h.inv.entry lba hlba
  have hclamp : clampPba d (map lba) = map lba := clampPba_range (h.inv.range lba hlba)
  by_cases hecc : eccErrLimit < s₁.nand.ecc
  · have hE : E := hq₁.of_ecc hecc
    have hno : ¬ Calm d s₁ := fun hx => by have := hx.2; omega
    rw [if_pos hecc]
    refine Sat.bind (sat_moveMtPage hf hc₁ hE (hok (by rwa [hacc] at hecc)) hp (by rw [h₁.mt])) ?_
    rintro r s₂ ⟨rfl, own', ml', hc₂, hdl, hk⟩
    rw [if_neg (by decide), hword, hclamp]
    refine Sat.pure ⟨rfl, own', ml', hc₂, hdl.trans h₁.dl, ?_, fun hc => absurd (hcalm hc) hno⟩
    rwa [h₁.flash] at hk
  · rw [if_neg hecc, hword, hclamp]
    refine Sat.pure ⟨rfl, own, ml, hc₁, h₁.dl, ?_, fun hc => ⟨hcalm hc, h₁.al⟩⟩
    rw [h₁.flash]
    exact Keeps.refl _ _ _

/-- `nftl_lba_to_pba` answers the map. -/
theorem sat_lbaToPba {s : St} (hf : d.Fits) (h : Core d own map ml s) {lba : Nat} (hlba : lba < d.blks)
    (hq : Quiet d E s) :
    Sat (contract d E) (nftlLbaToPba d lba) s (fun r s' => r = (0, map lba) ∧ ∃ own' ml', Core d own' map ml' s' ∧
      s'.dl = s.dl ∧ Keeps Role.user own s.nand.flash own' s'.nand.flash ∧ Steady d s s') :=
  sat_lbaToPba_of hf h hlba hq.mobile (hq.moveOk (d.mtPage_lt hlba))

end Emlinux.Nftl
