import Emlinux.Nftl.Remount

/-!
# The first mount

On an erased chip the scan finds free and bad blocks only, and `NFTL_mount` creates the MapTab blocks: page `i`
of the map table is page `i % nr_pgsinblk` of MapTab block `i / nr_pgsinblk`, all entries `0xffff`.
-/

namespace Emlinux.Nftl

open Lib

variable {d : Device} {E : Prop} {bd : Nat → Bool} {s : St} {n : Nand}

/-! ## The image of an erased chip -/

/-- Every block is free or bad. -/
def freshOwn (d : Device) (bd : Nat → Bool) : Own := fun b => if b < d.blks ∧ bd b = false then .pool else .bad

def freshAlloc (d : Device) (bd : Nat → Bool) : Alloc where
  blockstatus b := decide (b < d.blks) && !bd b
  freeBlkcnt := freeCount (fun b => decide (b < d.blks) && !bd b) d.blks
  lastfree := 0
  gtPba := noBlock
  gtPgcnt := 0
  gar := []

theorem freshOwn_cases (d : Device) (bd : Nat → Bool) (b : Nat) : freshOwn d bd b = .pool ∨ freshOwn d bd b = .bad := by
  unfold freshOwn
  split_ifs
  · exact Or.inl rfl
  · exact Or.inr rfl

theorem fresh_pool (bd : Nat → Bool) {fl : Flash} (he : ∀ b p, b < d.blks → p < d.pgs → fl b p = none) :
    Pool d (freshOwn d bd) fl (freshAlloc d bd) [] noBlock := by
  have hno := d.blks_lt_noBlock
  have hst : ∀ b, (freshAlloc d bd).blockstatus b = true ↔ b < d.blks ∧ bd b = false := by
    intro b
    simp [freshAlloc]
  refine ⟨fun b => ?_, fun b hb => ((hst b).mp hb).1, by simp, fun b hb => ?_, by simp, by simp, by simp, Or.inl rfl,
    fun b hb p hp => he b p ((hst b).mp hb).1 hp, rfl, d.blks_pos⟩
  · rw [hst, freshOwn]
    constructor
    · intro h
      split_ifs at h with hc
      exact ⟨hc.1, Or.inl hc⟩
    · rintro ⟨hb, hc | hc | hc⟩
      · rw [if_pos hc]
      · simp at hc
      · omega
  · have := ((hst b).mp hb).1
    omega

theorem fresh_image (bd : Nat → Bool) {fl : Flash} (he : ∀ b p, b < d.blks → p < d.pgs → fl b p = none) :
    Image d bd (freshOwn d bd) fl (freshAlloc d bd) (fun _ => noBlock) [] [] := by
  have hne : ∀ b r, r ≠ .pool → r ≠ .bad → freshOwn d bd b ≠ r := by
    intro b r h1 h2 e
    rcases freshOwn_cases d bd b with hc | hc
    · exact h1 (e.symm.trans hc)
    · exact h2 (e.symm.trans hc)
  have hnil : ∀ (role : Nat → Role) (tag : Nat → Spare → Prop), (∀ k, role k ≠ .pool) → (∀ k, role k ≠ .bad) →
      Logs d role tag (freshOwn d bd) fl [] := by
    intro role tag h1 h2
    exact ⟨List.nodup_nil, by simp, by simp, fun b k hb => absurd hb (hne b _ (h1 k) (h2 k)), by simp⟩
  refine ⟨⟨fresh_pool bd he, by simp [freshAlloc], Or.inl ⟨rfl, rfl, rfl⟩⟩, fun b hb => ?_, fun b => hne b _ (by simp) (by simp),
    fun b k hb => absurd hb (hne b _ (by simp) (by simp)), hnil _ _ (by simp) (by simp), by simp, by simp, by simp, by simp,
    hnil _ _ (by simp) (by simp), by simp, by simp, by simp, by simp, fun _ _ => Or.inl rfl,
    fun b k hb => absurd hb (hne b _ (by simp) (by simp))⟩
  unfold freshOwn
  split_ifs with hc
  · simp [hc.2]
  · have : bd b = true := by
      by_contra hx
      exact hc ⟨hb, by simpa using hx⟩
    simp [this]

/-! ## Creating the MapTab blocks -/

/-- The first page of a MapTab block is a page of the map table. -/
theorem Device.mul_lt_nrMtpage (d : Device) {k : Nat} (hk : k < d.mtBlkcnt) : k * d.pgs < d.nrMtpage := by
  unfold Device.mtBlkcnt Device.erasesize at hk
  rw [Nat.mul_comm d.pgs, ← Nat.div_div_eq_div_mul] at hk
  have h1 : k * d.pgs ≤ (d.blks - 1) * 2 / d.writesize / d.pgs * d.pgs := Nat.mul_le_mul_right _ (by omega)
  have h2 := Nat.div_mul_le_self ((d.blks - 1) * 2 / d.writesize) d.pgs
  unfold Device.nrMtpage
  omega

/-- The first `i` pages of the map table are written, and the MapTab blocks of the first `j` are there. -/
structure Formatting (d : Device) (bd : Nat → Bool) (i j : Nat) (own : Own) (s : St) : Prop where
  alloc : AllocInv d own s.nand.flash s.al
  clean : s.al.Clean
  roles : ∀ b, own b = .pool ∨ own b = .bad ∨ ∃ k, own b = .mt k
  bad : ∀ b, b < d.blks → (own b = .bad ↔ bd b = true)
  pba : ∀ k, k * d.pgs < j → s.mt.mtPbas k < d.blks ∧ own (s.mt.mtPbas k) = .mt k
  mem : ∀ b k, own b = .mt k → k * d.pgs < j ∧ s.mt.mtPbas k = b
  page : ∀ p, p < i → ∃ info, s.nand.flash (s.mt.mtPbas (p / d.pgs)) (p % d.pgs) = some ⟨ffData, ⟨.mapTab, info⟩⟩ ∧
    info % 256 = p / d.pgs ∧ (p = 0 → info / 256 % 65536 < d.blks)
  rest : ∀ k q, k * d.pgs < j → i ≤ k * d.pgs + q → q < d.pgs → s.nand.flash (s.mt.mtPbas k) q = none
  mtl : Rep mtlCap s.mt.mtl []
  dl : Rep dlCap s.dl []
  cache : s.mt.cacheblock = noBlock

theorem Formatting.reflash {i j : Nat} {own : Own} {s' : St} (h : Formatting d bd i j own s)
    (hr : Reflash s s.nand.flash s') : Formatting d bd i j own s' := by
  obtain ⟨e, k, rfl⟩ := hr
  exact ⟨h.alloc, h.clean, h.roles, h.bad, h.pba, h.mem, h.page, h.rest, h.mtl, h.dl, h.cache⟩

theorem Formatting.tab {i j : Nat} {own : Own} (h : Formatting d bd i j own s) : TabOk s.dl s.mt.mtl :=
  ⟨by rw [h.dl.blkcnt]; exact Nat.zero_le _, by rw [h.dl.pgcnt]; exact Nat.zero_le _,
    by rw [h.mtl.blkcnt]; exact Nat.zero_le _⟩

section format

variable {i b info : Nat} {own : Own}

/-- A free block for each MapTab block that is still to be created. -/
def Supply (d : Device) (E : Prop) (i : Nat) (al : Alloc) : Prop :=
  E ∨ d.mtBlkcnt ≤ al.freeBlkcnt + (i + d.pgs - 1) / d.pgs

theorem ceil_of_mod (hi : i % d.pgs = 0) : (i + d.pgs - 1) / d.pgs = i / d.pgs := by
  have hpos := d.pgs_pos
  have hdm := Nat.div_add_mod i d.pgs
  rw [hi, Nat.add_zero] at hdm
  rw [show i + d.pgs - 1 = d.pgs * (i / d.pgs) + (d.pgs - 1) by omega, Nat.mul_add_div hpos,
    Nat.div_eq_of_lt (show d.pgs - 1 < d.pgs by omega), Nat.add_zero]

theorem ceil_succ : (i + 1 + d.pgs - 1) / d.pgs = i / d.pgs + 1 := by
  rw [show i + 1 + d.pgs - 1 = i + d.pgs by omega, Nat.add_div_right _ d.pgs_pos]

theorem ceil_of_mod_ne (hi : i % d.pgs ≠ 0) : (i + d.pgs - 1) / d.pgs = i / d.pgs + 1 := by
  have hpos := d.pgs_pos
  have hdm := Nat.div_add_mod i d.pgs
  have hlt := Nat.mod_lt i hpos
  rw [show i + d.pgs - 1 = d.pgs * (i / d.pgs) + (i % d.pgs - 1) + d.pgs by omega, Nat.add_div_right _ hpos,
    Nat.mul_add_div hpos, Nat.div_eq_of_lt (show i % d.pgs - 1 < d.pgs by omega), Nat.add_zero]

/-- The MapTab block of a page that is not the first of its block is there. -/
theorem mul_lt_succ_iff (hi : i % d.pgs ≠ 0) (k : Nat) : k * d.pgs < i + 1 ↔ k * d.pgs < i := by
  have hne : k * d.pgs ≠ i := fun e => hi (by rw [← e]; exact Nat.mul_mod_left _ _)
  omega

theorem mul_lt_succ_iff_or (hi : i % d.pgs = 0) (k : Nat) : k * d.pgs < i + 1 ↔ k * d.pgs < i ∨ k = i / d.pgs := by
  have hdm := Nat.div_add_mod i d.pgs
  rw [hi, Nat.add_zero, Nat.mul_comm] at hdm
  constructor
  · intro h
    by_cases hk : k * d.pgs = i
    · right
      rw [← hk, Nat.mul_div_cancel _ d.pgs_pos]
    · left; omega
  · rintro (h | rfl)
    · omega
    · omega

/-- A MapTab block is taken for its first page. -/
theorem sat_openMapTab (hf : d.Fits) (h : Formatting d bd i i own s) (hi : i < d.nrMtpage) (hS : Supply d E i s.al) :
    Sat (contract d E) (openMapTab d i) s (fun r s' => r = true ∧ (∃ own', Formatting d bd i (i + 1) own' s') ∧
      Supply d E (i + 1) s'.al ∧ (i = 0 → s'.al.lastfree < d.blks)) := by
  have hno := d.blks_lt_noBlock
  have hk := d.mtIndex_lt hi
  have hk6 : i / d.pgs < mtMaxBlocks := lt_trans hk hf.map_lt
  unfold openMapTab
  by_cases hm : i % d.pgs = 0
  · rw [if_pos hm]
    refine Sat.modify_bind (step_ram d E rfl) ?_
    have hpool : Pool d own s.nand.flash { s.al with lastfree := 0 } s.al.gar s.al.gtPba :=
      { h.alloc.pool with last := d.blks_pos }
    have hpos : E ∨ 0 < s.al.freeBlkcnt := by
      refine hS.imp id fun hS => ?_
      rw [ceil_of_mod hm] at hS
      omega
    refine Sat.bind (sat_getFreeBlock (s := { s with al := { s.al with lastfree := 0 } }) hf.blks_lt hpool hpos) ?_
    rintro b _ ⟨hb, rfl⟩
    refine Sat.bind (sat_setMtPba hk6) ?_
    rintro _ _ rfl
    have hown := hpool.own_free hb
    have hlt := hpool.free_lt b hb
    have hfree : (Alloc.take { s.al with lastfree := 0 } b).freeBlkcnt + 1 = s.al.freeBlkcnt := hpool.free_take hb
    have hnb : b ≠ noBlock := by omega
    have hother : ∀ x, x ≠ b → Function.update own b (.mt (i / d.pgs)) x = own x := fun x hx => Function.update_of_ne hx _ _
    have hkeep : ∀ k, k * d.pgs < i → Function.update s.mt.mtPbas (i / d.pgs) b k = s.mt.mtPbas k := by
      intro k hki
      refine Function.update_of_ne (fun e => ?_) _ _
      have := Nat.div_mul_le_self i d.pgs
      rw [e, Nat.div_mul_cancel (Nat.dvd_of_mod_eq_zero hm)] at hki
      omega
    have hne : ∀ k, k * d.pgs < i → s.mt.mtPbas k ≠ b := fun k hki e => by
      have := (h.pba k hki).2
      rw [e, hown] at this
      simp at this
    refine Sat.pure ⟨by simp [hnb], ⟨Function.update own b (.mt (i / d.pgs)), ?_, ?_, fun x => ?_, fun x hx => ?_, fun k hki => ?_,
      fun x k hx => ?_, fun p hp => ?_, fun k q hki hiq hq => ?_, h.mtl, h.dl, h.cache⟩, ?_, fun _ => hlt⟩
    · have ha : AllocInv d own s.nand.flash { s.al with lastfree := 0 } := ⟨hpool, h.alloc.marked, h.alloc.tab⟩
      exact ha.take hb (by simp)
    · exact h.clean
    · by_cases hxb : x = b
      · subst hxb; exact Or.inr (Or.inr ⟨_, Function.update_self _ _ _⟩)
      · rw [hother x hxb]; exact h.roles x
    · by_cases hxb : x = b
      · subst hxb
        have := h.bad x hx
        rw [hown] at this
        simpa using this
      · rw [hother x hxb]; exact h.bad x hx
    · rcases (mul_lt_succ_iff_or hm k).mp hki with hki | rfl
      · show Function.update s.mt.mtPbas (i / d.pgs) b k < _ ∧
          Function.update own b _ (Function.update s.mt.mtPbas (i / d.pgs) b k) = _
        rw [hkeep k hki, hother _ (hne k hki)]
        exact h.pba k hki
      · show Function.update s.mt.mtPbas (i / d.pgs) b _ < _ ∧ Function.update own b _ (Function.update s.mt.mtPbas (i / d.pgs) b _) = _
        rw [Function.update_self, Function.update_self]
        exact ⟨hlt, rfl⟩
    · show _ ∧ Function.update s.mt.mtPbas (i / d.pgs) b k = x
      by_cases hxb : x = b
      · subst hxb
        rw [Function.update_self] at hx
        obtain rfl := Role.mt.inj hx
        exact ⟨(mul_lt_succ_iff_or hm _).mpr (Or.inr rfl), Function.update_self _ _ _⟩
      · rw [hother x hxb] at hx
        obtain ⟨h1, h2⟩ := h.mem x k hx
        exact ⟨by omega, by rw [hkeep k h1]; exact h2⟩
    · have hp' : p / d.pgs * d.pgs < i := lt_of_le_of_lt (Nat.div_mul_le_self p d.pgs) hp
      show ∃ info, s.nand.flash (Function.update s.mt.mtPbas (i / d.pgs) b (p / d.pgs)) _ = _ ∧ _
      rw [hkeep _ hp']
      exact h.page p hp
    · show s.nand.flash (Function.update s.mt.mtPbas (i / d.pgs) b k) q = none
      rcases (mul_lt_succ_iff_or hm k).mp hki with hki | rfl
      · rw [hkeep k hki]
        exact h.rest k q hki hiq hq
      · rw [Function.update_self]
        exact hpool.erased b hb q hq
    · refine hS.imp id fun hS => ?_
      rw [ceil_of_mod hm] at hS
      rw [ceil_succ]
      show _ ≤ (Alloc.take { s.al with lastfree := 0 } b).freeBlkcnt + _
      omega
  · rw [if_neg hm]
    refine Sat.pure ⟨rfl, ⟨own, ?_⟩, ?_, fun e => absurd (by rw [e]; exact Nat.zero_mod _) hm⟩
    · have hiff := mul_lt_succ_iff hm
      exact ⟨h.alloc, h.clean, h.roles, h.bad, fun k hki => h.pba k ((hiff k).mp hki),
        fun x k hx => ⟨(hiff k).mpr (h.mem x k hx).1, (h.mem x k hx).2⟩, h.page,
        fun k q hki => h.rest k q ((hiff k).mp hki), h.mtl, h.dl, h.cache⟩
    · refine hS.imp id fun hS => ?_
      rw [ceil_of_mod_ne hm] at hS
      rwa [ceil_succ]

/-- Page `i` of the map table is written. -/
theorem sat_writeMapTab (hf : d.Fits) (h : Formatting d bd i (i + 1) own s) (hi : i < d.nrMtpage)
    (hinfo : info % 256 = i / d.pgs ∧ (i = 0 → info / 256 % 65536 < d.blks)) :
    Sat (contract d E) (writeMapTab d i ⟨ffData, ⟨.mapTab, info⟩⟩) s (fun _ s' => s'.al = s.al ∧
      Formatting d bd (i + 1) (i + 1) own s') := by
  have hk6 : i / d.pgs < mtMaxBlocks := lt_trans (d.mtIndex_lt hi) hf.map_lt
  have hdm := Nat.div_add_mod i d.pgs
  have hmod := Nat.mod_lt i d.pgs_pos
  have hki : i / d.pgs * d.pgs < i + 1 := by
    have := Nat.div_mul_le_self i d.pgs
    omega
  obtain ⟨hlt, hown⟩ := h.pba _ hki
  refine Sat.bind (sat_mtPbaAt hk6) ?_
  rintro _ s ⟨rfl, rfl⟩
  refine Sat.bind (sat_mtdWrite _ hlt hmod fun q hq hq' => h.rest _ q hki ?_ hq') ?_
  · rw [Nat.mul_comm] at hdm
    omega
  rintro r s₁ ⟨rfl, h₁⟩
  rw [if_neg (by decide)]
  have hfl := h₁.flash
  refine Sat.pure ⟨h₁.al, ?_, by rw [h₁.al]; exact h.clean, h.roles, h.bad, fun k hk => by rw [h₁.mt]; exact h.pba k hk,
    fun x k hx => by rw [h₁.mt]; exact h.mem x k hx, fun p hp => ?_, fun k q hk hq hq' => ?_, by rw [h₁.mt]; exact h.mtl,
    by rw [h₁.dl]; exact h.dl, by rw [h₁.mt]; exact h.cache⟩
  · rw [h₁.al, hfl]
    refine h.alloc.congr (fun _ => Iff.rfl) fun x hx => setPage_block_ne _ _ _ fun e => ?_
    rw [e, hown] at hx
    simp at hx
  · rw [h₁.mt, hfl]
    by_cases hpi : p = i
    · subst hpi
      exact ⟨info, setPage_self _ _ _ _, hinfo⟩
    · rw [setPage_eq]
      · exact h.page p (by omega)
      · intro e1 e2
        have hpk : p / d.pgs * d.pgs < i + 1 := lt_of_le_of_lt (Nat.div_mul_le_self p d.pgs) (by omega)
        have := (h.pba _ hpk).2
        rw [e1, hown] at this
        have hdiv := Role.mt.inj this
        have hdp := Nat.div_add_mod p d.pgs
        rw [← hdiv, e2] at hdp
        omega
  · rw [h₁.mt, hfl, setPage_eq]
    · exact h.rest k q hk (by omega) hq'
    · intro e1 e2
      have := (h.pba k hk).2
      rw [e1, hown] at this
      have hdiv := Role.mt.inj this
      rw [← hdiv, e2, Nat.mul_comm] at hq
      omega

theorem setTab_mod (old ofs : Nat) {tab : Nat} (h : tab < 256) : Spare.setTab old tab ofs % 256 = tab := by
  unfold Spare.setTab
  omega

theorem setTab_div (old tab : Nat) {ofs : Nat} (h : ofs < 65536) : Spare.setTab old tab ofs / 256 % 65536 = ofs := by
  unfold Spare.setTab
  omega

theorem sat_formatPage (hf : d.Fits) (h : Formatting d bd i i own s) (hi : i < d.nrMtpage) (hS : Supply d E i s.al) :
    Sat (contract d E) (formatPage d i info) s (fun r s' => (∃ info', r = .next info') ∧
      (∃ own', Formatting d bd (i + 1) (i + 1) own' s') ∧ Supply d E (i + 1) s'.al) := by
  have hk6 : i / d.pgs < 6 := lt_trans (d.mtIndex_lt hi) hf.map_lt
  have hle := d.blks_le
  refine Sat.bind (sat_openMapTab hf h hi hS) ?_
  rintro _ s₁ ⟨rfl, ⟨own₁, h₁⟩, hS₁, hlast⟩
  rw [if_pos rfl]
  refine Sat.get_bind ?_
  refine Sat.bind (sat_writeMapTab hf h₁ hi ⟨setTab_mod _ _ (by omega), fun hi0 => ?_⟩) ?_
  · rw [if_pos hi0]
    have := hlast hi0
    rw [setTab_div _ _ (by omega)]
    exact this
  rintro _ s₂ ⟨hal, h₂⟩
  exact Sat.pure ⟨⟨_, rfl⟩, ⟨own₁, h₂⟩, by rw [hal]; exact hS₁⟩

/-- All pages of the map table are written: the store is empty. -/
theorem Formatting.ftl (h : Formatting d bd d.nrMtpage d.nrMtpage own s) : Ftl d bd own (fun _ => noBlock) [] [] s := by
  have hno := d.blks_lt_noBlock
  have hne : ∀ x r, r ≠ .pool → r ≠ .bad → (∀ k, r ≠ .mt k) → own x ≠ r := by
    intro x r h1 h2 h3 e
    rcases h.roles x with hx | hx | ⟨k, hx⟩
    · exact h1 (e.symm.trans hx)
    · exact h2 (e.symm.trans hx)
    · exact h3 k (e.symm.trans hx)
  have hnil : ∀ (role : Nat → Role) (tag : Nat → Spare → Prop), (∀ k, role k ≠ .pool) → (∀ k, role k ≠ .bad) →
      (∀ j k, role j ≠ .mt k) → Logs d role tag own s.nand.flash [] := fun role tag h1 h2 h3 =>
    ⟨List.nodup_nil, by simp, by simp, fun x k hx => absurd hx (hne x _ (h1 k) (h2 k) (h3 k)), by simp⟩
  have hloc : ∀ p, mtLoc d s.mt.mtPbas [] p = (s.mt.mtPbas (p / d.pgs), p % d.pgs) := fun p => rfl
  have hinv : MapInv d own (fun _ => noBlock) [] s.nand.flash s.mt.mtPbas := by
    refine ⟨hnil _ _ (by simp) (by simp) (by simp), by simp, fun k hk => (h.pba k (d.mul_lt_nrMtpage hk)).1,
      fun k hk => (h.pba k (d.mul_lt_nrMtpage hk)).2, fun x k hx => ?_, fun k hk => ?_, fun lba hlba => ?_, fun _ _ => Or.inl rfl⟩
    · obtain ⟨h1, h2⟩ := h.mem x k hx
      have := d.mtIndex_lt h1
      rw [Nat.mul_div_cancel _ d.pgs_pos] at this
      exact ⟨this, h2⟩
    · obtain ⟨info, hpg, hi1, hi2⟩ := h.page _ (d.mul_lt_nrMtpage hk)
      rw [Nat.mul_div_cancel _ d.pgs_pos] at hpg hi1
      rw [Nat.mul_mod_left] at hpg
      exact ⟨_, hpg, rfl, hi1, fun hk0 => hi2 (by rw [hk0, Nat.zero_mul])⟩
    · obtain ⟨info, hpg, -⟩ := h.page _ (d.mtPage_lt hlba)
      rw [mtData, hloc, pageAt, hpg]
      exact word_ffData _
  refine ⟨⟨h.alloc, hinv, h.mtl, fun p hp hl => ?_, by simp, h.tab⟩, hnil _ _ (by simp) (by simp) (by simp), h.dl, by simp,
    ⟨fun _ _ hm => absurd rfl hm, fun x k hx => absurd hx (hne x _ (by simp) (by simp) (by simp)),
      fun x k hx => absurd hx (hne x _ (by simp) (by simp) (by simp))⟩, fun x => hne x _ (by simp) (by simp) (by simp), h.bad⟩
  -- nothing is cached yet
  have hlt := (hinv.loc_lt (d.mtIndex_lt hp)).1
  rw [hl] at hlt
  have := h.cache
  simp only at hlt
  omega

/-- `formatMapTab` on a scanned chip without MapTab blocks. -/
theorem sat_formatMapTab (hf : d.Fits) (h : Formatting d bd 0 0 own s) (hfirst : s.mt.mtPbas 0 = noBlock)
    (hS : E ∨ d.mtBlkcnt ≤ s.al.freeBlkcnt) :
    Sat (contract d E) (formatMapTab d) s (fun r s' => r = 0 ∧
      ∃ own', Ftl d bd own' (fun _ => noBlock) [] [] s' ∧ s'.al.Clean) := by
  have h6 := hf.map_lt
  have hpos := d.mtBlkcnt_pos
  refine Sat.bind (sat_mtPbaAt (show 0 < mtMaxBlocks by omega)) ?_
  rintro _ s ⟨rfl, rfl⟩
  refine Sat.bind (sat_mtPbaAt (show d.mtBlkcnt - 1 < mtMaxBlocks by omega)) ?_
  rintro _ s ⟨rfl, rfl⟩
  refine Sat.get_bind ?_
  rw [if_pos ⟨Or.inl hfirst, h.mtl.blkcnt⟩]
  refine Sat.bind sat_stackInfo ?_
  rintro info s₁ ⟨-, h₁⟩
  refine Sat.bind (Q := fun r s' => (∃ info', r = .next info') ∧
    ∃ own', Formatting d bd d.nrMtpage d.nrMtpage own' s') ?_ ?_
  · refine Sat.loop (fun i (_ : Nat) s' => (∃ own', Formatting d bd i i own' s') ∧ Supply d E i s'.al) d.nrMtpage 0 ?_ ?_
      ⟨⟨own, h.reflash h₁⟩, ?_⟩
    · rintro i info s₂ - hi ⟨⟨own₂, h₂⟩, hS₂⟩
      refine (sat_formatPage hf h₂ (by omega) hS₂).mono ?_
      rintro r s₃ ⟨⟨info', rfl⟩, h₃, hS₃⟩
      exact ⟨h₃, hS₃⟩
    · rintro info' s' ⟨hx, -⟩
      rw [Nat.zero_add] at hx
      exact ⟨⟨info', rfl⟩, hx⟩
    · rw [Supply, h₁.al, ceil_of_mod (Nat.zero_mod _), Nat.zero_div]
      exact hS
  · rintro r s₂ ⟨⟨info', rfl⟩, own₂, h₂⟩
    exact Sat.pure ⟨rfl, own₂, h₂.ftl, h₂.clean⟩

/-- The first mount of an erased chip creates an empty store. -/
theorem sat_format (hf : d.Fits) (he : ∀ b p, b < d.blks → p < d.pgs → n.flash b p = none)
    (hsize : 500 ≤ storagesize d (badCount n.bad d.blks))
    (hS : E ∨ d.mtBlkcnt ≤ (freshAlloc d n.bad).freeBlkcnt) :
    Sat (contract d E) (nftlMount d) (St.boot n) (fun r s' => r = 0 ∧ ∃ own,
      Ftl d n.bad own (fun _ => noBlock) [] [] s' ∧ s'.al.Clean) := by
  have himg := fresh_image n.bad he
  refine sat_mountScan hf himg fun s₁ hs₁ => ?_
  refine Sat.modify_bind (step_ram d E rfl) (Sat.get_bind ?_)
  rw [if_neg (by show ¬ storagesize d s₁.gBadblkcnt < 500; rw [hs₁.badcnt]; omega)]
  have halloc := hs₁.alloc himg.alloc
  have hcount : s₁.al.freeBlkcnt = (freshAlloc d n.bad).freeBlkcnt := by
    rw [halloc.pool.count, himg.alloc.pool.count]
    congr 1
    funext b
    rw [hs₁.status b]
    by_cases hb : b < d.blks <;> simp [freshAlloc, hb]
  have hnil : scanned [] d.blks = [] := by simp [scanned]
  have hmtl := hs₁.mtl
  have hdl := hs₁.dl
  rw [hnil] at hmtl hdl
  refine sat_formatMapTab hf ⟨?_, ⟨hs₁.gt, hs₁.pgcnt, hs₁.gar⟩, fun b => ?_, himg.bad,
    by simp, fun b k hb => ?_, by simp, by simp, hmtl, hdl, hs₁.cache⟩ ?_ ?_
  · show AllocInv d _ s₁.nand.flash s₁.al
    rw [hs₁.flash]
    exact halloc
  · exact (freshOwn_cases d n.bad b).imp id Or.inl
  · rcases freshOwn_cases d n.bad b with hc | hc
    · rw [hc] at hb; simp at hb
    · rw [hc] at hb; simp at hb
  · show s₁.mt.mtPbas 0 = noBlock
    rw [hs₁.mt 0 d.mtBlkcnt_pos]
    split_ifs <;> rfl
  · show E ∨ _ ≤ s₁.al.freeBlkcnt
    rw [hcount]
    exact hS

end format

/-! ## A small chip -/

/-- Eight blocks of two pages, no failures; fresh memory is zero. -/
def smallChip : Device where
  writesize := 512
  pgs := 2
  blks := 8
  pgs_pos := Nat.zero_lt_two
  pgs_le := pgs_le_two
  blks_pos := by decide
  blks_le := by decide
  ws_ge := ws_ge_512
  ws_le := ws_le_512
  ws_even := ws_even_512
  progFail _ := false
  torn _ := none
  eraseFail _ := false
  corrected _ := 0
  junk _ _ := 0
  junkInfo _ := 0

theorem smallChip_fits : smallChip.Fits := ⟨by decide, by decide⟩

theorem smallChip_quiet (s : St) : Quiet smallChip True s := Or.inl ⟨trivial, by decide⟩

def erasedNand : Nand := ⟨fun _ _ => none, fun _ => false, 0, 0⟩

/-- The small chip after its first mount: block 0 is the MapTab block, the others are free. -/
def fresh : St := (nftlMount smallChip (St.boot erasedNand)).st

theorem ftl_fresh : ∃ own, Ftl smallChip (fun _ => false) own (fun _ => noBlock) [] [] fresh := by
  obtain ⟨r, -, -, own, h, -⟩ := (sat_format (E := True) (n := erasedNand) smallChip_fits (fun _ _ _ _ => rfl) (by decide +kernel)
    (Or.inl trivial)).of_clean (not_excused_of_ok (by decide +kernel))
  exact ⟨own, h⟩

end Emlinux.Nftl
