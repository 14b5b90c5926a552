import Emlinux.Nftl.Logs

/-!
# The mapping table on the flash

`MapInv` connects three descriptions of the map from logical to physical blocks: the function `map`, the map
pages on the flash (a page of an MTLog block if the log has it, else the page of the MapTab block), and the
RAM tables `mt_pbas`, `mtl_blocktab` and `mt_readcache`.

`Keeps P` is the frame condition of the development: blocks whose role satisfies `P` keep role and content.
-/

namespace Emlinux.Nftl

open Lib

/-! ## Frames by role -/

/-- Blocks of the map. -/
def Role.map : Role → Bool
  | .mt _ => true
  | .mtl _ => true
  | _ => false

/-- Blocks that neither the allocator nor the map account for. -/
def Role.user : Role → Bool
  | .pool => false
  | .mt _ => false
  | .mtl _ => false
  | _ => true

/-- Every block keeps its role and its content, or has no role in `P` before and after. -/
def Keeps (P : Role → Bool) (own : Own) (fl : Flash) (own' : Own) (fl' : Flash) : Prop :=
  ∀ b, (own' b = own b ∧ fl' b = fl b) ∨ (P (own b) = false ∧ P (own' b) = false)

section keeps

variable {P : Role → Bool} {own own' own'' : Own} {fl fl' fl'' : Flash}

theorem Keeps.refl (P : Role → Bool) (own : Own) (fl : Flash) : Keeps P own fl own fl :=
  fun _ => Or.inl ⟨rfl, rfl⟩

theorem Keeps.trans (h : Keeps P own fl own' fl') (h' : Keeps P own' fl' own'' fl'') :
    Keeps P own fl own'' fl'' := by
  intro b
  rcases h b with ⟨ho, hf⟩ | ⟨h1, h2⟩
  · rcases h' b with ⟨ho', hf'⟩ | ⟨h1', h2'⟩
    · exact Or.inl ⟨ho'.trans ho, hf'.trans hf⟩
    · exact Or.inr ⟨ho ▸ h1', h2'⟩
  · rcases h' b with ⟨ho', hf'⟩ | ⟨h1', h2'⟩
    · exact Or.inr ⟨h1, ho'.symm ▸ h2⟩
    · exact Or.inr ⟨h1, h2'⟩

theorem Keeps.mono {P' : Role → Bool} (h : Keeps P own fl own' fl') (hP : ∀ r, P r = false → P' r = false) :
    Keeps P' own fl own' fl' :=
  fun b => (h b).imp id fun hb => ⟨hP _ hb.1, hP _ hb.2⟩

theorem Keeps.role (h : Keeps P own fl own' fl') {r : Role} (hr : P r = true) (b : Nat) :
    own' b = r ↔ own b = r := by
  rcases h b with ⟨ho, -⟩ | ⟨h1, h2⟩
  · rw [ho]
  · constructor
    · intro e; rw [e, hr] at h2; simp at h2
    · intro e; rw [e, hr] at h1; simp at h1

theorem Keeps.flash (h : Keeps P own fl own' fl') {r : Role} (hr : P r = true) {b : Nat} (hb : own b = r) :
    fl' b = fl b := by
  rcases h b with ⟨-, hf⟩ | ⟨h1, -⟩
  · exact hf
  · rw [hb, hr] at h1; simp at h1

/-- One block changes its role. -/
theorem Keeps.update (b : Nat) (r : Role) (h : P (own b) = false) (hr : P r = false) :
    Keeps P own fl (Function.update own b r) fl := by
  intro x
  by_cases hx : x = b
  · subst hx; exact Or.inr ⟨h, by simpa using hr⟩
  · exact Or.inl ⟨by simp [hx], rfl⟩

/-- One block changes its content. -/
theorem Keeps.content {b : Nat} (h : P (own b) = false) (hfl : ∀ x, x ≠ b → fl' x = fl x) :
    Keeps P own fl own fl' := by
  intro x
  by_cases hx : x = b
  · subst hx; exact Or.inr ⟨h, h⟩
  · exact Or.inl ⟨rfl, hfl x hx⟩

/-- Blocks are released to the pool, and only pool blocks change. -/
theorem Keeps.release {g : List Nat} (hp : P .pool = false) (hg : ∀ b ∈ g, P (own b) = false)
    (hfl : ∀ b, own.release g b ≠ .pool → fl' b = fl b) : Keeps P own fl (own.release g) fl' := by
  intro b
  by_cases hb : b ∈ g
  · exact Or.inr ⟨hg b hb, by simpa [Own.release, hb] using hp⟩
  · have ho : own.release g b = own b := by simp [Own.release, hb]
    by_cases hpool : own b = .pool
    · exact Or.inr ⟨hpool ▸ hp, by rw [ho, hpool, hp]⟩
    · exact Or.inl ⟨ho, hfl b (by rw [ho]; exact hpool)⟩

end keeps

/-! ## Words of a map page -/

theorem word_setWord_self (dat : PageData) (k : Nat) {v : Nat} (hv : v < 65536) : word (setWord dat k v) k = v := by
  have h1 : (2 * k : Nat) ≠ 2 * k + 1 := by omega
  simp only [word, setWord, Function.update_self, Function.update_of_ne h1, UInt8.toNat_ofNat']
  omega

theorem word_setWord_ne (dat : PageData) {k j : Nat} (v : Nat) (h : j ≠ k) :
    word (setWord dat k v) j = word dat j := by
  have h1 : 2 * j ≠ 2 * k := by omega
  have h2 : 2 * j ≠ 2 * k + 1 := by omega
  have h3 : 2 * j + 1 ≠ 2 * k := by omega
  have h4 : 2 * j + 1 ≠ 2 * k + 1 := by omega
  simp only [word, setWord, Function.update_of_ne h1, Function.update_of_ne h2, Function.update_of_ne h3,
    Function.update_of_ne h4]

theorem word_ffData (k : Nat) : word ffData k = noBlock := by
  have h : (0xff : UInt8).toNat = 255 := by decide
  simp only [word, ffData, h]

/-! ## Geometry -/

/-- The geometries whose map fits the RAM tables, and whose blocks fit `blockstatus`. -/
structure Device.Fits (d : Device) : Prop where
  blks_lt : d.blks < 4096
  map_lt : d.mtBlkcnt < mtMaxBlocks

namespace Device

variable (d : Device)

theorem writesize_eq : d.writesize = 2 * d.words := by
  have := d.ws_even
  unfold words
  omega

/-- The map page of a logical block exists. -/
theorem mtPage_lt {lba : Nat} (h : lba < d.blks) : lba / d.words < d.nrMtpage := by
  unfold nrMtpage
  rw [writesize_eq, Nat.mul_comm, Nat.mul_div_mul_left _ _ (by norm_num)]
  have : lba / d.words ≤ (d.blks - 1) / d.words := Nat.div_le_div_right (by omega)
  omega

/-- The MapTab block of a map page exists. -/
theorem mtIndex_lt {p : Nat} (h : p < d.nrMtpage) : p / d.pgs < d.mtBlkcnt := by
  unfold nrMtpage at h
  unfold mtBlkcnt erasesize
  rw [Nat.mul_comm d.pgs, ← Nat.div_div_eq_div_mul]
  have : p / d.pgs ≤ (d.blks - 1) * 2 / d.writesize / d.pgs := Nat.div_le_div_right (by omega)
  omega

theorem mtBlkcnt_pos : 0 < d.mtBlkcnt := Nat.succ_pos _

theorem nrMtpage_lt : d.nrMtpage < 65536 := by
  have h1 := d.blks_le
  have h2 : (d.blks - 1) * 2 / d.writesize ≤ (d.blks - 1) * 2 := Nat.div_le_self _ _
  unfold nrMtpage
  omega

end Device

/-! ## The invariant -/

/-- What a page reads as. -/
def pageAt (fl : Flash) (b p : Nat) : Page := (fl b p).getD Page.erased

/-- Where map page `p` is. -/
def mtLoc (d : Device) (mtPbas : Nat → Nat) (ml : List Log) (p : Nat) : Nat × Nat :=
  (lookupIn ml (p / d.pgs) p).getD (mtPbas (p / d.pgs), p % d.pgs)

/-- The content of map page `p`. -/
def mtData (d : Device) (fl : Flash) (mtPbas : Nat → Nat) (ml : List Log) (p : Nat) : PageData :=
  (pageAt fl (mtLoc d mtPbas ml p).1 (mtLoc d mtPbas ml p).2).data

/-- The spare area of map page `p` in an MTLog block. -/
def MtlTag (d : Device) (p : Nat) (sp : Spare) : Prop :=
  sp.blocktype = .mtLog ∧ sp.tabindx = p / d.pgs ∧ sp.pageofs = p

/-- Page 0 of a MapTab block. -/
def MtHead (d : Device) (fl : Flash) (k b : Nat) : Prop :=
  ∃ pg, fl b 0 = some pg ∧ pg.spare.blocktype = .mapTab ∧ pg.spare.tabindx = k ∧
    (k = 0 → pg.spare.pageofs < d.blks)

/-- The MapTab and MTLog blocks, and the map they hold. -/
structure MapInv (d : Device) (own : Own) (map : Nat → Nat) (ml : List Log) (fl : Flash) (mtPbas : Nat → Nat) :
    Prop where
  logs : Logs d .mtl (MtlTag d) own fl ml
  page_lt : ∀ lg ∈ ml, ∀ p ∈ lg.seq, p < d.nrMtpage
  pba_lt : ∀ k, k < d.mtBlkcnt → mtPbas k < d.blks
  own_mt : ∀ k, k < d.mtBlkcnt → own (mtPbas k) = .mt k
  mem_mt : ∀ b k, own b = .mt k → k < d.mtBlkcnt ∧ mtPbas k = b
  head : ∀ k, k < d.mtBlkcnt → MtHead d fl k (mtPbas k)
  entry : ∀ lba, lba < d.blks → word (mtData d fl mtPbas ml (lba / d.words)) (lba % d.words) = map lba
  range : ∀ lba, lba < d.blks → map lba = noBlock ∨ map lba < d.blks

/-- A hit in the cache is right. -/
def CacheOk (d : Device) (ml : List Log) (fl : Flash) (mt : MapTab) : Prop :=
  ∀ p, p < d.nrMtpage → mtLoc d mt.mtPbas ml p = (mt.cacheblock, mt.cachepage) →
    mt.readcache = mtData d fl mt.mtPbas ml p

theorem mtl_injective : Function.Injective Role.mtl := fun _ _ h => Role.mtl.inj h

section mapinv

variable {d : Device} {own own' : Own} {map : Nat → Nat} {ml : List Log} {fl fl' : Flash} {mtPbas : Nat → Nat}

theorem MapInv.key_lt (h : MapInv d own map ml fl mtPbas) {lg : Log} (hlg : lg ∈ ml) : lg.key < d.mtBlkcnt := by
  obtain ⟨p, hp⟩ := List.exists_mem_of_ne_nil _ (h.logs.pages lg hlg).nonempty
  rw [← (h.logs.pages lg hlg).key p hp]
  exact d.mtIndex_lt (h.page_lt lg hlg p hp)

theorem MapInv.length_le (h : MapInv d own map ml fl mtPbas) : ml.length ≤ d.mtBlkcnt := by
  have hsub : (ml.map Log.key).toFinset ⊆ Finset.range d.mtBlkcnt := by
    intro k hk
    rw [List.mem_toFinset, List.mem_map] at hk
    obtain ⟨lg, hlg, rfl⟩ := hk
    exact Finset.mem_range.mpr (h.key_lt hlg)
  have := Finset.card_le_card hsub
  rwa [List.toFinset_card_of_nodup h.logs.nodup, List.length_map, Finset.card_range] at this

/-- A map page is in an MTLog block, or in its MapTab block. -/
theorem MapInv.loc_cases (h : MapInv d own map ml fl mtPbas) (p : Nat) :
    (∃ lg ∈ ml, ∃ i, lg.key = p / d.pgs ∧ lookup lg.seq p = some i ∧ mtLoc d mtPbas ml p = (lg.pba, i)) ∨
    (lookupIn ml (p / d.pgs) p = none ∧ mtLoc d mtPbas ml p = (mtPbas (p / d.pgs), p % d.pgs)) := by
  cases hl : lookupIn ml (p / d.pgs) p with
  | none => exact Or.inr ⟨rfl, by simp [mtLoc, hl]⟩
  | some a =>
    obtain ⟨lg, hlg, hk, hb, hi⟩ := lookupIn_some h.logs.nodup (show lookupIn ml (p / d.pgs) p = some (a.1, a.2) from hl)
    exact Or.inl ⟨lg, hlg, a.2, hk, hi, by simp [mtLoc, hl, hb]⟩

theorem MapInv.loc_lt (h : MapInv d own map ml fl mtPbas) {p : Nat} (hp : p / d.pgs < d.mtBlkcnt) :
    (mtLoc d mtPbas ml p).1 < d.blks ∧ (mtLoc d mtPbas ml p).2 < d.pgs := by
  rcases h.loc_cases p with ⟨lg, hlg, i, -, hi, hloc⟩ | ⟨-, hloc⟩
  · rw [hloc]
    have := (h.logs.pages lg hlg).fits
    exact ⟨h.logs.lt lg hlg, lt_of_lt_of_le (lookup_lt hi) this⟩
  · rw [hloc]
    exact ⟨h.pba_lt _ hp, Nat.mod_lt _ d.pgs_pos⟩

theorem MapInv.loc_map (h : MapInv d own map ml fl mtPbas) {p : Nat} (hp : p / d.pgs < d.mtBlkcnt) :
    (own (mtLoc d mtPbas ml p).1).map = true := by
  rcases h.loc_cases p with ⟨lg, hlg, i, -, -, hloc⟩ | ⟨-, hloc⟩
  · rw [hloc, h.logs.owned lg hlg]; rfl
  · rw [hloc, h.own_mt _ hp]; rfl

/-- The map reads only the blocks of the map. -/
theorem MapInv.keeps (h : MapInv d own map ml fl mtPbas) (hk : Keeps Role.map own fl own' fl') :
    MapInv d own' map ml fl' mtPbas := by
  refine ⟨h.logs.congr (fun b k => hk.role rfl b) (fun b k hb => hk.flash rfl hb), h.page_lt, h.pba_lt,
    fun k hk' => (hk.role rfl _).mpr (h.own_mt k hk'), fun b k hb => h.mem_mt b k ((hk.role rfl b).mp hb),
    fun k hk' => ?_, fun lba hlba => ?_, h.range⟩
  · rw [MtHead, hk.flash rfl (h.own_mt k hk')]
    exact h.head k hk'
  · have hp := d.mtIndex_lt (d.mtPage_lt hlba)
    have hm := h.loc_map hp
    rw [mtData, pageAt, hk.flash hm rfl]
    exact h.entry lba hlba

theorem CacheOk.congr {mt : MapTab} (h : MapInv d own map ml fl mt.mtPbas) (hc : CacheOk d ml fl mt)
    (hk : Keeps Role.map own fl own' fl') : CacheOk d ml fl' mt := by
  intro p hp hloc
  rw [mtData, pageAt, hk.flash (h.loc_map (d.mtIndex_lt hp)) rfl]
  exact hc p hp hloc

end mapinv

end Emlinux.Nftl
