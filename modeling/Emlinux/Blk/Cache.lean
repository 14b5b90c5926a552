import Emlinux.Lib.Run
import Emlinux.Blk.Sector

/-!
# Reading what was written, through the sector caches

With pages of one sector. The write-back page never hides anything: what a page holds is the write-back page, or what is stored (`Sectors.holds`). The page that was
read is another matter: neither `nftl_writesect` nor `nftl_writesects` tells it that its page was written, so that `nftl_readsect` returns the old
data once the write-back page has moved on. `Careful` excludes such a read.
-/

namespace Emlinux.Blk

open Lib

/-- The pages of the device. -/
def Geom.pages (g : Geom) : Nat := g.nrBlks * g.nrPgsinblk

theorem copy_lt {dst src : Bytes} {off n i : Nat} (h : off ≤ i ∧ i < off + n) : copy dst off src n i = src (i - off) := if_pos h

theorem copy_zero (dst src : Bytes) {n i : Nat} (h : i < n) : copy dst 0 src n i = src i := by
  rw [copy_lt ⟨Nat.zero_le i, by omega⟩]
  rfl

theorem copy_nil (dst : Bytes) (off : Nat) (src : Bytes) : copy dst off src 0 = dst := by
  funext i
  exact if_neg (by omega)

/-! ## Where a page is -/

section Place

variable {g : Geom} {sect : Nat}

theorem block_lt (h : sect < g.pages) : sect / g.nrPgsinblk < g.nrBlks := Nat.div_lt_of_lt_mul (by rw [Nat.mul_comm]; exact h)

theorem sector_lt (hws : g.writesize = 4096) (h : sect < g.pages) : sect * sectorSize < 2 ^ 32 := by
  have hsize := g.size_lt
  rw [hws, ← Nat.mul_assoc] at hsize
  calc sect * 4096 < g.nrBlks * g.nrPgsinblk * 4096 := Nat.mul_lt_mul_of_pos_right h (by decide)
    _ < 2 ^ 32 := hsize

theorem blockNum_eq (hws : g.writesize = 4096) (h : sect < g.pages) : Sectors.blockNum g sect = sect / g.nrPgsinblk := by
  unfold Sectors.blockNum Geom.erasesize
  rw [Nat.mod_eq_of_lt (sector_lt hws h), hws, Nat.mul_div_mul_right _ _ (by decide)]
  have hb := block_lt h
  have hlt := g.nrBlks_lt
  exact Nat.mod_eq_of_lt (by omega)

theorem pageNum_eq (hws : g.writesize = 4096) (h : sect < g.pages) : Sectors.pageNum g sect = sect % g.nrPgsinblk := by
  unfold Sectors.pageNum Geom.erasesize
  rw [Nat.mod_eq_of_lt (sector_lt hws h), hws, Nat.mul_mod_mul_right, Nat.mul_div_cancel _ (by decide)]
  have hp := Nat.mod_lt sect g.nrPgsinblk_pos
  have hlt := g.nrPgsinblk_lt
  exact Nat.mod_eq_of_lt (by omega)

theorem pageOffset_eq (hws : g.writesize = 4096) (h : sect < g.pages) : Sectors.pageOffset g sect = 0 := by
  unfold Sectors.pageOffset Geom.erasesize
  rw [Nat.mod_eq_of_lt (sector_lt hws h), hws, Nat.mul_mod_mul_right, Nat.mul_mod_left]

/-- The page after a page of the device is that of the next sector. -/
theorem nextPage_eq (h : sect < g.pages) :
    Sectors.nextPage g (sect / g.nrPgsinblk) (sect % g.nrPgsinblk) = some ((sect + 1) / g.nrPgsinblk, (sect + 1) % g.nrPgsinblk) := by
  have hpos := g.nrPgsinblk_pos
  have hlt := g.nrPgsinblk_lt
  have hblt := g.nrBlks_lt
  have hb := block_lt h
  have hp := Nat.mod_lt sect hpos
  have hdm := Nat.div_add_mod sect g.nrPgsinblk
  unfold Sectors.nextPage
  rw [Nat.mod_eq_of_lt (show sect % g.nrPgsinblk + 1 < 2 ^ 8 by omega), Nat.mod_eq_of_lt (show sect / g.nrPgsinblk + 1 < 2 ^ 16 by omega)]
  by_cases hw : sect % g.nrPgsinblk + 1 ≥ g.nrPgsinblk
  · have hkey : 0 + g.nrPgsinblk * (sect / g.nrPgsinblk + 1) = sect + 1 ∧ 0 < g.nrPgsinblk := by
      rw [Nat.mul_add]
      omega
    obtain ⟨hd, hm⟩ := (Nat.div_mod_unique hpos).2 hkey
    rw [if_pos hw, if_neg (by omega), hd, hm]
  · have hkey : sect % g.nrPgsinblk + 1 + g.nrPgsinblk * (sect / g.nrPgsinblk) = sect + 1 ∧ sect % g.nrPgsinblk + 1 < g.nrPgsinblk := by
      omega
    obtain ⟨hd, hm⟩ := (Nat.div_mod_unique hpos).2 hkey
    rw [if_neg hw, hd, hm]

theorem page_of_key (sect : Nat) : sect / g.nrPgsinblk * g.nrPgsinblk + sect % g.nrPgsinblk = sect := by
  rw [Nat.mul_comm]
  exact Nat.div_add_mod sect g.nrPgsinblk

end Place

/-! ## What a page holds -/

namespace Sectors

variable (g : Geom) (s : Sectors)

/-- The write-back page is page `lpa`. -/
def holds (lpa : Nat) : Prop := s.lWriteblock ≠ 0xffff ∧ s.lWritepage ≠ 0xff ∧ s.lWriteblock * g.nrPgsinblk + s.lWritepage = lpa

instance (lpa : Nat) : Decidable (s.holds g lpa) :=
  inferInstanceAs (Decidable (s.lWriteblock ≠ 0xffff ∧ s.lWritepage ≠ 0xff ∧ s.lWriteblock * g.nrPgsinblk + s.lWritepage = lpa))

/-- The page that was read is page `lpa`. -/
def cached (lpa : Nat) : Prop := s.lReadpage ≠ 0xff ∧ s.lReadblock * g.nrPgsinblk + s.lReadpage = lpa

instance (lpa : Nat) : Decidable (s.cached g lpa) :=
  inferInstanceAs (Decidable (s.lReadpage ≠ 0xff ∧ s.lReadblock * g.nrPgsinblk + s.lReadpage = lpa))

/-- The keys are those of pages, or say that there is none. -/
structure Keyed : Prop where
  write : s.lWritepage ≠ 0xff → s.lWritepage < g.nrPgsinblk
  read : s.lReadpage ≠ 0xff → s.lReadpage < g.nrPgsinblk

/-- What is stored, and what is to be written back, is `last`. -/
structure Shows (last : Nat → Bytes) : Prop where
  store : ∀ lpa, ¬s.holds g lpa → ∀ i < 4096, s.store lpa i = last lpa i
  back : ∀ lpa, s.holds g lpa → ∀ i < 4096, s.writeBuffer i = last lpa i

end Sectors

open Sectors

section Keys

variable {g : Geom} {s : Sectors} {sect : Nat}

/-- The comparison with the key of a page of the device. -/
theorem key_iff {b p : Nat} (h : sect < g.pages) (hp : p ≠ 0xff → p < g.nrPgsinblk) :
    (sect / g.nrPgsinblk = b ∧ sect % g.nrPgsinblk = p) ↔ b ≠ 0xffff ∧ p ≠ 0xff ∧ b * g.nrPgsinblk + p = sect := by
  have hpos := g.nrPgsinblk_pos
  have hlt := g.nrPgsinblk_lt
  have hblt := g.nrBlks_lt
  constructor
  · intro hkey
    obtain ⟨rfl, rfl⟩ := hkey
    have hb := block_lt h
    have hm := Nat.mod_lt sect hpos
    exact ⟨by omega, by omega, page_of_key sect⟩
  · rintro ⟨-, hp', rfl⟩
    have hplt := hp hp'
    rw [Nat.mul_comm, Nat.mul_add_div hpos, Nat.mul_add_mod, Nat.div_eq_of_lt hplt, Nat.mod_eq_of_lt hplt]
    exact ⟨rfl, rfl⟩

theorem holds_iff (h : sect < g.pages) (hk : s.Keyed g) :
    (sect / g.nrPgsinblk = s.lWriteblock ∧ sect % g.nrPgsinblk = s.lWritepage) ↔ s.holds g sect :=
  key_iff h hk.write

theorem cached_iff (h : sect < g.pages) (hk : s.Keyed g) :
    (sect / g.nrPgsinblk = s.lReadblock ∧ sect % g.nrPgsinblk = s.lReadpage) ↔ s.cached g sect := by
  rw [key_iff h hk.read]
  constructor
  · exact fun hx => hx.2
  · intro hx
    refine ⟨?_, hx⟩
    intro hb
    have hm := hx.2
    rw [hb] at hm
    have hbl := block_lt h
    have hlt := g.nrBlks_lt
    have hle : 0xffff ≤ sect / g.nrPgsinblk := (Nat.le_div_iff_mul_le g.nrPgsinblk_pos).2 (by omega)
    omega

/-- A page of the device has a key of its own. -/
theorem page_mod_ne (sect : Nat) : sect % g.nrPgsinblk ≠ 0xff := by
  have hlt := g.nrPgsinblk_lt
  have hm := Nat.mod_lt sect g.nrPgsinblk_pos
  omega

end Keys

/-! ## The functions, with pages of one sector -/

section Functions

variable {g : Geom} {s : Sectors} {sect : Nat} {last : Nat → Bytes}

/-- After the write back, all is in the store. -/
theorem writeBack_store (hws : g.writesize = 4096) (h : s.Shows g last) (lpa : Nat) {i : Nat} (hi : i < 4096) :
    (s.writeBack g).store lpa i = last lpa i := by
  unfold writeBack
  split
  · next hv =>
    show Function.update s.store _ (copy _ 0 s.writeBuffer g.writesize) lpa i = last lpa i
    by_cases hl : lpa = s.lWriteblock * g.nrPgsinblk + s.lWritepage
    · rw [← hl, Function.update_self, hws, copy_zero _ _ hi]
      exact h.back lpa ⟨hv.1, hv.2, hl.symm⟩ i hi
    · rw [Function.update_of_ne hl]
      exact h.store lpa (fun hx => hl hx.2.2.symm) i hi
  · next hv => exact h.store lpa (fun hx => hv ⟨hx.1, hx.2.1⟩) i hi

theorem writeBack_read (s : Sectors) :
    (s.writeBack g).lReadblock = s.lReadblock ∧ (s.writeBack g).lReadpage = s.lReadpage ∧
      (s.writeBack g).readBuffer = s.readBuffer := by
  unfold writeBack
  split
  · exact ⟨rfl, rfl, rfl⟩
  · exact ⟨rfl, rfl, rfl⟩

/-- `nftl_flush` stores the write-back page and forgets it. -/
theorem flush_spec (hws : g.writesize = 4096) (h : s.Shows g last) (hk : s.Keyed g) :
    (s.nftlFlush g).Shows g last ∧ (s.nftlFlush g).Keyed g ∧ (∀ lpa, ¬(s.nftlFlush g).holds g lpa) ∧
      ((s.nftlFlush g).lReadblock = s.lReadblock ∧ (s.nftlFlush g).lReadpage = s.lReadpage ∧
        (s.nftlFlush g).readBuffer = s.readBuffer) := by
  have hwb := writeBack_store hws h
  unfold writeBack at hwb
  unfold nftlFlush
  by_cases hv : s.lWriteblock ≠ 0xffff ∧ s.lWritepage ≠ 0xff
  · simp only [if_pos hv] at hwb ⊢
    refine ⟨⟨fun lpa _ i hi => hwb lpa hi, ?_⟩, ⟨fun hx => absurd rfl hx, hk.read⟩, ?_, ⟨rfl, rfl, rfl⟩⟩
    · exact fun lpa hx => absurd rfl hx.1
    · exact fun lpa hx => hx.1 rfl
  · rw [if_neg hv]
    exact ⟨h, hk, fun lpa hx => hv ⟨hx.1, hx.2.1⟩, ⟨rfl, rfl, rfl⟩⟩

theorem writesect_hit (hws : g.writesize = 4096) (hs : sect < g.pages) (hk : s.Keyed g) (hh : s.holds g sect) (buffer : Bytes) :
    s.nftlWritesect g sect buffer = ⟨0, 4096, { s with writeBuffer := copy s.writeBuffer 0 buffer 4096 }⟩ := by
  unfold nftlWritesect
  dsimp only
  rw [blockNum_eq hws hs, pageNum_eq hws hs, pageOffset_eq hws hs, if_pos ((holds_iff hs hk).2 hh), hws]
  rfl

theorem writeRest_nil (s : Sectors) (block page pos : Nat) (buffer : Bytes) :
    s.writeRest g block page pos 0 buffer =
      ⟨0, pos, { s with writeBuffer := s.nftlRead g block page s.writeBuffer, lWritepage := page, lWriteblock := block }⟩ := by
  unfold writeRest
  dsimp only
  rw [copy_nil]
  rfl

/-- A write that misses: the page is stored, and the next page is the write-back page. -/
theorem writesect_miss (hws : g.writesize = 4096) (hs : sect < g.pages) (hk : s.Keyed g) (hh : ¬s.holds g sect) (buffer : Bytes) :
    ∃ s', s.nftlWritesect g sect buffer = ⟨0, 4096, s'⟩ ∧
      s'.lWriteblock = (sect + 1) / g.nrPgsinblk ∧ s'.lWritepage = (sect + 1) % g.nrPgsinblk ∧
      (s'.lReadblock = s.lReadblock ∧ s'.lReadpage = s.lReadpage ∧ s'.readBuffer = s.readBuffer) ∧
      (∀ i < 4096, s'.store sect i = buffer i) ∧ (∀ lpa, lpa ≠ sect → s'.store lpa = (s.writeBack g).store lpa) ∧
      ∀ i < 4096, s'.writeBuffer i = s'.store (sect + 1) i := by
  have hread := writeBack_read (g := g) s
  unfold nftlWritesect
  dsimp only
  rw [blockNum_eq hws hs, pageNum_eq hws hs, pageOffset_eq hws hs, if_neg (fun hx => hh ((holds_iff hs hk).1 hx))]
  unfold writeMiss
  dsimp only
  rw [if_neg (not_not.2 rfl)]
  generalize s.writeBack g = s₁ at hread ⊢
  show ∃ s', writePages g (4095 + 1) _ _ 0 4096 buffer s₁ = _ ∧ _
  unfold writePages
  rw [if_pos (by omega), nextPage_eq hs]
  dsimp only
  generalize hs₂ : passed g _ _ _ = s₂
  have hstore : ∀ lpa, s₂.store lpa = if lpa = sect then copy (s₁.store sect) 0 (copy s₁.writeBuffer 0 buffer 4096) 4096 else s₁.store lpa := by
    intro lpa
    rw [← hs₂]
    show Function.update s₁.store (sect / g.nrPgsinblk * g.nrPgsinblk + sect % g.nrPgsinblk) _ lpa = _
    rw [page_of_key, hws]
    simp only [Nat.zero_add, Function.update_apply]
  have hread₂ : s₂.lReadblock = s₁.lReadblock ∧ s₂.lReadpage = s₁.lReadpage ∧ s₂.readBuffer = s₁.readBuffer := by
    rw [← hs₂]
    exact ⟨rfl, rfl, rfl⟩
  show ∃ s', writePages g (4094 + 1) _ _ _ _ buffer _ = _ ∧ _
  unfold writePages
  rw [if_neg (by omega), hws, Nat.sub_self, writeRest_nil]
  refine ⟨_, rfl, rfl, rfl, ?_, ?_, ?_, ?_⟩
  · exact ⟨hread₂.1.trans hread.1, hread₂.2.1.trans hread.2.1, hread₂.2.2.trans hread.2.2⟩
  · intro i hi
    show s₂.store sect i = buffer i
    rw [hstore, if_pos rfl, copy_zero _ _ hi, copy_zero _ _ hi]
  · intro lpa hne
    show s₂.store lpa = s₁.store lpa
    rw [hstore, if_neg hne]
  · intro i hi
    show copy s₂.writeBuffer 0 (s₂.store ((sect + 1) / g.nrPgsinblk * g.nrPgsinblk + (sect + 1) % g.nrPgsinblk)) g.writesize i = _
    rw [page_of_key, hws, copy_zero _ _ hi]

theorem readsect_eq (hws : g.writesize = 4096) (hs : sect < g.pages) (s : Sectors) (buffer : Bytes) :
    s.nftlReadsect g sect buffer =
      ⟨0, copy buffer 0 (s.fetch g (sect / g.nrPgsinblk) (sect % g.nrPgsinblk)).readBuffer 4096, 4096,
        s.fetch g (sect / g.nrPgsinblk) (sect % g.nrPgsinblk)⟩ := by
  unfold nftlReadsect
  dsimp only
  rw [blockNum_eq hws hs, pageNum_eq hws hs, pageOffset_eq hws hs, if_neg (not_not.2 rfl)]
  show readPages g (4095 + 1) _ _ 0 buffer s = _
  unfold readPages
  rw [if_pos (by decide), nextPage_eq hs, hws]
  dsimp only
  show readPages g (4094 + 1) _ _ _ _ _ = _
  unfold readPages
  rw [if_neg (by decide)]
  rfl

/-- A page that is fetched is in the read buffer afterwards; of the copy that was there the caller has to know. -/
theorem fetch_spec (hws : g.writesize = 4096) (hs : sect < g.pages) (hk : s.Keyed g) (h : s.Shows g last)
    (hc : ¬s.holds g sect → s.cached g sect → ∀ i < 4096, s.readBuffer i = last sect i) :
    (s.fetch g (sect / g.nrPgsinblk) (sect % g.nrPgsinblk)).Shows g last ∧
      (s.fetch g (sect / g.nrPgsinblk) (sect % g.nrPgsinblk)).Keyed g ∧
      (∀ lpa, (s.fetch g (sect / g.nrPgsinblk) (sect % g.nrPgsinblk)).cached g lpa ↔ lpa = sect) ∧
      ∀ i < 4096, (s.fetch g (sect / g.nrPgsinblk) (sect % g.nrPgsinblk)).readBuffer i = last sect i := by
  have hlast : ∀ i < 4096, (s.fetch g (sect / g.nrPgsinblk) (sect % g.nrPgsinblk)).readBuffer i = last sect i := by
    intro i hi
    unfold fetch
    dsimp only
    by_cases hh : s.holds g sect
    · rw [if_pos ((holds_iff hs hk).2 hh)]
      show copy s.readBuffer 0 s.writeBuffer g.writesize i = last sect i
      rw [hws, copy_zero _ _ hi]
      exact h.back sect hh i hi
    · rw [if_neg (fun hx => hh ((holds_iff hs hk).1 hx))]
      by_cases hcd : s.cached g sect
      · have hkey := (cached_iff hs hk).2 hcd
        rw [if_neg (not_or.2 ⟨not_not.2 hkey.1, not_not.2 hkey.2⟩)]
        exact hc hh hcd i hi
      · have hkey : sect / g.nrPgsinblk ≠ s.lReadblock ∨ sect % g.nrPgsinblk ≠ s.lReadpage := by
          by_contra hn
          push Not at hn
          exact hcd ((cached_iff hs hk).1 hn)
        rw [if_pos hkey]
        show copy s.readBuffer 0 (s.store (sect / g.nrPgsinblk * g.nrPgsinblk + sect % g.nrPgsinblk)) g.writesize i = last sect i
        rw [page_of_key, hws, copy_zero _ _ hi]
        exact h.store sect hh i hi
  have hsame : (s.fetch g (sect / g.nrPgsinblk) (sect % g.nrPgsinblk)).store = s.store ∧
      (s.fetch g (sect / g.nrPgsinblk) (sect % g.nrPgsinblk)).lWriteblock = s.lWriteblock ∧
      (s.fetch g (sect / g.nrPgsinblk) (sect % g.nrPgsinblk)).lWritepage = s.lWritepage ∧
      (s.fetch g (sect / g.nrPgsinblk) (sect % g.nrPgsinblk)).writeBuffer = s.writeBuffer := by
    unfold fetch
    dsimp only
    split
    · exact ⟨rfl, rfl, rfl, rfl⟩
    · split
      · exact ⟨rfl, rfl, rfl, rfl⟩
      · exact ⟨rfl, rfl, rfl, rfl⟩
  have hkeys : (s.fetch g (sect / g.nrPgsinblk) (sect % g.nrPgsinblk)).lReadblock = sect / g.nrPgsinblk ∧
      (s.fetch g (sect / g.nrPgsinblk) (sect % g.nrPgsinblk)).lReadpage = sect % g.nrPgsinblk := ⟨rfl, rfl⟩
  generalize s.fetch g (sect / g.nrPgsinblk) (sect % g.nrPgsinblk) = s' at hlast hsame hkeys ⊢
  obtain ⟨hst, hwb, hwp, hbuf⟩ := hsame
  have hholds : ∀ lpa, s'.holds g lpa ↔ s.holds g lpa := by
    intro lpa
    unfold holds
    rw [hwb, hwp]
  refine ⟨⟨?_, ?_⟩, ⟨?_, ?_⟩, ?_, hlast⟩
  · intro lpa hl
    rw [hst]
    exact h.store lpa fun hx => hl ((hholds lpa).2 hx)
  · intro lpa hl
    rw [hbuf]
    exact h.back lpa ((hholds lpa).1 hl)
  · rw [hwp]
    exact hk.write
  · rw [hkeys.2]
    exact fun _ => Nat.mod_lt _ g.nrPgsinblk_pos
  · intro lpa
    unfold cached
    rw [hkeys.1, hkeys.2, page_of_key]
    constructor
    · exact fun hx => hx.2.symm
    · exact fun hx => ⟨page_mod_ne sect, hx.symm⟩

end Functions

/-! ## Runs -/

inductive Op where
  | writesect (sect : Nat) (buffer : Bytes)
  | readsect (sect : Nat)
  | writesects (sect : Nat) (buffer : Bytes)
  | readsects (sect : Nat)
  | flush

/-- The sector layer with the record of a run: the data of the last write of each page, `0xff` if there was none, and whether the page that was read was written
since. -/
structure Disk where
  s : Sectors
  last : Nat → Bytes
  written : Bool

/-- Before the first call. -/
def Disk.start : Disk := ⟨.init, fun _ _ => 0xff, false⟩

def Disk.record (t : Disk) (g : Geom) (s : Sectors) (sect : Nat) (buffer : Bytes) : Disk :=
  ⟨s, Function.update t.last sect buffer, t.written || decide (t.s.cached g sect)⟩

/-- A call on an address inside the device; the multi-sector functions are called with 8 sectors. -/
def diskStep (g : Geom) (t : Disk) : Op → Option Disk
  | .writesect sect buffer =>
    if sect < g.pages then some (t.record g (t.s.nftlWritesect g sect buffer).s sect buffer) else none
  | .readsect sect =>
    if sect < g.pages then some ⟨(t.s.nftlReadsect g sect fun _ => 0).s, t.last, false⟩ else none
  | .writesects sect buffer =>
    if sect < g.pages then some (t.record g (t.s.nftlWritesects g sect buffer 8).s sect buffer) else none
  | .readsects sect =>
    if sect < g.pages then some ⟨(t.s.nftlReadsects g sect (fun _ => 0) 8).s, t.last, t.written⟩ else none
  | .flush => some ⟨t.s.nftlFlush g, t.last, t.written⟩

/-- A page is not read by `nftl_readsect` a second time in a row after a write of it, unless it is the write-back page. -/
def Careful (g : Geom) (t : Disk) : Op → Prop
  | .readsect sect => ¬t.s.holds g sect → t.s.cached g sect → t.written = false
  | _ => True

instance (g : Geom) (t : Disk) : (o : Op) → Decidable (Careful g t o)
  | .readsect sect => inferInstanceAs (Decidable (¬t.s.holds g sect → t.s.cached g sect → t.written = false))
  | .writesect _ _ | .writesects _ _ | .readsects _ | .flush => inferInstanceAs (Decidable True)

/-- What a careful run keeps. -/
structure Coherent (g : Geom) (t : Disk) : Prop where
  keyed : t.s.Keyed g
  shows : t.s.Shows g t.last
  read : t.written = false → ∀ lpa, t.s.cached g lpa → ∀ i < 4096, t.s.readBuffer i = t.last lpa i

section Runs

variable {g : Geom} {t u : Disk}

theorem coherent_start (g : Geom) : Coherent g .start := by
  refine ⟨⟨fun h => absurd rfl h, fun h => absurd rfl h⟩, ⟨fun _ _ _ _ => rfl, fun _ h => absurd rfl h.1⟩, ?_⟩
  exact fun _ _ h => absurd rfl h.1

/-- After a write the page shows its data, and the others show what they did. -/
theorem Coherent.record (h : Coherent g t) {s' : Sectors} {sect : Nat} {buffer : Bytes} (hk : s'.Keyed g)
    (hs : s'.Shows g (Function.update t.last sect buffer))
    (hr : s'.lReadblock = t.s.lReadblock ∧ s'.lReadpage = t.s.lReadpage ∧ s'.readBuffer = t.s.readBuffer) :
    Coherent g (t.record g s' sect buffer) := by
  refine ⟨hk, hs, ?_⟩
  intro hw lpa hc i hi
  obtain ⟨hw, hnc⟩ := Bool.or_eq_false_iff.1 hw
  have hc' : t.s.cached g lpa := by
    unfold cached at hc ⊢
    rw [← hr.1, ← hr.2.1]
    exact hc
  have hne : lpa ≠ sect := by
    intro heq
    rw [heq] at hc'
    exact of_decide_eq_false hnc hc'
  show s'.readBuffer i = Function.update t.last sect buffer lpa i
  rw [hr.2.2, Function.update_of_ne hne]
  exact h.read hw lpa hc' i hi

/-- `nftl_writesect` succeeds, and the page shows its data. -/
theorem writesect_spec (hws : g.writesize = 4096) {s : Sectors} {last : Nat → Bytes} {sect : Nat} (hs : sect < g.pages)
    (hk : s.Keyed g) (h : s.Shows g last) (buffer : Bytes) :
    (s.nftlWritesect g sect buffer).ret = 0 ∧ (s.nftlWritesect g sect buffer).s.Keyed g ∧
      (s.nftlWritesect g sect buffer).s.Shows g (Function.update last sect buffer) ∧
      (s.nftlWritesect g sect buffer).s.lReadblock = s.lReadblock ∧ (s.nftlWritesect g sect buffer).s.lReadpage = s.lReadpage ∧
      (s.nftlWritesect g sect buffer).s.readBuffer = s.readBuffer := by
  by_cases hh : s.holds g sect
  · rw [writesect_hit hws hs hk hh]
    refine ⟨rfl, ⟨hk.write, hk.read⟩, ⟨?_, ?_⟩, rfl, rfl, rfl⟩
    · intro lpa hl i hi
      have hne : lpa ≠ sect := by
        intro heq
        rw [heq] at hl
        exact hl hh
      rw [Function.update_of_ne hne]
      exact h.store lpa hl i hi
    · intro lpa hl i hi
      have heq : lpa = sect := hl.2.2.symm.trans hh.2.2
      show copy s.writeBuffer 0 buffer 4096 i = _
      rw [heq, Function.update_self, copy_zero _ _ hi]
  · obtain ⟨s', heq, hb, hp, hr, hst, hother, hnext⟩ := writesect_miss hws hs hk hh buffer
    rw [heq]
    have hstore : ∀ lpa, ∀ i < 4096, s'.store lpa i = Function.update last sect buffer lpa i := by
      intro lpa i hi
      by_cases hl : lpa = sect
      · rw [hl, Function.update_self]
        exact hst i hi
      · rw [Function.update_of_ne hl, hother lpa hl]
        exact writeBack_store hws h lpa hi
    refine ⟨rfl, ⟨?_, ?_⟩, ⟨fun lpa _ => hstore lpa, ?_⟩, hr⟩
    · show s'.lWritepage ≠ 0xff → s'.lWritepage < g.nrPgsinblk
      rw [hp]
      exact fun _ => Nat.mod_lt _ g.nrPgsinblk_pos
    · show s'.lReadpage ≠ 0xff → s'.lReadpage < g.nrPgsinblk
      rw [hr.2.1]
      exact hk.read
    · intro lpa hl i hi
      have hlpa : lpa = sect + 1 := by
        have hx := hl.2.2
        rw [show s'.lWriteblock = _ from hb, show s'.lWritepage = _ from hp, page_of_key] at hx
        exact hx.symm
      rw [hlpa]
      exact (hnext i hi).trans (hstore (sect + 1) i hi)

/-- `nftl_writesects` succeeds, and the page shows its data. -/
theorem writesects_spec (hws : g.writesize = 4096) {s : Sectors} {last : Nat → Bytes} (hk : s.Keyed g) (h : s.Shows g last)
    (sect : Nat) (buffer : Bytes) :
    (s.nftlWritesects g sect buffer 8).ret = 0 ∧ (s.nftlWritesects g sect buffer 8).s.Keyed g ∧
      (s.nftlWritesects g sect buffer 8).s.Shows g (Function.update last sect buffer) ∧
      (s.nftlWritesects g sect buffer 8).s.lReadblock = s.lReadblock ∧
      (s.nftlWritesects g sect buffer 8).s.lReadpage = s.lReadpage ∧
      (s.nftlWritesects g sect buffer 8).s.readBuffer = s.readBuffer := by
  obtain ⟨hf, hfk, hnone, hfr⟩ := flush_spec hws h hk
  unfold nftlWritesects
  dsimp only
  rw [if_pos (.inl ⟨rfl, hws⟩)]
  generalize s.nftlFlush g = s₁ at hf hfk hnone hfr ⊢
  refine ⟨rfl, ⟨hfk.write, hfk.read⟩, ⟨?_, fun lpa hl => absurd hl (hnone lpa)⟩, hfr⟩
  intro lpa _ i hi
  show Function.update s₁.store sect (copy (s₁.store sect) 0 buffer g.writesize) lpa i = _
  by_cases hl : lpa = sect
  · rw [hl, Function.update_self, Function.update_self, hws, copy_zero _ _ hi]
  · rw [Function.update_of_ne hl, Function.update_of_ne hl]
    exact hf.store lpa (hnone lpa) i hi

/-- `nftl_readsects` returns what the page shows. -/
theorem readsects_spec (hws : g.writesize = 4096) {s : Sectors} {last : Nat → Bytes} (hk : s.Keyed g) (h : s.Shows g last)
    (sect : Nat) (buffer : Bytes) :
    (s.nftlReadsects g sect buffer 8).ret = 0 ∧ (s.nftlReadsects g sect buffer 8).s = s.nftlFlush g ∧
      ∀ i < 4096, (s.nftlReadsects g sect buffer 8).buffer i = last sect i := by
  obtain ⟨hf, -, hnone, -⟩ := flush_spec hws h hk
  unfold nftlReadsects
  dsimp only
  rw [if_pos (.inl ⟨rfl, hws⟩)]
  refine ⟨rfl, rfl, ?_⟩
  intro i hi
  show copy buffer 0 ((s.nftlFlush g).store sect) g.writesize i = _
  rw [hws, copy_zero _ _ hi]
  exact hf.store sect (hnone sect) i hi

theorem Coherent.flush (hws : g.writesize = 4096) (h : Coherent g t) : Coherent g ⟨t.s.nftlFlush g, t.last, t.written⟩ := by
  obtain ⟨hf, hfk, -, hfr⟩ := flush_spec hws h.shows h.keyed
  refine ⟨hfk, hf, ?_⟩
  intro hw lpa hc i hi
  have hc' : t.s.cached g lpa := by
    have hc' : (t.s.nftlFlush g).cached g lpa := hc
    unfold cached at hc' ⊢
    rw [← hfr.1, ← hfr.2.1]
    exact hc'
  show (t.s.nftlFlush g).readBuffer i = t.last lpa i
  rw [hfr.2.2]
  exact h.read hw lpa hc' i hi

theorem coherent_step {o : Op} (hws : g.writesize = 4096) (h : Coherent g t) (hg : Careful g t o) (hu : diskStep g t o = some u) :
    Coherent g u := by
  cases o with
  | writesect sect buffer =>
    simp only [diskStep] at hu
    split at hu
    · next hs =>
      cases hu
      obtain ⟨-, hk, hsh, hr⟩ := writesect_spec hws hs h.keyed h.shows buffer
      exact h.record hk hsh hr
    · cases hu
  | readsect sect =>
    simp only [diskStep] at hu
    split at hu
    · next hs =>
      cases hu
      obtain ⟨hsh, hk, hcd, hlast⟩ := fetch_spec hws hs h.keyed h.shows fun hh hc => h.read (hg hh hc) sect hc
      rw [readsect_eq hws hs]
      refine ⟨hk, hsh, ?_⟩
      intro _ lpa hc i hi
      rw [(hcd lpa).1 hc]
      exact hlast i hi
    · cases hu
  | writesects sect buffer =>
    simp only [diskStep] at hu
    split at hu
    · cases hu
      obtain ⟨-, hk, hsh, hr⟩ := writesects_spec hws h.keyed h.shows sect buffer
      exact h.record hk hsh hr
    · cases hu
  | readsects sect =>
    simp only [diskStep] at hu
    split at hu
    · cases hu
      rw [(readsects_spec hws h.keyed h.shows sect _).2.1]
      exact h.flush hws
    · cases hu
  | flush =>
    cases hu
    exact h.flush hws

end Runs

/-- In every state that a careful run reaches, each write succeeds and each read returns, for its page, the data of the last write of that page by either entry
point. -/
theorem reads_return_last_write (g : Geom) (hws : g.writesize = 4096) {t : Disk} (h : Run (diskStep g) (Careful g) .start t)
    (sect : Nat) (hs : sect < g.pages) (buffer : Bytes) :
    ((t.s.nftlWritesect g sect buffer).ret = 0 ∧ (t.s.nftlWritesects g sect buffer 8).ret = 0) ∧
    (Careful g t (.readsect sect) → (t.s.nftlReadsect g sect buffer).ret = 0 ∧
      ∀ i < sectorSize, (t.s.nftlReadsect g sect buffer).buffer i = t.last sect i) ∧
    (t.s.nftlReadsects g sect buffer 8).ret = 0 ∧
      ∀ i < sectorSize, (t.s.nftlReadsects g sect buffer 8).buffer i = t.last sect i := by
  have hI : Coherent g t := h.invariant (coherent_start g) fun _ _ _ hI hg hu => coherent_step hws hI hg hu
  obtain ⟨hw, -⟩ := writesect_spec hws hs hI.keyed hI.shows buffer
  obtain ⟨hws', -⟩ := writesects_spec hws hI.keyed hI.shows sect buffer
  obtain ⟨hr, -, hrd⟩ := readsects_spec hws hI.keyed hI.shows sect buffer
  refine ⟨⟨hw, hws'⟩, ?_, hr, hrd⟩
  intro hg
  obtain ⟨-, -, -, hlast⟩ := fetch_spec hws hs hI.keyed hI.shows fun hh hc => hI.read (hg hh hc) sect hc
  rw [readsect_eq hws hs]
  refine ⟨rfl, ?_⟩
  intro i hi
  show copy buffer 0 _ 4096 i = _
  rw [copy_zero _ _ hi]
  exact hlast i hi

/-- Four blocks of two pages. -/
def eightPages : Geom := ⟨4096, 2, 4, by decide, by decide, by decide, by decide, by decide, by decide⟩

/-- The page is written, read, written twice more and read again, with a read of another page in between. -/
theorem reads_return_last_write_again :
    ∃ t, Run (diskStep eightPages) (Careful eightPages) .start t ∧ t.last 1 0 = 9 ∧
      (t.s.nftlReadsect eightPages 1 fun _ => 0).buffer 0 = 9 := by
  have hrun : ∃ t, play (guarded (diskStep eightPages) (Careful eightPages)) .start
      [.writesect 1 fun _ => 7, .readsect 1, .writesect 1 fun _ => 8, .readsect 6, .writesects 1 fun _ => 9, .flush] = some t ∧
      t.last 1 0 = 9 ∧ Careful eightPages t (.readsect 1) :=
    play_ends _ (by decide +kernel)
  obtain ⟨t, hplay, hlast, hc⟩ := hrun
  have hr := Run.of_play _ hplay
  obtain ⟨-, hread, -⟩ := reads_return_last_write eightPages rfl hr 1 (by decide) fun _ => 0
  refine ⟨t, hr, hlast, ?_⟩
  rw [(hread hc).2 0 (by decide), hlast]

/-- The page is read, written and read again: the second read returns the old data. -/
theorem stale_read :
    ∃ t, play (diskStep eightPages) .start [.readsect 0, .writesect 0 fun _ => 7] = some t ∧ t.last 0 0 = 7 ∧
      (t.s.nftlReadsect eightPages 0 fun _ => 0).ret = 0 ∧ (t.s.nftlReadsect eightPages 0 fun _ => 0).buffer 0 = 0xff :=
  play_ends _ (by decide +kernel)

end Emlinux.Blk
