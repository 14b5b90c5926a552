import Emlinux.Nftl.Image

/-!
# The scan loops of a mount

The first loop finds the types of the blocks and the GarbageTab block, `nftl_get_gar_blks` reads the garbage
list, and the second loop decides the role of every block. On an `Image` they rebuild the tables: `Scanned i`
is what the RAM holds before block `i`.
-/

namespace Emlinux.Nftl

open Lib

variable {d : Device} {E : Prop} {bd : Nat → Bool} {own : Own} {fl : Flash} {al : Alloc} {mtPbas : Nat → Nat} {ml L : List Log} {s : St}

/-- The type byte of a block. -/
def typeAt (fl : Flash) (b : Nat) : BlockState := (pageAt fl b 0).spare.blocktype

theorem typeAt_of_some {b : Nat} {pg : Page} (h : fl b 0 = some pg) : typeAt fl b = pg.spare.blocktype := by
  simp [typeAt, pageAt, h]

theorem DataHead.type {b : Nat} (h : DataHead d fl b) : typeAt fl b = .data ∨ (typeAt fl b = .dataLog ∧
    (pageAt fl b (d.pgs - 1)).spare.blocktype = .data) := by
  obtain ⟨pg, hpg, hty | ⟨hty, pg', hpg', hty'⟩⟩ := h
  · exact Or.inl ((typeAt_of_some hpg).trans hty)
  · exact Or.inr ⟨(typeAt_of_some hpg).trans hty, by simp [pageAt, hpg', hty']⟩

theorem Marked.type {b : Nat} (h : Marked fl b) : typeAt fl b = .data ∨ typeAt fl b = .dataLog ∨ typeAt fl b = .mapTab ∨
    typeAt fl b = .mtLog := by
  obtain ⟨pg, hpg, hty⟩ := h
  rw [typeAt_of_some hpg]
  exact hty

theorem Image.free_type (h : Image d bd own fl al mtPbas ml L) {b : Nat} (hb : al.blockstatus b = true) :
    typeAt fl b = .free := by
  rw [typeAt, pageAt, h.alloc.pool.erased b hb 0 d.pgs_pos]
  rfl

/-- The first page of the GarbageTab block. -/
theorem Image.gt_page (h : Image d bd own fl al mtPbas ml L) (hgt : al.gtPba < d.blks) :
    ∃ c, fl al.gtPba 0 = some (gtPage c) := by
  have hno := d.blks_lt_noBlock
  rcases h.alloc.tab with hc | ⟨-, hpos, -, -, chunks, ht⟩
  · have := hc.1
    omega
  · have hlen := ht.length
    exact ⟨chunks[0], ht.page 0 _ (List.getElem?_eq_getElem (by omega))⟩

theorem gtPage_tabindx (c : List Nat) : (gtPage c).spare.tabindx = 0 := by
  simp only [gtPage, Spare.tabindx, Spare.gtInfo]
  omega

/-- Only the GarbageTab block has its type. -/
theorem Image.gt_iff (h : Image d bd own fl al mtPbas ml L) {b : Nat} (hb : b < d.blks) (hbad : bd b = false) :
    (typeAt fl b = .garbageTab ∧ (pageAt fl b 0).spare.tabindx < gtMaxBlocks) ↔ b = al.gtPba := by
  constructor
  · rintro ⟨hty, -⟩
    cases ho : own b with
    | pool =>
      obtain ⟨-, hp | hp | hp⟩ := (h.alloc.pool.mem b).mp ho
      · rw [h.free_type hp] at hty
        simp at hty
      · rcases (h.alloc.marked b hp).type with e | e | e | e <;> rw [e] at hty <;> simp at hty
      · exact hp
    | bad => rw [(h.bad b hb).mp ho] at hbad; simp at hbad
    | data k => rcases (h.data b k ho).type with e | ⟨e, -⟩ <;> rw [e] at hty <;> simp at hty
    | dl k =>
      obtain ⟨lg, hlg, -, rfl⟩ := h.dl.mem b k ho
      obtain ⟨pg, p, hpg, ht, -⟩ := (h.dl.pages lg hlg).head
      rw [typeAt_of_some hpg, ht] at hty
      simp at hty
    | mt k =>
      obtain ⟨-, -, pg, hpg, ht, -⟩ := h.mem_mt b k ho
      rw [typeAt_of_some hpg, ht] at hty
      simp at hty
    | mtl k =>
      obtain ⟨lg, hlg, -, rfl⟩ := h.mtl.mem b k ho
      obtain ⟨pg, p, hpg, ht, -⟩ := (h.mtl.pages lg hlg).head
      rw [typeAt_of_some hpg, ht] at hty
      simp at hty
    | temp => exact absurd ho (h.noTemp b)
  · intro e
    obtain ⟨c, hc⟩ := h.gt_page (e ▸ hb)
    rw [e, typeAt, pageAt, hc, Option.getD_some]
    exact ⟨rfl, by rw [gtPage_tabindx]; decide⟩

/-! ## The types -/

/-- The RAM in the first loop. -/
def withGt (s : St) (gt : Nat) : St := { s with al := { s.al with gtPba := gt } }

theorem sat_scanTypes (h : Image d bd own fl al mtPbas ml L) (hfl : s.nand.flash = fl) (hbd : s.nand.bad = bd) :
    Sat (contract d E) (Prog.loop (scanType d) d.blks 0 (fun _ => .badBlock)) (withGt s noBlock) (fun r s' => ∃ types,
      r = .next types ∧ (∀ b, b < d.blks → types b = typeAt fl b) ∧ Reflash (withGt s al.gtPba) fl s') := by
  have hno := d.blks_lt_noBlock
  subst hfl
  subst hbd
  refine Sat.loop (fun i types s' => (∀ b, b < i → types b = typeAt s.nand.flash b) ∧
    Reflash (withGt s (if al.gtPba < i then al.gtPba else noBlock)) s.nand.flash s') d.blks 0 ?_ ?_ ?_
  · rintro i types s₁ - hi ⟨htypes, h₁⟩
    rw [Nat.zero_add] at hi
    refine Sat.bind (sat_mtdRead hi d.pgs_pos) ?_
    rintro _ s₂ ⟨rfl, h₂⟩
    rw [h₁.flash] at h₂
    have h₁₂ := h₁.trans h₂
    have hbad₂ : s₂.nand.bad = s.nand.bad := h₁₂.bad
    refine Sat.get_bind ?_
    rw [show s₁.nand.read i 0 = pageAt s.nand.flash i 0 by rw [Nand.read, h₁.flash]; rfl]
    have htypes' : ∀ b, b < i + 1 → Function.update types i (pageAt s.nand.flash i 0).spare.blocktype b
        = typeAt s.nand.flash b := by
      intro b hb
      by_cases hbi : b = i
      · rw [hbi, Function.update_self]; rfl
      · rw [Function.update_of_ne hbi]; exact htypes b (by omega)
    by_cases hgt : i = al.gtPba
    · have hbad : s.nand.bad i = false := by
        by_contra hb
        have hown : own i = .pool := (h.alloc.pool.mem i).mpr ⟨hi, Or.inr (Or.inr hgt)⟩
        rw [(h.bad i hi).mpr (by simpa using hb)] at hown
        simp at hown
      obtain ⟨h1, h2⟩ := (h.gt_iff hi hbad).mpr hgt
      have hc : (pageAt s.nand.flash i 0).spare.blocktype = .garbageTab ∧ s₂.nand.bad i = false ∧
          (pageAt s.nand.flash i 0).spare.tabindx < gtMaxBlocks := ⟨h1, by rw [hbad₂]; exact hbad, h2⟩
      simp only [if_pos hc]
      refine Sat.modify_bind (step_ram d E rfl) (Sat.pure ⟨htypes', ?_⟩)
      obtain ⟨e, k, rfl⟩ := h₁₂
      refine ⟨e, k, ?_⟩
      rw [if_pos (show al.gtPba < i + 1 by omega), hgt]
      rfl
    · have hc : ¬ ((pageAt s.nand.flash i 0).spare.blocktype = .garbageTab ∧ s₂.nand.bad i = false ∧
          (pageAt s.nand.flash i 0).spare.tabindx < gtMaxBlocks) :=
        fun hc => hgt ((h.gt_iff hi (hbad₂ ▸ hc.2.1)).mp ⟨hc.1, hc.2.2⟩)
      simp only [if_neg hc]
      refine Sat.modify_bind (step_ram d E rfl) (Sat.pure ⟨htypes', ?_⟩)
      have hiff : al.gtPba < i + 1 ↔ al.gtPba < i := by omega
      simp only [hiff]
      exact h₁₂
  · rintro types s' ⟨htypes, hr⟩
    rw [Nat.zero_add] at htypes hr
    refine ⟨types, rfl, htypes, ?_⟩
    rcases h.alloc.pool.gt_lt with hg | hg
    · rw [if_neg (by omega), ← hg] at hr
      exact hr
    · rwa [if_pos hg] at hr
  · refine ⟨fun b hb => absurd hb (Nat.not_lt_zero _), s.nand.ecc, s.nand.tick, ?_⟩
    rw [if_neg (Nat.not_lt_zero _)]
    rfl

/-! ## The garbage list -/

theorem gtData_concat (c : List Nat) (b : Nat) : gtData (c ++ [b]) = setWord (gtData c) c.length b := by
  simp [gtData, List.zipIdx_append, List.foldl_append]

/-- The words of a GarbageTab page are the blocks it lists. -/
theorem word_gtData {bs : List Nat} (hlt : ∀ b ∈ bs, b < 65536) {k b : Nat} (hk : bs[k]? = some b) : word (gtData bs) k = b := by
  induction bs using List.reverseRecOn with
  | nil => simp at hk
  | append_singleton bs x ih =>
    rw [gtData_concat]
    by_cases he : k = bs.length
    · have hx : x = b := by simpa [he] using hk
      rw [he, word_setWord_self _ _ (hlt x (by simp)), hx]
    · have hkl := (List.getElem?_eq_some_iff.mp hk).1
      simp only [List.length_append, List.length_singleton] at hkl
      rw [word_setWord_ne _ _ he]
      exact ih (fun y hy => hlt y (by simp [hy])) (by rwa [List.getElem?_append_left (by omega)] at hk)

/-- The RAM with a garbage list read so far. -/
def withGar (s : St) (gar : List Nat) (pgcnt : Nat) : St := { s with al := { s.al with gar := gar, gtPgcnt := pgcnt } }

theorem sat_readGarPage {bs : List Nat} {n : Nat} {gar : List Nat} (hlt : ∀ b ∈ bs, b < d.blks)
    (hlen : gar.length + bs.length ≤ garbageMaxCnt) (ht : TabOk s.dl s.mt.mtl) :
    Sat (contract d E) (readGarPage (gtData bs) bs.length) (withGar s gar n) (fun _ s' => s' = withGar s (gar ++ bs) n) := by
  have hno := d.blks_lt_noBlock
  have hword : ∀ {k b : Nat}, bs[k]? = some b → word (gtData bs) k = b := fun hk =>
    word_gtData (fun b hb => by have := hlt b hb; have : noBlock = 65535 := rfl; omega) hk
  refine Sat.bind (Q := fun _ s' => s' = withGar s (gar ++ bs) n) ?_ ?_
  · refine Sat.loop (fun k _ s' => s' = withGar s (gar ++ bs.take k) n) bs.length 0 ?_ ?_ (by simp)
    · rintro k _ _ - hk rfl
      rw [Nat.zero_add] at hk
      have hw := hword (List.getElem?_eq_getElem hk)
      have hb := hlt _ (List.getElem_mem hk)
      rw [hw, if_neg (by omega)]
      refine Sat.bind (sat_pushGar ?_ ht) ?_
      · show (gar ++ bs.take k).length < _
        rw [List.length_append, List.length_take]
        omega
      · rintro _ _ rfl
        refine Sat.pure ?_
        show withGar s (gar ++ bs.take k ++ [bs[k]]) n = _
        rw [List.append_assoc, List.take_append_getElem hk]
    · rintro _ _ rfl
      rw [Nat.zero_add, List.take_length]
  · rintro _ _ rfl
    exact Sat.pure rfl

theorem gtPage_thiscount {c : List Nat} (h : c.length ≤ 2) : (gtPage c).spare.thiscount = c.length := by
  simp only [gtPage, Spare.thiscount, Spare.gtInfo]
  omega

theorem sat_getGarBlks (h : Image d bd own fl al mtPbas ml L) (hfl : s.nand.flash = fl) (hgt : al.gtPba < d.blks)
    (ht : TabOk s.dl s.mt.mtl) :
    Sat (contract d E) (nftlGetGarBlks d al.gtPba) s (fun r s' => r = 0 ∧
      Reflash (withGar s al.gar al.gtPgcnt) fl s') := by
  have hno := d.blks_lt_noBlock
  have hle := d.pgs_le
  obtain ⟨-, hpos, hhalf, hgar, chunks, htab⟩ : _ ∧ _ := h.alloc.tab.resolve_left fun hc => by
    have := hc.1
    omega
  subst hfl
  refine Sat.modify_bind (step_ram d E rfl) ?_
  rw [if_neg (by omega)]
  -- the pages before `i` were read
  refine Sat.bind (Q := fun r s' => r = .brk (0 : Int) ∧ Reflash (withGar s al.gar al.gtPgcnt) s.nand.flash s') ?_ ?_
  · refine Sat.loop (fun i _ s' => i ≤ al.gtPgcnt ∧ Reflash (withGar s (chunks.take i).flatten i) s.nand.flash s')
      d.pgs 0 ?_ ?_ ⟨Nat.zero_le _, s.nand.ecc, s.nand.tick, rfl⟩
    · rintro i _ s₁ - hi ⟨hile, h₁⟩
      rw [Nat.zero_add] at hi
      refine Sat.bind (sat_mtdRead hgt hi) ?_
      rintro _ s₂ ⟨rfl, h₂⟩
      rw [h₁.flash] at h₂
      have h₁₂ := h₁.trans h₂
      rw [Nand.read, h₁.flash]
      by_cases hil : i = al.gtPgcnt
      · rw [htab.rest i (by omega) hi, Option.getD_none]
        dsimp only
        rw [if_pos (by decide)]
        refine Sat.pure ⟨rfl, ?_⟩
        rwa [hil, List.take_of_length_le (by rw [htab.length]), htab.flatten] at h₁₂
      · have hic : i < chunks.length := by rw [htab.length]; omega
        have hc := htab.small _ (List.getElem_mem hic)
        rw [htab.page i _ (List.getElem?_eq_getElem hic), Option.getD_some]
        dsimp only
        rw [gtPage_thiscount hc.2, if_neg (by omega)]
        obtain ⟨e, k, rfl⟩ := h₁₂
        have hflat : (chunks.take (i + 1)).flatten = (chunks.take i).flatten ++ chunks[i] := by
          rw [← List.take_append_getElem hic, List.flatten_append]
          simp
        have hlen : ((chunks.take i).flatten ++ chunks[i]).length ≤ al.gar.length := by
          rw [← hflat, ← htab.flatten]
          exact (List.Sublist.flatten (List.take_sublist _ _)).length_le
        rw [List.length_append] at hlen
        have hgar' : al.gar.length < 128 := hgar
        refine Sat.bind (sat_readGarPage (s := s.reflash s.nand.flash e k) (n := i) (fun b hb => ?_) ?_ ht) ?_
        · refine h.alloc.pool.gar_lt b ?_
          rw [← htab.flatten]
          exact List.mem_flatten.mpr ⟨_, List.getElem_mem hic, hb⟩
        · show _ ≤ 256
          omega
        · rintro _ _ rfl
          refine Sat.modify_bind (step_ram d E rfl) (Sat.pure ⟨by omega, e, k, ?_⟩)
          rw [hflat]
          show withGar (s.reflash s.nand.flash e k) _ ((i + 1) % 256) = _
          rw [Nat.mod_eq_of_lt (by omega)]
          rfl
    · rintro _ s' ⟨hile, -⟩
      omega
  · rintro _ s' ⟨rfl, hr⟩
    exact Sat.pure ⟨rfl, hr⟩

end Emlinux.Nftl
