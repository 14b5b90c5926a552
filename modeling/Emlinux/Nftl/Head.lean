import Emlinux.Nftl.Budget

/-!
# The merges at the head of a write

Before a page is written, DataLog blocks whose logical block has a Data block are merged, the first one
first, while the tables are too full. `survivors` says which entries of the table are left, as a function of
the table and of which logical blocks are mapped; `sat_mergeHead` says that this is what the loops do, and
that no logical page changes.
-/

namespace Emlinux.Nftl

open Lib

/-! ## The entries left -/

/-- Drop the first entry of a mapped logical block, as long as there is one and `more` holds. -/
def dropMapped (mapped : Nat → Bool) (more : List LogBlock → Bool) : Nat → List LogBlock → List LogBlock
  | 0, bs => bs
  | k + 1, bs =>
    if more bs && bs.any (fun b => mapped b.key) then dropMapped mapped more k (bs.eraseP fun b => mapped b.key)
    else bs

/-- `DL_MAX_BLOCKS_DIV8 < dl_blkcnt` and `DL_MAX_PAGES_DIV8 < dl_pgcnt`, on the entries of the table. -/
def manyBlocks (bs : List LogBlock) : Bool := dlMaxBlocksDiv8 < bs.length
def manyPages (bs : List LogBlock) : Bool := dlMaxPagesDiv8 < (bs.map LogBlock.valid).sum

/-- The table entries left by the merges at the head of a write. -/
def survivors (mapped : Nat → Bool) (bs : List LogBlock) : List LogBlock :=
  let bs₁ := if dlMaxBlocksDiv4 ≤ bs.length then dropMapped mapped manyBlocks bs.length bs else bs
  if dlMaxPagesDiv4 ≤ (bs₁.map LogBlock.valid).sum then dropMapped mapped manyPages bs₁.length bs₁ else bs₁

/-- `map` has an entry for the logical block. -/
def isMapped (map : Nat → Nat) (k : Nat) : Bool := map k ≠ noBlock

theorem isMapped_iff (map : Nat → Nat) (k : Nat) : isMapped map k = true ↔ map k ≠ noBlock := decide_eq_true_iff

theorem isMapped_false_iff (map : Nat → Nat) (k : Nat) : isMapped map k = false ↔ map k = noBlock := by
  rw [← Bool.not_eq_true, isMapped_iff, not_not]

variable {d : Device} {E : Prop} {bd : Nat → Bool} {own : Own} {map : Nat → Nat} {ml L : List Log} {s : St} {U : Nat}

theorem sum_valid (L : List Log) : ((L.map Log.block).map LogBlock.valid).sum = (flat L).length := by
  induction L with
  | nil => rfl
  | cons lg L ih => simp only [List.map_cons, List.sum_cons, flat_cons, List.length_append, ih]; rfl

theorem Rep.blockAt {c : LogCap} {t : LogTab} (h : Rep c t L) {i : Nat} {lg : Log} (hi : L[i]? = some lg) :
    t.blockAt c i = .ok lg.block := by
  have hlt : i < L.length := (List.getElem?_eq_some_iff.mp hi).1
  rw [LogTab.blockAt_ok (lt_of_lt_of_le hlt h.blk_le), h.blocks, List.getD_eq_getElem?_getD, List.getElem?_map, hi]
  rfl

/-! ## Finding a block to merge -/

/-- The answer of the search: the first log of a mapped logical block, or none is. -/
def Found (map : Nat → Nat) (L : List Log) (r : Option Nat) : Prop :=
  (r = none ∧ ∀ lg ∈ L, map lg.key = noBlock) ∨
    ∃ pre lg post, L = pre ++ lg :: post ∧ r = some pre.length ∧ map lg.key ≠ noBlock ∧
      ∀ x ∈ pre, map x.key = noBlock

/-- The same of the loop: it was left at the first such log, or the map has none. -/
def Looked (map : Nat → Nat) (L : List Log) : LoopFlow (Nat × Int) Int → Prop
  | .brk x => x.2 = 0 ∧ ∃ lg, L[x.1]? = some lg ∧ map lg.key ≠ noBlock ∧
      ∀ j y, j < x.1 → L[j]? = some y → map y.key = noBlock
  | .next ret => ret = 0 ∧ ∀ lg ∈ L, map lg.key = noBlock

theorem sat_findMappedDl (hf : d.Fits) (h : Ftl d bd own map ml L s) (hq : Quiet d E s) :
    Sat (contract d E) (findMappedDl d 0) s (fun r s' => Found map L r.1 ∧ r.2 = 0 ∧ ∃ own' ml',
      Ftl d bd own' map ml' L s' ∧ Keeps Role.user own s.nand.flash own' s'.nand.flash ∧ Steady d s s') := by
  refine Sat.get_bind ?_
  rw [h.rep.blkcnt]
  refine Sat.bind (Q := fun r s' => (∃ own' ml', Ftl d bd own' map ml' L s' ∧
      Keeps Role.user own s.nand.flash own' s'.nand.flash ∧ Steady d s s') ∧ Looked map L r) ?_ ?_
  · refine Sat.loop (fun i ret s' => ret = 0 ∧ Quiet d E s' ∧ (∃ own' ml', Ftl d bd own' map ml' L s' ∧
      Keeps Role.user own s.nand.flash own' s'.nand.flash ∧ Steady d s s') ∧
      ∀ j y, j < i → L[j]? = some y → map y.key = noBlock) L.length 0 ?_ ?_
      ⟨rfl, hq, ⟨own, ml, h, Keeps.refl _ _ _, Steady.refl d s⟩, fun j y hj => absurd hj (Nat.not_lt_zero _)⟩
    · rintro i ret s₁ - hi ⟨rfl, hq₁, ⟨own₁, ml₁, h₁, hk₁, hal₁⟩, hun⟩
      rw [Nat.zero_add] at hi
      obtain ⟨lg, hlg⟩ : ∃ lg, L[i]? = some lg := ⟨L[i], List.getElem?_eq_getElem hi⟩
      have hmem : lg ∈ L := List.mem_of_getElem? hlg
      refine Sat.get_bind (Sat.lift_bind (h₁.rep.blockAt hlg) ?_)
      refine Sat.bind ((sat_lbaToPba hf h₁.core (h.key_lt lg hmem) hq₁).with_inv quiet_step hq₁) ?_
      rintro _ s₂ ⟨⟨rfl, own₂, ml₂, hc₂, hdl₂, hk₂, hal₂⟩, hq₂⟩
      have h₂ := h₁.keeps hc₂ hdl₂ hk₂
      have hx : ∃ own' ml', Ftl d bd own' map ml' L s₂ ∧ Keeps Role.user own s.nand.flash own' s₂.nand.flash ∧
          Steady d s s₂ := ⟨own₂, ml₂, h₂, hk₁.trans hk₂, hal₁.trans hal₂⟩
      by_cases hm : map lg.key = noBlock
      · rw [if_neg (fun hc => hc.2 hm)]
        refine Sat.pure ⟨rfl, hq₂, hx, fun j y hj hy => ?_⟩
        by_cases hji : j = i
        · subst hji
          rw [hlg] at hy
          rw [← Option.some.inj hy]
          exact hm
        · exact hun j y (by omega) hy
      · rw [if_pos ⟨rfl, hm⟩]
        exact Sat.pure ⟨hx, rfl, lg, hlg, hm, hun⟩
    · rintro ret s₁ ⟨rfl, -, hx, hun⟩
      refine ⟨hx, rfl, fun lg hlg => ?_⟩
      obtain ⟨j, hj⟩ := List.mem_iff_getElem?.mp hlg
      rw [Nat.zero_add] at hun
      exact hun j lg (List.getElem?_eq_some_iff.mp hj).1 hj
  · rintro r s₁ ⟨hx, hr⟩
    cases r with
    | next ret => exact Sat.pure ⟨Or.inl ⟨rfl, hr.2⟩, hr.1, hx⟩
    | brk x =>
      obtain ⟨hx2, lg, hlg, hm, hun⟩ := hr
      refine Sat.pure ⟨Or.inr ⟨L.take x.1, lg, L.drop (x.1 + 1), ?_, ?_, hm, fun y hy => ?_⟩, hx2, hx⟩
      · have hlt := (List.getElem?_eq_some_iff.mp hlg).1
        have he := (List.getElem?_eq_some_iff.mp hlg).2
        rw [← he, List.getElem_cons_drop, List.take_append_drop]
      · have hlt := (List.getElem?_eq_some_iff.mp hlg).1
        simp only [List.length_take, Option.some.injEq]
        omega
      · obtain ⟨j, hj⟩ := List.mem_iff_getElem?.mp hy
        have hjl := (List.getElem?_eq_some_iff.mp hj).1
        rw [List.length_take] at hjl
        rw [List.getElem?_take_of_lt (by omega)] at hj
        exact hun j y (by omega) hj

/-! ## The merge loops -/

/-- Some logs were merged: the others are left, and every logical page is as before. -/
structure Reduced (d : Device) (bd : Nat → Bool) (map : Nat → Nat) (L : List Log) (fl : Flash) (s' : St) (own' : Own)
    (map' : Nat → Nat) (ml' L' : List Log) : Prop where
  ftl : Ftl d bd own' map' ml' L' s'
  sub : L'.Sublist L
  mapped : ∀ k, map' k = noBlock ↔ map k = noBlock
  content : ∀ lpa, lpa / d.pgs < d.blks → content d s'.nand.flash map' L' lpa = content d fl map L lpa

theorem Reduced.trans {map₁ map₂ : Nat → Nat} {own₁ own₂ : Own} {L₁ L₂ ml₁ ml₂ : List Log} {fl : Flash} {s₁ s₂ : St}
    (h : Reduced d bd map L fl s₁ own₁ map₁ ml₁ L₁)
    (h' : Reduced d bd map₁ L₁ s₁.nand.flash s₂ own₂ map₂ ml₂ L₂) : Reduced d bd map L fl s₂ own₂ map₂ ml₂ L₂ :=
  ⟨h'.ftl, h'.sub.trans h.sub, fun k => (h'.mapped k).trans (h.mapped k),
    fun lpa hl => (h'.content lpa hl).trans (h.content lpa hl)⟩

theorem Reduced.isMapped_eq {map' : Nat → Nat} (h : ∀ k, map' k = noBlock ↔ map k = noBlock) :
    isMapped map' = isMapped map := by
  funext k
  simp only [isMapped, ne_eq, h k]

theorem mappedLogs_congr {map' : Nat → Nat} (h : ∀ k, map' k = noBlock ↔ map k = noBlock) (L : List Log) :
    mappedLogs map' L = mappedLogs map L := by
  unfold mappedLogs
  exact List.filter_congr fun x _ => by simp only [ne_eq, h x.key]

theorem Budget.mono {map' : Nat → Nat} {L' : List Log} (h : Budget d U map L) (hsub : L'.Sublist L)
    (hiff : ∀ k, map' k = noBlock ↔ map k = noBlock) : Budget d U map' L' := by
  refine ⟨h.pgs, h.one, h.room, fun k hk hm => h.lba k hk fun e => hm ((hiff k).mpr e), fun lg hlg =>
    h.key lg (hsub.subset hlg), ?_⟩
  rw [mappedLogs_congr hiff]
  exact (List.Sublist.length_le (hsub.filter _)).trans h.mapped

theorem Solvent.minimum {map' : Nat → Nat} {L' : List Log} {own' : Own} {ml' : List Log} {al : Alloc} {s' : St}
    (h : Solvent d E U bd map L al) (hr : Ftl d bd own' map' ml' L' s') (hsub : L'.Sublist L)
    (hiff : ∀ k, map' k = noBlock ↔ map k = noBlock) (hal : Low s'.al) : E ∨ miniFreeBlock ≤ s'.al.freeBlkcnt := by
  rcases h with h | ⟨hbd, hB, -⟩
  · exact Or.inl h
  · subst hbd
    exact Or.inr (hr.free_of_low (hB.mono hsub hiff) hal)

theorem Solvent.reduced {map' : Nat → Nat} {L' : List Log} {own' : Own} {ml' : List Log} {al : Alloc} {s' : St}
    (h : Solvent d E U bd map L al) (hr : Ftl d bd own' map' ml' L' s') (hsub : L'.Sublist L)
    (hiff : ∀ k, map' k = noBlock ↔ map k = noBlock) (hal : Low s'.al) : Solvent d E U bd map' L' s'.al := by
  have hmin := h.minimum hr hsub hiff hal
  rcases h with h | ⟨hbd, hB, -⟩
  · exact Or.inl h
  · exact hmin.imp id fun hm => ⟨hbd, hB.mono hsub hiff, Or.inl hm⟩

theorem update_mapped {k₀ tb : Nat} (hm : map k₀ ≠ noBlock) (ht : tb ≠ noBlock) (k : Nat) :
    Function.update map k₀ tb k = noBlock ↔ map k = noBlock := by
  by_cases hk : k = k₀
  · subst hk; simp [hm, ht]
  · rw [Function.update_of_ne hk]

/-- `while (more)`: merge the first log that can be merged. -/
theorem sat_mergeWhile {more : LogTab → Bool} {moreL : List LogBlock → Bool} (hf : d.Fits)
    (hmore : ∀ t L, Rep dlCap t L → more t = moreL (L.map Log.block)) (k : Nat) (h : Ftl d bd own map ml L s)
    (hk : L.length ≤ k) (hlen : L.length < dlMaxBlocks ∨ ∀ lg ∈ L, map lg.key = noBlock) (hq : Quiet d E s)
    (hS : Solvent d E U bd map L s.al) :
    Sat (contract d E) (mergeWhile d more (k + 1)) s (fun r s' => r = .next () ∧ Quiet d E s' ∧ ∃ own' map' ml' L',
      Reduced d bd map L s.nand.flash s' own' map' ml' L' ∧
      L'.map Log.block = dropMapped (isMapped map) moreL k (L.map Log.block) ∧ Solvent d E U bd map' L' s'.al ∧
      (L' = L → Steady d s s') ∧ (L' ≠ L → E ∨ miniFreeBlock ≤ s'.al.freeBlkcnt)) := by
  induction k generalizing own map ml L s with
  | zero =>
    obtain rfl : L = [] := List.length_eq_zero_iff.mp (Nat.le_zero.mp hk)
    refine Sat.get_bind ?_
    by_cases hm : more s.dl = true
    · rw [if_pos hm]
      refine Sat.bind ((sat_findMappedDl hf h hq).with_inv quiet_step hq) ?_
      rintro r s₁ ⟨⟨hfound, -, own₁, ml₁, h₁, hk₁, hal₁⟩, hq₁⟩
      rcases hfound with ⟨hr, -⟩ | ⟨pre, lg, post, he, -⟩
      · rw [hr]
        refine Sat.pure ⟨rfl, hq₁, own₁, map, ml₁, [], ⟨h₁, List.Sublist.refl _, fun _ => Iff.rfl, fun lpa hl =>
          content_congr h.logs h.data hk₁ hl⟩, rfl, hal₁.carry hq Or.inl hS, fun _ => hal₁, fun hx => absurd rfl hx⟩
      · simp at he
    · rw [if_neg hm]
      exact Sat.pure ⟨rfl, hq, own, map, ml, [], ⟨h, List.Sublist.refl _, fun _ => Iff.rfl, fun _ _ => rfl⟩, rfl, hS,
        fun _ => Steady.refl d s, fun hx => absurd rfl hx⟩
  | succ k ih =>
    refine Sat.get_bind ?_
    by_cases hm : more s.dl = true
    · have hmL : moreL (L.map Log.block) = true := by rw [← hmore _ _ h.rep]; exact hm
      rw [if_pos hm]
      refine Sat.bind ((sat_findMappedDl hf h hq).with_inv quiet_step hq) ?_
      rintro r s₁ ⟨⟨hfound, -, own₁, ml₁, h₁, hk₁, hal₁⟩, hq₁⟩
      have hS₁ : Solvent d E U bd map L s₁.al := hal₁.carry hq Or.inl hS
      rcases hfound with ⟨hr, hun⟩ | ⟨pre, lg, post, rfl, hr, hmap, hun⟩
      · rw [hr]
        have hany : ((L.map Log.block).any fun b => isMapped map b.key) = false := by
          simp only [List.any_map, List.any_eq_false, Function.comp]
          intro x hx
          rw [Bool.not_eq_true, isMapped_false_iff]
          exact hun x hx
        refine Sat.pure ⟨rfl, hq₁, own₁, map, ml₁, L, ⟨h₁, List.Sublist.refl _, fun _ => Iff.rfl, fun lpa hl =>
          content_congr h.logs h.data hk₁ hl⟩, ?_, hS₁, fun _ => hal₁, fun hx => absurd rfl hx⟩
        rw [dropMapped, hany, Bool.and_false, if_neg (by simp)]
      · rw [hr]
        have hlen' : (pre ++ lg :: post).length < dlMaxBlocks := hlen.resolve_right fun hx => hmap (hx lg (by simp))
        refine Sat.bind ((sat_mergeDlblk hf h₁ hlen' hq₁ (hS₁.enough (show lg ∈ pre ++ lg :: post by simp) hmap)).with_inv quiet_step hq₁) ?_
        rintro _ s₂ ⟨⟨rfl, own₂, ml₂, tb, h₂, htb, hlow, hcont⟩, hq₂⟩
        rw [if_neg (by decide)]
        have hno := d.blks_lt_noBlock
        have hiff : ∀ k, Function.update map lg.key tb k = noBlock ↔ map k = noBlock :=
          update_mapped hmap (show tb ≠ noBlock by omega)
        have hsub : (pre ++ post).Sublist (pre ++ lg :: post) :=
          List.Sublist.append (List.Sublist.refl _) (List.sublist_cons_self _ _)
        have hlt : (pre ++ post).length < (pre ++ lg :: post).length := by simp
        have hmin : E ∨ miniFreeBlock ≤ s₂.al.freeBlkcnt := hS₁.minimum h₂ hsub hiff hlow
        refine (ih h₂ (by omega) (Or.inl (by omega)) hq₂ (hS₁.reduced h₂ hsub hiff hlow)).mono ?_
        rintro r s₃ ⟨rfl, hq₃, own₃, map₃, ml₃, L₃, hred, hblk, hS₃, hst₃, hmin₃⟩
        have hred' : Reduced d bd map (pre ++ lg :: post) s.nand.flash s₂ own₂ (Function.update map lg.key tb) ml₂
            (pre ++ post) :=
          ⟨h₂, hsub, hiff, fun lpa hl => by rw [hcont lpa hl (Or.inl hmap), content_congr h.logs h.data hk₁ hl]⟩
        refine ⟨rfl, hq₃, own₃, map₃, ml₃, L₃, hred'.trans hred, ?_, hS₃, fun e => ?_, fun _ => ?_⟩
        · have hany : (((pre ++ lg :: post).map Log.block).any fun b => isMapped map b.key) = true := by
            simp only [List.any_map, List.any_eq_true, Function.comp]
            exact ⟨lg, by simp, (isMapped_iff _ _).mpr hmap⟩
          have herase : ((pre ++ lg :: post).map Log.block).eraseP (fun b => isMapped map b.key)
              = (pre ++ post).map Log.block := by
            rw [List.map_append, List.map_cons, List.eraseP_append_right, List.eraseP_cons_of_pos, List.map_append]
            · exact (isMapped_iff _ _).mpr hmap
            · intro b hb
              obtain ⟨x, hx, rfl⟩ := List.mem_map.mp hb
              rw [Bool.not_eq_true, isMapped_false_iff]
              exact hun x hx
          rw [hblk, dropMapped, hmL, hany, Bool.and_self, if_pos rfl, herase, Reduced.isMapped_eq hiff]
        · have := hred.sub.length_le
          rw [e] at this
          omega
        · by_cases he : L₃ = pre ++ post
          · exact (hst₃ he).carry (Q := fun al => E ∨ miniFreeBlock ≤ al.freeBlkcnt) hq₂ Or.inl hmin
          · exact hmin₃ he
    · have hmL : moreL (L.map Log.block) = false := by rw [← hmore _ _ h.rep]; simpa using hm
      rw [if_neg hm]
      refine Sat.pure ⟨rfl, hq, own, map, ml, L, ⟨h, List.Sublist.refl _, fun _ => Iff.rfl, fun _ _ => rfl⟩, ?_, hS,
        fun _ => Steady.refl d s, fun hx => absurd rfl hx⟩
      rw [dropMapped, hmL, Bool.false_and, if_neg (by simp)]

/-- `if (trigger) while (more) …`. -/
theorem sat_mergeWhen {trig more : LogTab → Bool} {F G : List LogBlock → Bool} (hf : d.Fits)
    (htrig : ∀ t L, Rep dlCap t L → trig t = F (L.map Log.block))
    (hmore : ∀ t L, Rep dlCap t L → more t = G (L.map Log.block)) (h : Ftl d bd own map ml L s)
    (hlen : L.length < dlMaxBlocks ∨ ∀ lg ∈ L, map lg.key = noBlock) (hq : Quiet d E s)
    (hS : Solvent d E U bd map L s.al) :
    Sat (contract d E) (mergeWhen d trig more) s (fun r s' => r = .next () ∧ Quiet d E s' ∧ ∃ own' map' ml' L',
      Reduced d bd map L s.nand.flash s' own' map' ml' L' ∧
      L'.map Log.block = (if F (L.map Log.block) then
        dropMapped (isMapped map) G (L.map Log.block).length (L.map Log.block) else L.map Log.block) ∧
      Solvent d E U bd map' L' s'.al ∧ (L' = L → Steady d s s') ∧ (L' ≠ L → E ∨ miniFreeBlock ≤ s'.al.freeBlkcnt)) := by
  refine Sat.get_bind ?_
  rw [htrig _ _ h.rep, h.rep.blkcnt]
  by_cases ht : F (L.map Log.block) = true
  · rw [if_pos ht]
    refine (sat_mergeWhile hf hmore L.length h (le_refl _) hlen hq hS).mono ?_
    rintro r s' ⟨rfl, hq', own', map', ml', L', hred, hblk, hS', hal⟩
    refine ⟨rfl, hq', own', map', ml', L', hred, ?_, hS', hal⟩
    rw [if_pos ht, List.length_map, hblk]
  · rw [if_neg ht]
    refine Sat.pure ⟨rfl, hq, own, map, ml, L, ⟨h, List.Sublist.refl _, fun _ => Iff.rfl, fun _ _ => rfl⟩, ?_, hS,
      fun _ => Steady.refl d s, fun hx => absurd rfl hx⟩
    rw [if_neg ht]

/-- The merges at the head of a write leave the entries `survivors`, and no logical page changes. -/
theorem sat_mergeHead (hf : d.Fits) (h : Ftl d bd own map ml L s)
    (hlen : L.length < dlMaxBlocks ∨ ∀ lg ∈ L, map lg.key = noBlock) (hq : Quiet d E s)
    (hS : Solvent d E U bd map L s.al) :
    Sat (contract d E) (mergeHead d) s (fun r s' => r = .next () ∧ Quiet d E s' ∧ ∃ own' map' ml' L',
      Reduced d bd map L s.nand.flash s' own' map' ml' L' ∧
      L'.map Log.block = survivors (isMapped map) (L.map Log.block) ∧
      Solvent d E U bd map' L' s'.al ∧ (L' = L → Steady d s s') ∧ (L' ≠ L → E ∨ miniFreeBlock ≤ s'.al.freeBlkcnt)) := by
  refine Sat.bind (sat_mergeWhen (F := fun bs => dlMaxBlocksDiv4 ≤ bs.length) (G := manyBlocks) hf ?_ ?_ h hlen hq hS) ?_
  · intro t L hr
    rw [hr.blkcnt, List.length_map]
  · intro t L hr
    rw [hr.blkcnt, manyBlocks, List.length_map]
  rintro r s₁ ⟨rfl, hq₁, own₁, map₁, ml₁, L₁, hred₁, hblk₁, hS₁, hal₁, hmin₁⟩
  have hlen₁ : L₁.length < dlMaxBlocks ∨ ∀ lg ∈ L₁, map₁ lg.key = noBlock := by
    rcases hlen with hl | hl
    · exact Or.inl (lt_of_le_of_lt hred₁.sub.length_le hl)
    · exact Or.inr fun lg hlg => (hred₁.mapped _).mpr (hl lg (hred₁.sub.subset hlg))
  refine (sat_mergeWhen (F := fun bs => dlMaxPagesDiv4 ≤ (bs.map LogBlock.valid).sum) (G := manyPages) hf ?_ ?_
    hred₁.ftl hlen₁ hq₁ hS₁).mono ?_
  · intro t L hr
    rw [hr.pgcnt, sum_valid]
  · intro t L hr
    rw [hr.pgcnt, manyPages, sum_valid]
  rintro r s₂ ⟨rfl, hq₂, own₂, map₂, ml₂, L₂, hred₂, hblk₂, hS₂, hal₂, hmin₂⟩
  refine ⟨rfl, hq₂, own₂, map₂, ml₂, L₂, hred₁.trans hred₂, ?_, hS₂, fun e => ?_, fun hne => ?_⟩
  · rw [hblk₂, hblk₁, Reduced.isMapped_eq hred₁.mapped]
    simp only [survivors, decide_eq_true_eq]
  · have h₁ : L₁ = L := hred₁.sub.eq_of_length_le (e ▸ hred₂.sub.length_le)
    exact (hal₁ h₁).trans (hal₂ (e.trans h₁.symm))
  · by_cases he : L₂ = L₁
    · exact (hal₂ he).carry (Q := fun al => E ∨ miniFreeBlock ≤ al.freeBlkcnt) hq₁ Or.inl (hmin₁ (he ▸ hne))
    · exact hmin₂ he

/-- With a full table, a merge at the head of a write overruns it. -/
theorem fails_mergeHead (hf : d.Fits) (h : Ftl d bd own map ml L s) (hfull : L.length = dlMaxBlocks)
    (hex : ∃ lg ∈ L, map lg.key ≠ noBlock) (hq : Quiet d E s) (hE : E) : Fails (contract d E) (mergeHead d) s dlOverrun := by
  refine Fails.bind (Fails.get_bind ?_)
  rw [if_pos (show decide (dlMaxBlocksDiv4 ≤ s.dl.blkcnt) = true by rw [h.rep.blkcnt, hfull]; rfl)]
  refine Fails.get_bind ?_
  rw [if_pos (show decide (dlMaxBlocksDiv8 < s.dl.blkcnt) = true by rw [h.rep.blkcnt, hfull]; rfl)]
  refine Fails.after ((sat_findMappedDl hf h hq).with_inv quiet_step hq) ?_
  rintro r s₁ ⟨⟨hfound, -, own₁, ml₁, h₁, -⟩, hq₁⟩
  rcases hfound with ⟨-, hun⟩ | ⟨pre, lg, post, rfl, hr, -⟩
  · obtain ⟨lg, hlg, hm⟩ := hex
    exact absurd (hun lg hlg) hm
  · rw [hr]
    exact Fails.bind (fails_mergeDlblk hf h₁ hfull hq₁ (Or.inl hE))

/-! ## How much is left -/

theorem dropMapped_sublist (mapped : Nat → Bool) (more : List LogBlock → Bool) (k : Nat) (bs : List LogBlock) :
    (dropMapped mapped more k bs).Sublist bs := by
  induction k generalizing bs with
  | zero => exact List.Sublist.refl _
  | succ k ih =>
    rw [dropMapped]
    split_ifs
    · exact (ih _).trans List.eraseP_sublist
    · exact List.Sublist.refl _

theorem dropMapped_done (mapped : Nat → Bool) (more : List LogBlock → Bool) (k : Nat) (bs : List LogBlock)
    (hk : bs.length ≤ k) :
    more (dropMapped mapped more k bs) = false ∨ ∀ b ∈ dropMapped mapped more k bs, mapped b.key = false := by
  induction k generalizing bs with
  | zero =>
    right
    obtain rfl : bs = [] := List.length_eq_zero_iff.mp (Nat.le_zero.mp hk)
    simp [dropMapped]
  | succ k ih =>
    rw [dropMapped]
    by_cases hc : (more bs && bs.any fun b => mapped b.key) = true
    · rw [if_pos hc]
      rw [Bool.and_eq_true, List.any_eq_true] at hc
      obtain ⟨b, hb, hm⟩ := hc.2
      refine ih _ ?_
      rw [List.length_eraseP_of_mem hb hm]
      omega
    · rw [if_neg hc]
      rw [Bool.and_eq_true, not_and_or, Bool.not_eq_true, Bool.not_eq_true, List.any_eq_false] at hc
      rcases hc with hc | hc
      · exact Or.inl hc
      · exact Or.inr fun b hb => by simpa using hc b hb

/-- Few entries are left, or none can be merged. -/
theorem survivors_few (mapped : Nat → Bool) (bs : List LogBlock) :
    (survivors mapped bs).length < dlMaxBlocksDiv4 ∨ ∀ b ∈ survivors mapped bs, mapped b.key = false := by
  rw [survivors]
  set bs₁ := if dlMaxBlocksDiv4 ≤ bs.length then dropMapped mapped manyBlocks bs.length bs else bs with hbs₁
  have hfirst : bs₁.length < dlMaxBlocksDiv4 ∨ ∀ b ∈ bs₁, mapped b.key = false := by
    rw [hbs₁]
    by_cases hc : dlMaxBlocksDiv4 ≤ bs.length
    · rw [if_pos hc]
      refine (dropMapped_done mapped manyBlocks bs.length bs (le_refl _)).imp (fun hd => ?_) id
      have : ¬ 16 < (dropMapped mapped manyBlocks bs.length bs).length := by simpa [manyBlocks] using hd
      show _ < 32
      omega
    · rw [if_neg hc]
      exact Or.inl (by omega)
  have hsub : (if dlMaxPagesDiv4 ≤ (bs₁.map LogBlock.valid).sum then dropMapped mapped manyPages bs₁.length bs₁
      else bs₁).Sublist bs₁ := by
    split_ifs
    · exact dropMapped_sublist _ _ _ _
    · exact List.Sublist.refl _
  exact hfirst.imp (lt_of_le_of_lt hsub.length_le) fun h b hb => h b (hsub.subset hb)

end Emlinux.Nftl
