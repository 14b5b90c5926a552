import Emlinux.Nftl.Write

/-!
# The specification of a write

`Room` is what `nftl_write_logicpage` needs to stay inside `dl_blocktab` and `dl_transtab`: the merges at its
head give up when no DataLog block can be merged, and then nothing bounds the tables. `Safe` is what it needs
to store the page and nothing else: the conversion of a DataLog block does not look at the page that is
written, and a merge without Data block marks page 0 of the new block with whatever `kmalloc` returned.
-/

namespace Emlinux.Nftl

open Lib

variable {d : Device} {E : Prop} {bd : Nat → Bool} {own : Own} {map : Nat → Nat} {ml L pre post : List Log} {lg : Log} {s : St} {U lpa : Nat}

/-! ## Conditions -/

/-- The tables have room for a write to `lpa`. -/
structure Room (d : Device) (map : Nat → Nat) (L : List Log) (lpa : Nat) (s : St) : Prop where
  full : L.length = dlMaxBlocks → (∀ lg ∈ L, map lg.key = noBlock) ∧
    ∃ lg ∈ L, lg.key = lpa / d.pgs ∧ lg.seq.length + 1 < d.pgs
  tail : L.length + 1 = dlMaxBlocks → (∀ lg ∈ L, map lg.key = noBlock) → (∀ lg ∈ L, lg.key ≠ lpa / d.pgs) →
    map (lpa / d.pgs) ≠ noBlock → Calm d s ∧ miniFreeBlock + 1 < s.al.freeBlkcnt
  pages : (flat L).length = dlMaxPages → (∀ lg ∈ L, map lg.key = noBlock) →
    ∃ lg ∈ L, lg.key = lpa / d.pgs ∧ (lpa ∈ lg.seq ∨ (lg.seq.length + 1 = d.pgs ∧ InOrder d lg))

/-- A page that takes the last page of a DataLog block is stored right. -/
def Safe (d : Device) (map : Nat → Nat) (lpa : Nat) (lg : Log) : Prop :=
  lg.key = lpa / d.pgs → lg.seq.length + 1 = d.pgs →
    (InOrder d lg → lpa % d.pgs + 1 = d.pgs) ∧
    (¬ InOrder d lg → map lg.key ≠ noBlock ∨ lg.key * d.pgs ∈ lg.seq ∨ lpa % d.pgs = 0)

/-- The free blocks a write may take before it gives any back. -/
def need (d : Device) (mapped : Nat → Bool) (bs : List LogBlock) (lba : Nat) : Nat :=
  match bs.find? (fun b => b.key = lba) with
  | some b => if b.used + 1 < d.pgs then 0 else 1
  | none => if mapped lba then 2 else 1

theorem need_found (hnd : ((pre ++ lg :: post).map Log.key).Nodup) (mapped : Nat → Bool) :
    need d mapped ((pre ++ lg :: post).map Log.block) lg.key = if lg.seq.length + 1 < d.pgs then 0 else 1 := by
  have hfind : ((pre ++ lg :: post).map Log.block).find? (fun b => b.key = lg.key) = some lg.block := by
    rw [List.map_append, List.map_cons, List.nodup_middle, List.nodup_cons, ← List.map_append] at hnd
    rw [List.map_append, List.map_cons, List.find?_append, List.find?_cons_of_pos (by simp [Log.block])]
    rw [List.find?_eq_none.mpr, Option.none_or]
    intro b hb
    obtain ⟨x, hx, rfl⟩ := List.mem_map.mp hb
    have : x.key ≠ lg.key := fun e => hnd.1 (e ▸ List.mem_map_of_mem (List.mem_append_left _ hx))
    simp [Log.block, this]
  rw [need, hfind]
  rfl

theorem need_new {lba : Nat} (hkey : ∀ x ∈ L, x.key ≠ lba) (mapped : Nat → Bool) :
    need d mapped (L.map Log.block) lba = if mapped lba then 2 else 1 := by
  have hfind : (L.map Log.block).find? (fun b => b.key = lba) = none := by
    rw [List.find?_eq_none]
    intro b hb
    obtain ⟨x, hx, rfl⟩ := List.mem_map.mp hb
    simp [Log.block, hkey x hx]
  rw [need, hfind]

/-! ## The target of a write -/

theorem inOrder_iff : ((List.range (d.pgs - 1)).map fun i => (lookup lg.seq (lg.key * d.pgs + i)).getD 0xff)
    = List.range (d.pgs - 1) ↔ InOrder d lg := by
  have hle := d.pgs_le
  rw [List.map_eq_iff]
  constructor
  · intro h i hi
    have := h i
    rw [List.getElem?_range (by omega)] at this
    simp only [Option.map_some, Option.some.injEq] at this
    cases hl : lookup lg.seq (lg.key * d.pgs + i) with
    | none => rw [hl, Option.getD_none] at this; omega
    | some p => rw [hl, Option.getD_some] at this; rw [this]
  · intro h i
    by_cases hi : i < d.pgs - 1
    · rw [List.getElem?_range hi, Option.map_some, h i (by omega), Option.getD_some]
    · rw [List.getElem?_eq_none (by simpa using hi), Option.map_none]

open Classical in
theorem sat_writeTarget (h : Ftl d bd own map ml (pre ++ lg :: post) s) :
    Sat (contract d E) (writeTarget d lg.key) s (fun t s' => s' = s ∧
      t = ⟨if lg.seq.length + 1 = d.pgs ∧ InOrder d lg then .delete else .insert, pre.length, lg.pba, lg.seq.length⟩) := by
  have hpos := d.pgs_pos
  have hidx : (pre ++ lg :: post).findIdx (fun x => decide (x.block.key = lg.key)) = pre.length := by
    have hnd := h.logs.nodup
    rw [List.map_append, List.map_cons, List.nodup_middle, List.nodup_cons, ← List.map_append] at hnd
    rw [List.findIdx_append, List.findIdx_eq_length.mpr]
    · simp [List.findIdx_cons, Log.block]
    · intro x hx
      have : x.key ≠ lg.key := fun e => hnd.1 (e ▸ List.mem_map_of_mem (List.mem_append_left _ hx))
      simp [Log.block, this]
  refine Sat.bind (Q := fun i s' => i = pre.length ∧ s' = s) ?_ ?_
  · refine Sat.get_bind (Sat.lift_ok ?_ ⟨rfl, rfl⟩)
    have := findBlock_rep (show Rep dlCap s.dl ([] ++ (pre ++ lg :: post)) from h.rep) (fun b => b.key = lg.key)
    rw [h.rep.blkcnt]
    simpa [hidx] using this
  rintro _ s ⟨rfl, rfl⟩
  refine Sat.get_bind ?_
  rw [if_pos (by rw [h.rep.blkcnt]; simp)]
  refine Sat.lift_bind (LogTab.blockAt_ok h.rep.mid_lt) ?_
  rw [h.rep.block_mid]
  by_cases hu : lg.seq.length + 1 = d.pgs
  · rw [if_pos (show lg.block.used = d.pgs - 1 by show lg.seq.length = _; omega)]
    refine Sat.lift_bind (factPpas_rep h.rep _ _) (Sat.pure ⟨rfl, ?_⟩)
    simp only [inOrder_iff, hu, true_and]
    rfl
  · rw [if_neg (show lg.block.used ≠ d.pgs - 1 by show lg.seq.length ≠ _; omega)]
    refine Sat.pure ⟨rfl, ?_⟩
    simp only [hu, false_and, if_false]
    rfl

theorem sat_writeTarget_new {lba : Nat} (hf : d.Fits) (h : Ftl d bd own map ml L s) (hkey : ∀ x ∈ L, x.key ≠ lba)
    (hE : E ∨ 0 < s.al.freeBlkcnt) :
    Sat (contract d E) (writeTarget d lba) s (fun t s' => ∃ b, s.al.blockstatus b = true ∧
      t = ⟨.append, L.length, b, 0⟩ ∧ s' = { s with al := s.al.take b }) := by
  have hidx : L.findIdx (fun x => decide (x.block.key = lba)) = L.length := by
    rw [List.findIdx_eq_length]
    intro x hx
    simp [Log.block, hkey x hx]
  refine Sat.bind (Q := fun i s' => i = L.length ∧ s' = s) ?_ ?_
  · refine Sat.get_bind (Sat.lift_ok ?_ ⟨rfl, rfl⟩)
    have := findBlock_rep (show Rep dlCap s.dl ([] ++ L) from h.rep) (fun b => b.key = lba)
    rw [h.rep.blkcnt]
    simpa [hidx] using this
  rintro _ s ⟨rfl, rfl⟩
  refine Sat.get_bind ?_
  rw [if_neg (by rw [h.rep.blkcnt]; omega)]
  refine Sat.bind (sat_getFreeBlock hf.blks_lt h.core.alloc.pool hE) ?_
  rintro b s' ⟨hb, rfl⟩
  exact Sat.pure ⟨b, hb, rfl, rfl⟩

/-! ## The body of a write -/

/-- A write is done: all logs have an erased page again, and, if `ok`, page `lpa` holds `dat` and no other page
changed since `s`. -/
def Wrote (d : Device) (E : Prop) (U : Nat) (bd : Nat → Bool) (map : Nat → Nat) (L : List Log) (lpa : Nat)
    (dat : PageData) (ok : Prop) (s s' : St) : Prop :=
  ∃ own' map' ml' L', Ftl d bd own' map' ml' L' s' ∧ (∀ lg ∈ L', lg.seq.length < d.pgs) ∧
    Solvent d E U bd map' L' s'.al ∧ (ok → ∀ q, q / d.pgs < d.blks →
      content d s'.nand.flash map' L' q = if q = lpa then dat else content d s.nand.flash map L q)

theorem Stored.finish {map₁ : Nat → Nat} {own₁ : Own} {ml₁ L₁ : List Log} {s₁ s₂ : St} {dat : PageData} {ok ok₁ ok₂ : Prop}
    (h : Stored d bd map L lpa dat ok₁ s s₁ own₁ map₁ ml₁ L₁) (h' : Finished d E U bd map₁ L₁ ok₂ s₁ s₂)
    (hok : ok → ok₁ ∧ ok₂) : Wrote d E U bd map L lpa dat ok s s₂ := by
  obtain ⟨own₂, map₂, ml₂, L₂, h₂, hs₂, hS₂, hc₂⟩ := h'
  exact ⟨own₂, map₂, ml₂, L₂, h₂, hs₂, hS₂, fun hx q hq => (hc₂ (hok hx).2 q hq).trans (h.content (hok hx).1 q hq)⟩

theorem Ftl.flat_lt (h : Ftl d bd own map ml L s) (hroom : Room d map L lpa s)
    (hfew : L.length < dlMaxBlocksDiv4 ∨ ∀ lg ∈ L, map lg.key = noBlock) :
    (flat L).length < dlMaxPages ∨
      ∃ lg ∈ L, lg.key = lpa / d.pgs ∧ (lpa ∈ lg.seq ∨ (lg.seq.length + 1 = d.pgs ∧ InOrder d lg)) := by
  have hle : (flat L).length ≤ 4096 := h.rep.pg_le
  by_cases hp : (flat L).length = dlMaxPages
  · rcases hfew with hf | hf
    · left
      have h1 : (flat L).length ≤ L.length * 128 :=
        length_flat_le fun lg hlg => (h.logs.pages lg hlg).fits.trans d.pgs_le
      have h2 : L.length < 32 := hf
      show _ < 4096
      omega
    · exact Or.inr (hroom.pages hp hf)
  · exact Or.inl (lt_of_le_of_ne hle hp)

theorem few_mapped (hfew : L.length < dlMaxBlocksDiv4 ∨ ∀ lg ∈ L, map lg.key = noBlock) :
    (mappedLogs map L).length ≤ 32 := by
  rcases hfew with hf | hf
  · have h1 : (mappedLogs map L).length ≤ L.length := List.length_filter_le _ _
    have h2 : L.length < 32 := hf
    omega
  · have : mappedLogs map L = [] := by
      rw [mappedLogs, List.filter_eq_nil_iff]
      intro x hx
      simpa using hf x hx
    simp [this]

/-- The page goes to a new DataLog block. -/
theorem sat_writeBody_new (dat : PageData) (hf : d.Fits) (h : Ftl d bd own map ml L s) (hshort : ∀ x ∈ L, x.seq.length < d.pgs)
    (hlpa : lpa / d.pgs < d.blks) (hkey : ∀ x ∈ L, x.key ≠ lpa / d.pgs) (hroom : Room d map L lpa s)
    (hfew : L.length < dlMaxBlocksDiv4 ∨ ∀ lg ∈ L, map lg.key = noBlock) (hq : Quiet d E s)
    (hS : Solvent d E U bd map L s.al) (hU : E ∨ lpa / d.pgs < U)
    (hneed : E ∨ miniFreeBlock ≤ s.al.freeBlkcnt ∨ (if isMapped map (lpa / d.pgs) then 2 else 1) ≤ s.al.freeBlkcnt) :
    Sat (contract d E) (writeBody d lpa dat) s (fun r s' => r = 0 ∧ Wrote d E U bd map L lpa dat True s s') := by
  have h20 : miniFreeBlock = 20 := rfl
  have h128 : dlMaxBlocks = 128 := rfl
  have hle : L.length ≤ 128 := h.rep.blk_le
  have hpos : E ∨ 0 < s.al.freeBlkcnt := by
    rcases hneed with hx | hx | hx
    · exact Or.inl hx
    · exact Or.inr (by omega)
    · exact Or.inr (by split_ifs at hx <;> omega)
  have hlen : L.length < dlMaxBlocks := by
    by_contra hc
    obtain ⟨-, x, hx, hxk, -⟩ := hroom.full (by omega)
    exact hkey x hx hxk
  have hflat : (flat L).length < dlMaxPages := (h.flat_lt hroom hfew).resolve_right fun ⟨x, hx, hxk, _⟩ => hkey x hx hxk
  refine Sat.bind ((sat_writeTarget_new hf h hkey hpos).with_inv quiet_step hq) ?_
  rintro _ _ ⟨⟨b, hb, rfl, rfl⟩, hq₁⟩
  have hfree := h.core.alloc.pool.free_take hb
  refine Sat.bind ((sat_appendDl dat h hb hkey hlpa hlen hflat).with_inv quiet_step hq₁) ?_
  rintro _ s₂ ⟨⟨rfl, hal₂, hst₂⟩, hq₂⟩
  rw [if_pos rfl]
  have hunmapped : (∀ x ∈ L, map x.key = noBlock) → map (lpa / d.pgs) = noBlock →
      ∀ x ∈ L ++ [(⟨lpa / d.pgs, b, [lpa]⟩ : Log)], map x.key = noBlock := by
    intro h1 h2 x hx
    rcases List.mem_append.mp hx with hx | hx
    · exact h1 x hx
    · rw [List.mem_singleton.mp hx]; exact h2
  -- with free blocks left, or none of the logs mapped, the last merge can be paid
  have hP : Payable d E U bd map (L ++ [⟨lpa / d.pgs, b, [lpa]⟩]) s₂.al := by
    rcases hS with hx | ⟨hbd, hB, hS⟩
    · exact Or.inl hx
    · rcases hU with hx | hU
      · exact Or.inl hx
      · subst hbd
        have hB' : Budget d U map (L ++ [⟨lpa / d.pgs, b, [lpa]⟩]) := hB.add hU (few_mapped hfew)
        refine Or.inr ⟨rfl, hB', ?_⟩
        by_cases hf20 : miniFreeBlock ≤ s.al.freeBlkcnt
        · exact Or.inl (hst₂.ftl.enough hB' (by rw [hal₂]; omega))
        · have hun := hS.resolve_left hf20
          by_cases hm : map (lpa / d.pgs) = noBlock
          · exact Or.inr (hunmapped hun hm)
          · rw [if_pos ((isMapped_iff _ _).mpr hm)] at hneed
            rcases hneed with hx | hx | hx
            · exact Or.inl (Or.inl hx)
            · exact absurd hx hf20
            · exact Or.inl (hst₂.ftl.enough hB' (by rw [hal₂]; omega))
  by_cases hp1 : d.pgs = 1
  · -- one page a block: the log is full at once
    have hnil : L = [] := by
      rw [List.eq_nil_iff_forall_not_mem]
      intro x hx
      have h1 := hshort x hx
      have h2 := List.length_pos_iff.mpr (h.logs.pages x hx).nonempty
      omega
    subst hnil
    have hE : E := by
      rcases hS with hx | ⟨-, hB, -⟩
      · exact hx
      · have := hB.pgs
        omega
    have hf2 : Ftl d bd _ map ml ([] ++ ⟨lpa / d.pgs, b, [lpa]⟩ :: []) s₂ := hst₂.ftl
    refine (sat_finishWrite_full (U := U) hf hf2 (by simp [hp1]) (by simp) (by simp) hq₂ (Or.inl hE) (Or.inl hE)).mono ?_
    rintro r s' ⟨rfl, hfin⟩
    exact ⟨rfl, hst₂.finish hfin fun _ => ⟨trivial, Or.inr (by simp [hp1])⟩⟩
  · refine (sat_finishWrite hf hst₂.ftl hlen (fun x hx => ?_) (fun hfr => ?_) hq₂ hP).mono ?_
    · rcases List.mem_append.mp hx with hx | hx
      · exact hshort x hx
      · rw [List.mem_singleton.mp hx]
        have := d.pgs_pos
        simp only [List.length_singleton]
        omega
    · by_cases hl : L.length + 1 = dlMaxBlocks
      · right
        have hun := hfew.resolve_left (show ¬ L.length < 32 by omega)
        refine hunmapped hun ?_
        by_contra hm
        have := (hroom.tail hl hun hkey hm).2
        rw [hal₂] at hfr
        omega
      · left
        simp only [List.length_append, List.length_singleton]
        omega
    · rintro r s' ⟨rfl, hfin⟩
      exact ⟨rfl, hst₂.finish hfin fun _ => ⟨trivial, trivial⟩⟩

/-- The page goes to the DataLog block of its logical block. -/
theorem sat_writeBody_found (dat : PageData) (hf : d.Fits) (h : Ftl d bd own map ml (pre ++ lg :: post) s)
    (hshort : ∀ x ∈ pre ++ lg :: post, x.seq.length < d.pgs) (hk : lg.key = lpa / d.pgs)
    (hroom : Room d map (pre ++ lg :: post) lpa s)
    (hfew : (pre ++ lg :: post).length < dlMaxBlocksDiv4 ∨ ∀ x ∈ pre ++ lg :: post, map x.key = noBlock) (hq : Quiet d E s)
    (hS : Solvent d E U bd map (pre ++ lg :: post) s.al)
    (hneed : E ∨ miniFreeBlock ≤ s.al.freeBlkcnt ∨ (if lg.seq.length + 1 < d.pgs then 0 else 1) ≤ s.al.freeBlkcnt) :
    Sat (contract d E) (writeBody d lpa dat) s (fun r s' => r = 0 ∧
      Wrote d E U bd map (pre ++ lg :: post) lpa dat (Safe d map lpa lg) s s') := by
  classical
  have h20 : miniFreeBlock = 20 := rfl
  have h128 : dlMaxBlocks = 128 := rfl
  have hle : (pre ++ lg :: post).length ≤ 128 := h.rep.blk_le
  have hlt := hshort lg (by simp)
  have hsub : (pre ++ post).Sublist (pre ++ lg :: post) :=
    List.Sublist.append (List.Sublist.refl _) (List.sublist_cons_self _ _)
  -- a log that is full after this write: the tables are not full, and a block is free
  have hlen : lg.seq.length + 1 = d.pgs → (pre ++ lg :: post).length < dlMaxBlocks := by
    intro hu
    by_contra hc
    obtain ⟨-, x, hx, hxk, hxl⟩ := hroom.full (by omega)
    rw [eq_of_key h.logs.nodup hx (by simp) (hxk.trans hk.symm)] at hxl
    omega
  have hE : lg.seq.length + 1 = d.pgs → Enough d E s.al := by
    intro hu
    rcases hS with hx | ⟨hbd, hB, -⟩
    · exact Or.inl hx
    · subst hbd
      rcases hneed with hx | hx | hx
      · exact Or.inl hx
      · exact h.enough hB (by omega)
      · exact h.enough hB (by rw [if_neg (by omega)] at hx; exact hx)
  have hfl : lpa ∈ lg.seq ∨ (lg.seq.length + 1 = d.pgs ∧ InOrder d lg) ∨ (flat (pre ++ lg :: post)).length < dlMaxPages := by
    rcases h.flat_lt hroom hfew with hx | ⟨x, hx, hxk, hxl⟩
    · exact Or.inr (Or.inr hx)
    · rw [eq_of_key h.logs.nodup hx (by simp) (hxk.trans hk.symm)] at hxl
      rcases hxl with hxl | hxl
      · exact Or.inl hxl
      · exact Or.inr (Or.inl hxl)
  refine Sat.bind (hk ▸ sat_writeTarget h) ?_
  rintro _ s ⟨rfl, rfl⟩
  by_cases hconv : lg.seq.length + 1 = d.pgs ∧ InOrder d lg
  · rw [if_pos hconv]
    obtain ⟨hu, hord⟩ := hconv
    refine Sat.bind ((sat_convert dat hf h hu hord hk.symm (hlen hu) hq (hE hu)).with_inv quiet_step hq) ?_
    rintro _ s₁ ⟨⟨rfl, hal₁, own₁, ml₁, hst₁⟩, hq₁⟩
    rw [if_pos rfl]
    have hP : Payable d E U bd (Function.update map lg.key lg.pba) (pre ++ post) s₁.al := by
      rcases hS with hx | ⟨hbd, hB, hS⟩
      · exact Or.inl hx
      · subst hbd
        have hB' := hB.merged h.logs.nodup lg.pba
        refine Or.inr ⟨rfl, hB', ?_⟩
        rcases hal₁ with hx | hx | hx
        · exact Or.inl (Or.inl hx)
        · exact Or.inl (hst₁.ftl.enough hB' (by have := hst₁.ftl.free_of_low hB' hx; omega))
        · rcases hS with hS | hS
          · exact Or.inl (hst₁.ftl.enough hB' (by omega))
          · refine Or.inr fun x hx' => ?_
            rw [Function.update_of_ne (h.logs.key_ne hx')]
            exact hS x (hsub.subset hx')
    have hlen₁ : (pre ++ post).length < dlMaxBlocks := lt_of_le_of_lt hsub.length_le (hlen hu)
    refine (sat_finishWrite hf hst₁.ftl h.rep.mid_lt (fun x hx => hshort x (hsub.subset hx)) (fun _ => Or.inl hlen₁) hq₁
      hP).mono ?_
    rintro r s' ⟨rfl, hfin⟩
    exact ⟨rfl, hst₁.finish hfin fun hsafe => ⟨(hsafe hk hu).1 hord, trivial⟩⟩
  · rw [if_neg hconv]
    have hfl' := hfl.imp id fun hx => hx.resolve_left hconv
    refine Sat.bind ((sat_insertDl dat h hlt hk.symm hfl').with_inv quiet_step hq) ?_
    rintro _ s₁ ⟨⟨rfl, hal₁, hst₁⟩, hq₁⟩
    rw [if_pos rfl]
    have hkeys : (pre ++ (⟨lg.key, lg.pba, lg.seq ++ [lpa]⟩ : Log) :: post).map Log.key = (pre ++ lg :: post).map Log.key := by
      simp
    by_cases hu : lg.seq.length + 1 = d.pgs
    · have hlen₁ : (pre ++ (⟨lg.key, lg.pba, lg.seq ++ [lpa]⟩ : Log) :: post).length < dlMaxBlocks := by
        have := hlen hu
        rw [List.length_append, List.length_cons] at this ⊢
        exact this
      refine (sat_finishWrite_full (U := U) hf hst₁.ftl (by simpa using hu) (fun x hx => hshort x (hsub.subset hx)) hlen₁ hq₁
        (by rw [hal₁]; exact hE hu) ?_).mono ?_
      · rcases hS with hx | ⟨hbd, hB, -⟩
        · exact Or.inl hx
        · exact Or.inr ⟨hbd, fun tb => hB.merged h.logs.nodup tb⟩
      · rintro r s' ⟨rfl, hfin⟩
        refine ⟨rfl, hst₁.finish hfin fun hsafe => ⟨trivial, ?_⟩⟩
        have hno : ¬ InOrder d lg := fun ho => hconv ⟨hu, ho⟩
        rcases (hsafe hk hu).2 hno with hx | hx | hx
        · exact Or.inl hx
        · exact Or.inr (List.mem_append_left _ hx)
        · refine Or.inr (List.mem_append_right _ ?_)
          have := Nat.div_add_mod lpa d.pgs
          rw [hx, Nat.add_zero, Nat.mul_comm] at this
          rw [List.mem_singleton, hk]
          exact this
    · refine (sat_finishWrite (U := U) hf hst₁.ftl h.rep.mid_lt (fun x hx => ?_) (fun hfr => ?_) hq₁ ?_).mono ?_
      · rcases mem_middle.mp hx with rfl | hx
        · simp only [List.length_append, List.length_singleton]
          omega
        · exact hshort x (hsub.subset hx)
      · by_cases hl : (pre ++ lg :: post).length = dlMaxBlocks
        · refine Or.inr fun x hx => ?_
          have : x.key ∈ (pre ++ lg :: post).map Log.key := hkeys ▸ List.mem_map_of_mem hx
          obtain ⟨y, hy, e⟩ := List.mem_map.mp this
          exact e ▸ (hroom.full hl).1 y hy
        · left
          rw [List.length_append, List.length_cons] at hl hle ⊢
          omega
      · rw [hal₁]
        refine hS.payable.imp id fun hx => ⟨hx.1, hx.2.1.of_keys hkeys, hx.2.2.imp id fun hun x hx' => ?_⟩
        have : x.key ∈ (pre ++ lg :: post).map Log.key := hkeys ▸ List.mem_map_of_mem hx'
        obtain ⟨y, hy, e⟩ := List.mem_map.mp this
        exact e ▸ hun y hy
      · rintro r s' ⟨rfl, hfin⟩
        exact ⟨rfl, hst₁.finish hfin fun _ => ⟨trivial, trivial⟩⟩

/-! ## The write -/

theorem dropMapped_unmapped {mapped : Nat → Bool} (more : List LogBlock → Bool) (k : Nat) {bs : List LogBlock}
    (h : ∀ b ∈ bs, mapped b.key = false) : dropMapped mapped more k bs = bs := by
  cases k with
  | zero => rfl
  | succ k =>
    have hany : (bs.any fun b => mapped b.key) = false := by
      rw [List.any_eq_false]
      intro b hb
      simp [h b hb]
    rw [dropMapped, hany, Bool.and_false, if_neg (by simp)]

theorem survivors_unmapped {mapped : Nat → Bool} {bs : List LogBlock} (h : ∀ b ∈ bs, mapped b.key = false) :
    survivors mapped bs = bs := by
  simp only [survivors, dropMapped_unmapped _ _ h, ite_self]

/-- A log less is a page less. -/
theorem flat_sublist {L' : List Log} (hsub : L'.Sublist L) (hne : ∀ lg ∈ L, lg.seq ≠ []) :
    (flat L').length + (L.length - L'.length) ≤ (flat L).length := by
  induction hsub with
  | slnil => simp
  | @cons L' L lg hsub ih =>
    have h1 := ih fun x hx => hne x (by simp [hx])
    have h2 : 0 < lg.items.length := by
      obtain ⟨p, seq, hs⟩ := List.exists_cons_of_ne_nil (hne lg (by simp))
      have : p ∈ (itemsOf lg.seq).map LogItem.page := mem_page_itemsOf.mpr (by simp [hs])
      have := List.length_pos_of_mem this
      rwa [List.length_map] at this
    rw [flat_cons, List.length_append, List.length_cons]
    omega
  | @cons_cons L' L lg hsub ih =>
    have h1 := ih fun x hx => hne x (by simp [hx])
    rw [flat_cons, flat_cons, List.length_append, List.length_append, List.length_cons, List.length_cons]
    omega

/-- The room for a write is still there after the merges at its head. -/
theorem Room.reduced {map' : Nat → Nat} {L' ml' : List Log} {own' : Own} {s' : St} (hroom : Room d map L lpa s)
    (h : Ftl d bd own map ml L s) (hred : Reduced d bd map L s.nand.flash s' own' map' ml' L')
    (hblk : L'.map Log.block = survivors (isMapped map) (L.map Log.block)) (hst : L' = L → Steady d s s') :
    Room d map' L' lpa s' := by
  have hle : L.length ≤ dlMaxBlocks := h.rep.blk_le
  have hple : (flat L).length ≤ dlMaxPages := h.rep.pg_le
  have hun : (∀ lg ∈ L, map lg.key = noBlock) → L' = L := by
    intro hx
    rw [survivors_unmapped] at hblk
    · refine hred.sub.eq_of_length ?_
      have := congrArg List.length hblk
      rwa [List.length_map, List.length_map] at this
    · intro b hb
      obtain ⟨x, hx', rfl⟩ := List.mem_map.mp hb
      exact (isMapped_false_iff _ _).mpr (hx x hx')
  refine ⟨fun hl => ?_, fun hl hun' hkey hm => ?_, fun hp hun' => ?_⟩
  · have he : L' = L := hred.sub.eq_of_length_le (by omega)
    subst he
    obtain ⟨h1, h2⟩ := hroom.full hl
    exact ⟨fun lg hlg => (hred.mapped _).mpr (h1 lg hlg), h2⟩
  · have hlL : L.length ≠ dlMaxBlocks := fun hx => by
      have := hun (hroom.full hx).1
      rw [this] at hl
      omega
    have he : L' = L := hred.sub.eq_of_length_le (by omega)
    obtain ⟨hc, hfree⟩ := hroom.tail (he ▸ hl) (fun lg hlg => (hred.mapped _).mp (hun' lg (he ▸ hlg)))
      (fun lg hlg => hkey lg (he ▸ hlg)) fun e => hm ((hred.mapped _).mpr e)
    obtain ⟨hc', hal⟩ := hst he hc
    exact ⟨hc', by rw [hal]; exact hfree⟩
  · have hsub := flat_sublist hred.sub fun lg hlg => (h.logs.pages lg hlg).nonempty
    have he : L' = L := hred.sub.eq_of_length_le (by omega)
    subst he
    exact hroom.pages hp fun lg hlg => (hred.mapped _).mp (hun' lg hlg)

/-- `nftl_write_logicpage`, on tables with room. -/
theorem sat_nftlWriteLogicpage (dat : PageData) (hf : d.Fits) (h : Ftl d bd own map ml L s)
    (hshort : ∀ x ∈ L, x.seq.length < d.pgs) (hlpa : lpa / d.pgs < d.blks) (hroom : Room d map L lpa s) (hq : Quiet d E s)
    (hS : Solvent d E U bd map L s.al) (hU : E ∨ lpa / d.pgs < U)
    (hneed : E ∨ miniFreeBlock ≤ s.al.freeBlkcnt ∨
      need d (isMapped map) (L.map Log.block) (lpa / d.pgs) ≤ s.al.freeBlkcnt) :
    Sat (contract d E) (nftlWriteLogicpage d lpa dat) s (fun r s' => r = 0 ∧ Wrote d E U bd map L lpa dat
      (∀ lg ∈ L, lg.block ∈ survivors (isMapped map) (L.map Log.block) → Safe d map lpa lg) s s') := by
  have hlen : L.length < dlMaxBlocks ∨ ∀ lg ∈ L, map lg.key = noBlock := by
    by_cases hl : L.length = dlMaxBlocks
    · exact Or.inr (hroom.full hl).1
    · exact Or.inl (lt_of_le_of_ne h.rep.blk_le hl)
  refine Sat.bind (sat_mergeHead hf h hlen hq hS) ?_
  rintro _ s₁ ⟨rfl, hq₁, own₁, map₁, ml₁, L₁, hred, hblk, hS₁, hst, hmin⟩
  have hroom₁ := hroom.reduced h hred hblk hst
  have hshort₁ : ∀ x ∈ L₁, x.seq.length < d.pgs := fun x hx => hshort x (hred.sub.subset hx)
  have hfew : L₁.length < dlMaxBlocksDiv4 ∨ ∀ lg ∈ L₁, map₁ lg.key = noBlock := by
    have := survivors_few (isMapped map) (L.map Log.block)
    rw [← hblk, List.length_map] at this
    refine this.imp id fun hx lg hlg => ?_
    rw [hred.mapped, ← isMapped_false_iff]
    exact hx lg.block (List.mem_map_of_mem hlg)
  have hneed₁ : E ∨ miniFreeBlock ≤ s₁.al.freeBlkcnt ∨
      need d (isMapped map₁) (L₁.map Log.block) (lpa / d.pgs) ≤ s₁.al.freeBlkcnt := by
    by_cases he : L₁ = L
    · rw [Reduced.isMapped_eq hred.mapped, he]
      exact (hst he).carry (Q := fun al => E ∨ miniFreeBlock ≤ al.freeBlkcnt ∨
        need d (isMapped map) (L.map Log.block) (lpa / d.pgs) ≤ al.freeBlkcnt) hq Or.inl hneed
    · exact (hmin he).imp id Or.inl
  have hwrote : ∀ {ok : Prop} {s' : St}, ((∀ lg ∈ L, lg.block ∈ survivors (isMapped map) (L.map Log.block) →
      Safe d map lpa lg) → ok) → Wrote d E U bd map₁ L₁ lpa dat ok s₁ s' → Wrote d E U bd map L lpa dat
      (∀ lg ∈ L, lg.block ∈ survivors (isMapped map) (L.map Log.block) → Safe d map lpa lg) s s' := by
    rintro ok s' hok ⟨own', map', ml', L', h', hs', hS', hc'⟩
    refine ⟨own', map', ml', L', h', hs', hS', fun hx q hql => ?_⟩
    rw [hc' (hok hx) q hql, hred.content q hql]
  by_cases hex : ∃ x ∈ L₁, x.key = lpa / d.pgs
  · obtain ⟨lg, hlg, hk⟩ := hex
    obtain ⟨pre, post, rfl⟩ := List.append_of_mem hlg
    rw [← hk, need_found hred.ftl.logs.nodup] at hneed₁
    refine (sat_writeBody_found dat hf hred.ftl hshort₁ hk hroom₁ hfew hq₁ hS₁ hneed₁).mono ?_
    rintro r s' ⟨rfl, hw⟩
    refine ⟨rfl, hwrote (fun hsafe => ?_) hw⟩
    have hs := hsafe lg (hred.sub.subset hlg) (by rw [← hblk]; exact List.mem_map_of_mem hlg)
    intro h1 h2
    obtain ⟨h3, h4⟩ := hs h1 h2
    exact ⟨h3, fun ho => (h4 ho).imp (fun hm e => hm ((hred.mapped _).mp e)) id⟩
  · push Not at hex
    rw [need_new hex] at hneed₁
    refine (sat_writeBody_new dat hf hred.ftl hshort₁ hlpa hex hroom₁ hfew hq₁ hS₁ hU hneed₁).mono ?_
    rintro r s' ⟨rfl, hw⟩
    exact ⟨rfl, hwrote (fun _ => trivial) hw⟩

end Emlinux.Nftl
