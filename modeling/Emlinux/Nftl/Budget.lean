import Emlinux.Nftl.Merge

/-!
# Counting blocks

The blocks that are not in the pool are the MapTab and MTLog blocks, the Data blocks and the DataLog blocks. A
logical block below `U` has a Data block, a DataLog block, or both; so, when only logical blocks below `U` are
in use, the number of pool blocks is bounded from below by the number of logical blocks that have both.
-/

namespace Emlinux.Nftl

open Lib

variable {d : Device} {bd : Nat → Bool} {own : Own} {map : Nat → Nat} {ml L : List Log} {s : St} {U : Nat}

/-- The logs whose logical block also has a Data block. -/
def mappedLogs (map : Nat → Nat) (L : List Log) : List Log := L.filter fun lg => map lg.key ≠ noBlock

/-- The blocks in use for logical blocks below `U`, one for each. -/
def Primary (map : Nat → Nat) : Role → Bool
  | .data _ => true
  | .dl k => map k = noBlock
  | _ => false

theorem Ftl.card_primary (h : Ftl d bd own map ml L s) (hlba : ∀ lba, lba < d.blks → map lba ≠ noBlock → lba < U)
    (hkey : ∀ lg ∈ L, lg.key < U) :
    ((Finset.range d.blks).filter fun b => Primary map (own b) = true).card ≤ U := by
  have hno := d.blks_lt_noBlock
  have hsub : ∀ b, Primary map (own b) = true → ∃ k, k < U ∧ ((own b = .data k) ∨ (own b = .dl k ∧ map k = noBlock)) := by
    intro b hb
    cases ho : own b with
    | data k =>
      obtain ⟨h1, h2, h3⟩ := h.data.mem b k ho
      exact ⟨k, hlba k h2 (by omega), Or.inl rfl⟩
    | dl k =>
      rw [ho] at hb
      obtain ⟨lg, hlg, hk, -⟩ := h.logs.mem b k ho
      exact ⟨k, hk ▸ hkey lg hlg, Or.inr ⟨rfl, by simpa [Primary] using hb⟩⟩
    | pool => rw [ho] at hb; simp [Primary] at hb
    | bad => rw [ho] at hb; simp [Primary] at hb
    | mt k => rw [ho] at hb; simp [Primary] at hb
    | mtl k => rw [ho] at hb; simp [Primary] at hb
    | temp => rw [ho] at hb; simp [Primary] at hb
  have hinj : ∀ b b' k, ((own b = .data k) ∨ (own b = .dl k ∧ map k = noBlock)) →
      ((own b' = .data k) ∨ (own b' = .dl k ∧ map k = noBlock)) → b = b' := by
    rintro b b' k (hb | ⟨hb, hm⟩) (hb' | ⟨hb', hm'⟩)
    · exact (h.data.mem b k hb).2.2.symm.trans (h.data.mem b' k hb').2.2
    · have := h.data.mem b k hb
      omega
    · have := h.data.mem b' k hb'
      omega
    · obtain ⟨x, hx, hxk, hxb⟩ := h.logs.mem b k hb
      obtain ⟨y, hy, hyk, hyb⟩ := h.logs.mem b' k hb'
      rw [← hxb, ← hyb, eq_of_key h.logs.nodup hx hy (hxk.trans hyk.symm)]
  choose! f hf using hsub
  have := Finset.card_le_card_of_injOn (s := (Finset.range d.blks).filter fun b => Primary map (own b) = true)
    (t := Finset.range U) f
    (fun b hb => by
      have hb' := (Finset.mem_filter.mp hb).2
      exact Finset.mem_coe.mpr (Finset.mem_range.mpr (hf b hb').1))
    (fun b hb b' hb' e => by
      have h1 := (hf b (Finset.mem_filter.mp hb).2).2
      have h2 := (hf b' (Finset.mem_filter.mp hb').2).2
      rw [e] at h1
      exact hinj b b' _ h1 h2)
  rwa [Finset.card_range] at this

/-- Every block is in the pool, or primary, or of the map, or the DataLog block of a mapped logical block. -/
theorem Ftl.pool_ge (h : Ftl d (fun _ => false) own map ml L s)
    (hlba : ∀ lba, lba < d.blks → map lba ≠ noBlock → lba < U) (hkey : ∀ lg ∈ L, lg.key < U) :
    d.blks ≤ s.al.poolSize + U + d.mtBlkcnt + ml.length + (mappedLogs map L).length := by
  have hcover : Finset.range d.blks ⊆ ((Finset.range d.blks).filter fun b => own b = .pool) ∪
      ((Finset.range d.blks).filter fun b => Primary map (own b) = true) ∪
      ((Finset.range d.mtBlkcnt).image s.mt.mtPbas) ∪ (ml.map Log.pba).toFinset ∪
      ((mappedLogs map L).map Log.pba).toFinset := by
    intro b hb
    have hlt := Finset.mem_range.mp hb
    simp only [Finset.mem_union, Finset.mem_filter, Finset.mem_image, List.mem_toFinset, List.mem_map]
    cases ho : own b with
    | pool => exact Or.inl (Or.inl (Or.inl (Or.inl ⟨hb, rfl⟩)))
    | bad => exact absurd ((h.bad b hlt).mp ho) (by simp)
    | data k => exact Or.inl (Or.inl (Or.inl (Or.inr ⟨hb, rfl⟩)))
    | dl k =>
      by_cases hm : map k = noBlock
      · exact Or.inl (Or.inl (Or.inl (Or.inr ⟨hb, by simp [Primary, hm]⟩)))
      · obtain ⟨lg, hlg, hk, hp⟩ := h.logs.mem b k ho
        refine Or.inr ⟨lg, ?_, hp⟩
        simp [mappedLogs, hlg, hk, hm]
    | mt k =>
      obtain ⟨hk, hp⟩ := h.core.inv.mem_mt b k ho
      exact Or.inl (Or.inl (Or.inr ⟨k, Finset.mem_range.mpr hk, hp⟩))
    | mtl k =>
      obtain ⟨lg, hlg, -, hp⟩ := h.core.inv.logs.mem b k ho
      exact Or.inl (Or.inr ⟨lg, hlg, hp⟩)
    | temp => exact absurd ho (h.noTemp b)
  have h1 := Finset.card_le_card hcover
  rw [Finset.card_range] at h1
  have h2 := h.card_primary hlba hkey
  have h3 := h.core.alloc.poolSize_eq
  rw [poolCount] at h3
  have h4 : ((Finset.range d.mtBlkcnt).image s.mt.mtPbas).card ≤ d.mtBlkcnt :=
    (Finset.card_image_le).trans (by rw [Finset.card_range])
  have h5 : (ml.map Log.pba).toFinset.card ≤ ml.length :=
    (List.toFinset_card_le _).trans (by rw [List.length_map])
  have h6 : ((mappedLogs map L).map Log.pba).toFinset.card ≤ (mappedLogs map L).length :=
    (List.toFinset_card_le _).trans (by rw [List.length_map])
  have u1 := Finset.card_union_le (((Finset.range d.blks).filter fun b => own b = .pool) ∪
      ((Finset.range d.blks).filter fun b => Primary map (own b) = true) ∪
      ((Finset.range d.mtBlkcnt).image s.mt.mtPbas) ∪ (ml.map Log.pba).toFinset)
      ((mappedLogs map L).map Log.pba).toFinset
  have u2 := Finset.card_union_le (((Finset.range d.blks).filter fun b => own b = .pool) ∪
      ((Finset.range d.blks).filter fun b => Primary map (own b) = true) ∪
      ((Finset.range d.mtBlkcnt).image s.mt.mtPbas)) (ml.map Log.pba).toFinset
  have u3 := Finset.card_union_le (((Finset.range d.blks).filter fun b => own b = .pool) ∪
      ((Finset.range d.blks).filter fun b => Primary map (own b) = true))
      ((Finset.range d.mtBlkcnt).image s.mt.mtPbas)
  have u4 := Finset.card_union_le ((Finset.range d.blks).filter fun b => own b = .pool)
      ((Finset.range d.blks).filter fun b => Primary map (own b) = true)
  omega

/-- The use of a chip whose blocks exceed the logical blocks in use by an eighth of at least 1024. -/
structure Budget (d : Device) (U : Nat) (map : Nat → Nat) (L : List Log) : Prop where
  pgs : 2 ≤ d.pgs
  one : d.mtBlkcnt = 1
  room : U + 128 ≤ d.blks
  lba : ∀ lba, lba < d.blks → map lba ≠ noBlock → lba < U
  key : ∀ lg ∈ L, lg.key < U
  mapped : (mappedLogs map L).length ≤ 33

theorem Ftl.free_of_low (h : Ftl d (fun _ => false) own map ml L s) (hB : Budget d U map L) (hlow : Low s.al) :
    miniFreeBlock ≤ s.al.freeBlkcnt := by
  rcases hlow with hg | hlow
  · have h1 := h.pool_ge hB.lba hB.key
    have h2 := h.core.inv.length_le
    have h3 := hB.one
    have h4 := hB.room
    have h5 := hB.mapped
    have h6 : s.al.poolSize ≤ s.al.freeBlkcnt + 1 := by
      unfold Alloc.poolSize
      rw [hg]
      split_ifs <;> simp
    show 20 ≤ _
    omega
  · exact hlow

/-- Either running out of blocks is excused (`E`), or the store is inside a budget, and free blocks are low only
when no DataLog block can be merged. -/
def Solvent (d : Device) (E : Prop) (U : Nat) (bd : Nat → Bool) (map : Nat → Nat) (L : List Log) (al : Alloc) : Prop :=
  E ∨ ((bd = fun _ => false) ∧ Budget d U map L ∧ (miniFreeBlock ≤ al.freeBlkcnt ∨ ∀ lg ∈ L, map lg.key = noBlock))

theorem Solvent.enough {E : Prop} {al : Alloc} (h : Solvent d E U bd map L al) {lg : Log} (hlg : lg ∈ L)
    (hm : map lg.key ≠ noBlock) : Enough d E al := by
  rcases h with h | ⟨-, hB, h⟩
  · exact Or.inl h
  · rcases h with h | h
    · have : (20 : Nat) ≤ al.freeBlkcnt := h
      exact Or.inr ⟨hB.pgs, by omega, Or.inr (by omega)⟩
    · exact absurd (h lg hlg) hm

end Emlinux.Nftl
