import Emlinux.Nftl.Scan

/-!
# What the mount scan sees

`Image` is a chip as the translation layer leaves it, or as it was delivered: every block has one role, and
page 0 of the block tells the role. `scanned` is the order in which the scan finds the logs.
-/

namespace Emlinux.Nftl

open Lib

/-- Every block has one role, which page 0 and the last page tell. -/
structure Image (d : Device) (bd : Nat → Bool) (own : Own) (fl : Flash) (al : Alloc) (mtPbas : Nat → Nat) (ml L : List Log) :
    Prop where
  alloc : AllocInv d own fl al
  bad : ∀ b, b < d.blks → (own b = .bad ↔ bd b = true)
  noTemp : ∀ b, own b ≠ .temp
  data : ∀ b k, own b = .data k → DataHead d fl b
  dl : Logs d .dl DlTag own fl L
  dlShort : ∀ lg ∈ L, lg.seq.length < d.pgs
  dlKey : ∀ lg ∈ L, lg.key < d.blks
  dlLen : L.length ≤ dlMaxBlocks
  dlPages : (flat L).length ≤ dlMaxPages
  mtl : Logs d .mtl (MtlTag d) own fl ml
  mtlShort : ∀ lg ∈ ml, lg.seq.length < d.pgs
  mtlKey : ∀ lg ∈ ml, lg.key < d.mtBlkcnt
  mtlLen : ml.length ≤ mtMaxBlocks
  mtlPages : (flat ml).length ≤ mtlMaxPages
  mt : ∀ k, k < d.mtBlkcnt → mtPbas k = noBlock ∨ own (mtPbas k) = .mt k
  mem_mt : ∀ b k, own b = .mt k → k < d.mtBlkcnt ∧ mtPbas k = b ∧ MtHead d fl k b

/-! ## The logs found before block `i` -/

/-- The logs in blocks below `i`, in the order of their blocks. -/
def scanned (L : List Log) (i : Nat) : List Log := (List.range i).filterMap fun b => L.find? fun lg => lg.pba = b

theorem scanned_succ (L : List Log) (i : Nat) :
    scanned L (i + 1) = scanned L i ++ (L.find? fun lg => lg.pba = i).toList := by
  rw [scanned, List.range_succ, List.filterMap_append]
  rfl

theorem scanned_skip {L : List Log} {i : Nat} (h : ∀ lg ∈ L, lg.pba ≠ i) : scanned L (i + 1) = scanned L i := by
  rw [scanned_succ, List.find?_eq_none.mpr (fun lg hlg => by simpa using h lg hlg)]
  simp

theorem mem_scanned {L : List Log} {i : Nat} {lg : Log} (h : lg ∈ scanned L i) : lg ∈ L ∧ lg.pba < i := by
  obtain ⟨b, hb, hf⟩ := List.mem_filterMap.mp h
  have hp : lg.pba = b := by simpa using List.find?_some hf
  exact ⟨List.mem_of_find?_eq_some hf, by rw [hp]; exact List.mem_range.mp hb⟩

section scanned

variable {d : Device} {role : Nat → Role} {tag : Nat → Spare → Prop} {own : Own} {fl : Flash} {L : List Log} {lg : Log}

theorem Logs.eq_of_pba (hinj : Function.Injective role) (h : Logs d role tag own fl L) {x y : Log} (hx : x ∈ L) (hy : y ∈ L)
    (e : x.pba = y.pba) : x = y := by
  have h1 := h.owned x hx
  rw [e, h.owned y hy] at h1
  exact eq_of_key h.nodup hx hy (hinj h1).symm

theorem Logs.scanned_add (hinj : Function.Injective role) (h : Logs d role tag own fl L) (hlg : lg ∈ L) :
    scanned L (lg.pba + 1) = scanned L lg.pba ++ [lg] := by
  rw [scanned_succ]
  have hex : ∃ x, L.find? (fun x => x.pba = lg.pba) = some x := by
    rw [← Option.isSome_iff_exists, List.find?_isSome]
    exact ⟨lg, hlg, by simp⟩
  obtain ⟨x, hx⟩ := hex
  have hp : x.pba = lg.pba := by simpa using List.find?_some hx
  rw [hx, h.eq_of_pba hinj (List.mem_of_find?_eq_some hx) hlg hp]
  rfl

theorem scanned_nodup (L : List Log) (i : Nat) : (scanned L i).Nodup := by
  induction i with
  | zero => simp [scanned]
  | succ i ih =>
    rw [scanned_succ, List.nodup_append]
    refine ⟨ih, by cases L.find? _ <;> simp, fun x hx y hy e => ?_⟩
    have h1 := (mem_scanned hx).2
    have h2 : y.pba = i := by
      rw [Option.mem_toList] at hy
      simpa using List.find?_some hy
    rw [e] at h1
    omega

theorem Logs.scanned_perm (hinj : Function.Injective role) (h : Logs d role tag own fl L) :
    (scanned L d.blks).Perm L := by
  refine (List.perm_ext_iff_of_nodup (scanned_nodup L d.blks) (List.Nodup.of_map _ h.nodup)).mpr fun lg => ?_
  refine ⟨fun hx => (mem_scanned hx).1, fun hx => ?_⟩
  have hsub : ∀ i, lg.pba < i → lg ∈ scanned L i := by
    intro i hi
    induction i with
    | zero => omega
    | succ i ih =>
      by_cases he : lg.pba = i
      · rw [← he, h.scanned_add hinj hx]
        simp
      · rw [scanned_succ]
        exact List.mem_append_left _ (ih (by omega))
  exact hsub _ (h.lt lg hx)

/-- What was found so far is a part of the whole. -/
theorem Logs.scanned_le (hinj : Function.Injective role) (h : Logs d role tag own fl L) (hlg : lg ∈ L) :
    (scanned L lg.pba).length < L.length ∧ (flat (scanned L lg.pba)).length + lg.items.length ≤ (flat L).length := by
  have hsub : (scanned L (lg.pba + 1)).Subperm L :=
    List.subperm_of_subset (scanned_nodup _ _) fun x hx => (mem_scanned hx).1
  rw [h.scanned_add hinj hlg] at hsub
  obtain ⟨L', hperm, hsl⟩ := hsub
  have h1 := hsl.length_le
  have h2 : (flat L').length ≤ (flat L).length := by
    have := flat_sublist hsl fun x hx => (h.pages x hx).nonempty
    omega
  have h3 : (flat L').length = (flat (scanned L lg.pba ++ [lg])).length := (hperm.flatMap_right _).length_eq
  have h4 := hperm.length_eq
  simp only [flat_append, flat_cons, flat_nil, List.length_append, List.length_nil, List.length_singleton] at h3 h4
  omega

end scanned

end Emlinux.Nftl
