import Emlinux.Nftl.Convert

/-!
# What a merge preserves

`nftl_merge_dlblk` programs page 0 of a logical block that has no Data block and no page 0 in its log with the
buffer `kmalloc` returned, so that the block is marked. `merge_preserves_iff` says that this is the only page a
merge changes.
-/

namespace Emlinux.Nftl

open Lib

variable {d : Device} {bd : Nat → Bool} {own : Own} {map : Nat → Nat} {ml L pre post : List Log} {lg : Log} {s : St}

/-- A read that finds its blocks and whose flash operations succeed returns `f lpa`. -/
def Reads (d : Device) (s : St) (f : Nat → PageData) : Prop :=
  ∀ lpa, lpa < d.maxlp → (nftlReadLogicpage d lpa s).log.all Event.ok = true →
    (nftlReadLogicpage d lpa s).res = .ok (0, some (f lpa))

theorem Ftl.reads (hf : d.Fits) (h : Ftl d bd own map ml L s) (hq : Quiet d True s) :
    Reads d s (content d s.nand.flash map L) := by
  intro lpa hlpa hrun
  obtain ⟨r, hr, hres, -⟩ := (sat_nftlReadLogicpage hf h hlpa hq).of_clean (not_excused_of_ok hrun)
  rw [hr, hres]

/-- The state after the merge of `lg`: its entry is gone, the other entries are the same, and each page of the
device reads as before. -/
def Preserved (d : Device) (bd : Nat → Bool) (map : Nat → Nat) (pre post : List Log) (lg : Log) (s s' : St) : Prop :=
  ∃ own' map' ml', Ftl d bd own' map' ml' (pre ++ post) s' ∧ Reads d s' (content d s'.nand.flash map' (pre ++ post)) ∧
    ∀ lpa, lpa < d.maxlp → SamePage d (content d s'.nand.flash map' (pre ++ post) lpa)
      (content d s.nand.flash map (pre ++ lg :: post) lpa)

/-- Page 0 of a logical block. -/
theorem Device.first_lt (d : Device) {lba : Nat} (h : lba < d.blks) : lba * d.pgs < d.maxlp := by
  rw [d.maxlp_eq]
  exact Nat.mul_lt_mul_of_pos_right h d.pgs_pos

theorem content_unwritten {fl : Flash} (hnd : ((pre ++ lg :: post).map Log.key).Nodup) (hm : map lg.key = noBlock)
    (hmem : lg.key * d.pgs ∉ lg.seq) : content d fl map (pre ++ lg :: post) (lg.key * d.pgs) = ffData := by
  unfold content
  rw [Nat.mul_div_cancel _ d.pgs_pos, lookupIn_of_mem hnd (by simp), lookup_eq_none.mpr hmem]
  simp only [Option.map_none, hm, if_true]

/-- A merge that does not overrun the table preserves the store exactly when page 0 was written, or the buffer
happens to be erased. -/
theorem Ftl.preserved_iff {s' : St} {own' : Own} {ml' : List Log} {tb : Nat} {tempbuf : PageData} (hf : d.Fits)
    (h : Ftl d bd own map ml (pre ++ lg :: post) s) (hq' : Quiet d True s')
    (h' : Ftl d bd own' (Function.update map lg.key tb) ml' (pre ++ post) s')
    (hcont : ∀ lpa, lpa / d.pgs < d.blks → content d s'.nand.flash (Function.update map lg.key tb) (pre ++ post) lpa
      = mergedContent d s.nand.flash map (pre ++ lg :: post) lg tempbuf lpa) :
    Preserved d bd map pre post lg s s' ↔
      map lg.key ≠ noBlock ∨ lg.key * d.pgs ∈ lg.seq ∨ SamePage d tempbuf ffData := by
  have hkey := h.key_lt lg (by simp)
  constructor
  · rintro ⟨own₂, map₂, ml₂, h₂, -, hsame⟩
    by_cases hm : map lg.key = noBlock
    · by_cases hmem : lg.key * d.pgs ∈ lg.seq
      · exact Or.inr (Or.inl hmem)
      · have hlpa := d.first_lt hkey
        have h0 := hsame _ hlpa
        rw [← h'.content_unique h₂ (d.lba_lt hlpa), hcont _ (d.lba_lt hlpa), mergedContent, if_pos ⟨rfl, hm, hmem⟩,
          content_unwritten h.logs.nodup hm hmem] at h0
        exact Or.inr (Or.inr h0)
    · exact Or.inl hm
  · intro hok
    refine ⟨own', _, ml', h', h'.reads hf hq', fun lpa hlpa => ?_⟩
    rw [hcont _ (d.lba_lt hlpa), mergedContent]
    by_cases hx : lpa = lg.key * d.pgs ∧ map lg.key = noBlock ∧ lg.key * d.pgs ∉ lg.seq
    · obtain ⟨rfl, hm, hmem⟩ := hx
      rw [if_pos ⟨rfl, hm, hmem⟩, content_unwritten h.logs.nodup hm hmem]
      exact (hok.resolve_left (not_not.mpr hm)).resolve_left hmem
    · rw [if_neg hx]
      exact SamePage.refl _ _

/-- Page 1 of logical block 0 is in the DataLog block 1, page 0 was never written. -/
def sparse : St := (firstPage 1 fun _ => 1).st

theorem ftl_sparse : ∃ own, Ftl smallChip (fun _ => false) own (fun _ => noBlock) [] [⟨0, 1, [1]⟩] sparse :=
  ftl_firstPage 1 (fun _ => 1) (by decide) (by decide +kernel)

end Emlinux.Nftl
