import Emlinux.Nftl.Tables

/-!
# Counting free blocks

`free_blkcnt` counts the free blocks as long as no program or erase operation fails. `nftl_set_block_bad`, which the error
handlers call on blocks that are not free, counts them a second time.
-/

namespace Emlinux.Nftl

open Lib

variable {d : Device} {bd : Nat → Bool} {own : Own} {map : Nat → Nat} {ml L : List Log} {s : St} {n : Nand} {ops : List StoreOp}

/-- `free_blkcnt` is the number of free blocks. -/
def FreeCounted (d : Device) (s : St) : Prop := s.al.freeBlkcnt = freeCount s.al.blockstatus d.blks

/-- The first request for a free block that is not met comes when no block is free. -/
def NeverMissed (l : List Event) : Prop :=
  ∀ l₁ l₂ left, l = l₁ ++ .noFree left :: l₂ → l₁.all Event.ok = true → left = false

/-- The first operation that does not succeed, in two ways to find it. -/
theorem first_failed {l₁ l₂ l₁' l₂' : List Event} {e e' : Event} (h : l₁ ++ e :: l₂ = l₁' ++ e' :: l₂') (h₁ : l₁.all Event.ok = true)
    (h₁' : l₁'.all Event.ok = true) (he : e.ok = false) (he' : e'.ok = false) : e = e' := by
  have hfind : ∀ (k₁ k₂ : List Event) {x : Event}, k₁.all Event.ok = true → x.ok = false →
      (k₁ ++ x :: k₂).find? (fun y => !y.ok) = some x := by
    intro k₁ k₂ x hk hx
    have hnone : k₁.find? (fun y => !y.ok) = none := List.find?_eq_none.mpr fun y hy => by
      simp [List.all_eq_true.mp hk y hy]
    rw [List.find?_append, hnone, Option.none_or, List.find?_cons_of_pos (by simp [hx])]
  have hsame := hfind l₁ l₂ h₁ he
  rw [h, hfind l₁' l₂' h₁' he'] at hsame
  exact (Option.some.inj hsame).symm

theorem Event.Excused.not_ok {e : Event} (h : e.Excused d True) : e.ok = false := by
  cases e with
  | progFail | eraseFail | noFree => rfl
  | program | erase | tables => exact absurd h id

/-- Under the contract, a request that is not met finds no free block. -/
theorem never_missed {α : Type} {m : M α} {Q : α → St → Prop} (h : Sat (contract d True) m s Q) : NeverMissed (m s).log := by
  intro l₁ l₂ left hlog hok
  rcases h with ⟨k₁, e, k₂, s₁, hlog', he, hst⟩ | ⟨a, -, hst, -⟩
  · have hk : k₁.all Event.ok = true := Step.ok hst
    have hsame := first_failed (hlog.symm.trans hlog') hok hk rfl he.not_ok
    rw [← hsame] at he
    exact he.2
  · exact absurd (hst.lawful (.noFree left) (by rw [hlog]; simp)) id

/-- In every state of a run without failures the free blocks are counted, and the next call misses no free block. -/
theorem free_blocks_counted (hf : d.Fits) (h : Formatted d n) (hq : Quiet d True (St.boot n))
    (hal : Along (StoreOp.run d) (StoreOp.Roomy d n.bad) ops (formatted d n)) :
    FreeCounted d (after (StoreOp.run d) ops (formatted d n)) ∧
      ∀ op : StoreOp, op.InRange d n.bad (after (StoreOp.run d) ops (formatted d n)) →
        NeverMissed (op.run d (after (StoreOp.run d) ops (formatted d n))).log := by
  obtain ⟨-, own, map, ml, L, hbt⟩ := h.run hf hq hal
  exact ⟨hbt.ftl.core.alloc.pool.count, fun op hop => never_missed (sat_storeOp hf hbt hop)⟩

theorem free_blocks_counted_small :
    FreeCounted smallChip (after (StoreOp.run smallChip) [.write 0 (fun _ => 1), .remount, .read 0] (formatted smallChip erasedNand)) ∧
      ∀ op : StoreOp, op.InRange smallChip erasedNand.bad
          (after (StoreOp.run smallChip) [.write 0 (fun _ => 1), .remount, .read 0] (formatted smallChip erasedNand)) →
        NeverMissed (op.run smallChip
          (after (StoreOp.run smallChip) [.write 0 (fun _ => 1), .remount, .read 0] (formatted smallChip erasedNand))).log :=
  free_blocks_counted smallChip_fits formatted_small (smallChip_quiet _) roomy_small

/-- The small chip, whose eleventh access fails. -/
def failingChip : Device := { smallChip with progFail := fun t => decide (t = 10) }

/-- The program operation of the first write fails. Its block is replaced, and counted as if it had been free. -/
theorem failure_counted_twice : Formatted failingChip erasedNand ∧
    (StoreOp.write 0 (fun _ => 1)).InRange failingChip erasedNand.bad (formatted failingChip erasedNand) ∧
    ¬ FreeCounted failingChip ((StoreOp.write 0 (fun _ => 1)).run failingChip (formatted failingChip erasedNand)).st := by
  refine ⟨⟨fun _ _ _ _ => rfl, by decide +kernel, by decide +kernel⟩, ⟨by decide, (first_write (by decide +kernel)).1⟩, ?_⟩
  rw [FreeCounted]
  decide +kernel

end Emlinux.Nftl
