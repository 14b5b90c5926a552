import Emlinux.Lib.Calls
import Emlinux.Nftl.Format

/-!
# The map as a function

Any sequence of `nftl_update_mt` and `nftl_lba_to_pba` answers like a function that is updated: through the map
page cache, the shadowing of older slots of the MTLog blocks, their merges, and the garbage the merges make.
-/

namespace Emlinux.Nftl

open Lib

variable {d : Device} {own : Own} {map : Nat → Nat} {ml : List Log} {s : St} {lba : Nat}

/-- The lookup of map page `p` finds it in an MTLog block of a MapTab index other than 0, and the chip corrected too
many bits: `nftl_update_mtl_ram` is called with the page inside the block in place of the offset of the map page,
and finds no entry of index 0 with that block. -/
def MovesWrongBlock (d : Device) (s : St) (p : Nat) : Prop :=
  p / d.pgs ≠ 0 ∧ ∃ a, (nftlFindMtpgInMtl d p s).res = .ok (some a) ∧ eccErrLimit < accessEcc d s a.1 a.2

theorem findMtpg_res (hr : Rep mtlCap s.mt.mtl ml) (hnd : (ml.map Log.key).Nodup) (p : Nat) :
    (nftlFindMtpgInMtl d p s).res = .ok (lookupIn ml (p / d.pgs) p) := by
  have hfind := findPage_rep (show Rep mtlCap s.mt.mtl ([] ++ ml) from hr) hnd (p / d.pgs) p
  rw [← hr.blkcnt] at hfind
  show (Prog.lift (s.mt.mtl.findPage mtlCap (p / d.pgs) p s.mt.mtl.blkcnt 0 0) s).res = _
  rw [show s.mt.mtl.findPage mtlCap (p / d.pgs) p s.mt.mtl.blkcnt 0 0 = .ok (lookupIn ml (p / d.pgs) p) from hfind]
  rfl

/-- The move that a lookup makes of a map block finds the entry of the block. -/
theorem Core.moveOk (h : Core d own map ml s) {p : Nat} (hok : ¬ MovesWrongBlock d s p) : MoveOk d ml s p := by
  intro hecc
  by_cases hidx : p / d.pgs = 0
  · exact Or.inl hidx
  · right
    cases hlook : lookupIn ml (p / d.pgs) p with
    | none => rfl
    | some a =>
      rw [mtLoc, hlook, Option.getD_some] at hecc
      exact absurd ⟨hidx, a, by rw [findMtpg_res h.rep h.inv.logs.nodup, hlook], hecc⟩ hok

/-! ## Operations on the map -/

inductive MapOp where
  | update (lba pba : Nat)
  | lookup (lba : Nat)

/-- The return code, and the block that a lookup stores. -/
def MapOp.run (d : Device) : MapOp → M (Int × Option Nat)
  | .update lba pba => do
    let ret ← nftlUpdateMt d lba pba
    pure (ret, none)
  | .lookup lba => do
    let r ← nftlLbaToPba d lba
    pure (r.1, some r.2)

/-- The operation on a function. -/
def MapOp.apply (map : Nat → Nat) : MapOp → Nat → Nat
  | .update lba pba => Function.update map lba pba
  | .lookup _ => map

def MapOp.answer (map : Nat → Nat) : MapOp → Int × Option Nat
  | .update _ _ => (0, none)
  | .lookup lba => (0, some (map lba))

/-- The operation is about blocks of the device; its program and erase operations succeed, its requests for free
blocks are met, and a lookup does not move the wrong block. -/
def MapOp.Fair (d : Device) (s : St) (op : MapOp) : Prop :=
  (op.run d s).log.all Event.ok = true ∧
  match op with
  | .update lba pba => lba < d.blks ∧ pba < d.blks
  | .lookup lba => lba < d.blks ∧ ¬ MovesWrongBlock d s (lba / d.words)

theorem sat_mapOp (hf : d.Fits) (h : Core d own map ml s) {op : MapOp} (hop : op.Fair d s) :
    Sat (contract d True) (op.run d) s (fun r s' => r = op.answer map ∧ ∃ own' ml', Core d own' (op.apply map) ml' s') := by
  cases op with
  | update lba pba =>
    obtain ⟨-, hlba, hpba⟩ := hop
    refine Sat.bind (sat_updateMt hf h hlba hpba (Or.inl trivial)) ?_
    rintro _ s' ⟨rfl, own', ml', h', -⟩
    exact Sat.pure ⟨rfl, own', ml', h'⟩
  | lookup lba =>
    obtain ⟨-, hlba, hok⟩ := hop
    refine Sat.bind (sat_lbaToPba_of hf h hlba (Or.inl trivial) (h.moveOk hok)) ?_
    rintro _ s' ⟨rfl, own', ml', h', -⟩
    exact Sat.pure ⟨rfl, own', ml', h'⟩

/-- Every sequence of updates and lookups answers like a function that starts as the map and is updated, and leaves
that function in the tables. -/
theorem map_is_fold (hf : d.Fits) (h : Core d own map ml s) {ops : List MapOp}
    (hfair : Along (MapOp.run d) (MapOp.Fair d) ops s) :
    results (MapOp.run d) ops s = answers MapOp.answer MapOp.apply ops map ∧
      ∃ own' ml', Core d own' (ops.foldl MapOp.apply map) ml' (after (MapOp.run d) ops s) := by
  refine simulates (I := fun map s => ∃ own ml, Core d own map ml s) (fun map s op ⟨own, ml, h⟩ hop => ?_)
    ⟨own, ml, h⟩ hfair
  obtain ⟨r, hr, rfl, hcore⟩ := (sat_mapOp hf h hop).of_clean (not_excused_of_ok hop.1)
  exact ⟨hr, hcore⟩

/-- The second update of a small chip fills the MTLog block, which is merged; the garbage is reclaimed. -/
theorem map_is_fold_small : results (MapOp.run smallChip) [.update 3 5, .update 3 6, .lookup 3, .lookup 2] fresh
    = [.ok (0, none), .ok (0, none), .ok (0, some 6), .ok (0, some noBlock)] := by
  obtain ⟨own, h⟩ := ftl_fresh
  have hidx : ∀ s, ¬ MovesWrongBlock smallChip s 0 := fun s hx => hx.1 (by decide)
  have hfair : Along (MapOp.run smallChip) (MapOp.Fair smallChip) [.update 3 5, .update 3 6, .lookup 3, .lookup 2] fresh :=
    ⟨⟨by decide +kernel, by decide, by decide⟩, ⟨by decide +kernel, by decide, by decide⟩,
      ⟨by decide +kernel, by decide, hidx _⟩, ⟨by decide +kernel, by decide, hidx _⟩, trivial⟩
  exact (map_is_fold smallChip_fits h.core hfair).1

/-! ## A device without free blocks -/

/-- 300 blocks of two pages, with two map pages. -/
def fullChip : Device where
  writesize := 512
  pgs := 2
  blks := 300
  pgs_pos := Nat.zero_lt_two
  pgs_le := pgs_le_two
  blks_pos := blks_pos_300
  blks_le := blks_le_300
  ws_ge := ws_ge_512
  ws_le := ws_le_512
  ws_even := ws_even_512
  progFail _ := false
  torn _ := none
  eraseFail _ := false
  corrected _ := 0
  junk _ _ := 0
  junkInfo _ := 0

def fullOwn : Own := fun b => if b = 0 then .mt 0 else .bad

/-- Block 0 is the MapTab block, and no block is free. -/
def fullState : St where
  nand := ⟨fun b _ => if b = 0 then some ⟨ffData, ⟨.mapTab, Spare.setTab 0 0 0⟩⟩ else none, fun b => decide (b ≠ 0), 0, 0⟩
  al := ⟨fun _ => false, 0, 0, noBlock, 0, []⟩
  mt := ⟨fun _ => 0, LogTab.zero, noBlock, 0xff, ffData⟩
  dl := LogTab.zero
  gBadblkcnt := 299
  gStoragesize := 0

theorem fullOwn_mt {b k : Nat} (h : fullOwn b = .mt k) : b = 0 ∧ k = 0 := by
  by_cases hb : b = 0
  · rw [fullOwn, if_pos hb] at h
    exact ⟨hb, (Role.mt.inj h).symm⟩
  · rw [fullOwn, if_neg hb] at h
    simp at h

theorem full_mtLoc (p : Nat) : mtLoc fullChip fullState.mt.mtPbas [] p = (0, p % 2) := rfl

theorem core_full : Core fullChip fullOwn (fun _ => noBlock) [] fullState := by
  have hne : ∀ b k, fullOwn b ≠ .mtl k := by
    intro b k
    rw [fullOwn]
    split_ifs <;> simp
  refine ⟨⟨⟨fun b => ?_, by simp [fullState], by simp [fullState], by simp [fullState], by simp [fullState],
    by simp [fullState], by simp [fullState], Or.inl rfl, by simp [fullState], ?_, by decide⟩, by simp [fullState],
    Or.inl ⟨rfl, rfl, rfl⟩⟩, ⟨⟨by simp, by simp, by simp, fun b k hb => absurd hb (hne b k), by simp⟩, by simp, by decide,
    fun k hk => ?_, fun b k hb => ?_, fun k hk => ?_, fun lba _ => ?_, fun _ _ => Or.inl rfl⟩, rep_zero _, fun p _ hl => ?_,
    by simp, ⟨by decide, by decide, by decide⟩⟩
  · constructor
    · intro h
      rw [fullOwn] at h
      split_ifs at h
    · rintro ⟨h1, h | h | h⟩
      · simp [fullState] at h
      · simp [fullState] at h
      · have h1 : b < 300 := h1
        have h : b = 65535 := h
        omega
  · simp [fullState, freeCount]
  · have hk : k < 1 := hk
    obtain rfl : k = 0 := by omega
    rfl
  · obtain ⟨rfl, rfl⟩ := fullOwn_mt hb
    exact ⟨by decide, rfl⟩
  · have hk : k < 1 := hk
    obtain rfl : k = 0 := by omega
    exact ⟨_, rfl, rfl, rfl, fun _ => by decide⟩
  · rw [mtData, full_mtLoc]
    exact word_ffData _
  · rw [full_mtLoc] at hl
    have hzero : 0 = noBlock := congrArg Prod.fst hl
    exact absurd hzero (by decide)

/-- Without a free block the first update programs block `0xffff`, and is lost when another map page takes its place
in the cache; the second returns `EIO`. -/
theorem full_loses_update : Core fullChip fullOwn (fun _ => noBlock) [] fullState ∧
    ¬ results (MapOp.run fullChip) [.update 0 1, .update 256 2, .lookup 0] fullState
      = answers MapOp.answer MapOp.apply [.update 0 1, .update 256 2, .lookup 0] (fun _ => noBlock) := by
  refine ⟨core_full, fun h => ?_⟩
  have hres : (results (MapOp.run fullChip) [.update 0 1, .update 256 2, .lookup 0] fullState).map (fun r => r.toOption)
      = [some (0, none), some (5, none), some (-22, some 0)] := by decide +kernel
  rw [h] at hres
  exact absurd hres (by decide)

end Emlinux.Nftl
