import Emlinux.Nftl.MapRun
import Emlinux.Nftl.Preserve

/-!
# Block moves are transparent

A read that needed more than `ECC_ERR_LIMIT` corrections moves the block it was made from. `reads_transparent`
says that no sequence of reads notices the moves, as long as none of them is the move of an MTLog block that
looks for its table entry under the wrong index.
-/

namespace Emlinux.Nftl

open Lib

variable {d : Device} {bd : Nat → Bool} {own : Own} {map : Nat → Nat} {ml L : List Log} {s : St} {lpa : Nat}

/-- The page is one of the device. Its read does not move a wrong map block, its program and erase operations
succeed, and its requests for free blocks are met. -/
structure FairRead (d : Device) (s : St) (lpa : Nat) : Prop where
  lt : lpa < d.maxlp
  right : (nftlFindLpaInDl d lpa s).res = .ok none → ¬ MovesWrongBlock d s (lpa / d.pgs / d.words)
  ok : (nftlReadLogicpage d lpa s).log.all Event.ok = true

theorem Ftl.findLpa (h : Ftl d bd own map ml L s) (lpa : Nat) :
    (nftlFindLpaInDl d lpa s).res = .ok (lookupIn L (lpa / d.pgs) lpa) := by
  have hfind := findPage_rep (show Rep dlCap s.dl ([] ++ L) from h.rep) h.logs.nodup (lpa / d.pgs) lpa
  rw [← h.rep.blkcnt] at hfind
  show (Prog.lift (s.dl.findPage dlCap (lpa / d.pgs) lpa s.dl.blkcnt 0 0) s).res = _
  rw [show s.dl.findPage dlCap (lpa / d.pgs) lpa s.dl.blkcnt 0 0 = .ok (lookupIn L (lpa / d.pgs) lpa) from hfind]
  rfl

/-- The invariant holds, and the pages of the device hold `f`. -/
def Holds (d : Device) (bd : Nat → Bool) (f : Nat → PageData) (s : St) : Prop :=
  ∃ own map ml L, Ftl d bd own map ml L s ∧ ∀ q, q < d.maxlp → content d s.nand.flash map L q = f q

theorem Ftl.holds (h : Ftl d bd own map ml L s) : Holds d bd (content d s.nand.flash map L) s :=
  ⟨own, map, ml, L, h, fun _ _ => rfl⟩

theorem Holds.read {f : Nat → PageData} (hf : d.Fits) (h : Holds d bd f s) (hr : FairRead d s lpa) :
    (nftlReadLogicpage d lpa s).res = .ok (0, some (f lpa)) ∧ Holds d bd f (nftlReadLogicpage d lpa s).st := by
  obtain ⟨own, map, ml, L, h, hcont⟩ := h
  have hmove : lookupIn L (lpa / d.pgs) lpa = none → MoveOk d ml s (lpa / d.pgs / d.words) := fun hnone =>
    h.core.moveOk (hr.right (by rw [h.findLpa, hnone]))
  obtain ⟨r, hres, rfl, own', map', ml', L', hp⟩ :=
    (sat_nftlReadLogicpage_of (E := True) hf h hr.lt (Or.inl trivial) hmove).of_clean (not_excused_of_ok hr.ok)
  refine ⟨by rw [hres, hcont _ hr.lt], own', map', ml', L', hp.ftl, fun q hq => ?_⟩
  exact (hp.content q (d.lba_lt hq)).trans (hcont q hq)

/-- Whatever the reads correct, and whichever blocks they move, each returns the latest data of its page, and each
page of the device still holds its latest data after them. -/
theorem reads_transparent (hf : d.Fits) (h : Ftl d bd own map ml L s) {qs : List Nat}
    (hfair : Along (nftlReadLogicpage d) (FairRead d) qs s) :
    results (nftlReadLogicpage d) qs s = qs.map (fun q => .ok (0, some (content d s.nand.flash map L q))) ∧
      Holds d bd (content d s.nand.flash map L) (after (nftlReadLogicpage d) qs s) :=
  simulates_map (fun _ _ h hr => h.read hf hr) h.holds hfair

/-! ## A chip with two MapTab blocks -/

/-- 513 blocks of two pages: the map pages of the logical blocks from 512 on belong to MapTab block 1. The first
read corrects three bits. -/
def wideChip : Device where
  writesize := 512
  pgs := 2
  blks := 513
  pgs_pos := Nat.zero_lt_two
  pgs_le := pgs_le_two
  blks_pos := by decide
  blks_le := by decide
  ws_ge := ws_ge_512
  ws_le := ws_le_512
  ws_even := ws_even_512
  progFail _ := false
  torn _ := none
  eraseFail _ := false
  corrected t := if t = 0 then 3 else 0
  junk _ _ := 0
  junkInfo _ := 0

theorem wideChip_fits : wideChip.Fits := ⟨by decide, by decide⟩

/-- The MapTab blocks 0 and 1, the Data block 2 of logical block 512, and the MTLog block 3 with its map page. -/
def wideFlash : Flash
  | 0, _ => some ⟨ffData, ⟨.mapTab, Spare.setTab 0 0 0⟩⟩
  | 1, _ => some ⟨ffData, ⟨.mapTab, Spare.setTab 0 1 0⟩⟩
  | 2, 0 => some ⟨fun _ => 1, ⟨.dataLog, 1024⟩⟩
  | 2, _ => some ⟨fun _ => 2, ⟨.data, 1025⟩⟩
  | 3, 0 => some ⟨setWord ffData 0 2, ⟨.mtLog, Spare.setTab 0 1 2⟩⟩
  | _, _ => none

def wideOwn : Own
  | 0 => .mt 0
  | 1 => .mt 1
  | 2 => .data 512
  | 3 => .mtl 1
  | b + 4 => if b < 509 then .pool else .bad

/-- The chip after logical pages 1024 and 1025 were written and logical page 0 was read: map page 0 is in the
cache. -/
def wideState : St where
  nand := ⟨wideFlash, fun _ => false, 0, 0⟩
  al := ⟨fun b => decide (4 ≤ b ∧ b < 513), 509, 3, noBlock, 0, []⟩
  mt := ⟨id, ⟨fun i => if i = 0 then ⟨1, 3, 1, 1⟩ else ⟨0, 0, 0, 0⟩, 1, fun i => if i = 0 then ⟨0, 2⟩ else ⟨0, 0⟩, 1⟩,
    0, 0, ffData⟩
  dl := LogTab.zero
  gBadblkcnt := 0
  gStoragesize := 0

def wideMap : Nat → Nat := Function.update (fun _ => noBlock) 512 2

theorem wideOwn_free {b : Nat} (h : 4 ≤ b) : wideOwn b = if b < 513 then .pool else .bad := by
  obtain ⟨n, rfl⟩ := Nat.exists_eq_add_of_le' h
  show (if n < 509 then Role.pool else .bad) = _
  by_cases hn : n < 509
  · rw [if_pos hn, if_pos (by omega)]
  · rw [if_neg hn, if_neg (by omega)]

/-- A block with a role in the map or for data is one of the first four. -/
theorem wideOwn_lt {b : Nat} (h1 : wideOwn b ≠ .pool) (h2 : wideOwn b ≠ .bad) : b < 4 := by
  by_contra hb
  rw [wideOwn_free (by omega)] at h1 h2
  split_ifs at h1 h2
  · exact h1 rfl
  · exact h2 rfl

/-- Page 2 of the map is in the MTLog block, the others are in the MapTab blocks. -/
theorem wide_mtLoc : ∀ p, p < 3 → mtLoc wideChip id [⟨1, 3, [2]⟩] p = if p = 2 then (3, 0) else (0, p) := by
  decide

theorem wide_mtData {p : Nat} (hp : p < 3) :
    mtData wideChip wideFlash id [⟨1, 3, [2]⟩] p = if p = 2 then setWord ffData 0 2 else ffData := by
  rw [mtData, wide_mtLoc p hp]
  by_cases h : p = 2
  · rw [if_pos h, if_pos h]
    rfl
  · rw [if_neg h, if_neg h]
    rfl

theorem wide_mapInv : MapInv wideChip wideOwn wideMap [⟨1, 3, [2]⟩] wideFlash id := by
  have hrole : ∀ b r, wideOwn b = r → r ≠ .pool → r ≠ .bad → b < 4 := by
    rintro b r rfl h1 h2
    exact wideOwn_lt h1 h2
  refine ⟨⟨by simp, by simp; decide, by simp; rfl, fun b k hb => ?_, fun lg hlg => ?_⟩, by simp; decide, by decide,
    by decide, fun b k hb => ?_, fun k hk => ?_, fun lba hlba => ?_, fun lba hlba => ?_⟩
  · have hlt := hrole b _ hb (by simp) (by simp)
    match b with
    | 0 | 1 | 2 => simp [wideOwn] at hb
    | 3 => exact ⟨⟨1, 3, [2]⟩, by simp, Role.mtl.inj hb, rfl⟩
  · obtain rfl := List.mem_singleton.mp hlg
    refine ⟨fun i p hp => ?_, fun i hi _ => ?_, by simp, by decide, by decide⟩
    · have hi : i < 1 := (List.getElem?_eq_some_iff.mp hp).1
      obtain rfl : i = 0 := by omega
      obtain rfl : 2 = p := by simpa using hp
      exact ⟨_, rfl, rfl, by decide, by decide⟩
    · have hi : 1 ≤ i := hi
      match i with
      | i + 1 => rfl
  · have hlt := hrole b _ hb (by simp) (by simp)
    match b with
    | 0 | 1 => exact ⟨by rw [← Role.mt.inj hb]; decide, (Role.mt.inj hb).symm⟩
    | 2 | 3 => simp [wideOwn] at hb
  · have hk : k < 2 := hk
    match k with
    | 0 | 1 => exact ⟨_, rfl, by decide⟩
  · have hlba : lba < 513 := hlba
    show word (mtData wideChip wideFlash id [⟨1, 3, [2]⟩] (lba / 256)) (lba % 256) = _
    rw [wide_mtData (show lba / 256 < 3 by omega), wideMap]
    by_cases h : lba = 512
    · subst h
      decide
    · rw [Function.update_of_ne h]
      split_ifs
      · rw [word_setWord_ne _ _ (show lba % 256 ≠ 0 by omega), word_ffData]
      · rw [word_ffData]
  · rw [wideMap]
    by_cases h : lba = 512
    · subst h
      exact Or.inr (by decide)
    · exact Or.inl (Function.update_of_ne h _ _)

theorem wideOwn_pool (b : Nat) : wideOwn b = .pool ↔ 4 ≤ b ∧ b < 513 := by
  by_cases hb : 4 ≤ b
  · rw [wideOwn_free hb]
    by_cases h : b < 513 <;> simp [h, hb]
  · match b with
    | 0 | 1 | 2 | 3 => simp [wideOwn]
    | b + 4 => omega

theorem wide_pool : Pool wideChip wideOwn wideFlash wideState.al [] noBlock := by
  have hfree : ∀ b, wideState.al.blockstatus b = true ↔ 4 ≤ b ∧ b < 513 := fun b => decide_eq_true_iff
  refine ⟨fun b => ?_, fun b hb => ((hfree b).mp hb).2, by simp, fun b hb => ?_, by simp, by simp, by simp, Or.inl rfl,
    fun b hb p _ => ?_, by decide +kernel, by decide⟩
  · rw [wideOwn_pool, hfree]
    show _ ↔ b < 513 ∧ _
    constructor
    · exact fun h => ⟨h.2, Or.inl h⟩
    · rintro ⟨h, hb | hb | hb⟩
      · exact hb
      · simp at hb
      · have : b = 65535 := hb
        omega
  · have := (hfree b).mp hb
    show b ≠ 65535
    omega
  · obtain ⟨n, rfl⟩ := Nat.exists_eq_add_of_le' ((hfree b).mp hb).1
    rfl

theorem ftl_wideState : Ftl wideChip (fun _ => false) wideOwn wideMap [⟨1, 3, [2]⟩] [] wideState := by
  have hrole : ∀ b r, wideOwn b = r → r ≠ .pool → r ≠ .bad → b < 4 := by
    rintro b r rfl h1 h2
    exact wideOwn_lt h1 h2
  have hrep : Rep mtlCap wideState.mt.mtl [⟨1, 3, [2]⟩] := by
    refine ⟨rfl, rfl, fun i => ?_, agree_singleton.mpr rfl, by decide, by decide⟩
    cases i <;> rfl
  have hcache : CacheOk wideChip [⟨1, 3, [2]⟩] wideFlash wideState.mt := by
    intro p hp hl
    have hl : mtLoc wideChip id [⟨1, 3, [2]⟩] p = (0, 0) := hl
    rw [wide_mtLoc p hp] at hl
    have hp2 : p ≠ 2 := by
      rintro rfl
      simp at hl
    exact ((wide_mtData hp).trans (if_neg hp2)).symm
  refine ⟨⟨⟨wide_pool, by simp [wideState], Or.inl ⟨rfl, rfl, rfl⟩⟩, wide_mapInv, hrep, hcache, by decide,
    ⟨by decide, by decide, by decide⟩⟩, ⟨by simp, by simp, by simp, fun b k hb => ?_, by simp⟩, rep_zero _, by simp,
    ⟨fun lba hlba hm => ?_, fun b k hb => ?_, fun b k hb => ?_⟩, fun b hb => ?_, fun b hb => ?_⟩
  · have hlt := hrole b _ hb (by simp) (by simp)
    match b with
    | 0 | 1 | 2 | 3 => simp [wideOwn] at hb
  · by_cases h : lba = 512
    · subst h
      rfl
    · exact absurd (Function.update_of_ne h _ _) hm
  · have hlt := hrole b _ hb (by simp) (by simp)
    match b with
    | 0 | 1 | 3 => simp [wideOwn] at hb
    | 2 =>
      obtain rfl := Role.data.inj hb
      decide
  · have hlt := hrole b _ hb (by simp) (by simp)
    match b with
    | 0 | 1 | 3 => simp [wideOwn] at hb
    | 2 => exact ⟨_, rfl, Or.inr ⟨rfl, _, rfl, rfl⟩⟩
  · have hlt := hrole b _ hb (by simp) (by simp)
    match b with
    | 0 | 1 | 2 | 3 => simp [wideOwn] at hb
  · have hb : b < 513 := hb
    simp only [Bool.false_eq_true, iff_false]
    intro hbad
    by_cases h : 4 ≤ b
    · rw [wideOwn_free h, if_pos hb] at hbad
      simp at hbad
    · match b with
      | 0 | 1 | 2 | 3 => simp [wideOwn] at hbad
      | b + 4 => omega

/-- The first read takes map page 1 from MapTab block 0, which it moves to block 4. -/
theorem reads_transparent_wide : results (nftlReadLogicpage wideChip) [512, 0] wideState = [512, 0].map (fun q =>
      .ok (0, some (content wideChip wideFlash wideMap [] q))) ∧
    (after (nftlReadLogicpage wideChip) [512, 0] wideState).mt.mtPbas 0 = 4 := by
  have hidx : ∀ s p, p / wideChip.pgs = 0 → ¬ MovesWrongBlock wideChip s p := fun s p h hx => hx.1 h
  have hfair : Along (nftlReadLogicpage wideChip) (FairRead wideChip) [512, 0] wideState :=
    ⟨⟨by decide, fun _ => hidx _ _ (by decide), by decide +kernel⟩,
      ⟨by decide, fun _ => hidx _ _ (by decide), by decide +kernel⟩, trivial⟩
  exact ⟨(reads_transparent wideChip_fits ftl_wideState hfair).1, by decide +kernel⟩

/-- Every operation of the three reads succeeds. The first read of page 1024 returns its data, and moves the wrong
block; the second returns something else. -/
theorem move_loses_map : Ftl wideChip (fun _ => false) wideOwn wideMap [⟨1, 3, [2]⟩] [] wideState ∧
    Along (nftlReadLogicpage wideChip) (fun s q => (nftlReadLogicpage wideChip q s).log.all Event.ok = true)
      [1024, 0, 1024] wideState ∧
    ¬ results (nftlReadLogicpage wideChip) [1024, 0, 1024] wideState = [1024, 0, 1024].map (fun q =>
      .ok (0, some (content wideChip wideFlash wideMap [] q))) := by
  refine ⟨ftl_wideState, ⟨by decide +kernel, by decide +kernel, by decide +kernel, trivial⟩, fun hall => ?_⟩
  have hbyte : ((results (nftlReadLogicpage wideChip) [1024, 0, 1024] wideState).map fun r =>
      r.toOption.bind fun r => r.2.map fun p => p 0) = [some 1, some 255, some 255] := by decide +kernel
  rw [hall] at hbyte
  exact absurd hbyte (by decide +kernel)

end Emlinux.Nftl
