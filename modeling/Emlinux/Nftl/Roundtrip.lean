import Emlinux.Nftl.Discipline

/-!
# Mounting again, as a round trip

What `NFTL_mount` rebuilds from the flash of a store in use is the store, seen through the functions that read its tables:
the free blocks, the garbage, the place of each map page, the DataLog block and the pages of each logical block.
-/

namespace Emlinux.Nftl

open Lib

variable {d : Device} {bd : Nat → Bool} {own : Own} {map : Nat → Nat} {ml L L' : List Log} {s s' : St} {n : Nand} {ops : List StoreOp} {lpa : Nat}

/-- The DataLog block of a logical block, and how many of its pages are used. -/
def dataLogOf (s : St) (lba : Nat) : Option (Nat × Nat) :=
  (((List.range s.dl.blkcnt).map s.dl.blocktab).find? fun b => b.key = lba).map fun b => (b.pba, b.used)

/-- The tables of `s'` are those of `s`. -/
structure SameStore (d : Device) (s s' : St) : Prop where
  free : ∀ b, s'.al.blockstatus b = s.al.blockstatus b
  freeCount : s'.al.freeBlkcnt = s.al.freeBlkcnt
  garbage : s'.al.gar = s.al.gar
  gtPages : s'.al.gtPgcnt = s.al.gtPgcnt
  mapPage : ∀ p, p < d.nrMtpage → (nftlGetPhysicalMt d p s').res = (nftlGetPhysicalMt d p s).res
  dataLog : ∀ lba, dataLogOf s' lba = dataLogOf s lba
  page : ∀ lpa, (nftlFindLpaInDl d lpa s').res = (nftlFindLpaInDl d lpa s).res

/-- A successful read returns the same in both states. -/
def SameReads (d : Device) (s s' : St) : Prop :=
  ∀ lpa, lpa < d.maxlp → (nftlReadLogicpage d lpa s).log.all Event.ok = true → (nftlReadLogicpage d lpa s').log.all Event.ok = true →
    (nftlReadLogicpage d lpa s').res = (nftlReadLogicpage d lpa s).res

/-! ## What a mount rebuilds -/

theorem Rep.blocktab_eq {c : LogCap} {t : LogTab} (h : Rep c t L) : (List.range t.blkcnt).map t.blocktab = L.map Log.block := by
  refine List.ext_getElem (by rw [List.length_map, List.length_range, List.length_map, h.blkcnt]) fun i hi hi' => ?_
  rw [List.length_map] at hi'
  rw [List.getElem_map, List.getElem_map, List.getElem_range, h.blockAt_getElem hi']

theorem find_key (hnd : (L.map Log.key).Nodup) {lg : Log} (hlg : lg ∈ L) : L.find? (fun x => x.key = lg.key) = some lg := by
  cases hfind : L.find? (fun x => x.key = lg.key) with
  | none => exact absurd (decide_eq_true rfl) (List.find?_eq_none.mp hfind lg hlg)
  | some x =>
    have hkey : x.key = lg.key := by simpa using List.find?_some hfind
    rw [eq_of_key hnd (List.mem_of_find?_eq_some hfind) hlg hkey]

theorem find_perm (hp : L'.Perm L) (hnd : (L.map Log.key).Nodup) (k : Nat) :
    L'.find? (fun x => x.key = k) = L.find? (fun x => x.key = k) := by
  have hnd' : (L'.map Log.key).Nodup := ((hp.map Log.key).nodup_iff).mpr hnd
  by_cases hex : ∃ lg ∈ L, lg.key = k
  · obtain ⟨lg, hlg, rfl⟩ := hex
    rw [find_key hnd hlg, find_key hnd' (hp.mem_iff.mpr hlg)]
  · push Not at hex
    rw [List.find?_eq_none.mpr fun x hx => by simpa using hex x (hp.mem_iff.mp hx),
      List.find?_eq_none.mpr fun x hx => by simpa using hex x hx]

theorem dataLogOf_rep (hr : Rep dlCap s.dl L) (lba : Nat) :
    dataLogOf s lba = (L.find? fun lg => lg.key = lba).map fun lg => (lg.pba, lg.seq.length) := by
  rw [dataLogOf, hr.blocktab_eq, List.find?_map, Option.map_map]
  rfl

/-- The scan leaves the tables as they were. -/
theorem Ftl.same (hf : d.Fits) (h : Ftl d bd own map ml L s)
    (hs : Scanned d bd s.nand.flash s.al s.mt.mtPbas ml L d.blks s') : SameStore d s s' := by
  have hftl := h.rebuilt hs
  have hperm := h.logs.scanned_perm dl_injective
  have hmap := h.core.inv.logs.scanned_perm mtl_injective
  have hfree : ∀ b, s'.al.blockstatus b = s.al.blockstatus b := fun b => by
    rw [hs.status b]
    by_cases hb : s.al.blockstatus b = true
    · simp [hb, h.core.alloc.pool.free_lt b hb]
    · simp [hb]
  refine ⟨hfree, ?_, hs.gar, hs.pgcnt, fun p hp => ?_, fun lba => ?_, fun lpa => ?_⟩
  · rw [hftl.core.alloc.pool.count, h.core.alloc.pool.count, funext hfree]
  · have hidx : p / d.pgs < mtMaxBlocks := (d.mtIndex_lt hp).trans hf.map_lt
    rw [getPhysicalMt_res hftl.core.rep hftl.core.inv.logs.nodup hidx, getPhysicalMt_res h.core.rep h.core.inv.logs.nodup hidx, mtLoc, mtLoc,
      lookupIn_congr hftl.core.inv.logs.nodup h.core.inv.logs.nodup fun _ _ => hmap.mem_iff,
      hs.mt _ (d.mtIndex_lt hp), if_pos (h.core.inv.pba_lt _ (d.mtIndex_lt hp))]
  · rw [dataLogOf_rep hftl.rep, dataLogOf_rep h.rep, find_perm hperm h.logs.nodup]
  · rw [hftl.findLpa, h.findLpa, lookupIn_congr hftl.logs.nodup h.logs.nodup fun _ _ => hperm.mem_iff]

/-- A successful read in a state between two calls. -/
theorem Between.read (hf : d.Fits) (h : Between d bd own map ml L s) (hlpa : lpa < d.maxlp)
    (hlog : (nftlReadLogicpage d lpa s).log.all Event.ok = true) :
    (nftlReadLogicpage d lpa s).res = .ok (0, some (content d s.nand.flash map L lpa)) := by
  obtain ⟨r, hres, rfl, -⟩ := (sat_nftlReadLogicpage hf h.ftl hlpa h.quiet).of_clean (not_excused_of_ok hlog)
  exact hres

/-- A clean remount of a store between two calls. -/
theorem Between.remount (hf : d.Fits) (h : Between d bd own map ml L s) (hop : StoreOp.remount.Roomy d bd s) :
    (StoreOp.remount.run d s).res = .ok (0, none) ∧ SameStore d s (StoreOp.remount.run d s).st ∧
      SameReads d s (StoreOp.remount.run d s).st := by
  have hftl : Ftl d s.nand.bad own map ml L s := by rw [h.bad]; exact h.ftl
  have hsat : Sat (contract d True) (StoreOp.remount.run d) s (fun r s' => r = (0, none) ∧ SameStore d s s') := by
    refine Sat.bind (sat_of_boot (sat_remount hf hftl h.short (by rw [h.bad]; exact h.size))) ?_
    rintro _ s' ⟨rfl, hs, -⟩
    exact Sat.pure ⟨rfl, hftl.same hf hs⟩
  obtain ⟨r, hres, rfl, hsame⟩ := hsat.of_clean (not_excused_of_ok hop.1)
  obtain ⟨-, -, own', map', ml', L', h', hcont⟩ := h.step hf hop
  refine ⟨hres, hsame, fun lpa hlpa hlog hlog' => ?_⟩
  have hlba : lpa / d.pgs < d.blks := d.lba_lt hlpa
  rw [h.read hf hlpa hlog, h'.read hf hlpa hlog', hcont (fun _ _ hx => StoreOp.noConfusion hx) lpa hlba]
  rfl

/-- In every run that always finds room, a clean remount after any of its calls rebuilds the store. -/
theorem remount_rebuilds (hf : d.Fits) (h : Formatted d n) (hq : Quiet d True (St.boot n))
    (hal : Along (StoreOp.run d) (StoreOp.Roomy d n.bad) ops (formatted d n))
    (hop : StoreOp.remount.Roomy d n.bad (after (StoreOp.run d) ops (formatted d n))) :
    (StoreOp.remount.run d (after (StoreOp.run d) ops (formatted d n))).res = .ok (0, none) ∧
      SameStore d (after (StoreOp.run d) ops (formatted d n))
        (StoreOp.remount.run d (after (StoreOp.run d) ops (formatted d n))).st ∧
      SameReads d (after (StoreOp.run d) ops (formatted d n))
        (StoreOp.remount.run d (after (StoreOp.run d) ops (formatted d n))).st := by
  obtain ⟨-, own, map, ml, L, hbt⟩ := h.run hf hq hal
  exact hbt.remount hf hop

theorem remount_rebuilds_small :
    (StoreOp.remount.run smallChip (after (StoreOp.run smallChip) [.write 0 (fun _ => 1), .remount, .read 0]
      (formatted smallChip erasedNand))).res = .ok (0, none) ∧
    SameStore smallChip (after (StoreOp.run smallChip) [.write 0 (fun _ => 1), .remount, .read 0] (formatted smallChip erasedNand))
      (StoreOp.remount.run smallChip (after (StoreOp.run smallChip) [.write 0 (fun _ => 1), .remount, .read 0]
        (formatted smallChip erasedNand))).st ∧
    SameReads smallChip (after (StoreOp.run smallChip) [.write 0 (fun _ => 1), .remount, .read 0] (formatted smallChip erasedNand))
      (StoreOp.remount.run smallChip (after (StoreOp.run smallChip) [.write 0 (fun _ => 1), .remount, .read 0]
        (formatted smallChip erasedNand))).st :=
  remount_rebuilds smallChip_fits formatted_small (smallChip_quiet _) roomy_small ⟨by decide +kernel, trivial⟩

/-! ## After a move under the wrong index -/

/-- The wide chip after its MTLog block was copied over the blocks behind. -/
def lateState : St := after (StoreOp.run lateChip) lateOps
  (mountEnd lateChip (((St.mounting lateChip erasedNand).ticked 513).freed 513)).st

theorem after_late : after (StoreOp.run lateChip) lateOps (formatted lateChip erasedNand) = lateState := by
  rw [formatted, late_mount]
  rfl

theorem lateState_types : ∀ b, b < 513 → typeAt lateState.nand.flash b ≠ .garbageTab := by
  have hall : ∀ b ∈ List.range 513, typeAt lateState.nand.flash b ≠ .garbageTab := by decide +kernel
  exact fun b hb => hall b (List.mem_range.mpr hb)

/-- Accesses after the 524th correct nothing. -/
theorem late_still {m : Nat} (hecc : n.ecc = 0) (htick : 523 < n.tick) : Still lateChip m (St.boot n) := by
  refine ⟨hecc, fun t ht _ => if_neg ?_⟩
  have ht : n.tick ≤ t := ht
  omega

theorem lateState_still : Still lateChip lateChip.blks (St.boot lateState.nand) :=
  late_still (by decide +kernel) (by decide +kernel)

/-- The copies are MTLog blocks, more than `mtl_blocktab` has entries. -/
theorem lateState_roles : (mountRoles lateChip
    (fun b => if 0 ≤ b ∧ b < 0 + lateChip.blks then typeAt lateState.nand.flash b else .badBlock)
    ((St.mounting lateChip lateState.nand).ticked lateChip.blks)).res.toOption.isSome = false := by decide +kernel

/-- A mount after the wrong move does not come back. -/
theorem move_not_rebuilt : Formatted lateChip erasedNand ∧
    Along (StoreOp.run lateChip) (fun s op => (op.run lateChip s).log.all Event.ok = true) lateOps (formatted lateChip erasedNand) ∧
    ∀ r, (StoreOp.remount.run lateChip (after (StoreOp.run lateChip) lateOps (formatted lateChip erasedNand))).res ≠ .ok r := by
  refine ⟨late_formatted, late_ok, fun r hr => ?_⟩
  rw [after_late] at hr
  have hmount : (nftlRemount lateChip lateState).res.toOption.isSome = false := by
    rw [nftlRemount, mount_still lateChip_fits lateState_still lateState_types]
    exact lateState_roles
  rcases hm : nftlRemount lateChip lateState with ⟨res, s', l⟩
  rw [hm] at hmount
  cases res with
  | ok a => simp [Except.toOption] at hmount
  | error e =>
    rw [StoreOp.run, Prog.bind_error _ _ hm] at hr
    simp at hr

end Emlinux.Nftl
