import Emlinux.Nftl.MapRun
import Emlinux.Nftl.Overrun

/-!
# The tables in every state of a run

What holds of the RAM tables in every state between two calls, and what a remount makes of it: every block has one role,
the free blocks are counted, no array is overrun, and the scan of a mount finds the same tables again.
-/

namespace Emlinux.Nftl

open Lib

variable {d : Device} {bd : Nat → Bool} {own : Own} {map : Nat → Nat} {ml L : List Log} {s s' : St} {n : Nand} {ops : List StoreOp}

/-- In a run that always finds room every step is lawful, and leaves a state between two calls. -/
theorem Formatted.run (hf : d.Fits) (h : Formatted d n) (hq : Quiet d True (St.boot n))
    (hal : Along (StoreOp.run d) (StoreOp.Roomy d n.bad) ops (formatted d n)) :
    Along (StoreOp.run d) (fun s op => (∃ r, (op.run d s).res = .ok r) ∧ Step d s (op.run d s).log (op.run d s).st)
      ops (formatted d n) ∧ ∃ own map ml L, Between d n.bad own map ml L (after (StoreOp.run d) ops (formatted d n)) := by
  obtain ⟨own, hb⟩ := h.between hf hq
  refine Along.keeps (J := fun s => ∃ own map ml L, Between d n.bad own map ml L s) ?_ ⟨own, _, _, _, hb⟩ hal
  rintro s op ⟨own, map, ml, L, hb⟩ hop
  obtain ⟨hres, hst, own', map', ml', L', hb', -⟩ := hb.step hf hop
  exact ⟨⟨⟨_, hres⟩, hst⟩, own', map', ml', L', hb'⟩

/-! ## Bounds -/

/-- The counters, whenever one of them changes, stay within the arrays. -/
def Event.Bounded : Event → Prop
  | .tables dlBlkcnt dlPgcnt garBlkcnt mtlBlkcnt => dlBlkcnt ≤ dlMaxBlocks ∧ dlPgcnt ≤ dlMaxPages ∧
      garBlkcnt ≤ garbageMaxCnt ∧ mtlBlkcnt ≤ mtMaxBlocks
  | _ => True

/-- The call makes no access outside an array (it would stop with a fault), and the counters stay bounded. -/
def StoreOp.Bounded (d : Device) (s : St) (op : StoreOp) : Prop :=
  (∃ r, (op.run d s).res = .ok r) ∧ ∀ e ∈ (op.run d s).log, e.Bounded

theorem Event.Lawful.bounded {e : Event} (h : e.Lawful) : e.Bounded := by
  cases e with
  | tables => exact h
  | program | erase | progFail | eraseFail | noFree => trivial

/-- In a run that always finds room no RAM table is overrun. -/
theorem tables_bounded (hf : d.Fits) (h : Formatted d n) (hq : Quiet d True (St.boot n))
    (hal : Along (StoreOp.run d) (StoreOp.Roomy d n.bad) ops (formatted d n)) :
    Along (StoreOp.run d) (StoreOp.Bounded d) ops (formatted d n) :=
  (Along.keeps (J := fun _ => True) (fun _ _ _ hop => ⟨⟨hop.1, fun e he => (hop.2.lawful e he).bounded⟩, trivial⟩) trivial
    (h.run hf hq hal).1).1

/-- The small chip finds room for a write, a remount and a read. -/
theorem roomy_small : Along (StoreOp.run smallChip) (StoreOp.Roomy smallChip erasedNand.bad)
    [.write 0 (fun _ => 1), .remount, .read 0] (formatted smallChip erasedNand) := by
  have hroom : HasRoom smallChip erasedNand.bad (formatted smallChip erasedNand) 0 := (first_write (by decide +kernel)).1
  have hrange : (0 : Nat) < smallChip.maxlp := by decide
  exact ⟨⟨by decide +kernel, hrange, hroom⟩, ⟨by decide +kernel, trivial⟩, ⟨by decide +kernel, hrange⟩, trivial⟩

theorem tables_bounded_small : Along (StoreOp.run smallChip) (StoreOp.Bounded smallChip)
    [.write 0 (fun _ => 1), .remount, .read 0] (formatted smallChip erasedNand) :=
  tables_bounded smallChip_fits formatted_small (smallChip_quiet _) roomy_small

/-- 128 first writes fill `dl_blocktab`, and the next one accesses the entry behind it. -/
theorem table_overrun : Formatted tallChip erasedNand ∧
    Along (StoreOp.run tallChip) (StoreOp.Succeeds tallChip) (pile tallChip ffData 0 128) (formatted tallChip erasedNand) ∧
    ¬ (StoreOp.write (128 * 2) ffData).Bounded tallChip
      (after (StoreOp.run tallChip) (pile tallChip ffData 0 128) (formatted tallChip erasedNand)) := by
  obtain ⟨hform, hal, s, hs, hres, -⟩ := pile_overruns ffData tallChip_ample (n := erasedNand) (by decide +kernel)
    (fun _ _ _ _ => rfl) rfl (by decide)
  refine ⟨hform, hal, fun hb => ?_⟩
  obtain ⟨r, hr⟩ := hb.1
  have hr : (StoreOp.run tallChip (.write (128 * tallChip.pgs) ffData) _).res = .ok r := hr
  rw [← hs, hres] at hr
  simp at hr

/-! ## Roles -/

/-- What the tables say a block is used for, with the logical block, or the index of the table entry. -/
inductive BlockUse where
  | free
  | data (lba : Nat)
  | dataLog (index : Nat)
  | mapTab (index : Nat)
  | mtLog (index : Nat)
  | garbageTab
  | garbage (index : Nat)
deriving DecidableEq, Repr

/-- The map entry of a logical block, on the flash: the word of its map page. -/
def mapAt (d : Device) (s : St) (lba : Nat) : Except Fault Nat :=
  (nftlGetPhysicalMt d (lba / d.words) s).res.map fun a => word (s.nand.read a.1 a.2).data (lba % d.words)

/-- Block `b` is in the table (or list) of the use, at its index. -/
def UsedFor (d : Device) (s : St) (b : Nat) : BlockUse → Prop
  | .free => s.al.blockstatus b = true
  | .data lba => lba < d.blks ∧ mapAt d s lba = .ok b
  | .dataLog i => i < s.dl.blkcnt ∧ (s.dl.blocktab i).pba = b
  | .mapTab k => k < d.mtBlkcnt ∧ s.mt.mtPbas k = b
  | .mtLog i => i < s.mt.mtl.blkcnt ∧ (s.mt.mtl.blocktab i).pba = b
  | .garbageTab => s.al.gtPba = b
  | .garbage i => s.al.gar[i]? = some b

theorem findMtpg_eq (hr : Rep mtlCap s.mt.mtl ml) (hnd : (ml.map Log.key).Nodup) (p : Nat) :
    nftlFindMtpgInMtl d p s = ⟨.ok (lookupIn ml (p / d.pgs) p), s, []⟩ := by
  have hres := findMtpg_res (d := d) hr hnd p
  show (⟨(nftlFindMtpgInMtl d p s).res, s, []⟩ : Out Fault St Event _) = _
  rw [hres]

theorem getPhysicalMt_res (hr : Rep mtlCap s.mt.mtl ml) (hnd : (ml.map Log.key).Nodup) {p : Nat} (hp : p / d.pgs < mtMaxBlocks) :
    (nftlGetPhysicalMt d p s).res = .ok (mtLoc d s.mt.mtPbas ml p) := by
  have hfind := findMtpg_eq (d := d) hr hnd p
  unfold nftlGetPhysicalMt mtLoc
  rw [Prog.bind_ok _ _ hfind]
  cases lookupIn ml (p / d.pgs) p with
  | some a => rfl
  | none =>
    have hpba : mtPbaAt (p / d.pgs) s = ⟨.ok (s.mt.mtPbas (p / d.pgs)), s, []⟩ := by
      unfold mtPbaAt
      rw [Prog.bind_ok Prog.get _ (show Prog.get s = ⟨.ok s, s, []⟩ from rfl), if_pos hp]
      rfl
    simp only
    rw [Prog.bind_ok _ _ hpba]
    rfl

theorem Core.mapAt (hf : d.Fits) (h : Core d own map ml s) {lba : Nat} (hlba : lba < d.blks) :
    mapAt d s lba = .ok (map lba) := by
  have hidx : lba / d.words / d.pgs < mtMaxBlocks := (d.mtIndex_lt (d.mtPage_lt hlba)).trans hf.map_lt
  rw [Nftl.mapAt, getPhysicalMt_res h.rep h.inv.logs.nodup hidx, ← h.inv.entry lba hlba]
  rfl

theorem Rep.blockAt_getElem {c : LogCap} {t : LogTab} (h : Rep c t L) {i : Nat} (hi : i < L.length) :
    t.blocktab i = L[i].block := by
  rw [h.blocks, List.getD_eq_getElem?_getD, List.getElem?_map, List.getElem?_eq_getElem hi]
  rfl

theorem Rep.index_eq {c : LogCap} {t : LogTab} (h : Rep c t L) (hnd : (L.map Log.key).Nodup) {i j : Nat} (hi : i < t.blkcnt)
    (hj : j < t.blkcnt) (hk : (t.blocktab i).key = (t.blocktab j).key) : i = j := by
  rw [h.blkcnt] at hi hj
  rw [h.blockAt_getElem hi, h.blockAt_getElem hj] at hk
  have hi' : i < (L.map Log.key).length := by rwa [List.length_map]
  have hj' : j < (L.map Log.key).length := by rwa [List.length_map]
  have hkeys : (L.map Log.key)[i] = (L.map Log.key)[j] := by
    rw [List.getElem_map, List.getElem_map]
    exact hk
  exact hnd.getElem_inj_iff.mp hkeys

/-- The owner of a block in this use. -/
def BlockUse.role (s : St) : BlockUse → Role
  | .data lba => .data lba
  | .dataLog i => .dl (s.dl.blocktab i).key
  | .mapTab k => .mt k
  | .mtLog i => .mtl (s.mt.mtl.blocktab i).key
  | .free => .pool
  | .garbageTab => .pool
  | .garbage _ => .pool

/-- A block in use has the owner of its use, also while another block is outside the tables. -/
theorem own_of_used (hf : d.Fits) (hc : Core d own map ml s) (hl : Logs d .dl DlTag own s.nand.flash L) (hr : Rep dlCap s.dl L)
    (hd : DataInv d own map s.nand.flash) {b : Nat} (hb : b < d.blks) {u : BlockUse} (hu : UsedFor d s b u) : own b = u.role s := by
  have hno := d.blks_lt_noBlock
  have hpool := hc.alloc.pool
  cases u with
  | free => exact hpool.own_free hu
  | data lba =>
    obtain ⟨hlba, hmap⟩ := hu
    rw [hc.mapAt hf hlba, Except.ok.injEq] at hmap
    rw [← hmap]
    exact hd.owned lba hlba (by omega)
  | dataLog i =>
    obtain ⟨hi, rfl⟩ := hu
    rw [hr.blkcnt] at hi
    rw [BlockUse.role, hr.blockAt_getElem hi]
    exact hl.owned _ (List.getElem_mem hi)
  | mapTab k =>
    obtain ⟨hk, rfl⟩ := hu
    exact hc.inv.own_mt k hk
  | mtLog i =>
    obtain ⟨hi, rfl⟩ := hu
    rw [hc.rep.blkcnt] at hi
    rw [BlockUse.role, hc.rep.blockAt_getElem hi]
    exact hc.inv.logs.owned _ (List.getElem_mem hi)
  | garbageTab => exact (hpool.mem b).mpr ⟨hb, Or.inr (Or.inr (Eq.symm hu))⟩
  | garbage i => exact (hpool.mem b).mpr ⟨hb, Or.inr (Or.inl (List.mem_of_getElem? hu))⟩

theorem Ftl.own_of_used (hf : d.Fits) (h : Ftl d bd own map ml L s) {b : Nat} (hb : b < d.blks) {u : BlockUse}
    (hu : UsedFor d s b u) : own b = u.role s :=
  Nftl.own_of_used hf h.core h.logs h.rep h.data hb hu

/-- A stranded block has no use. -/
theorem Stranded.not_used (hf : d.Fits) {b : Nat} (h : Stranded d own map ml L b s) (u : BlockUse) : ¬ UsedFor d s b u := by
  intro hu
  have hrole := own_of_used hf h.core h.logs h.rep h.data h.lt hu
  rw [h.temp] at hrole
  cases u <;> simp [BlockUse.role] at hrole

theorem Ftl.used (hf : d.Fits) (h : Ftl d bd own map ml L s) {b : Nat} (hb : b < d.blks) (hbd : bd b = false) :
    ∃ u, UsedFor d s b u := by
  cases ho : own b with
  | pool =>
    obtain ⟨-, hp | hp | hp⟩ := (h.core.alloc.pool.mem b).mp ho
    · exact ⟨.free, hp⟩
    · obtain ⟨i, hi⟩ := List.mem_iff_getElem?.mp hp
      exact ⟨.garbage i, hi⟩
    · exact ⟨.garbageTab, hp.symm⟩
  | bad => rw [(h.bad b hb).mp ho] at hbd; simp at hbd
  | data lba =>
    obtain ⟨-, hlba, hm⟩ := h.data.mem b lba ho
    exact ⟨.data lba, hlba, by rw [h.core.mapAt hf hlba, hm]⟩
  | dl k =>
    obtain ⟨lg, hlg, -, hp⟩ := h.logs.mem b k ho
    obtain ⟨i, hi, he⟩ := List.mem_iff_getElem.mp hlg
    exact ⟨.dataLog i, by rw [h.rep.blkcnt]; exact hi, by rw [h.rep.blockAt_getElem hi, he]; exact hp⟩
  | mt k => exact ⟨.mapTab k, h.core.inv.mem_mt b k ho⟩
  | mtl k =>
    obtain ⟨lg, hlg, -, hp⟩ := h.core.inv.logs.mem b k ho
    obtain ⟨i, hi, he⟩ := List.mem_iff_getElem.mp hlg
    exact ⟨.mtLog i, by rw [h.core.rep.blkcnt]; exact hi, by rw [h.core.rep.blockAt_getElem hi, he]; exact hp⟩
  | temp => exact absurd ho (h.noTemp b)

/-- No block is used twice. -/
theorem Ftl.used_unique (hf : d.Fits) (h : Ftl d bd own map ml L s) {b : Nat} (hb : b < d.blks) {u v : BlockUse}
    (hu : UsedFor d s b u) (hv : UsedFor d s b v) : u = v := by
  have hpool := h.core.alloc.pool
  have hrole : u.role s = v.role s := (h.own_of_used hf hb hu).symm.trans (h.own_of_used hf hb hv)
  have hgt : ∀ i, s.al.gar[i]? = some b → s.al.gtPba ≠ b := fun i hi e => hpool.gt_gar (e ▸ List.mem_of_getElem? hi)
  cases u <;> cases v <;> simp only [BlockUse.role, reduceCtorEq, Role.data.injEq, Role.dl.injEq, Role.mt.injEq,
    Role.mtl.injEq] at hrole
  case free.free => rfl
  case free.garbageTab => exact absurd (Eq.symm hv) (hpool.free_gt b hu)
  case free.garbage i => exact absurd (List.mem_of_getElem? hv) (hpool.free_gar b hu)
  case data.data => rw [hrole]
  case dataLog.dataLog => rw [h.rep.index_eq h.logs.nodup hu.1 hv.1 hrole]
  case mapTab.mapTab => rw [hrole]
  case mtLog.mtLog => rw [h.core.rep.index_eq h.core.inv.logs.nodup hu.1 hv.1 hrole]
  case garbageTab.free => exact absurd (Eq.symm hu) (hpool.free_gt b hv)
  case garbageTab.garbageTab => rfl
  case garbageTab.garbage i => exact absurd hu (hgt i hv)
  case garbage.free i => exact absurd (List.mem_of_getElem? hu) (hpool.free_gar b hv)
  case garbage.garbageTab i => exact absurd hv (hgt i hu)
  case garbage.garbage i j =>
    obtain ⟨hi, ei⟩ := List.getElem?_eq_some_iff.mp hu
    obtain ⟨hj, ej⟩ := List.getElem?_eq_some_iff.mp hv
    have he : s.al.gar[i] = s.al.gar[j] := ei.trans ej.symm
    rw [hpool.gar_nodup.getElem_inj_iff.mp he]

/-- In every state of a run that always finds room, every block that is not bad has exactly one use. -/
theorem one_use (hf : d.Fits) (h : Formatted d n) (hq : Quiet d True (St.boot n))
    (hal : Along (StoreOp.run d) (StoreOp.Roomy d n.bad) ops (formatted d n)) {b : Nat} (hb : b < d.blks) (hbd : n.bad b = false) :
    ∃! u, UsedFor d (after (StoreOp.run d) ops (formatted d n)) b u := by
  obtain ⟨-, own, map, ml, L, hbt⟩ := h.run hf hq hal
  obtain ⟨u, hu⟩ := hbt.ftl.used hf hb hbd
  exact ⟨u, hu, fun v hv => hbt.ftl.used_unique hf hb hv hu⟩

theorem one_use_small : ∃! u, UsedFor smallChip (after (StoreOp.run smallChip) [.write 0 (fun _ => 1), .remount, .read 0]
    (formatted smallChip erasedNand)) 3 u :=
  one_use smallChip_fits formatted_small (smallChip_quiet _) roomy_small (by decide) rfl

/-- The write that overruns `dl_blocktab` leaves the block it has programmed without a use. -/
theorem block_without_use : Formatted tallChip erasedNand ∧
    Along (StoreOp.run tallChip) (fun s op => (op.run tallChip s).log.all Event.ok = true)
      (pile tallChip ffData 0 128 ++ [.write (128 * 2) ffData]) (formatted tallChip erasedNand) ∧
    ∃ b, b < tallChip.blks ∧ erasedNand.bad b = false ∧ ∀ u, ¬ UsedFor tallChip
      (after (StoreOp.run tallChip) (pile tallChip ffData 0 128 ++ [.write (128 * 2) ffData]) (formatted tallChip erasedNand)) b u := by
  obtain ⟨hform, hal, s, hs, -, hok, own, map, ml, L, b, hlost⟩ := pile_overruns ffData tallChip_ample (n := erasedNand)
    (by decide +kernel) (fun _ _ _ _ => rfl) rfl (by decide)
  have hok : (StoreOp.run tallChip (.write (128 * 2) ffData) s).log.all Event.ok = true := hok
  have hlost : Stranded tallChip own map ml L b (StoreOp.run tallChip (.write (128 * 2) ffData) s).st := hlost
  refine ⟨hform, along_append.mpr ⟨hal.mono fun _ _ h => h.2, ?_, trivial⟩, b, hlost.lt, rfl, fun u => ?_⟩
  · rw [← hs]
    exact hok
  · rw [after_append, ← hs]
    exact hlost.not_used tallChip_ample.fits u

end Emlinux.Nftl
