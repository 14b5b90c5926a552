import Emlinux.Nftl.Moves
import Emlinux.Nftl.Tables

/-!
# NAND discipline of whole runs

From the first mount on, the program and erase operations of all calls form one log. In it the pages of a block are
programmed upwards, each at most once before the next erase of the block, as long as no MTLog block is moved under the
wrong index.
-/

namespace Emlinux.Nftl

open Lib

variable {d : Device} {n : Nand} {s : St} {fl : Flash} {l l₁ l₂ l₃ : List Event} {ops : List StoreOp} {b p q : Nat} {pg : Page}

/-! ## The order of program operations -/

/-- A program operation is to a page of the chip. -/
def Event.OnChip (d : Device) : Event → Prop
  | .program b p _ => b < d.blks ∧ p < d.pgs
  | _ => True

instance (d : Device) : DecidablePred (Event.OnChip d)
  | .program b p _ => inferInstanceAs (Decidable (b < d.blks ∧ p < d.pgs))
  | .erase _ | .progFail _ _ | .eraseFail _ | .noFree _ | .tables _ _ _ _ => isTrue trivial

/-- Of two program operations on a block without an erase between them, the later one is to a later page. -/
def Ascending (l : List Event) : Prop :=
  ∀ b p q pg pg' l₁ l₂ l₃, l = l₁ ++ .program b p pg :: (l₂ ++ .program b q pg' :: l₃) → .erase b ∉ l₂ → p < q

theorem Disciplined.onChip (h : Disciplined d fl l) : ∀ e ∈ l, e.OnChip d := by
  induction l generalizing fl with
  | nil => simp
  | cons e l ih =>
    intro x hx
    rcases List.mem_cons.mp hx with rfl | hx
    · cases x with
      | program b p pg => exact ⟨h.1.1, h.1.2.1⟩
      | erase | progFail | eraseFail | noFree | tables => trivial
    · exact ih h.2 x hx

theorem apply_program (hp : p < d.pgs) : Event.apply d fl (.program b p pg) = setPage fl b p pg := by
  rw [Event.apply, phys_of_lt hp]
  rfl

/-- A programmed page stays programmed until its block is erased. -/
theorem Disciplined.stays (h : Disciplined d fl l) (hno : .erase b ∉ l) (hp : fl b p ≠ none) : replay d fl l b p ≠ none := by
  induction l generalizing fl with
  | nil => exact hp
  | cons e l ih =>
    apply ih h.2 (fun hx => hno (List.mem_cons_of_mem _ hx))
    cases e with
    | program x y pg =>
      rw [apply_program h.1.2.1]
      by_cases hxy : b = x ∧ p = y
      · obtain ⟨rfl, rfl⟩ := hxy
        rw [setPage_self]
        exact Option.some_ne_none _
      · rw [setPage_eq _ _ fun hx hy => hxy ⟨hx, hy⟩]
        exact hp
    | erase x =>
      have hx : b ≠ x := fun hx => hno (by simp [hx])
      rw [Event.apply, Function.update_of_ne hx]
      exact hp
    | progFail | eraseFail | noFree | tables => exact hp

theorem Disciplined.ascending (h : Disciplined d fl l) : Ascending l := by
  rintro b p q pg pg' l₁ l₂ l₃ rfl hno
  obtain ⟨-, ⟨-, hp, -⟩, hrest⟩ := (disciplined_append _ _ _ _).mp h
  obtain ⟨hmid, ⟨-, -, herased⟩, -⟩ := (disciplined_append _ _ _ _).mp hrest
  by_contra hlt
  apply hmid.stays hno (p := p) _ (herased p (by omega) hp)
  rw [apply_program hp, setPage_self]
  exact Option.some_ne_none _

/-! ## Runs -/

/-- The log of the first mount and of the calls after it. -/
def wholeLog (d : Device) (n : Nand) (ops : List StoreOp) : List Event :=
  (nftlMount d (St.boot n)).log ++ trace (StoreOp.run d) ops (formatted d n)

/-- In a run that always finds room, program operations go to pages of the chip, and upwards in each block. -/
theorem programs_ascend (hf : d.Fits) (h : Formatted d n) (hq : Quiet d True (St.boot n))
    (hal : Along (StoreOp.run d) (StoreOp.Roomy d n.bad) ops (formatted d n)) :
    (∀ e ∈ wholeLog d n ops, e.OnChip d) ∧ Ascending (wholeLog d n ops) := by
  have hmount : (contract d True).step (St.boot n) (nftlMount d (St.boot n)).log (formatted d n) :=
    (h.mounted hf).1
  have hcalls : (contract d True).step (formatted d n) (trace (StoreOp.run d) ops (formatted d n)) _ :=
    Along.lawful ((h.run hf hq hal).1.mono fun _ _ hop => hop.2)
  have hdisc : Disciplined d n.flash (wholeLog d n ops) := ((contract d True).step_append hmount hcalls).disc
  exact ⟨hdisc.onChip, hdisc.ascending⟩

theorem programs_ascend_small : (∀ e ∈ wholeLog smallChip erasedNand [.write 0 (fun _ => 1), .remount, .read 0],
    e.OnChip smallChip) ∧ Ascending (wholeLog smallChip erasedNand [.write 0 (fun _ => 1), .remount, .read 0]) :=
  programs_ascend smallChip_fits formatted_small (smallChip_quiet _) roomy_small

/-! ## A mount, evaluated -/

/-- The state after reads that correct nothing: `m` calls later. -/
def St.ticked (s : St) (m : Nat) : St := { s with nand := { s.nand with tick := s.nand.tick + m } }

/-- The first `i` blocks are free. -/
def St.freed (s : St) (i : Nat) : St := { s with al := { s.al with blockstatus := fun b => decide (b < i), freeBlkcnt := i } }

/-- The next `m` reads correct nothing. -/
structure Still (d : Device) (m : Nat) (s : St) : Prop where
  ecc : s.nand.ecc = 0
  corrected : ∀ t, s.nand.tick ≤ t → t < s.nand.tick + m → d.corrected t = 0

theorem Still.ticked {m : Nat} (h : Still d (m + 1) s) : Still d m (s.ticked 1) := by
  refine ⟨h.ecc, fun t hle hlt => ?_⟩
  have hle : s.nand.tick + 1 ≤ t := hle
  have hlt : t < s.nand.tick + 1 + m := hlt
  exact h.corrected t (by omega) (by omega)

theorem mtdRead_still {m : Nat} (h : Still d (m + 1) s) (hb : b < d.blks) :
    mtdRead d b 0 s = ⟨.ok (some (pageAt s.nand.flash b 0)), s.ticked 1, []⟩ := by
  have hecc : d.corrected s.nand.tick = s.nand.ecc := by rw [h.corrected _ (le_refl _) (by omega), h.ecc]
  simp only [mtdRead, phys_of_lt d.pgs_pos, if_pos hb, hecc]
  rfl

theorem scanType_still {m : Nat} (h : Still d (m + 1) s) (hb : b < d.blks) (hty : typeAt s.nand.flash b ≠ .garbageTab)
    (types : Nat → BlockState) :
    scanType d b types s = ⟨.ok (.next (Function.update types b (typeAt s.nand.flash b))), s.ticked 1, []⟩ := by
  have hgt : ¬ ((pageAt s.nand.flash b 0).spare.blocktype = .garbageTab ∧ (s.ticked 1).nand.bad b = false ∧
      (pageAt s.nand.flash b 0).spare.tabindx < gtMaxBlocks) := fun h => hty h.1
  unfold scanType
  rw [Prog.bind_ok _ _ (mtdRead_still h hb)]
  simp only
  rw [Prog.get_bind]
  simp only [if_neg hgt]
  rfl

/-- Without a GarbageTab block the first loop finds the types and nothing else. -/
theorem scanTypes_still (m lo : Nat) (types : Nat → BlockState) (h : Still d m s) (hm : lo + m ≤ d.blks)
    (hty : ∀ b, b < d.blks → typeAt s.nand.flash b ≠ .garbageTab) :
    Prog.loop (scanType d) m lo types s
      = ⟨.ok (.next fun b => if lo ≤ b ∧ b < lo + m then typeAt s.nand.flash b else types b), s.ticked m, []⟩ := by
  induction m generalizing lo types s with
  | zero =>
    have htypes : (fun b => if lo ≤ b ∧ b < lo + 0 then typeAt s.nand.flash b else types b) = types := by
      funext b
      exact if_neg (by omega)
    rw [htypes]
    rfl
  | succ m ih =>
    have htypes : (fun b => if lo + 1 ≤ b ∧ b < lo + 1 + m then typeAt (s.ticked 1).nand.flash b
        else Function.update types lo (typeAt s.nand.flash lo) b)
        = fun b => if lo ≤ b ∧ b < lo + (m + 1) then typeAt s.nand.flash b else types b := by
      funext b
      by_cases hb : b = lo
      · subst hb
        rw [Function.update_self, if_neg (by omega), if_pos (by omega)]
      · rw [Function.update_of_ne hb]
        exact if_congr (by omega) rfl rfl
    have hticks : (s.ticked 1).ticked m = s.ticked (m + 1) := by
      simp only [St.ticked, Nat.add_assoc, Nat.add_comm 1 m]
    rw [Prog.loop, Prog.bind_ok _ _ (scanType_still h (by omega) (hty lo (by omega)) types)]
    show (⟨(Prog.loop (scanType d) m (lo + 1) _ _).res, (Prog.loop (scanType d) m (lo + 1) _ _).st,
      [] ++ (Prog.loop (scanType d) m (lo + 1) _ _).log⟩ : Out Fault St Event _) = _
    rw [ih (lo + 1) _ h.ticked (by omega) hty, htypes, hticks]
    rfl

/-- A mount that finds no GarbageTab block, up to its second loop. -/
def mountRoles (d : Device) (types : Nat → BlockState) : M Int := do
  match ← Prog.loop (scanBlock d types) d.blks 0 () with
  | .brk ret => pure ret
  | .next _ => mountEnd d

theorem mount_still (hf : d.Fits) (h : Still d d.blks (St.boot n)) (hty : ∀ b, b < d.blks → typeAt n.flash b ≠ .garbageTab) :
    nftlMount d (St.boot n) = mountRoles d (fun b => if 0 ≤ b ∧ b < 0 + d.blks then typeAt n.flash b else .badBlock)
      ((St.mounting d n).ticked d.blks) := by
  have h6 := hf.map_lt
  have hinit : mountInit d (St.boot n) = ⟨.ok (), St.mounting d n, []⟩ := by
    unfold mountInit
    rw [if_neg (by omega)]
    rfl
  have htypes := scanTypes_still d.blks 0 (fun _ => .badBlock) (show Still d d.blks (St.mounting d n) from ⟨h.ecc, h.corrected⟩) (by omega) hty
  unfold nftlMount
  rw [Prog.bind_ok _ _ hinit, Prog.bind_ok _ _ htypes]
  simp only
  rw [Prog.get_bind, if_neg (by exact not_not.mpr rfl), Prog.pure_bind, if_neg (by decide)]
  rfl

/-- The second loop counts them. -/
theorem scanBlocks_blank {types : Nat → BlockState} (htypes : ∀ b, b < d.blks → types b = .free) (hbad : ∀ b, s.nand.bad b = false)
    (m lo : Nat) (hm : lo + m ≤ d.blks) :
    Prog.loop (scanBlock d types) m lo () (s.freed lo) = ⟨.ok (.next ()), s.freed (lo + m), []⟩ := by
  induction m generalizing lo with
  | zero => rfl
  | succ m ih =>
    have hle := d.blks_le
    have hbs : (s.freed lo).al.blockstatus lo = false := decide_eq_false (lt_irrefl lo)
    have hbody : scanBlock d types lo () (s.freed lo) = ⟨.ok (.next ()), s.freed (lo + 1), []⟩ := by
      have hstatus : Function.update (s.freed lo).al.blockstatus lo true = (s.freed (lo + 1)).al.blockstatus := by
        funext b
        by_cases hb : b = lo
        · rw [hb, Function.update_self]
          exact (decide_eq_true (Nat.lt_succ_self lo)).symm
        · rw [Function.update_of_ne hb]
          exact decide_eq_decide.mpr (by omega)
      have hcount : ((s.freed lo).al.freeBlkcnt + 1) % 65536 = lo + 1 :=
        Nat.mod_eq_of_lt (show lo + 1 < 65536 by omega)
      have hfree : nftlSetBlockFree d lo (s.freed lo) = ⟨.ok 0, s.freed (lo + 1), []⟩ := by
        unfold nftlSetBlockFree
        rw [Prog.get_bind, if_neg (by omega), if_neg (by rw [hbs]; exact Bool.false_ne_true), Prog.modify_bind, hstatus, hcount]
        rfl
      unfold scanBlock
      rw [Prog.get_bind, if_neg (by rw [htypes lo (by omega)]; simp [St.freed, hbad]), htypes lo (by omega)]
      simp only
      rw [Prog.bind_ok _ _ hfree]
      rfl
    rw [Prog.loop, Prog.bind_ok _ _ hbody]
    show (⟨(Prog.loop (scanBlock d types) m (lo + 1) _ _).res, (Prog.loop (scanBlock d types) m (lo + 1) _ _).st,
      [] ++ (Prog.loop (scanBlock d types) m (lo + 1) _ _).log⟩ : Out Fault St Event _) = _
    rw [ih (lo + 1) (by omega), Nat.add_right_comm lo 1 m, Nat.add_assoc]
    rfl

/-- The mount of a blank chip finds all blocks free. -/
theorem mount_blank (hf : d.Fits) (hn : ∀ b p, n.flash b p = none) (hbad : ∀ b, n.bad b = false) (hecc : n.ecc = 0)
    (hc : ∀ t, n.tick ≤ t → t < n.tick + d.blks → d.corrected t = 0) :
    nftlMount d (St.boot n) = mountEnd d (((St.mounting d n).ticked d.blks).freed d.blks) := by
  have hty : ∀ b, typeAt n.flash b = .free := fun b => by
    rw [typeAt, pageAt, hn]
    rfl
  have hfree : ∀ b, b < d.blks → (if 0 ≤ b ∧ b < 0 + d.blks then typeAt n.flash b else .badBlock) = .free :=
    fun b hb => (if_pos (by omega)).trans (hty b)
  have hroles := scanBlocks_blank (d := d) (s := (St.mounting d n).ticked d.blks) hfree hbad d.blks 0 (by omega)
  have hfreed : ((St.mounting d n).ticked d.blks).freed 0 = (St.mounting d n).ticked d.blks := by
    have hnone : (fun b => decide (b < 0)) = fun _ => false := by
      funext b
      exact decide_eq_false (Nat.not_lt_zero b)
    rw [St.freed, hnone]
    rfl
  rw [hfreed] at hroles
  rw [mount_still hf ⟨hecc, hc⟩ fun b _ => by rw [hty b]; decide, mountRoles, Prog.bind_ok _ _ hroles, Nat.zero_add]
  rfl

/-! ## A move under the wrong index -/

/-- The wide chip, whose 524th access corrects three bits. -/
def lateChip : Device := { wideChip with corrected := fun t => if t = 523 then 3 else 0 }

theorem lateChip_fits : lateChip.Fits := ⟨by decide, by decide⟩

/-- Both pages of logical block 512 are written, map page 0 is read into the cache, and page 1024 is read. -/
def lateOps : List StoreOp := [.write 1024 (fun _ => 1), .write 1025 (fun _ => 2), .read 0, .read 1024]

theorem late_mount : nftlMount lateChip (St.boot erasedNand)
    = mountEnd lateChip (((St.mounting lateChip erasedNand).ticked 513).freed 513) :=
  mount_blank lateChip_fits (fun _ _ => rfl) (fun _ => rfl) rfl fun t _ ht => if_neg (by have ht : t < 0 + 513 := ht; omega)

theorem late_formatted : Formatted lateChip erasedNand := by
  refine ⟨fun _ _ _ _ => rfl, ?_, ?_⟩
  · rw [late_mount]
    decide +kernel
  · rw [late_mount]
    decide +kernel

/-- No operation of the run fails. -/
theorem late_ok : Along (StoreOp.run lateChip) (fun s op => (op.run lateChip s).log.all Event.ok = true) lateOps
    (formatted lateChip erasedNand) := by
  rw [formatted, late_mount]
  exact ⟨by decide +kernel, by decide +kernel, by decide +kernel, by decide +kernel, trivial⟩

/-- The read finds its map page in the MTLog block of MapTab block 1 and moves that block; with the wrong index, the copy
does not end with the block. -/
theorem move_leaves_block : Formatted lateChip erasedNand ∧
    Along (StoreOp.run lateChip) (fun s op => (op.run lateChip s).log.all Event.ok = true) lateOps (formatted lateChip erasedNand) ∧
    ¬ ((∀ e ∈ wholeLog lateChip erasedNand lateOps, e.OnChip lateChip) ∧ Ascending (wholeLog lateChip erasedNand lateOps)) := by
  have hoff : ¬ ∀ e ∈ wholeLog lateChip erasedNand lateOps, e.OnChip lateChip := by
    rw [wholeLog, formatted, late_mount]
    decide +kernel
  exact ⟨late_formatted, late_ok, fun h => hoff h.1⟩

end Emlinux.Nftl
