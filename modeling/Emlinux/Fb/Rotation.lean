import Emlinux.Fb.Driver
import Emlinux.Lib.Run

/-!
# The rotation in the driver and in the controller

The rotation of the display is in `sslfb.effect` and in the effect register, and the address of each window is programmed for it. It changes
through the mode of the main window and through `SSLFBIOSET_EFF`; that command programs all windows again, after the register.
`sslfb_set_par` programs the main window before the register and no other window, and `sslfb_check_var` changes `sslfb.effect` alone.

* `Sslfb.step`: a call of the driver, on any of the windows.
* `Follows`: the effect register holds `sslfb.effect`, and each window starts where the rotation in the register puts it.
* `Follows.step_iff`: the calls that keep this, by the rotation that they bring.
* `follows_iff`: the runs in which it always holds. `turned_by_mode_stale` is a mode of 90 degrees.
-/

namespace Emlinux.Fb

open Lib

variable (behind : Nat → BitVec 8)

/-! ## Calls -/

inductive Call where
  | checkVar (wid : Fin 3) (var : Var)
  | setPar (wid : Fin 3) (var : Var)
  | pan (wid : Fin 3) (var : Var)
  | setWin (wid : Fin 3) (win : SslfbWin)
  | setEff (wid : Fin 3) (arg : Word)

/-- A mode with one of the four rotations and at least 8 bits per pixel. -/
def Var.Legal (var : Var) : Prop := var.rotate.toNat ≤ 3 ∧ 8 ≤ var.bitsPerPixel.toNat

instance (var : Var) : Decidable var.Legal := inferInstanceAs (Decidable (_ ∧ _))

/-- The driver after a call. -/
def Sslfb.step (s : Sslfb) : Call → Option Sslfb
  | .checkVar wid var => if var.Legal then some (checkVar s wid var).2 else none
  | .setPar wid var => if var.Legal then some (setPar behind s wid var).2 else none
  | .pan wid var => some (panDisplay behind s wid var)
  | .setWin wid win => some (setWin behind s wid win).2
  | .setEff wid arg => some (setEff behind s wid arg).2

/-- The address register of a window holds its address, adjusted for the rotation in the effect register. -/
def Placed (s : Sslfb) (w : Fin 3) : Prop :=
  (s.regs.win w).addr = (s.info w).par.cfg.addr + adjustment (s.info w).par.cfg (getRot s.regs.effect).toNat

/-- The effect register holds `sslfb.effect`, and the windows are placed. -/
structure Follows (s : Sslfb) : Prop where
  effect : s.regs.effect = effectWord s.ver s.effect
  placed : ∀ w, Placed s w

/-- The configuration of a window, when the main one gets the mode `var`. -/
def Sslfb.cfgBy (s : Sslfb) (var : Var) (w : Fin 3) : Flt :=
  if w = 0 then (parBy s 0 var).cfg else (s.info w).par.cfg

/-- A mode is tested for the main window with the rotation it has, and set with one that displaces no window from where it is. -/
def Keeps (s : Sslfb) : Call → Prop
  | .checkVar wid var => wid = 0 → var.rotate = getRot s.effect
  | .setPar wid var => wid = 0 → ∀ w,
      adjustment (s.cfgBy var w) (getRot s.effect).toNat = adjustment (s.cfgBy var w) var.rotate.toNat
  | _ => True

instance (s : Sslfb) : ∀ a, Decidable (Keeps s a)
  | .checkVar wid var => inferInstanceAs (Decidable (wid = 0 → var.rotate = getRot s.effect))
  | .setPar wid var => inferInstanceAs (Decidable (wid = 0 → ∀ w,
      adjustment (s.cfgBy var w) (getRot s.effect).toNat = adjustment (s.cfgBy var w) var.rotate.toNat))
  | .pan _ _ | .setWin _ _ | .setEff _ _ => inferInstanceAs (Decidable True)

/-! ## Steps -/

section Steps

variable {behind} {s t : Sslfb} {wid : Fin 3}

/-- The effects with a rotation are written as the effects were, when it is theirs. -/
theorem effectWord_replaced (ver : BitVec 16) {e r : Word} (h : r.toNat ≤ 3) :
    effectWord ver e = effectWord ver (e &&& ~~~3#32 ||| r) ↔ r = getRot e := by
  constructor
  · intro heq
    have hrot := congrArg getRot heq
    rw [getRot_effectWord, getRot_effectWord, getRot_replaced h] at hrot
    exact hrot.symm
  · intro heq
    rw [heq, replaced_getRot]

theorem lcdcWinCfg_placed (behind : Nat → BitVec 8) (r : Lcdcr) (id : Fin 3) (c : Flt) :
    ((lcdcWinCfg behind r id c).win id).addr = c.addr + adjustment c (getRot r.effect).toNat := by
  rw [(lcdcWinCfg_same _ _ _ _).1, rotOffset_eq]

theorem placed_put (behind : Nat → BitVec 8) (s : Sslfb) (wid : Fin 3) (info : Info) : Placed (s.put behind wid info) wid := by
  rw [Placed, put_same]
  dsimp only [Sslfb.put]
  rw [lcdcWinCfg_effect]
  exact lcdcWinCfg_placed ..

theorem placed_put_other {w : Fin 3} (hw : w ≠ wid) (info : Info) : Placed (s.put behind wid info) w ↔ Placed s w := by
  have heff : (s.put behind wid info).regs.effect = s.regs.effect := lcdcWinCfg_effect ..
  rw [Placed, (put_other _ _ hw info).1, (put_other _ _ hw info).2, heff]
  rfl

/-- A window that is put in place is placed, and the others are as before. -/
theorem Follows.put (h : Follows s) (info : Info) : Follows (s.put behind wid info) := by
  refine ⟨(lcdcWinCfg_effect ..).trans h.effect, fun w => ?_⟩
  by_cases hw : w = wid
  · subst hw
    exact placed_put ..
  · exact (placed_put_other hw info).mpr (h.placed w)

/-- The rotation that the windows are placed for. -/
theorem Follows.rot (h : Follows s) : getRot s.regs.effect = getRot s.effect := by rw [h.effect, getRot_effectWord]

theorem Follows.checkVar_iff (h : Follows s) {var : Var} (hv : var.Legal) :
    Follows (checkVar s wid var).2 ↔ Keeps s (.checkVar wid var) := by
  by_cases hw : wid = 0
  · subst hw
    have heff : s.regs.effect = effectWord s.ver (s.effect &&& ~~~3#32 ||| var.rotate) ↔ var.rotate = getRot s.effect := by
      rw [h.effect]
      exact effectWord_replaced s.ver hv.1
    constructor
    · exact fun ht _ => heff.mp ht.effect
    · exact fun hk => ⟨heff.mpr (hk rfl), h.placed⟩
  · have hsame : (checkVar s wid var).2 = s := by
      simp only [checkVar, varToPar, if_neg hw]
    rw [hsame]
    exact iff_of_true h fun h0 => absurd h0 hw

/-- The main window gets a mode: where each window is for the old rotation is where it has to be for the new one. -/
theorem Follows.setMain_iff (h : Follows s) {var : Var} (hv : var.Legal) :
    Follows (setPar behind s 0 var).2 ↔ Keeps s (.setPar 0 var) := by
  obtain ⟨hinfo, hwin⟩ := setPar_windows behind s 0 var
  have hnew : getRot (setPar behind s 0 var).2.regs.effect = var.rotate :=
    (getRot_effectWord ..).trans (getRot_replaced hv.1)
  have hcfg : ∀ w, ((setPar behind s 0 var).2.info w).par.cfg = s.cfgBy var w := by
    intro w
    rw [hinfo, Sslfb.cfgBy, Function.update_apply]
    split_ifs <;> rfl
  have haddr : ∀ w, ((setPar behind s 0 var).2.regs.win w).addr =
      (s.cfgBy var w).addr + adjustment (s.cfgBy var w) (getRot s.effect).toNat := by
    intro w
    rw [hwin, Sslfb.cfgBy, ← h.rot]
    split_ifs with hw
    · subst hw
      exact lcdcWinCfg_placed ..
    · rw [lcdcWinCfg_other _ _ _ hw]
      exact h.placed w
  have hplaced : ∀ w, Placed (setPar behind s 0 var).2 w ↔
      adjustment (s.cfgBy var w) (getRot s.effect).toNat = adjustment (s.cfgBy var w) var.rotate.toNat := by
    intro w
    rw [Placed, haddr, hcfg, hnew]
    exact add_right_inj _
  constructor
  · exact fun ht _ w => (hplaced w).mp (ht.placed w)
  · exact fun hk => ⟨rfl, fun w => (hplaced w).mpr (hk rfl w)⟩

theorem Follows.setPar_iff (h : Follows s) {var : Var} (hv : var.Legal) :
    Follows (setPar behind s wid var).2 ↔ Keeps s (.setPar wid var) := by
  by_cases hw : wid = 0
  · subst hw
    exact h.setMain_iff hv
  · have hsame : (setPar behind s wid var).2 = s.put behind wid ((s.info wid).setMode (parBy s wid var) var) := by
      simp only [setPar, varToPar, parBy, if_neg hw, ne_eq, not_true_eq_false, if_false]
    rw [hsame]
    exact iff_of_true (h.put _) fun h0 => absurd h0 hw

theorem Follows.setWin (h : Follows s) (win : SslfbWin) : Follows (setWin behind s wid win).2 := by
  unfold Fb.setWin
  split_ifs
  · exact h
  · exact h.put _

theorem recfg_effect (behind : Nat → BitVec 8) (s : Sslfb) : (recfg behind s).regs.effect = s.regs.effect := by
  simp only [recfg, List.foldl_cons, List.foldl_nil, lcdcWinCfg_effect]

/-- All windows are placed after they are configured again. -/
theorem placed_recfg (behind : Nat → BitVec 8) (s : Sslfb) (w : Fin 3) : Placed (recfg behind s) w := by
  have hmem : w ∈ [0, 1, 2] := by
    revert w
    decide
  refine foldl_each (f := fun r wid => lcdcWinCfg behind r wid (s.info wid).par.cfg) (P := fun r w => (r.win w).addr =
    (s.info w).par.cfg.addr + adjustment (s.info w).par.cfg (getRot r.effect).toNat) ?_ ?_ s.regs [0, 1, 2] w hmem
  · intro r i
    rw [lcdcWinCfg_effect]
    exact lcdcWinCfg_placed ..
  · intro r i j hj hr
    rw [lcdcWinCfg_effect, lcdcWinCfg_other _ _ _ hj]
    exact hr

theorem Follows.setEff (h : Follows s) (arg : Word) : Follows (setEff behind s wid arg).2 := by
  unfold Fb.setEff
  split_ifs with hw ha
  · exact h
  · exact h
  · dsimp only
    split_ifs with hr
    · exact ⟨recfg_effect .., placed_recfg _ _⟩
    · have hsame : getRot s.effect = getRot arg := not_not.mp hr
      have hrot : getRot (effectWord s.ver arg) = getRot s.regs.effect := by rw [getRot_effectWord, ← hsame, h.rot]
      refine ⟨rfl, fun w => ?_⟩
      show (s.regs.win w).addr = _ + adjustment _ (getRot (effectWord s.ver arg)).toNat
      rw [hrot]
      exact h.placed w

/-- From a state in which the registers follow, exactly the calls with `Keeps` lead to one. -/
theorem Follows.step_iff {a : Call} (h : Follows s) (ht : s.step behind a = some t) : Follows t ↔ Keeps s a := by
  cases a with
  | checkVar wid var =>
    simp only [Sslfb.step, Option.ite_none_right_eq_some, Option.some.injEq] at ht
    obtain ⟨hv, rfl⟩ := ht
    exact h.checkVar_iff hv
  | setPar wid var =>
    simp only [Sslfb.step, Option.ite_none_right_eq_some, Option.some.injEq] at ht
    obtain ⟨hv, rfl⟩ := ht
    exact h.setPar_iff hv
  | pan wid var =>
    cases ht
    exact iff_of_true (h.put _) trivial
  | setWin wid win =>
    cases ht
    exact iff_of_true (h.setWin win) trivial
  | setEff wid arg =>
    cases ht
    exact iff_of_true (h.setEff arg) trivial

end Steps

/-! ## Runs -/

section Runs

variable {s : Sslfb} {plt : Fin 3 → Plt} {dma : Fin 3 → Word}

theorem placed_probe (s : Sslfb) (wid : Fin 3) (plt : Plt) (dma : Word) : Placed (probe behind s wid plt dma) wid := placed_put ..

theorem placed_probe_other {wid w : Fin 3} (plt : Plt) (dma : Word) (hw : w ≠ wid) (h : Placed s w) :
    Placed (probe behind s wid plt dma) w := by
  obtain ⟨hinfo, hwin⟩ := probe_other s wid plt behind dma hw
  rw [Placed, hinfo, hwin, getRot_probe]
  exact h

/-- After the three windows were probed without effects, on a controller without any, the registers follow. -/
theorem Follows.probed (heff : (plt 0).effect = 0#8) (hreg : (lcdcInit s.regs).2.effect = effectWord (lcdcInit s.regs).1 0#32) :
    Follows (probed behind s plt dma) := by
  refine ⟨?_, fun w => ?_⟩
  · have hsame : (Fb.probed behind s plt dma).regs.effect = (lcdcInit s.regs).2.effect := by
      simp [Fb.probed, probe, Sslfb.attach, Sslfb.put]
    have hver : (Fb.probed behind s plt dma).ver = (lcdcInit s.regs).1 := by
      simp [Fb.probed, probe, Sslfb.attach, Sslfb.put]
    have he : (Fb.probed behind s plt dma).effect = (plt 0).effect.setWidth 32 := by
      simp [Fb.probed, probe, Sslfb.attach, Sslfb.put]
    rw [hsame, hreg, hver, he, heff]
    rfl
  · have hmem : w ∈ [0, 1, 2] := by
      revert w
      decide
    exact foldl_each (fun s w => placed_probe behind s w (plt w) (dma w))
      (fun s i j hj h => placed_probe_other behind (plt i) (dma i) hj h) s [0, 1, 2] w hmem

end Runs

/-- In the runs under any guard, after the windows were probed without effects, the registers always follow exactly when all modes of the main
window that are tested have the rotation of the display, and all that are set displace no window by theirs. -/
theorem follows_iff (s : Sslfb) (plt : Fin 3 → Plt) (dma : Fin 3 → Word) (ok : Sslfb → Call → Prop) (heff : (plt 0).effect = 0#8)
    (hreg : (lcdcInit s.regs).2.effect = effectWord (lcdcInit s.regs).1 0#32) :
    (∀ t, Run (Sslfb.step behind) ok (probed behind s plt dma) t → Follows t) ↔
      ∀ t a u, Run (Sslfb.step behind) ok (probed behind s plt dma) t → ok t a → t.step behind a = some u → Keeps t a :=
  Run.invariant_iff (Follows.probed behind heff hreg) Follows.step_iff

/-! ## A board -/

/-- The board with an address of its own for each window. -/
def boardAddr (wid : Fin 3) : Word := 0x53f80000#32 - BitVec.ofNat 32 (0x80000 * wid.val)

def board : Sslfb := probed (fun _ => 0#8) boardStart (fun wid => boardPlt (boardAddr wid)) fun _ => 0#32

/-- The mode of the board, with a rotation. -/
def boardMode (rotate : Word) : Var := ⟨480#32, 272#32, 480#32, 272#32, 0#32, 0#32, 16#32, rotate⟩

/-- The command turns the display, and then its mode has the new rotation. -/
theorem turned_by_command : ∃ t, Run (Sslfb.step fun _ => 0#8) Keeps board t ∧ t.effect = 1#32 ∧
    (t.regs.win 0).addr = 0x53f803be#32 ∧ Follows t := by
  have h : Run (Sslfb.step fun _ => 0#8) Keeps board _ :=
    .of_isSome [.setEff 0 1#32, .checkVar 0 (boardMode 1#32), .setPar 0 (boardMode 1#32)] (by decide +kernel)
  have hall := (follows_iff (fun _ => 0#8) boardStart (fun wid => boardPlt (boardAddr wid)) (fun _ => 0#32) Keeps rfl (by decide +kernel)).mpr
    fun _ _ _ _ ha _ => ha
  exact ⟨_, h, by decide +kernel, by decide +kernel, hall _ h⟩

/-- The core sets a mode that turns the display, and pans: the register has the rotation, and the floating windows are not placed for it. -/
theorem turned_by_mode_stale : ∃ t, Run (Sslfb.step fun _ => 0#8) free board t ∧ getRot t.regs.effect = 1#32 ∧
    (∀ w, w ≠ 0 → (t.regs.win w).addr = (t.info w).par.cfg.addr) ∧ ¬ Follows t := by
  have h : Run (Sslfb.step fun _ => 0#8) free board _ :=
    .of_isSome [.checkVar 0 (boardMode 1#32), .setPar 0 (boardMode 1#32), .pan 0 (boardMode 1#32)] (by decide +kernel)
  refine ⟨_, h, by decide +kernel, by decide +kernel, fun hf => ?_⟩
  exact absurd (hf.placed 1) (by unfold Placed; decide +kernel)

end Emlinux.Fb
