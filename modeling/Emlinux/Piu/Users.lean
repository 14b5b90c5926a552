import Emlinux.Piu.Receive
import Emlinux.Piu.Send

/-!
# The users of the mailbox

`piu_module_user` counts the open files and the sound card (`alsa_piu_enable`). The first user enables the three interrupts of the driver, the last one
disables them. Files are opened and closed and the sound card is switched on and off, with any number of processes inside `piu_tx` and
`piu_rx`, the interrupts of the DSP and the acknowledge timer in between; `Sender` and `Receiver` share the device.

The count is that of the users. The interrupts are disabled whenever there is none, exactly when without users neither the timer
expires nor a `piu_rx` comes to its last line: both write the mask register (`unused_masked_iff`).
-/

namespace Emlinux.Piu

open Lib

namespace Dev

variable (t : Dev)

/-- `alsa_piu_enable(1)`. -/
def alsaEnable : Dev :=
  let t' := if t.moduleUser = 0 then ((t.intEna .ackIn).intEna .msgIn).intEna .nonblockMsgIn else t
  { t' with moduleUser := t.moduleUser + 1 }

/-- `alsa_piu_enable(0)`. -/
def alsaDisable : Dev :=
  let t := { t with moduleUser := t.moduleUser - 1 }
  if t.moduleUser = 0 then ((t.intDis .ackIn).intDis .msgIn).intDis .nonblockMsgIn else t

end Dev

/-- The driver with its users: the open files, and the enables of the sound card. The device is the one of `snd`. -/
structure Users (P : Type) where
  snd : Sender
  rcv : Receiver P
  files : List Nat
  alsa : Nat

inductive UseAction (P : Type) where
  | openFile (file : Nat)
  | release (file : Nat)
  | alsaOn
  | alsaOff
  | tx (a : TxAction)
  | rx (a : RxAction P)

namespace Users

variable {P : Type} [DecidableEq P] (s : Users P)

def dev : Dev := s.snd.dev

def setDev (t : Dev) : Users P := { s with snd := { s.snd with dev := t } }

/-- The receiving side, with the device as it is. -/
def receiver : Receiver P := { s.rcv with dev := s.dev }

/-- A file is closed once, and the sound card is switched off as often as on. Files are opened, closed and registered for the signal here, and
the ioctls that set the mask are not used. -/
def step : UseAction P → Option (Users P)
  | .openFile file => if file ∈ s.files then none else some { s.setDev s.dev.openFile with files := file :: s.files }
  | .release file => if file ∈ s.files then some { s.setDev (s.dev.release file) with files := s.files.erase file } else none
  | .alsaOn => some { s.setDev s.dev.alsaEnable with alsa := s.alsa + 1 }
  | .alsaOff => if s.alsa = 0 then none else some { s.setDev s.dev.alsaDisable with alsa := s.alsa - 1 }
  | .tx a => (s.snd.step a).map fun snd => { s with snd := snd }
  | .rx (.fasync file mode) => if file ∈ s.files then some (s.setDev (s.dev.fasync file mode)) else none
  | .rx (.ioctl _) | .rx .openFile | .rx (.release _) => none
  | .rx a => (s.receiver.step a).map fun rcv => { s.setDev rcv.dev with rcv := rcv }

/-- After `sslpiu_init`. -/
def start (r : Regs) (mem : Mem) : Users P where
  snd := { Sender.init r mem with dev := .init r mem }
  rcv := .start (.init r mem)
  files := []
  alsa := 0

end Users

/-- The count is that of the users, and without users no interrupt is enabled. -/
structure Counted {P : Type} (s : Users P) : Prop where
  count : s.dev.moduleUser = s.files.length + s.alsa
  masked : s.dev.moduleUser = 0 → ∀ e, s.dev.piuHw.enabled e = false

/-- Without users the timer does not expire, and no process comes to the last line of `piu_rx`, the write of the mask register. -/
def Settled {P : Type} (s : Users P) : UseAction P → Prop
  | .tx .expire => s.dev.moduleUser ≠ 0
  | .rx (.go p) => ∀ e m v, s.rcv.pc p = .enabling e m v → s.dev.moduleUser ≠ 0
  | _ => True

/-! ## Who writes the mask -/

namespace Dev

/-- The users are the same, and no interrupt is enabled that was not. -/
def NoMore (t t' : Dev) : Prop :=
  t'.moduleUser = t.moduleUser ∧ ∀ e, t'.piuHw.enabled e = true → t.piuHw.enabled e = true

variable {t t' t'' : Dev}

theorem NoMore.refl (t : Dev) : t.NoMore t := ⟨rfl, fun _ h => h⟩

theorem NoMore.trans (h : t.NoMore t') (h' : t'.NoMore t'') : t.NoMore t'' :=
  ⟨h'.1.trans h.1, fun e he => h.2 e (h'.2 e he)⟩

/-- The registers other than the mask do not matter. -/
theorem NoMore.of_mask (hu : t'.moduleUser = t.moduleUser) (hm : t'.piuHw.intmask = t.piuHw.intmask) : t.NoMore t' := by
  refine ⟨hu, fun e he => ?_⟩
  rw [Regs.enabled, hm] at he
  exact he

theorem NoMore.intDis (t : Dev) (e : Evt) : t.NoMore (t.intDis e) := by
  refine ⟨rfl, fun e' he => ?_⟩
  rw [Dev.intDis, Regs.enabled_intDis, Bool.and_eq_true] at he
  exact he.1

theorem NoMore.handler (t : Dev) (e : Evt) : t.NoMore (t.handler e).1 := by
  cases e with
  | ackIn => exact NoMore.of_mask rfl rfl
  | msgIn =>
    show t.NoMore t.handleMsg.1
    unfold Dev.handleMsg
    dsimp only
    split_ifs
    · exact NoMore.refl t
    · exact NoMore.of_mask rfl rfl
    · exact (NoMore.intDis t .msgIn).trans (NoMore.of_mask rfl rfl)
    · exact NoMore.refl t
  | nonblockMsgIn =>
    show t.NoMore t.handleNonblock.1
    unfold Dev.handleNonblock
    split_ifs
    · exact NoMore.refl t
    · exact NoMore.refl t
    · exact (NoMore.intDis t .nonblockMsgIn).trans (NoMore.of_mask rfl rfl)
    · exact NoMore.refl t

theorem NoMore.serve (stat : Word) (e : Evt) (r : Dev × List Note) : r.1.NoMore (Dev.serve stat e r).1 := by
  unfold Dev.serve
  split_ifs
  · exact NoMore.handler r.1 e
  · exact NoMore.refl r.1

theorem NoMore.piuIsr (t : Dev) : t.NoMore t.piuIsr.2.1 := by
  unfold Dev.piuIsr
  dsimp only
  split_ifs
  · exact NoMore.refl t
  · apply NoMore.trans _ (NoMore.serve _ _ _)
    apply NoMore.trans _ (NoMore.serve _ _ _)
    apply NoMore.trans _ (NoMore.serve _ _ _)
    exact NoMore.of_mask rfl rfl

theorem NoMore.rxSelect (t : Dev) : t.NoMore t.rxSelect.1 := by
  unfold Dev.rxSelect
  split_ifs <;> exact NoMore.of_mask rfl rfl

end Dev

/-- `piu_tx` and its interrupt. -/
theorem Sender.step_noMore {s s' : Sender} {a : TxAction} (hs : s.step a = some s') (ha : a ≠ .expire) : s.dev.NoMore s'.dev := by
  cases a with
  | enter p msg body =>
    unfold Sender.step at hs
    dsimp only at hs
    split_ifs at hs <;> cases hs <;> exact .refl _
  | signal p =>
    unfold Sender.step at hs
    dsimp only at hs
    split_ifs at hs
    cases hs
    exact .refl _
  | go p =>
    unfold Sender.step Sender.goLine at hs
    dsimp only at hs
    split at hs
    · cases hs
    · split_ifs at hs
      cases hs
      exact .of_mask rfl rfl
    · cases hs
      exact .of_mask rfl rfl
    · next f _ =>
      cases hs
      cases f <;> exact .of_mask rfl rfl
  | ack id =>
    unfold Sender.step Sender.acknowledge at hs
    dsimp only at hs
    split at hs
    · cases hs
    · cases hs
      exact (Dev.NoMore.of_mask rfl rfl).trans (Dev.NoMore.piuIsr _)
  | expire => exact absurd rfl ha

/-- `piu_rx` and the interrupts of the messages. -/
theorem Receiver.step_noMore {P : Type} [DecidableEq P] {s s' : Receiver P} {a : RxAction P} (hs : s.step a = some s')
    (hgo : ∀ p, a = .go p → ∀ e m v, s.pc p ≠ .enabling e m v) (hi : ∀ c, a ≠ .ioctl c) (ho : a ≠ .openFile)
    (hr : ∀ f, a ≠ .release f) : s.dev.NoMore s'.dev := by
  cases a with
  | send e msg b =>
    unfold Receiver.step at hs
    dsimp only at hs
    split_ifs at hs
    cases hs
    exact .of_mask rfl rfl
  | irq =>
    cases hs
    exact .piuIsr _
  | rx p =>
    unfold Receiver.step Receiver.startRx at hs
    dsimp only at hs
    split_ifs at hs
    have hsel := Dev.NoMore.rxSelect s.dev
    rcases hx : s.dev.rxSelect with ⟨t, _ | e⟩ <;> rw [hx] at hs hsel <;> cases hs <;> exact hsel
  | rxMsg p =>
    unfold Receiver.step at hs
    dsimp only at hs
    split_ifs at hs <;> cases hs <;> exact .refl _
  | go p =>
    have hpc := hgo p rfl
    unfold Receiver.step Receiver.goLine at hs
    dsimp only at hs
    split at hs
    · cases hs
    · split_ifs at hs <;> cases hs <;> exact .refl _
    · cases hs
      exact .of_mask rfl rfl
    · cases hs
      exact .refl _
    · next e m v hx => exact absurd hx (hpc e m v)
    all_goals
      cases hs
      exact .refl _
  | ioctl c => exact absurd rfl (hi c)
  | openFile => exact absurd rfl ho
  | release f => exact absurd rfl (hr f)
  | fasync f mode =>
    cases hs
    exact .of_mask rfl rfl

/-! ## One step -/

section step

variable {P : Type} {s s' : Users P} {a : UseAction P}

theorem Counted.of_noMore (h : Counted s) (hf : s'.files = s.files) (ha : s'.alsa = s.alsa) (hd : s.dev.NoMore s'.dev) :
    Counted s' := by
  refine ⟨?_, fun h0 e => ?_⟩
  · rw [hd.1, hf, ha]
    exact h.count
  · rw [hd.1] at h0
    cases he : s'.dev.piuHw.enabled e with
    | false => rfl
    | true => exact absurd ((h.masked h0 e).symm.trans (hd.2 e he)) nofun

theorem masked_three (t : Dev) (e : Evt) : (((t.intDis .ackIn).intDis .msgIn).intDis .nonblockMsgIn).piuHw.enabled e = false := by
  simp only [Dev.intDis, Regs.enabled_intDis]
  cases e <;> simp

theorem Counted.openFile (h : Counted s) (file : Nat) :
    Counted { s.setDev s.dev.openFile with files := file :: s.files } := by
  have hc := h.count
  have hu : s.dev.openFile.moduleUser = s.dev.moduleUser + 1 := rfl
  refine ⟨?_, fun h0 => ?_⟩
  · show s.dev.openFile.moduleUser = ((file :: s.files).length : Int) + s.alsa
    rw [hu, List.length_cons]
    omega
  · change s.dev.openFile.moduleUser = 0 at h0
    omega

theorem Counted.alsaOn (h : Counted s) : Counted { s.setDev s.dev.alsaEnable with alsa := s.alsa + 1 } := by
  have hc := h.count
  have hu : s.dev.alsaEnable.moduleUser = s.dev.moduleUser + 1 := rfl
  refine ⟨?_, fun h0 => ?_⟩
  · show s.dev.alsaEnable.moduleUser = (s.files.length : Int) + (s.alsa + 1 : Nat)
    rw [hu]
    omega
  · change s.dev.alsaEnable.moduleUser = 0 at h0
    omega

theorem Counted.release (h : Counted s) {file : Nat} (hm : file ∈ s.files) :
    Counted { s.setDev (s.dev.release file) with files := s.files.erase file } := by
  have hc := h.count
  have hpos : 0 < s.files.length := List.length_pos_of_mem hm
  have hu : (s.dev.release file).moduleUser = s.dev.moduleUser - 1 := by
    unfold Dev.release
    dsimp only
    split_ifs <;> rfl
  refine ⟨?_, fun h0 e => ?_⟩
  · show (s.dev.release file).moduleUser = ((s.files.erase file).length : Int) + s.alsa
    rw [hu, List.length_erase_of_mem hm]
    omega
  · change (s.dev.release file).moduleUser = 0 at h0
    show (s.dev.release file).piuHw.enabled e = false
    rw [hu] at h0
    unfold Dev.release
    dsimp only [Dev.fasync]
    rw [if_pos h0]
    exact masked_three _ e

theorem Counted.alsaOff (h : Counted s) (hpos : s.alsa ≠ 0) : Counted { s.setDev s.dev.alsaDisable with alsa := s.alsa - 1 } := by
  have hc := h.count
  have hu : s.dev.alsaDisable.moduleUser = s.dev.moduleUser - 1 := by
    unfold Dev.alsaDisable
    dsimp only
    split_ifs <;> rfl
  refine ⟨?_, fun h0 e => ?_⟩
  · show s.dev.alsaDisable.moduleUser = (s.files.length : Int) + (s.alsa - 1 : Nat)
    rw [hu]
    omega
  · change s.dev.alsaDisable.moduleUser = 0 at h0
    show s.dev.alsaDisable.piuHw.enabled e = false
    rw [hu] at h0
    unfold Dev.alsaDisable
    dsimp only
    rw [if_pos h0]
    exact masked_three _ e

/-- Steps that enable an interrupt and leave the users as they are. -/
theorem counted_enable (h : Counted s) (hf : s'.files = s.files) (ha : s'.alsa = s.alsa)
    (hu : s'.dev.moduleUser = s.dev.moduleUser) {e : Evt} (he : s'.dev.piuHw.enabled e = true) :
    Counted s' ↔ s.dev.moduleUser ≠ 0 := by
  constructor
  · exact fun h' h0 => absurd ((h'.masked (hu.trans h0) e).symm.trans he) nofun
  · intro hne
    refine ⟨?_, fun h0 => absurd (hu.symm.trans h0) hne⟩
    rw [hu, hf, ha]
    exact h.count

theorem Counted.step_iff [DecidableEq P] (h : Counted s) (hs : s.step a = some s') : Counted s' ↔ Settled s a := by
  cases a with
  | openFile file =>
    unfold Users.step at hs
    dsimp only at hs
    split_ifs at hs
    cases hs
    exact iff_of_true (h.openFile file) trivial
  | release file =>
    unfold Users.step at hs
    dsimp only at hs
    split_ifs at hs with hm
    cases hs
    exact iff_of_true (h.release hm) trivial
  | alsaOn =>
    cases hs
    exact iff_of_true h.alsaOn trivial
  | alsaOff =>
    unfold Users.step at hs
    dsimp only at hs
    split_ifs at hs with h0
    cases hs
    exact iff_of_true (h.alsaOff h0) trivial
  | tx a =>
    obtain ⟨snd, hsnd, rfl⟩ := Option.map_eq_some_iff.mp hs
    by_cases ha : a = .expire
    · subst ha
      unfold Sender.step at hsnd
      dsimp only at hsnd
      split_ifs at hsnd
      cases hsnd
      refine counted_enable (e := .msgIn) h rfl rfl rfl ?_
      show (s.snd.dev.releaseTx).piuHw.enabled .msgIn = true
      simp [Dev.releaseTx, Dev.intEna]
    · have hs' : Counted ({ s with snd := snd } : Users P) := h.of_noMore rfl rfl (Sender.step_noMore hsnd ha)
      apply iff_of_true hs'
      cases a with
      | expire => exact absurd rfl ha
      | enter | signal | go | ack => trivial
  | rx a =>
    have hother : (∀ p, a = .go p → ∀ e m v, s.rcv.pc p ≠ .enabling e m v) → (∀ f m, a ≠ .fasync f m) →
        (∀ c, a ≠ .ioctl c) → a ≠ .openFile → (∀ f, a ≠ .release f) → Counted s' := by
      intro hgo hfa hi ho hr
      have hmap : (s.receiver.step a).map (fun rcv => { s.setDev rcv.dev with rcv := rcv }) = some s' := by
        cases a with
        | fasync f m => exact absurd rfl (hfa f m)
        | ioctl c => exact absurd rfl (hi c)
        | openFile => exact absurd rfl ho
        | release f => exact absurd rfl (hr f)
        | send | irq | rx | rxMsg | go => exact hs
      obtain ⟨rcv, hrcv, rfl⟩ := Option.map_eq_some_iff.mp hmap
      exact h.of_noMore rfl rfl (Receiver.step_noMore hrcv hgo hi ho hr)
    cases a with
    | fasync file mode =>
      unfold Users.step at hs
      dsimp only at hs
      split_ifs at hs
      cases hs
      exact iff_of_true (h.of_noMore rfl rfl (.of_mask rfl rfl)) trivial
    | ioctl | openFile | release => cases hs
    | send | irq | rx | rxMsg => exact iff_of_true (hother (by simp) (by simp) (by simp) (by simp) (by simp)) trivial
    | go p =>
      by_cases hpc : ∃ e m v, s.rcv.pc p = .enabling e m v
      · -- the mask register is written
        obtain ⟨e, m, v, hx⟩ := hpc
        obtain ⟨rcv, hrcv, rfl⟩ := Option.map_eq_some_iff.mp hs
        unfold Receiver.step Receiver.goLine at hrcv
        dsimp only [Users.receiver] at hrcv
        rw [hx] at hrcv
        cases hrcv
        have hset : Settled s (.rx (.go p)) ↔ s.dev.moduleUser ≠ 0 := ⟨fun hall => hall e m v hx, fun hne _ _ _ _ => hne⟩
        apply Iff.trans _ hset.symm
        apply counted_enable h (e := e)
        case hf | ha | hu => rfl
        show (v ||| (e.mask &&& hints)).getLsbD e.bit = true
        rw [BitVec.getLsbD_or, BitVec.getLsbD_and, getLsbD_mask, getLsbD_hints, decide_eq_true rfl, Bool.true_and, Bool.or_true]
      · have hno : ∀ e m v, s.rcv.pc p ≠ .enabling e m v := fun e m v hx => hpc ⟨e, m, v, hx⟩
        refine iff_of_true (hother (fun q hq => ?_) (by simp) (by simp) (by simp) (by simp)) fun e m v hx => absurd hx (hno e m v)
        cases hq
        exact hno

end step

theorem Counted.start {P : Type} (r : Regs) (mem : Mem) : Counted (Users.start r mem : Users P) := by
  refine ⟨rfl, fun _ e => ?_⟩
  show (r.intmask &&& ~~~hints).getLsbD e.bit = false
  rw [BitVec.getLsbD_and, BitVec.getLsbD_not, getLsbD_hints, Bool.not_true, Bool.and_false, Bool.and_false]

/-- In the runs under any guard the count is that of the users and without users every interrupt is disabled, exactly when in all their steps
without users neither the timer expires nor `piu_rx` writes the mask. -/
theorem unused_masked_iff {P : Type} [DecidableEq P] (r : Regs) (mem : Mem) (ok : Users P → UseAction P → Prop) :
    (∀ s, Run Users.step ok (.start r mem) s → Counted s) ↔
      ∀ s a s', Run Users.step ok (.start r mem) s → ok s a → Users.step s a = some s' → Settled s a :=
  Run.invariant_iff (Counted.start r mem) Counted.step_iff

/-! ## A timer without users -/

/-- A command is sent, the file is closed before it is acknowledged, and the timer expires. -/
theorem timer_unmasks : ∃ s : Users (Fin 1), Run Users.step free (.start zeroRegs zeroMem) s ∧ s.files = [] ∧ s.alsa = 0 ∧
    s.dev.moduleUser = 0 ∧ s.dev.piuHw.enabled .msgIn = true ∧ ¬ Counted s := by
  have h : Run (σ := Users (Fin 1)) Users.step free (.start zeroRegs zeroMem) _ :=
    .of_isSome [.openFile 0, .tx (.enter 0 1#32 ⟨0, 0, []⟩), .tx (.go 0), .tx (.go 0), .tx (.go 0), .tx (.go 0), .tx (.go 0),
      .tx (.go 0), .tx (.go 0), .release 0, .tx .expire] (by decide +kernel)
  refine ⟨_, h, by decide +kernel, by decide +kernel, by decide +kernel, by decide +kernel, fun hc => ?_⟩
  exact absurd (hc.masked (by decide +kernel) .msgIn) (by decide +kernel)

end Emlinux.Piu
