import Emlinux.Lib.Prog
import Emlinux.Usb.Udc

/-!
# What a setup packet reaches

The host chooses the eight bytes of a setup packet. `udc_setup` turns the low byte of `wIndex` into an index into `udc->ep[]` and into
an argument of `usbd_ep_stall`, and passes it to `usbd_test`. `udcSetup` is run here with what it reaches in
the log.

Nothing checks the endpoint number, and the check of the test mode (`wIndex < 1 && wIndex > 4`) never fails: the accesses are in bounds
exactly when the packet names an endpoint that there is, or a mode from 1 to 4 (`setup_in_bounds_iff`).
-/

namespace Emlinux.Gadget

open Lib

/-- What `udc_setup` reaches with the bytes of a packet. -/
inductive Access where
  /-- `udc->ep[i]` -/
  | ep (i : Nat)
  /-- `usbd_ep_stall` -/
  | stall (a : BitVec 8)
  /-- `usbd_test` -/
  | test (mode : BitVec 8)
deriving DecidableEq, Repr

/-- `USBD_CAP_TDS`. -/
def capTds (caps : BitVec 32) : Nat := (caps >>> 3 &&& 31#32).toNat + 1

/-- The entries of `udc->ep[32]` that `udc_probe` fills: entry 1 is skipped. -/
def Probed (n i : Nat) : Prop := i < 32 ∧ i < n ∧ i ≠ 1

instance (n i : Nat) : Decidable (Probed n i) := inferInstanceAs (Decidable (i < 32 ∧ i < n ∧ i ≠ 1))

def Access.InBounds (n : Nat) : Access → Prop
  | .ep i => Probed n i
  | .stall a => (Usb.ep2hw a).toNat < n
  | .test mode => 1 ≤ mode.toNat ∧ mode.toNat ≤ 4

/-- `USB_REQ_SET_FEATURE` and `USB_REQ_CLEAR_FEATURE`. -/
def featureRun (flag : Bool) : Prog Empty Udc Access Bool := do
  let s ← Prog.get
  let typ := s.setup.bRequestType &&& 0x1F#8
  if typ = 0#8 then
    if s.setup.wValue = 1#16 then
      Prog.modify fun s => { s with fwakeup := flag }.answer 0
      pure true
    else if s.setup.wValue = 2#16 then
      -- the test `wIndex < 1 && wIndex > 4` is false
      Prog.emit (.test (s.setup.wIndex.truncate 8))
      Prog.modify fun s => s.answer 0
      pure true
    else pure false
  else if typ = 2#8 then
    if s.setup.wValue ≠ 0#16 then pure false
    else
      Prog.emit (.stall (s.setup.wIndex.truncate 8))
      Prog.modify fun s => s.usbdEpStall (Udc.hwIndex s.setup.wIndex) flag
      Prog.emit (.ep (Udc.hwIndex s.setup.wIndex))
      Prog.modify fun s => (s.setEp (Udc.hwIndex s.setup.wIndex) fun x => { x with fstall := flag }).answer 0
      pure true
  else pure false

/-- `udc_setup`: `false` is passed to the class driver. -/
def udcSetupRun : Prog Empty Udc Access Bool := do
  let s ← Prog.get
  if s.setup.bRequest = 5#8 then
    if s.setup.bRequestType ≠ 0 then pure false
    else
      Prog.modify fun s => s.answer 0
      pure true
  else if s.setup.bRequest = 0#8 then
    if s.setup.bRequestType &&& 0x1F#8 = 2#8 then
      Prog.emit (.ep (Udc.hwIndex s.setup.wIndex))
      Prog.modify fun s => s.getStatus.answer 2
      pure true
    else
      Prog.modify fun s => s.getStatus.answer 2
      pure true
  else if s.setup.bRequest = 3#8 then featureRun true
  else if s.setup.bRequest = 1#8 then featureRun false
  else pure false

/-- The accesses that a packet causes. -/
def Setup.accesses (p : Setup) : List Access :=
  let typ := p.bRequestType &&& 0x1F#8
  let i := Udc.hwIndex p.wIndex
  if p.bRequest = 0#8 then if typ = 2#8 then [.ep i] else []
  else if p.bRequest = 3#8 ∨ p.bRequest = 1#8 then
    if typ = 0#8 ∧ p.wValue = 2#16 then [.test (p.wIndex.truncate 8)]
    else if typ = 2#8 ∧ p.wValue = 0#16 then [.stall (p.wIndex.truncate 8), .ep i]
    else []
  else []

/-- An endpoint of the device: an address with a number below 16, whose descriptor there is and which is not the IN half of
endpoint 0. -/
def NamesEp (n : Nat) (wIndex : BitVec 16) : Prop :=
  wIndex.toNat % 128 < 16 ∧ 2 * (wIndex.toNat % 128) + wIndex.toNat / 128 % 2 < n ∧ wIndex.toNat % 256 ≠ 128

/-- The packet names an endpoint there is, or a test mode, where it is used as one. -/
def Setup.Named (n : Nat) (p : Setup) : Prop :=
  let typ := p.bRequestType &&& 0x1F#8
  (p.bRequest = 0#8 ∧ typ = 2#8 → NamesEp n p.wIndex) ∧
  (p.bRequest = 3#8 ∨ p.bRequest = 1#8 →
    (typ = 0#8 ∧ p.wValue = 2#16 → 1 ≤ p.wIndex.toNat % 256 ∧ p.wIndex.toNat % 256 ≤ 4) ∧
    (typ = 2#8 ∧ p.wValue = 0#16 → NamesEp n p.wIndex))

section proofs

variable {n : Nat} (s : Udc) (p : Setup)

theorem featureRun_eq (flag : Bool) (hb : s.setup.bRequest = 3#8 ∨ s.setup.bRequest = 1#8) :
    featureRun flag s =
      ⟨.ok (s.feature flag).isSome, ((s.feature flag).map fun s => s.answer 0).getD s, s.setup.accesses⟩ := by
  have h0 : s.setup.bRequest ≠ 0#8 := by
    rcases hb with hb | hb <;> rw [hb] <;> decide
  unfold featureRun Udc.feature Setup.accesses
  rw [Prog.get_bind]
  dsimp only
  rw [if_neg h0, if_pos hb]
  by_cases ht : s.setup.bRequestType &&& 0x1F#8 = 0#8
  · rw [if_pos ht, if_pos ht]
    by_cases hv : s.setup.wValue = 1#16
    · rw [if_pos hv, if_pos hv, hv, if_neg fun hx => absurd hx.2 (by decide), ht, if_neg fun hx => absurd hx.1 (by decide)]
      rfl
    · rw [if_neg hv, if_neg hv]
      by_cases hv2 : s.setup.wValue = 2#16
      · rw [if_pos hv2, if_pos hv2, if_pos ⟨ht, hv2⟩]
        rfl
      · rw [if_neg hv2, if_neg hv2, if_neg fun hx => hv2 hx.2, ht, if_neg fun hx => absurd hx.1 (by decide)]
        rfl
  · rw [if_neg ht, if_neg ht, if_neg fun hx : _ ∧ _ => ht hx.1]
    by_cases ht2 : s.setup.bRequestType &&& 0x1F#8 = 2#8
    · rw [if_pos ht2]
      by_cases hv : s.setup.wValue = 0#16
      · rw [if_neg (not_not.mpr hv), if_pos ⟨ht2, hv⟩, if_pos ⟨ht2, hv⟩]
        rfl
      · rw [if_pos hv, if_neg fun hx => hv hx.2, if_neg fun hx => hv hx.2]
        rfl
    · rw [if_neg ht2, if_neg fun hx => ht2 hx.1, if_neg fun hx => ht2 hx.1]
      rfl

/-- The run does what `udc_setup` does, and leaves the accesses of the packet in the log. -/
theorem udcSetupRun_eq : udcSetupRun s = ⟨.ok s.udcSetup.isSome, s.udcSetup.getD s, s.setup.accesses⟩ := by
  unfold udcSetupRun Udc.udcSetup
  rw [Prog.get_bind]
  by_cases h5 : s.setup.bRequest = 5#8
  · have hnone : s.setup.accesses = [] := by
      unfold Setup.accesses
      rw [h5]
      rfl
    rw [if_pos h5, if_pos h5, hnone]
    split_ifs <;> rfl
  · rw [if_neg h5, if_neg h5]
    by_cases h0 : s.setup.bRequest = 0#8
    · rw [if_pos h0, if_pos h0, Setup.accesses, if_pos h0]
      split_ifs <;> rfl
    · rw [if_neg h0, if_neg h0]
      by_cases h3 : s.setup.bRequest = 3#8
      · rw [if_pos h3, if_pos h3, featureRun_eq s true (Or.inl h3), Option.isSome_map]
      · rw [if_neg h3, if_neg h3]
        by_cases h1 : s.setup.bRequest = 1#8
        · rw [if_pos h1, if_pos h1, featureRun_eq s false (Or.inr h1), Option.isSome_map]
        · rw [if_neg h1, if_neg h1, Setup.accesses, if_neg h0, if_neg fun hx => hx.elim h3 h1]
          rfl

theorem capTds_le (caps : BitVec 32) : capTds caps ≤ 32 := by
  have hle : (caps >>> 3 &&& 31#32).toNat ≤ 31 := by
    rw [BitVec.toNat_and]
    exact Nat.and_le_right
  exact Nat.succ_le_succ hle

theorem hwIndex_eq (w : BitVec 16) :
    Udc.hwIndex w = 2 * (w.toNat % 128) + w.toNat / 128 % 2 := by
  have hbyte : ∀ b : BitVec 8, (Usb.ep2hw b).toNat = 2 * (b.toNat % 128) + b.toNat / 128 := by decide +kernel
  rw [Udc.hwIndex, hbyte, BitVec.truncate_eq_setWidth, BitVec.toNat_setWidth]
  omega

theorem probed_iff (hn : n ≤ 32) (w : BitVec 16) : Probed n (Udc.hwIndex w) ↔ NamesEp n w := by
  rw [Probed, NamesEp, hwIndex_eq]
  omega

theorem test_iff (w : BitVec 16) :
    (Access.test (w.truncate 8)).InBounds n ↔ 1 ≤ w.toNat % 256 ∧ w.toNat % 256 ≤ 4 := by
  rw [Access.InBounds, BitVec.truncate_eq_setWidth, BitVec.toNat_setWidth]

/-- `usbd_ep_stall` needs less than `udc->ep[]`. -/
theorem halt_iff (hn : n ≤ 32) (w : BitVec 16) :
    (∀ a ∈ [Access.stall (w.truncate 8), .ep (Udc.hwIndex w)], a.InBounds n) ↔ NamesEp n w := by
  rw [← probed_iff hn]
  constructor
  · exact fun h => h _ (List.mem_cons_of_mem _ (List.mem_singleton_self _))
  · intro h a ha
    rcases List.mem_cons.mp ha with rfl | ha
    · exact h.2.1
    · rw [List.mem_singleton.mp ha]
      exact h

theorem accesses_iff (hn : n ≤ 32) : (∀ a ∈ p.accesses, a.InBounds n) ↔ p.Named n := by
  have hnil : ∀ a ∈ ([] : List Access), a.InBounds n := fun a ha => by cases ha
  unfold Setup.accesses Setup.Named
  dsimp only
  by_cases h0 : p.bRequest = 0#8
  · have hf : ¬ (p.bRequest = 3#8 ∨ p.bRequest = 1#8) := by
      rw [h0]
      decide
    rw [if_pos h0]
    split_ifs with ht
    · rw [List.forall_mem_singleton]
      refine (probed_iff hn p.wIndex).trans ⟨fun h => ⟨fun _ => h, fun hx => absurd hx hf⟩, fun h => h.1 ⟨h0, ht⟩⟩
    · exact iff_of_true hnil ⟨fun hx => absurd hx.2 ht, fun hx => absurd hx hf⟩
  · rw [if_neg h0]
    split_ifs with hf ht he
    · -- a test mode
      rw [List.forall_mem_singleton, test_iff]
      refine ⟨fun h => ⟨fun hx => absurd hx.1 h0, fun _ => ⟨fun _ => h, fun hx => ?_⟩⟩, fun h => (h.2 hf).1 ht⟩
      exact absurd (ht.1.symm.trans hx.1) (by decide)
    · -- an endpoint halt
      refine (halt_iff hn p.wIndex).trans ?_
      exact ⟨fun h => ⟨fun hx => absurd hx.1 h0, fun _ => ⟨fun hx => absurd hx ht, fun _ => h⟩⟩, fun h => (h.2 hf).2 he⟩
    · exact iff_of_true hnil ⟨fun hx => absurd hx.1 h0, fun _ => ⟨fun hx => absurd hx ht, fun hx => absurd hx he⟩⟩
    · exact iff_of_true hnil ⟨fun hx => absurd hx.1 h0, fun hx => absurd hx hf⟩

end proofs

/-- For every setup packet and every controller, all that `udc_setup` reaches is in bounds exactly when the packet names an endpoint
that there is, or a test mode. -/
theorem setup_in_bounds_iff (caps : BitVec 32) (s : Udc) :
    (∀ a ∈ (udcSetupRun s).log, a.InBounds (capTds caps)) ↔ s.setup.Named (capTds caps) := by
  rw [udcSetupRun_eq]
  exact accesses_iff s.setup (capTds_le caps)

/-- With the 32 descriptors of the largest controller: the status of endpoint `0x7F` is read from entry 254, and mode 0 is passed to
`usbd_test`. -/
theorem setup_out_of_bounds :
    (udcSetupRun { init with setup := ⟨0x82, 0, 0, 0x7F, 2⟩ }).log = [.ep 254] ∧ ¬ (Access.ep 254).InBounds (capTds 0xF8#32) ∧
    (udcSetupRun { init with setup := ⟨0, 3, 2, 0x100, 0⟩ }).log = [.test 0] ∧ ¬ (Access.test 0).InBounds (capTds 0xF8#32) := by
  refine ⟨by decide +kernel, ?_, by decide +kernel, ?_⟩
  · exact fun h => absurd h.1 (by decide)
  · exact fun h => absurd h.1 (by decide)

end Emlinux.Gadget
