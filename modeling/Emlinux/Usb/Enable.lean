import Emlinux.Lib.Calls
import Emlinux.Usb.Udc

/-!
# Enabling and disabling endpoints

`udc_ep_enable` (`ssl_udc.c`) checks the descriptor and the state of the device, takes the lock and calls `usbd_ep_enable` (`usbd.c`), which
checks again and carves the buffer; `udc_ep_disable` calls `usbd_ep_disable`. The bits of the `ena` register are followed over a sequence of calls
against `on`, the endpoints whose last successful enable was not followed by a disable.

When `usbd_ep_enable` refuses, `udc_ep_enable` returns with the lock held, and what was written before the last check stays.
`usbd_ep_disable` computes its mask in a byte, which has no bit for the descriptors from 8 on. Without these two the calls
are exact (`enable_exact_iff`).
-/

namespace Emlinux.Gadget

open Lib

/-- `struct usb_endpoint_descriptor`. -/
structure Desc where
  bLength : BitVec 8
  bDescriptorType : BitVec 8
  bEndpointAddress : BitVec 8
  bmAttributes : BitVec 8
  wMaxPacketSize : BitVec 16
deriving DecidableEq, Repr

/-- The address that `udc_probe` gives to the entry `e` of `udc->ep`. -/
def address (e : Fin 32) : BitVec 8 := BitVec.ofNat 8 (e.val / 2 + 128 * (e.val % 2))

theorem address_reserved (e : Fin 32) : address e &&& 0x70#8 = 0 := by decide +revert

theorem ep2hw_address (e : Fin 32) : (Usb.ep2hw (address e)).toNat = e.val := by decide +revert

/-- `usbd_ep_enable` is called with the address of the endpoint. -/
def Desc.toEp (d : Desc) (e : Fin 32) : Usb.EpDesc :=
  ⟨d.bLength, d.bDescriptorType, address e, d.bmAttributes, d.wMaxPacketSize, address_reserved e⟩

/-- `udc_t`, as far as these functions see it; `usbd` is the controller, `held` that the lock is taken. `on` is the
record of the enables and disables. -/
structure Eps where
  usbd : Usb.Usbd
  desc : Fin 32 → Option Desc
  maxpacket : Fin 32 → Nat
  fstopped : Fin 32 → Bool
  drv : Bool
  speed : Speed
  held : Bool
  on : Fin 32 → Bool

/-- Error codes. -/
def einval : Int := -22
def eshutdown : Int := -108

/-- `mps` and `nmic`. -/
def Desc.mps (d : Desc) : Nat := d.wMaxPacketSize.toNat % 2048
def Desc.nmic (d : Desc) : Nat := d.wMaxPacketSize.toNat / 2048

namespace Eps

variable (s : Eps)

/-- The checks of `udc_ep_enable` that return `-EINVAL`. -/
def wellFormed (e : Fin 32) (d : Desc) : Bool :=
  !((s.desc e).isSome || d.bDescriptorType != 5#8 || d.bEndpointAddress != address e || decide (s.maxpacket e < d.mps))
  && !(decide (d.mps > 1024) || decide (d.nmic > 2))
  && !(decide (d.nmic ≠ 0) &&
    !(s.speed = .high && (d.bmAttributes &&& 3#8 = 1#8 || d.bmAttributes &&& 3#8 = 3#8)))

/-- `udc_ep_enable`; `none` is a null descriptor. -/
def udcEpEnable (e : Fin 32) : Option Desc → Int × Eps
  | none => (einval, s)
  | some d =>
    if !s.wellFormed e d then (einval, s)
    else if !s.drv || s.speed = .unknown then (eshutdown, s)
    else
      let s := { s with held := true }
      match s.usbd.epEnable (d.toEp e) with
      | (.none, u) =>
        (0, { s with
          usbd := u
          maxpacket := Function.update s.maxpacket e d.mps
          desc := Function.update s.desc e (some d)
          fstopped := Function.update s.fstopped e false
          held := false
          on := Function.update s.on e true })
      -- the lock is not released
      | (_, u) => (einval, { s with usbd := u })

/-- `udc_ep_disable`. The descriptor is cleared first, and `nuke` then only completes the requests of the queue. -/
def udcEpDisable (e : Fin 32) : Int × Eps :=
  if (s.desc e).isNone then (einval, s)
  else
    (0, { s with
      desc := Function.update s.desc e none
      fstopped := Function.update s.fstopped e true
      usbd := s.usbd.epDisable (address e)
      on := Function.update s.on e false })

end Eps

inductive EpOp where
  | enable (e : Fin 32) (d : Option Desc)
  | disable (e : Fin 32)

/-- The return code. -/
def EpOp.run : EpOp → Prog Empty Eps Empty Int
  | .enable e d => fun s => ⟨.ok (s.udcEpEnable e d).1, (s.udcEpEnable e d).2, []⟩
  | .disable e => fun s => ⟨.ok (s.udcEpDisable e).1, (s.udcEpDisable e).2, []⟩

/-- The register shows the endpoints that are on. -/
def Shown (s : Eps) : Prop := ∀ i : Fin 32, s.usbd.ena.getLsbD i = s.on i

/-- After the call the register shows the endpoints that are on, and the lock is free; an enable with an error leaves everything as it was. -/
def EpOp.Exact (s : Eps) (op : EpOp) : Prop :=
  Shown (op.run s).st ∧ (op.run s).st.held = false ∧ ∀ e d, op = .enable e d → (s.udcEpEnable e d).1 ≠ 0 →
    (op.run s).st.usbd.memp = s.usbd.memp ∧ (op.run s).st.usbd.tc e = s.usbd.tc e ∧
    (op.run s).st.usbd.ena = s.usbd.ena ∧ (op.run s).st.desc e = s.desc e

/-- The buffer of an endpoint: it has one, or it fits behind the others. -/
def Room (u : Usb.Usbd) (ep : Usb.EpDesc) : Prop :=
  (u.tc ep.id).ptr ≠ 0 ∨ (u.memp + u.caps.bufs * ep.bufSize u.caps.align) % 2 ^ 16 ≤ u.caps.size

/-- A descriptor that `udc_ep_enable` takes is taken by the controller too, and there is room for it; only a descriptor below 8 is disabled. -/
def EpOp.Plain (s : Eps) : EpOp → Prop
  | .enable e d => ∀ d', d = some d' → s.wellFormed e d' = true → s.drv = true → s.speed ≠ .unknown →
      (d'.toEp e).accepted = true ∧ Room s.usbd (d'.toEp e)
  | .disable e => (s.desc e).isSome = true → e.val < 8

/-- No endpoint is enabled but those whose bit is set. -/
def Eps.start (u : Usb.Usbd) (maxpacket : Fin 32 → Nat) (drv : Bool) (speed : Speed) : Eps :=
  ⟨u, fun _ => none, maxpacket, fun _ => false, drv, speed, false, fun i => u.ena.getLsbD i⟩

section proofs

variable {s : Eps} {u : Usb.Usbd} {e : Fin 32} {d : Desc} {ep : Usb.EpDesc}

theorem toEp_id (d : Desc) (e : Fin 32) : (d.toEp e).id = e.val := ep2hw_address e

/-- The controller takes the descriptor. -/
theorem epEnable_ok (ha : ep.accepted = true) (hr : Room u ep) :
    (u.epEnable ep).1 = .none ∧ (u.epEnable ep).2.ena = u.ena ||| 1#32 <<< ep.id := by
  unfold Usb.Usbd.epEnable
  rw [ha, Bool.not_true, if_neg (by decide)]
  dsimp only
  split_ifs with hp hm
  · rcases hr with hr | hr
    · exact absurd hp hr
    · exact absurd hm (Nat.not_lt_of_le hr)
  · refine ⟨rfl, ?_⟩
    dsimp only [Usb.Usbd.tdCfg]
    rw [Function.update_self]
    rfl
  · refine ⟨rfl, ?_⟩
    dsimp only [Usb.Usbd.tdCfg]
    rw [Function.update_self]
    rfl

/-- The controller refuses it. -/
theorem epEnable_err (h : ¬ (ep.accepted = true ∧ Room u ep)) : (u.epEnable ep).1 ≠ .none := by
  unfold Usb.Usbd.epEnable
  cases ha : ep.accepted with
  | false => exact nofun
  | true =>
    rw [Bool.not_true, if_neg (by decide)]
    dsimp only
    split_ifs with hp hm
    · exact nofun
    · exact absurd ⟨ha, Or.inr (Nat.le_of_not_lt hm)⟩ h
    · exact absurd ⟨ha, Or.inl hp⟩ h

/-- The mask of `usbd_ep_disable`. -/
theorem disable_mask (e i : Fin 32) :
    (BitVec.zeroExtend 32 (1#8 <<< Usb.ep2hw (address e))).getLsbD i = decide (i = e ∧ e.val < 8) := by
  have hall : ∀ e i : Fin 32, (BitVec.zeroExtend 32 (1#8 <<< Usb.ep2hw (address e))).getLsbD i
    = decide (i = e ∧ e.val < 8) := by decide +kernel
  exact hall e i

theorem epDisable_ena (u : Usb.Usbd) (e i : Fin 32) :
    (u.epDisable (address e)).ena.getLsbD i = (u.ena.getLsbD i && !decide (i = e ∧ e.val < 8)) := by
  rw [Usb.Usbd.epDisable, BitVec.getLsbD_and, BitVec.getLsbD_not, disable_mask, decide_eq_true i.isLt, Bool.true_and]

theorem enable_mask (e i : Fin 32) : (1#32 <<< e.val).getLsbD i = decide (i = e) := by
  have hall : ∀ e i : Fin 32, (1#32 <<< e.val).getLsbD i = decide (i = e) := by decide +kernel
  exact hall e i

/-- Between the calls: the register shows what is on, an endpoint with a descriptor is on, and the lock is free. -/
structure Settled (s : Eps) : Prop where
  shown : Shown s
  desc : ∀ e, (s.desc e).isSome = true → s.on e = true
  free : s.held = false

theorem Settled.start (u : Usb.Usbd) (maxpacket : Fin 32 → Nat) (drv : Bool) (speed : Speed) :
    Settled (.start u maxpacket drv speed) := ⟨fun _ => rfl, fun _ h => (by cases h), rfl⟩

theorem einval_ne : einval ≠ 0 := by decide

theorem eshutdown_ne : eshutdown ≠ 0 := by decide

/-- `udc_ep_enable` returns at its own checks, or calls the controller. -/
theorem enable_cases (s : Eps) (e : Fin 32) (d : Option Desc) :
    ((s.udcEpEnable e d).2 = s ∧ (s.udcEpEnable e d).1 ≠ 0 ∧ (EpOp.enable e d).Plain s) ∨
    ∃ d', d = some d' ∧ s.wellFormed e d' = true ∧ s.drv = true ∧ s.speed ≠ .unknown := by
  cases d with
  | none => exact Or.inl ⟨rfl, einval_ne, fun _ hx => by cases hx⟩
  | some d =>
    unfold Eps.udcEpEnable
    dsimp only
    cases hw : s.wellFormed e d with
    | false =>
      refine Or.inl ⟨rfl, einval_ne, fun d' hx hy => ?_⟩
      cases hx
      exact absurd (hw.symm.trans hy) nofun
    | true =>
      by_cases hs : (!s.drv || decide (s.speed = .unknown)) = true
      · rw [Bool.not_true, if_neg (by decide), if_pos hs]
        refine Or.inl ⟨rfl, eshutdown_ne, fun d' hx hy hdrv hspeed => ?_⟩
        rw [hdrv, Bool.not_true, Bool.false_or, decide_eq_true_eq] at hs
        exact absurd hs hspeed
      · rw [Bool.not_eq_true, Bool.or_eq_false_iff, Bool.not_eq_false', decide_eq_false_iff_not] at hs
        exact Or.inr ⟨d, rfl, hw, hs.1, hs.2⟩

/-- An enable that reaches the controller. -/
theorem enable_reaches (hw : s.wellFormed e d = true) (hdrv : s.drv = true) (hspeed : s.speed ≠ .unknown) :
    s.udcEpEnable e (some d) = match s.usbd.epEnable (d.toEp e) with
      | (.none, u) => (0, { s with
          usbd := u
          maxpacket := Function.update s.maxpacket e d.mps
          desc := Function.update s.desc e (some d)
          fstopped := Function.update s.fstopped e false
          held := false
          on := Function.update s.on e true })
      | (_, u) => (einval, { s with held := true, usbd := u }) := by
  unfold Eps.udcEpEnable
  dsimp only
  rw [hw, hdrv, Bool.not_true, if_neg (by decide), decide_eq_false hspeed, if_neg (by decide)]

/-- The controller is called and takes the descriptor. -/
theorem enable_taken (hw : s.wellFormed e d = true) (hdrv : s.drv = true) (hspeed : s.speed ≠ .unknown)
    (ha : (d.toEp e).accepted = true) (hr : Room s.usbd (d.toEp e)) :
    (s.udcEpEnable e (some d)).1 = 0 ∧ (s.udcEpEnable e (some d)).2.held = false ∧
    (s.udcEpEnable e (some d)).2.on = Function.update s.on e true ∧
    (s.udcEpEnable e (some d)).2.desc = Function.update s.desc e (some d) ∧
    (s.udcEpEnable e (some d)).2.usbd.ena = s.usbd.ena ||| 1#32 <<< e.val := by
  obtain ⟨hok, hena⟩ := epEnable_ok ha hr
  rw [toEp_id] at hena
  rw [enable_reaches hw hdrv hspeed]
  rcases hx : s.usbd.epEnable (d.toEp e) with ⟨err, u⟩
  rw [hx] at hok hena
  cases hok
  exact ⟨rfl, rfl, rfl, rfl, hena⟩

/-- The controller is called and refuses: the lock stays taken. -/
theorem enable_refused (hw : s.wellFormed e d = true) (hdrv : s.drv = true) (hspeed : s.speed ≠ .unknown)
    (h : ¬ ((d.toEp e).accepted = true ∧ Room s.usbd (d.toEp e))) : (s.udcEpEnable e (some d)).2.held = true := by
  have herr := epEnable_err h
  rw [enable_reaches hw hdrv hspeed]
  rcases hx : s.usbd.epEnable (d.toEp e) with ⟨err, u⟩
  rw [hx] at herr
  cases err with
  | none => exact absurd rfl herr
  | parm | cfg => rfl

theorem shown_update {ena : BitVec 32} {b : Bool} (hs : Shown s)
    (hena : ∀ i : Fin 32, ena.getLsbD i = if i = e then b else s.usbd.ena.getLsbD i) (i : Fin 32) :
    ena.getLsbD i = Function.update s.on e b i := by
  rw [hena, Function.update_apply]
  split_ifs
  · rfl
  · exact hs i

/-- An enable is exact if and only if the controller takes what it is given. -/
theorem Settled.enable (hs : Settled s) (e : Fin 32) (d : Option Desc) :
    ((EpOp.enable e d).Exact s ↔ (EpOp.enable e d).Plain s) ∧
    ((EpOp.enable e d).Exact s → Settled ((EpOp.enable e d).run s).st) := by
  rcases enable_cases s e d with ⟨hsame, hne, hplain⟩ | ⟨d, rfl, hw, hdrv, hspeed⟩
  · have hst : ((EpOp.enable e d).run s).st = s := hsame
    refine ⟨iff_of_true ?_ hplain, fun _ => hst.symm ▸ hs⟩
    rw [EpOp.Exact, hst]
    exact ⟨hs.shown, hs.free, fun e' d' hx _ => ⟨rfl, rfl, rfl, rfl⟩⟩
  · by_cases hok : (d.toEp e).accepted = true ∧ Room s.usbd (d.toEp e)
    · obtain ⟨hret, hheld, hon, hdesc, hena⟩ := enable_taken hw hdrv hspeed hok.1 hok.2
      have hshown : Shown (s.udcEpEnable e (some d)).2 := by
        intro i
        rw [hon]
        refine shown_update hs.shown (fun i => ?_) i
        rw [hena, BitVec.getLsbD_or, enable_mask]
        split_ifs with hi
        · rw [hi, decide_eq_true rfl, Bool.or_true]
        · rw [decide_eq_false hi, Bool.or_false]
      refine ⟨iff_of_true ⟨hshown, hheld, ?_⟩ ?_, fun _ => ⟨hshown, fun i hi => ?_, hheld⟩⟩
      · intro e' d' hx hne
        cases hx
        exact absurd hret hne
      · intro d' hx _ _ _
        cases hx
        exact hok
      · change ((s.udcEpEnable e (some d)).2.desc i).isSome = true at hi
        change (s.udcEpEnable e (some d)).2.on i = true
        rw [hdesc, Function.update_apply] at hi
        rw [hon, Function.update_apply]
        split_ifs at hi ⊢
        · rfl
        · exact hs.desc i hi
    · have hheld := enable_refused hw hdrv hspeed hok
      have hno : ¬ (EpOp.enable e (some d)).Exact s := fun h => absurd (hheld.symm.trans h.2.1) nofun
      exact ⟨iff_of_false hno fun h => hok (h d rfl hw hdrv hspeed), fun h => absurd h hno⟩

/-- A disable is exact if and only if the mask has a bit for the endpoint. -/
theorem Settled.disable (hs : Settled s) (e : Fin 32) :
    ((EpOp.disable e).Exact s ↔ (EpOp.disable e).Plain s) ∧
    ((EpOp.disable e).Exact s → Settled ((EpOp.disable e).run s).st) := by
  cases hd : s.desc e with
  | none =>
    have hst : ((EpOp.disable e).run s).st = s := by
      show (s.udcEpDisable e).2 = s
      rw [Eps.udcEpDisable, hd, if_pos Option.isNone_none]
    refine ⟨iff_of_true ?_ fun hx => ?_, fun _ => hst.symm ▸ hs⟩
    · rw [EpOp.Exact, hst]
      exact ⟨hs.shown, hs.free, nofun⟩
    · rw [hd] at hx
      cases hx
  | some d =>
    have hst : ((EpOp.disable e).run s).st = { s with
        desc := Function.update s.desc e none
        fstopped := Function.update s.fstopped e true
        usbd := s.usbd.epDisable (address e)
        on := Function.update s.on e false } := by
      show (s.udcEpDisable e).2 = _
      rw [Eps.udcEpDisable, hd, Option.isNone_some, if_neg Bool.false_ne_true]
    have hon : s.on e = true := hs.desc e (by rw [hd]; rfl)
    have hplain : (EpOp.disable e).Plain s ↔ e.val < 8 := ⟨fun h => h (by rw [hd]; rfl), fun h _ => h⟩
    have hshown : Shown ((EpOp.disable e).run s).st ↔ e.val < 8 := by
      rw [hst]
      constructor
      · intro h
        have hbit : (s.usbd.epDisable (address e)).ena.getLsbD e = Function.update s.on e false e := h e
        rw [epDisable_ena, hs.shown e, hon, Function.update_self, Bool.true_and, Bool.not_eq_false',
          decide_eq_true_eq] at hbit
        exact hbit.2
      · intro h
        refine shown_update hs.shown fun i => ?_
        rw [epDisable_ena]
        split_ifs with hi
        · rw [hi, decide_eq_true ⟨rfl, h⟩, Bool.not_true, Bool.and_false]
        · rw [decide_eq_false fun hx => hi hx.1, Bool.not_false, Bool.and_true]
    have hfree : ((EpOp.disable e).run s).st.held = false := by
      rw [hst]
      exact hs.free
    refine ⟨⟨fun h => hplain.mpr (hshown.mp h.1), fun h => ⟨hshown.mpr (hplain.mp h), hfree, nofun⟩⟩, fun h => ?_⟩
    refine ⟨h.1, fun i hi => ?_, hfree⟩
    rw [hst] at hi ⊢
    change ((Function.update s.desc e none) i).isSome = true at hi
    change Function.update s.on e false i = true
    rw [Function.update_apply] at hi ⊢
    split_ifs at hi ⊢
    · cases hi
    · exact hs.desc i hi

theorem Settled.call (hs : Settled s) (op : EpOp) : (op.Exact s ↔ op.Plain s) ∧ (op.Exact s → Settled (op.run s).st) := by
  cases op with
  | enable e d => exact hs.enable e d
  | disable e => exact hs.disable e

end proofs

/-- Over every sequence of enables and disables, each call is exact if and only if each call is plain. -/
theorem enable_exact_iff (u : Usb.Usbd) (maxpacket : Fin 32 → Nat) (drv : Bool) (speed : Speed) (ops : List EpOp) :
    Along EpOp.run EpOp.Exact ops (.start u maxpacket drv speed) ↔
      Along EpOp.run EpOp.Plain ops (.start u maxpacket drv speed) :=
  Along.congr_of Settled.call ops (Settled.start u maxpacket drv speed)

/-! ## Calls that are not exact -/

/-- A high speed device after a bus reset, with 1000 bytes of packet memory. -/
def smallMemory : Eps :=
  .start (Usb.Usbd.init ⟨true, true, 3, 1000, 0x1000, by decide, Usb.buf_ge_low, Usb.buf_lt_low⟩).reset (fun _ => 1024) true .high

/-- A bulk endpoint with packets of 512 bytes. -/
def bulk (a : BitVec 8) : Desc := ⟨7, 5, a, 2, 512⟩

/-- The buffer of endpoint 1 OUT does not fit: the call returns `-EINVAL` with the lock taken and the memory of the buffer used up. With packets of 64 bytes endpoint 4
OUT fits; it is disabled and its bit stays. -/
theorem enable_not_exact :
    (smallMemory.udcEpEnable 2 (some (bulk 1))).1 = einval ∧ (smallMemory.udcEpEnable 2 (some (bulk 1))).2.held = true ∧
    (smallMemory.udcEpEnable 2 (some (bulk 1))).2.usbd.memp ≠ smallMemory.usbd.memp ∧
    ¬ Along EpOp.run EpOp.Exact [.enable 2 (some (bulk 1))] smallMemory ∧
    ((smallMemory.udcEpEnable 8 (some { bulk 4 with wMaxPacketSize := 64 })).2.udcEpDisable 8).1 = 0 ∧
    ((smallMemory.udcEpEnable 8 (some { bulk 4 with wMaxPacketSize := 64 })).2.udcEpDisable 8).2.usbd.ena.getLsbD 8 = true ∧
    ¬ Along EpOp.run EpOp.Exact [.enable 8 (some { bulk 4 with wMaxPacketSize := 64 }), .disable 8] smallMemory := by
  refine ⟨by decide +kernel, by decide +kernel, by decide +kernel, fun h => ?_, by decide +kernel, by decide +kernel,
    fun h => ?_⟩
  · have hheld : (smallMemory.udcEpEnable 2 (some (bulk 1))).2.held = true := by decide +kernel
    exact absurd (hheld.symm.trans h.1.2.1) nofun
  · have hon : ((smallMemory.udcEpEnable 8 (some { bulk 4 with wMaxPacketSize := 64 })).2.udcEpDisable 8).2.usbd.ena.getLsbD 8
      ≠ ((smallMemory.udcEpEnable 8 (some { bulk 4 with wMaxPacketSize := 64 })).2.udcEpDisable 8).2.on 8 := by decide +kernel
    exact hon (h.2.1.1 8)

end Emlinux.Gadget
