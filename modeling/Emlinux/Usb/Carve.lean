import Emlinux.Lib.Run

/-!
# The packet memory of the USB device controller

`usbd_ep_enable` and `usbd_cfg0` (`usbd.c`) carve the packet memory of the controller with a pointer that only grows, from the bus
reset on (`usbd_reinit`). An endpoint keeps the buffer it was first given: `tc[].ptr` is zero before that, and the
address of the buffer afterwards.

The buffers do not overlap as long as an enabled endpoint is enabled again only with a size that fits the buffer it has
(`Fitting`); one whose first enable failed has an offset in place of an address and must wait for the next
reset. At the reset itself, without ping-pong buffers the IN buffer of endpoint 0 is put at offset 64 whatever the start of
the memory is, which is wrong behind the NAK counters.
-/

namespace Emlinux.Usb

open Lib

/-- `usbd_err`, as far as the functions here return it. -/
inductive Err where
  | none
  | parm
  | cfg
deriving DecidableEq, Repr

/-- The endpoint descriptor `usb_ep_t`; bits 4 to 6 of an endpoint address are reserved and zero. -/
structure EpDesc where
  bLength : BitVec 8
  bDescriptorType : BitVec 8
  bEndpointAddress : BitVec 8
  bmAttributes : BitVec 8
  wMaxPacketSize : BitVec 16
  reserved : bEndpointAddress &&& 0x70#8 = 0

/-- `USBD_EP2HW`, in the byte it is assigned to. -/
def ep2hw (ep : BitVec 8) : BitVec 8 := (ep <<< 1) ||| (ep >>> 7)

/-- The flags and capabilities set before the first reset. The size is one plus a field of 13 bits, and the
buffer memory is the end of the register block, which starts `0x1000` bytes before it. -/
structure Caps where
  fpingpong : Bool
  fnak : Bool
  align : BitVec 8
  size : Nat
  buf : Nat
  size_le : size ≤ 8192
  buf_ge : 0x1000 ≤ buf
  buf_lt : buf + 8192 < 2 ^ 32

theorem buf_ge_low : 0x1000 ≤ 0x1000 := le_rfl

theorem buf_lt_low : 0x1000 + 8192 < 2 ^ 32 := by decide

/-- `USBD_TD_MAX`. -/
def tdMax : Nat := 32

/-- The bytes of the NAK counters. -/
def Caps.nak (k : Caps) : Nat := if k.fnak then tdMax else 0

/-- An endpoint has one buffer, or two with ping-pong. -/
def Caps.bufs (k : Caps) : Nat := if k.fpingpong then 2 else 1

/-- `usbd_tc_t`, the fields of the configuration. -/
structure Tc where
  adr : Nat
  cfg : Nat
  mps : Nat
  size : Nat
  npkt : Nat
  ptr : Nat
deriving DecidableEq

/-- `usbd_t`, with the buffer pointers in the transfer descriptors of the hardware. `ok` says which endpoints are configured since
the last reset, `carved` the size with which each got its buffer. -/
structure Usbd where
  caps : Caps
  memp : Nat
  tc : Nat → Tc
  xptr : Nat → Nat
  yptr : Nat → Nat
  ena : BitVec 32
  ok : Nat → Bool
  carved : Nat → Nat

namespace Usbd

variable (t : Usbd)

/-- `usbd_td_cfg`. -/
def tdCfg (i : Nat) : Usbd :=
  let c := t.tc i
  { t with
    xptr := Function.update t.xptr c.adr (c.ptr % 2 ^ 13)
    yptr := Function.update t.yptr c.adr ((c.ptr + c.size) % 2 ^ 13)
    tc := Function.update t.tc i { c with ptr := (c.ptr + t.caps.buf) % 2 ^ 32 }
    ena := t.ena ||| 1#32 <<< c.adr }

/-- `usbd_reinit`. -/
def reinit : Usbd :=
  { t with memp := t.caps.nak, tc := fun i => { t.tc i with ptr := 0 }, ok := fun _ => false }

/-- `usbd_cfg0`. -/
def cfg0 : Usbd :=
  let out := { t.tc 0 with mps := 64, size := 64, npkt := 1, ptr := t.memp }
  let inp := { out with adr := 1, ptr := if t.caps.fpingpong then out.ptr + out.size * 2 else out.size }
  let t := { t with
    tc := Function.update (Function.update t.tc 0 out) 1 inp
    memp := (t.memp + if t.caps.fpingpong then inp.size * 4 else inp.size * 2) % 2 ^ 16
    ok := fun i => decide (i < 2)
    carved := fun i => if i < 2 then 64 else t.carved i }
  (t.tdCfg 0).tdCfg 1

/-- The bus reset of `usbd_isr`. -/
def reset : Usbd := t.reinit.cfg0

end Usbd

/-- The checks of `usbd_ep_enable`. -/
def EpDesc.accepted (ep : EpDesc) : Bool :=
  let mps := ep.wMaxPacketSize.toNat % 2048
  let npkt := ep.wMaxPacketSize.toNat / 2048
  !(ep.bLength < 6#8 || ep.bDescriptorType != 5#8 || ep.bEndpointAddress &&& 0x7F#8 == 0
    || ep.bmAttributes &&& 0xC0#8 != 0 || ep.wMaxPacketSize &&& 0xE000#16 != 0)
  && !(mps > 1024)
  && !(ep.bmAttributes &&& 3#8 != 1#8 && (ep.bmAttributes > 3#8 || npkt ≠ 0))

/-- The buffer size for a descriptor: the packets of a microframe, aligned for the DMA. -/
def EpDesc.bufSize (ep : EpDesc) (align : BitVec 8) : Nat :=
  let size := ep.wMaxPacketSize.toNat % 2048 * (ep.wMaxPacketSize.toNat / 2048 + 1) % 2 ^ 16
  if align ≠ 0 then (BitVec.ofNat 16 (size + align.toNat) &&& ~~~(align.zeroExtend 16)).toNat else size

/-- The hardware number of the endpoint. -/
def EpDesc.id (ep : EpDesc) : Nat := (ep2hw ep.bEndpointAddress).toNat

namespace Usbd

variable (t : Usbd)

/-- The fields of `tc` that `usbd_ep_enable` fills in before it looks at the buffer. -/
def fillTc (ep : EpDesc) : Tc where
  adr := ep.id
  cfg := [0, 3, 1, 2].getD (ep.bmAttributes &&& 3#8).toNat 0
  mps := ep.wMaxPacketSize.toNat % 2048
  size := ep.bufSize t.caps.align
  npkt := ep.wMaxPacketSize.toNat / 2048 + 1
  ptr := (t.tc ep.id).ptr

/-- `usbd_ep_enable`. -/
def epEnable (ep : EpDesc) : Err × Usbd :=
  if !ep.accepted then (.parm, t)
  else
    let id := ep.id
    let c := t.fillTc ep
    if c.ptr = 0 then
      let c := { c with ptr := t.memp }
      let t := { t with
        tc := Function.update t.tc id c, memp := (t.memp + t.caps.bufs * c.size) % 2 ^ 16
        carved := Function.update t.carved id c.size }
      if t.memp > t.caps.size then (.cfg, t)
      else (.none, { t with ok := Function.update t.ok id true }.tdCfg id)
    else
      -- preconfigured, just enabled again
      let c := { c with ptr := (c.ptr + 2 ^ 32 - t.caps.buf) % 2 ^ 32 }
      (.none, { t with tc := Function.update t.tc id c, ok := Function.update t.ok id true }.tdCfg id)

/-- `usbd_ep_disable`; the bit of the endpoint is computed in a byte. -/
def epDisable (ep : BitVec 8) : Usbd := { t with ena := t.ena &&& ~~~((1#8 <<< ep2hw ep).zeroExtend 32) }

/-- `usbd_init` leaves the context zeroed and reinitialised. -/
def init (k : Caps) : Usbd :=
  Usbd.reinit ⟨k, 0, fun _ => ⟨0, 0, 0, 0, 0, 0⟩, fun _ => 0, fun _ => 0, 0, fun _ => false, fun _ => 0⟩

end Usbd

inductive CarveAction where
  | reset
  | enable (ep : EpDesc)
  | disable (ep : BitVec 8)

def Usbd.step (t : Usbd) : CarveAction → Option Usbd
  | .reset => some t.reset
  | .enable ep => some (t.epEnable ep).2
  | .disable ep => some (t.epDisable ep)

/-- The byte `a` of the packet memory belongs to the endpoint. -/
def Usbd.owns (t : Usbd) (i a : Nat) : Prop := t.xptr i ≤ a ∧ a < t.xptr i + t.caps.bufs * (t.tc i).size

/-- The buffers of the configured endpoints and the NAK counters lie apart and inside the memory. -/
structure Apart (t : Usbd) : Prop where
  inside : ∀ i a, t.ok i = true → t.owns i a → a < t.caps.size
  disjoint : ∀ i j a, t.ok i = true → t.ok j = true → i ≠ j → t.owns i a → ¬ t.owns j a
  nak_inside : t.caps.nak ≤ t.caps.size
  nak : ∀ i a, t.ok i = true → t.owns i a → t.caps.nak ≤ a

/-- The reset finds room for the buffers of endpoint 0 and does not misplace them; a new buffer does not wrap the carving
pointer; an endpoint is enabled again only after a successful enable, with a size that fits its buffer. -/
def Fitting (t : Usbd) : CarveAction → Prop
  | .reset => (t.caps.fpingpong = true ∨ t.caps.fnak = false) ∧ t.caps.nak + t.caps.bufs * 128 ≤ t.caps.size
  | .enable ep => ep.accepted = true →
      if (t.tc ep.id).ptr = 0 then t.memp + t.caps.bufs * ep.bufSize t.caps.align < 2 ^ 16
      else t.ok ep.id = true ∧ ep.bufSize t.caps.align ≤ t.carved ep.id
  | .disable _ => True

/-! ## The invariant -/

/-- A configured endpoint has a buffer between the NAK counters and the carving pointer, of the size it was carved with. -/
structure Carving (t : Usbd) : Prop where
  adr : (t.tc 0).adr = 0
  memp : t.caps.nak ≤ t.memp
  nak : t.caps.nak ≤ t.caps.size
  fits : ∀ i, t.ok i = true → ∃ o, (t.tc i).ptr = o + t.caps.buf ∧ t.xptr i = o % 2 ^ 13 ∧ t.caps.nak ≤ o ∧
    o + t.caps.bufs * t.carved i ≤ t.memp ∧ o + t.caps.bufs * t.carved i ≤ t.caps.size ∧ (t.tc i).size ≤ t.carved i
  apart : ∀ i j o o', t.ok i = true → t.ok j = true → i ≠ j → (t.tc i).ptr = o + t.caps.buf →
    (t.tc j).ptr = o' + t.caps.buf → o + t.caps.bufs * t.carved i ≤ o' ∨ o' + t.caps.bufs * t.carved j ≤ o

variable {t : Usbd}

/-- Where a configured endpoint's bytes are. -/
theorem Carving.owns (h : Carving t) {i a : Nat} (hi : t.ok i = true) (ha : t.owns i a) :
    ∃ o, (t.tc i).ptr = o + t.caps.buf ∧ t.caps.nak ≤ o ∧ o ≤ a ∧ a < o + t.caps.bufs * t.carved i ∧
      o + t.caps.bufs * t.carved i ≤ t.caps.size := by
  obtain ⟨o, hp, hx, hn, -, hs, hc⟩ := h.fits i hi
  obtain ⟨h1, h2⟩ := ha
  have hmul : t.caps.bufs * (t.tc i).size ≤ t.caps.bufs * t.carved i := Nat.mul_le_mul_left _ hc
  have hle := t.caps.size_le
  have ho : o < 2 ^ 13 := by
    -- a byte of the buffer lies at or behind its start
    rcases Nat.lt_or_ge o (2 ^ 13) with ho | ho
    · exact ho
    · omega
  rw [hx, Nat.mod_eq_of_lt ho] at h1 h2
  exact ⟨o, hp, hn, h1, by omega, hs⟩

theorem Carving.sound (h : Carving t) : Apart t where
  inside := by
    intro i a hi ha
    obtain ⟨o, -, -, -, h1, h2⟩ := h.owns hi ha
    omega
  disjoint := by
    intro i j a hi hj hij ha ha'
    obtain ⟨o, hp, -, h1, h2, -⟩ := h.owns hi ha
    obtain ⟨o', hp', -, h1', h2', -⟩ := h.owns hj ha'
    rcases h.apart i j o o' hi hj hij hp hp' with hx | hx <;> omega
  nak_inside := h.nak
  nak := by
    intro i a hi ha
    obtain ⟨o, -, h1, h2, -, -⟩ := h.owns hi ha
    omega

theorem Carving.init (k : Caps) (hk : k.nak ≤ k.size) : Carving (.init k) where
  adr := rfl
  memp := le_refl _
  nak := hk
  fits := fun i hi => (by cases hi)
  apart := fun i j o o' hi => (by cases hi)

theorem Caps.nak_le (k : Caps) : k.nak ≤ 32 := by
  unfold Caps.nak tdMax
  split_ifs <;> omega

/-- The offset that `usbd_cfg0` gives to the IN buffer of endpoint 0. -/
def Caps.inOffset (k : Caps) : Nat := if k.fpingpong then k.nak + 64 * 2 else 64

theorem reset_out (hadr : (t.tc 0).adr = 0) : (t.reset.tc 0).ptr = (t.caps.nak + t.caps.buf) % 2 ^ 32 ∧
    (t.reset.tc 0).size = 64 ∧ (t.reset.tc 0).adr = 0 ∧ t.reset.xptr 0 = t.caps.nak % 2 ^ 13 := by
  simp [Usbd.reset, Usbd.cfg0, Usbd.reinit, Usbd.tdCfg, hadr]

theorem reset_in : (t.reset.tc 1).ptr = (t.caps.inOffset + t.caps.buf) % 2 ^ 32 ∧
    (t.reset.tc 1).size = 64 ∧ t.reset.xptr 1 = t.caps.inOffset % 2 ^ 13 := by
  simp only [Usbd.reset, Usbd.cfg0, Usbd.reinit, Usbd.tdCfg, Caps.inOffset, Function.update_self, ne_eq, one_ne_zero,
    not_false_eq_true, Function.update_of_ne]
  exact ⟨rfl, trivial, rfl⟩

theorem reset_memp : t.reset.memp = (t.caps.nak + t.caps.bufs * 128) % 2 ^ 16 := by
  by_cases hf : t.caps.fpingpong = true
  · simp [Usbd.reset, Usbd.cfg0, Usbd.reinit, Usbd.tdCfg, Caps.bufs, hf]
  · simp [Usbd.reset, Usbd.cfg0, Usbd.reinit, Usbd.tdCfg, Caps.bufs, hf]

theorem Carving.reset (h : Carving t) (hok : Fitting t .reset) : Carving t.reset := by
  obtain ⟨hpp, hroom⟩ := hok
  have hnak := t.caps.nak_le
  have hb := t.caps.buf_lt
  have hs := t.caps.size_le
  have hbufs : t.caps.bufs = 1 ∨ t.caps.bufs = 2 := by
    unfold Caps.bufs
    split_ifs <;> simp
  have hin : t.caps.inOffset = t.caps.nak + t.caps.bufs * 64 := by
    unfold Caps.inOffset Caps.bufs Caps.nak
    rcases hpp with hp | hn
    · simp [hp]
    · simp [hn]
  obtain ⟨o1, o2, o3, o4⟩ := reset_out h.adr
  obtain ⟨i1, i2, i3⟩ := reset_in (t := t)
  have hm : t.reset.memp = t.caps.nak + t.caps.bufs * 128 := by
    rw [reset_memp, Nat.mod_eq_of_lt (by omega)]
  have hok : ∀ i, t.reset.ok i = true → i = 0 ∨ i = 1 := by
    intro i hi
    have : i < 2 := of_decide_eq_true hi
    omega
  have hc0 : t.reset.carved 0 = 64 := rfl
  have hc1 : t.reset.carved 1 = 64 := rfl
  have hp0 : (t.reset.tc 0).ptr = t.caps.nak + t.caps.buf := by rw [o1, Nat.mod_eq_of_lt (by omega)]
  have hp1 : (t.reset.tc 1).ptr = t.caps.nak + t.caps.bufs * 64 + t.caps.buf := by
    rw [i1, hin, Nat.mod_eq_of_lt (by rcases hbufs with hx | hx <;> rw [hx] at hroom ⊢ <;> omega)]
  have hk : t.reset.caps = t.caps := rfl
  refine ⟨o3, by rw [hm, hk]; omega, h.nak, fun i hi => ?_, fun i j o o' hi hj hij hp hp' => ?_⟩
  · rw [hk, hm]
    rcases hok i hi with rfl | rfl
    · exact ⟨_, hp0, o4, le_refl _, by rw [hc0]; omega, by rw [hc0]; omega, by rw [o2, hc0]⟩
    · exact ⟨_, hp1, by rw [i3, hin], by omega, by rw [hc1]; omega, by rw [hc1]; omega, by rw [i2, hc1]⟩
  · rw [hk] at hp hp' ⊢
    rcases hok i hi with rfl | rfl <;> rcases hok j hj with rfl | rfl
    · exact absurd rfl hij
    · rw [hc0, hc1]
      omega
    · rw [hc0, hc1]
      omega
    · exact absurd rfl hij

theorem EpDesc.id_ge (ep : EpDesc) (ha : ep.accepted = true) : 2 ≤ ep.id := by
  have key : ∀ a : BitVec 8, a &&& 0x7F#8 ≠ 0 → 2 ≤ (ep2hw a).toNat := by decide +kernel
  apply key
  intro h0
  unfold EpDesc.accepted at ha
  simp [h0] at ha

/-- The context with the buffer of endpoint `id` at offset `o`. -/
def Usbd.placed (t : Usbd) (c : Tc) (id o : Nat) : Usbd :=
  Usbd.tdCfg { t with tc := Function.update t.tc id { c with ptr := o }, ok := Function.update t.ok id true } id

theorem placed_other {c : Tc} {id i o : Nat} (hc : c.adr = id) (hi : i ≠ id) :
    (t.placed c id o).tc i = t.tc i ∧ (t.placed c id o).xptr i = t.xptr i ∧ (t.placed c id o).ok i = t.ok i := by
  simp [Usbd.placed, Usbd.tdCfg, hc, hi]

theorem placed_self {c : Tc} {id o : Nat} (hc : c.adr = id) (ho : o ≤ 8192) :
    ((t.placed c id o).tc id).ptr = o + t.caps.buf ∧ ((t.placed c id o).tc id).size = c.size ∧
      (t.placed c id o).xptr id = o % 2 ^ 13 := by
  have hb := t.caps.buf_lt
  simp [Usbd.placed, Usbd.tdCfg, hc]
  omega

/-- Placing an endpoint inside a free part of the memory, or again inside its own buffer. -/
theorem Carving.placed (h : Carving t) {c : Tc} {id o m s : Nat} (hid : 2 ≤ id) (hc : c.adr = id) (hm : t.memp ≤ m)
    (ho : t.caps.nak ≤ o) (hend : o + t.caps.bufs * s ≤ m) (hsize : o + t.caps.bufs * s ≤ t.caps.size) (hcs : c.size ≤ s)
    (hfree : ∀ j o', j ≠ id → t.ok j = true → (t.tc j).ptr = o' + t.caps.buf →
      o' + t.caps.bufs * t.carved j ≤ o ∨ o + t.caps.bufs * s ≤ o') :
    Carving (Usbd.placed { t with memp := m, carved := Function.update t.carved id s } c id o) := by
  have hle := t.caps.size_le
  obtain ⟨s1, s2, s3⟩ := placed_self (t := { t with memp := m, carved := Function.update t.carved id s }) (o := o) hc (by omega)
  have hoth := fun i => placed_other (t := { t with memp := m, carved := Function.update t.carved id s }) (o := o) (i := i) hc
  have hcar : ∀ i, i ≠ id → Function.update t.carved id s i = t.carved i := fun i hi => Function.update_of_ne hi _ _
  refine ⟨?_, ?_, h.nak, fun i hi => ?_, fun i j x x' hi hj hij hx hx' => ?_⟩
  · rw [(hoth 0 (by omega)).1]
    exact h.adr
  · exact Nat.le_trans h.memp hm
  · by_cases hie : i = id
    · subst hie
      refine ⟨o, s1, s3, ho, ?_, ?_, ?_⟩
      · show o + t.caps.bufs * Function.update t.carved i s i ≤ m
        rw [Function.update_self]
        exact hend
      · show o + t.caps.bufs * Function.update t.carved i s i ≤ t.caps.size
        rw [Function.update_self]
        exact hsize
      · show _ ≤ Function.update t.carved i s i
        rw [Function.update_self, s2]
        exact hcs
    · obtain ⟨t1, t2, t3⟩ := hoth i hie
      rw [t3] at hi
      obtain ⟨x, x1, x2, x3, x4, x5, x6⟩ := h.fits i hi
      refine ⟨x, by rw [t1]; exact x1, by rw [t2]; exact x2, x3, ?_, ?_, ?_⟩
      · show x + t.caps.bufs * Function.update t.carved id s i ≤ m
        rw [hcar i hie]
        omega
      · show x + t.caps.bufs * Function.update t.carved id s i ≤ t.caps.size
        rw [hcar i hie]
        exact x5
      · show _ ≤ Function.update t.carved id s i
        rw [hcar i hie, t1]
        exact x6
  · show x + t.caps.bufs * Function.update t.carved id s i ≤ x' ∨ x' + t.caps.bufs * Function.update t.carved id s j ≤ x
    by_cases hie : i = id <;> by_cases hje : j = id
    · exact absurd (hie.trans hje.symm) hij
    · subst hie
      obtain ⟨t1, -, t3⟩ := hoth j hje
      rw [t3] at hj
      rw [t1] at hx'
      rw [s1] at hx
      rw [Function.update_self, hcar j hje]
      have hxo : x = o := Nat.add_right_cancel hx.symm
      subst hxo
      exact (hfree j x' hje hj hx').symm
    · subst hje
      obtain ⟨t1, -, t3⟩ := hoth i hie
      rw [t3] at hi
      rw [t1] at hx
      rw [s1] at hx'
      rw [Function.update_self, hcar i hie]
      have hxo : x' = o := Nat.add_right_cancel hx'.symm
      subst hxo
      exact hfree i x hie hi hx
    · obtain ⟨t1, -, t3⟩ := hoth i hie
      obtain ⟨t1', -, t3'⟩ := hoth j hje
      rw [t3] at hi
      rw [t3'] at hj
      rw [t1] at hx
      rw [t1'] at hx'
      rw [hcar i hie, hcar j hje]
      exact h.apart i j x x' hi hj hij hx hx'

theorem Carving.enable (h : Carving t) {ep : EpDesc} (hok : Fitting t (.enable ep)) : Carving (t.epEnable ep).2 := by
  unfold Usbd.epEnable
  split_ifs with hacc
  · exact h
  have hacc' : ep.accepted = true := by simpa using hacc
  have hid := ep.id_ge hacc'
  have hfit := hok hacc'
  have hbuf := t.caps.buf_ge
  dsimp only
  split_ifs with hp hm
  · -- the memory is exceeded: only the endpoint that is not configured has changed
    have hp0 : (t.tc ep.id).ptr = 0 := hp
    rw [if_pos hp0] at hfit
    have hne : ∀ i, t.ok i = true → i ≠ ep.id := by
      intro i hi hx
      obtain ⟨o, ho, -⟩ := h.fits i hi
      rw [hx, hp0] at ho
      omega
    have hmem : (t.memp + t.caps.bufs * ep.bufSize t.caps.align) % 2 ^ 16 = t.memp + t.caps.bufs * ep.bufSize t.caps.align :=
      Nat.mod_eq_of_lt hfit
    refine ⟨?_, ?_, h.nak, fun i hi => ?_, fun i j o o' hi hj hij ho ho' => ?_⟩
    · dsimp only
      rw [Function.update_of_ne (by omega)]
      exact h.adr
    · show t.caps.nak ≤ (t.memp + t.caps.bufs * ep.bufSize t.caps.align) % 2 ^ 16
      have := h.memp
      omega
    · dsimp only at hi ⊢
      rw [Function.update_of_ne (hne i hi), Function.update_of_ne (hne i hi)]
      obtain ⟨o, x1, x2, x3, x4, x5, x6⟩ := h.fits i hi
      refine ⟨o, x1, x2, x3, ?_, x5, x6⟩
      show o + t.caps.bufs * t.carved i ≤ (t.memp + t.caps.bufs * ep.bufSize t.caps.align) % 2 ^ 16
      omega
    · dsimp only at hi hj ho ho' ⊢
      rw [Function.update_of_ne (hne i hi)] at ho ⊢
      rw [Function.update_of_ne (hne j hj)] at ho' ⊢
      exact h.apart i j o o' hi hj hij ho ho'
  · have hp0 : (t.tc ep.id).ptr = 0 := hp
    rw [if_pos hp0] at hfit
    have hmem : (t.memp + t.caps.bufs * ep.bufSize t.caps.align) % 2 ^ 16 = t.memp + t.caps.bufs * ep.bufSize t.caps.align :=
      Nat.mod_eq_of_lt hfit
    have hm' : (t.memp + t.caps.bufs * ep.bufSize t.caps.align) % 2 ^ 16 ≤ t.caps.size := Nat.le_of_not_lt hm
    refine h.placed (c := t.fillTc ep) (o := t.memp) (m := (t.memp + t.caps.bufs * ep.bufSize t.caps.align) % 2 ^ 16)
      (s := ep.bufSize t.caps.align) hid rfl (by omega) h.memp (by omega) (by omega) (le_refl _) (fun j o' hj hjo ho' => ?_)
    obtain ⟨o, x1, -, -, x4, -, -⟩ := h.fits j hjo
    have : o = o' := Nat.add_right_cancel (x1.symm.trans ho')
    subst this
    exact Or.inl x4
  · have hp0 : (t.tc ep.id).ptr ≠ 0 := hp
    rw [if_neg hp0] at hfit
    obtain ⟨hon, hsz⟩ := hfit
    obtain ⟨o, x1, x2, x3, x4, x5, x6⟩ := h.fits ep.id hon
    have hb := t.caps.buf_lt
    have hs := t.caps.size_le
    have hoff : ((t.tc ep.id).ptr + 2 ^ 32 - t.caps.buf) % 2 ^ 32 = o := by
      rw [x1]
      omega
    have hcar : Function.update t.carved ep.id (t.carved ep.id) = t.carved := Function.update_eq_self _ _
    have hpl := h.placed (c := t.fillTc ep) (o := o) (m := t.memp) (s := t.carved ep.id) hid rfl (le_refl _) x3 x4 x5 hsz
      (fun j o' hj hjo ho' => h.apart j ep.id o' o hjo hon hj ho' x1)
    rw [hcar] at hpl
    have heq : (t.fillTc ep).ptr = (t.tc ep.id).ptr := rfl
    rw [heq, hoff]
    exact hpl

/-- From the initialised controller, through resets and enables that fit, the buffers lie apart. -/
theorem packet_memory_apart (k : Caps) (hk : k.nak ≤ k.size) (t : Usbd) (h : Run Usbd.step Fitting (.init k) t) : Apart t := by
  have hc : Carving t := by
    refine h.invariant (Carving.init k hk) (fun t a u ht ha hu => ?_)
    cases a with
    | reset =>
      cases hu
      exact ht.reset ha
    | enable ep =>
      cases hu
      exact ht.enable ha
    | disable ep =>
      cases hu
      exact ⟨ht.adr, ht.memp, ht.nak, ht.fits, ht.apart⟩
  exact hc.sound

/-- A controller with 4096 bytes, 32-bit alignment and no ping-pong buffers. -/
def plainCaps (fnak : Bool) : Caps := ⟨false, fnak, 3#8, 4096, 0x1000, by decide, buf_ge_low, buf_lt_low⟩

/-- A bulk endpoint with packets of up to `mps` bytes. -/
def bulk (adr : BitVec 8) (mps : BitVec 16) (h : adr &&& 0x70#8 = 0) : EpDesc := ⟨7, 5, adr, 2, mps, h⟩

instance (t : Usbd) : (a : CarveAction) → Decidable (Fitting t a)
  | .reset => inferInstanceAs (Decidable ((t.caps.fpingpong = true ∨ t.caps.fnak = false) ∧
      t.caps.nak + t.caps.bufs * 128 ≤ t.caps.size))
  | .enable ep => inferInstanceAs (Decidable (ep.accepted = true →
      if (t.tc ep.id).ptr = 0 then t.memp + t.caps.bufs * ep.bufSize t.caps.align < 2 ^ 16
      else t.ok ep.id = true ∧ ep.bufSize t.caps.align ≤ t.carved ep.id))
  | .disable _ => inferInstanceAs (Decidable True)

theorem packet_memory_apart_two_endpoints :
    ∃ t, Run Usbd.step Fitting (.init (plainCaps false)) t ∧ Apart t ∧ (t.ok 2 = true ∧ t.ok 3 = true ∧ t.memp = 704) := by
  have h : Run Usbd.step Fitting (.init (plainCaps false)) _ :=
    .of_isSome [.reset, .enable (bulk 0x01#8 64#16 rfl), .enable (bulk 0x81#8 512#16 rfl), .disable 0x01#8,
      .enable (bulk 0x01#8 8#16 rfl)] (by decide +kernel)
  exact ⟨_, h, packet_memory_apart _ (by decide) _ h, by decide +kernel⟩

/-- With NAK counters and without ping-pong the two buffers of endpoint 0 overlap right after the reset; and an endpoint enabled again with
larger packets runs into the buffer of the next one. -/
theorem packet_memory_overlap :
    (∃ t, Run Usbd.step free (.init (plainCaps true)) t ∧ t.ok 0 = true ∧ t.ok 1 = true ∧ t.owns 0 64 ∧ t.owns 1 64) ∧
    ∃ t, Run Usbd.step free (.init (plainCaps false)) t ∧ t.ok 2 = true ∧ t.ok 3 = true ∧ t.owns 2 136 ∧ t.owns 3 136 := by
  unfold Usbd.owns
  constructor
  · have h : Run Usbd.step free (.init (plainCaps true)) _ := .of_isSome [.reset] (by decide +kernel)
    exact ⟨_, h, by decide +kernel⟩
  · have h : Run Usbd.step free (.init (plainCaps false)) _ :=
      .of_isSome [.reset, .enable (bulk 0x01#8 8#16 rfl), .enable (bulk 0x81#8 8#16 rfl), .enable (bulk 0x01#8 64#16 rfl)]
        (by decide +kernel)
    exact ⟨_, h, by decide +kernel⟩

end Emlinux.Usb
