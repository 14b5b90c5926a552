import Emlinux.Usb.Pio
import Emlinux.Usb.Carve

/-!
# The interrupt routine of the USB device controller

`usbd_isr` reads the done register first, then reports a disconnect, a bus reset, a suspend, a resume and the change to
high speed to its client, services the buffers, and only then goes through the done bits that it has read. The client is any function that may
call the endpoint functions of `usbd.c`; it is told of each signal, each completion and each protocol stall.

A done bit completes whatever request its descriptor holds at its turn. It is one that was loaded after the done register was
read (`fresh`) for some client exactly when some event that can come before the turn of the bit lets the client load the
descriptor (`done_fresh_iff`); `may e i` says that a client loads descriptor `i` when it is told of `e`.
-/

namespace Emlinux.Usbd

open Lib

/-- What the client is told: `USBD_EV_XXX`, or the completion of a request. -/
inductive Cause where
  | disc
  | rst
  | susp
  | rsm
  | hspd
  | stall
  | done (i : Nat)
deriving DecidableEq, Repr

/-- `usbd_t`: the configuration, and for each descriptor the request it is loaded with and its toggle. `op` and `stall` are registers,
those that are only written are left out. `fresh` and `taken` are the record of the current call: the descriptors that were loaded
in it, and the completed ones, with whether they were. -/
structure Ctl where
  cfg : Usb.Usbd
  rq : Nat → Option Rq
  x : Nat → Bool
  mem : Mem
  op : BitVec 32
  stall : BitVec 32
  fresh : Nat → Bool
  taken : List (Nat × Bool)

/-- The registers as one call reads them; `rem i` is the rest of the transfer of descriptor `i`, and the buffer status words are those that have
stopped changing. -/
structure Regs where
  sta : BitVec 32
  intr : BitVec 32
  done : BitVec 32
  xsta : BitVec 32
  ysta : BitVec 32
  rem : Nat → BitVec 32

def Regs.st (r : Regs) : BitVec 32 := r.sta &&& r.intr

/-- `d`, read under `USBD_STA_DONE`. -/
def Regs.d (r : Regs) : BitVec 32 := if r.st.getLsbD 9 then r.done else 0

/-- The functions of `usbd.c` that a client calls. -/
inductive Call where
  | io (ep : BitVec 8) (rq : Rq)
  | abort (ep : BitVec 8)
  | stall (ep : BitVec 8) (on : Bool)
  | enable (ep : Usb.EpDesc)
  | disable (ep : BitVec 8)

/-- The descriptor of an endpoint address. -/
def hw (ep : BitVec 8) : Nat := (Usb.ep2hw ep).toNat

namespace Ctl

variable (s : Ctl)

/-- `usbd_ep_io`. -/
def epIo (ep : BitVec 8) (rq : Rq) : Ctl :=
  { s with
    rq := Function.update s.rq (hw ep) (some { rq with actual := 0, actual_le := rq.len_nonneg })
    fresh := Function.update s.fresh (hw ep) true }

/-- `usbd_ep_abort`. -/
def epAbort (ep : BitVec 8) : Ctl :=
  if (s.rq (hw ep)).isSome then
    { s with rq := Function.update s.rq (hw ep) none, x := Function.update s.x (hw ep) false }
  else s

/-- `usbd_ep_stall`. -/
def epStall (ep : BitVec 8) (on : Bool) : Ctl :=
  if s.stall.getLsbD (hw ep) = on then s else { s with stall := s.stall ^^^ 1#32 <<< hw ep }

def run : Call → Ctl
  | .io ep rq => s.epIo ep rq
  | .abort ep => s.epAbort ep
  | .stall ep on => s.epStall ep on
  | .enable ep => { s with cfg := (s.cfg.epEnable ep).2 }
  | .disable ep => { s with cfg := s.cfg.epDisable ep }

/-- `usbd_reinit` and `usbd_cfg0`. -/
def reset : Ctl := { s with cfg := s.cfg.reset, rq := fun _ => none, x := fun _ => false }

/-- What `usbd_pio_evt` sees. -/
def link : Link := ⟨s.cfg.caps.fpingpong, fun i => ⟨(s.cfg.tc i).size, s.x i, (s.cfg.tc i).ptr, s.rq i⟩, s.mem⟩

/-- `usbd_pio_evt`. -/
def pioEvt (xsta ysta : BitVec 32) : Ctl :=
  let l := (usbdPioEvt ⟨xsta, ysta, s.mem⟩ s.link).st
  { s with rq := fun i => (l.tc i).rq, x := fun i => (l.tc i).x, mem := l.mem }

end Ctl

/-- A client with memory `σ`: it sees the controller, and the request and the length of a completion. -/
def Client (σ : Type) : Type := Cause → Option (Rq × Int) → Ctl → σ → List Call × σ

section isr

variable {σ : Type} (h : Client σ) (r : Regs)

/-- `t->evt(t->ctx, ..)`. -/
def deliver (e : Cause) (rq : Option (Rq × Int)) (w : Ctl × σ) : Ctl × σ :=
  let out := h e rq w.1 w.2
  (out.1.foldl Ctl.run w.1, out.2)

/-- The parts of `usbd_isr`, in its order. -/
inductive Turn where
  | sig (e : Cause)
  | pio
  | bit (i : Nat)
deriving DecidableEq, Repr

/-- `rq->actual`: for an OUT descriptor `USBD_TDSIZ_XFR` is what has not come. -/
def actualLen (i : Nat) (rq : Rq) : Int :=
  if i % 2 = 1 then rq.len else rq.len - ((r.rem i &&& 0x7FFFF#32).toNat : Int)

/-- A done bit. -/
def bitTurn (i : Nat) (w : Ctl × σ) : Ctl × σ :=
  match w.1.rq i with
  | none =>
    if i < 2 ∧ w.1.stall.getLsbD i then
      -- protocol stall of endpoint 0
      deliver h .stall none ({ w.1 with stall := w.1.stall &&& ~~~(1#32 <<< i) }, w.2)
    else w
  | some rq =>
    deliver h (.done i) (some (rq, actualLen r i rq))
      ({ w.1 with rq := Function.update w.1.rq i none, taken := w.1.taken ++ [(i, w.1.fresh i)] }, w.2)

def turn (w : Ctl × σ) : Turn → Ctl × σ
  | .sig .rst => deliver h .rst none (w.1.reset, w.2)
  -- the wakeup bit is cleared
  | .sig .rsm => deliver h .rsm none ({ w.1 with op := w.1.op &&& ~~~2#32 }, w.2)
  | .sig e => deliver h e none w
  | .pio => (w.1.pioEvt r.xsta r.ysta, w.2)
  | .bit i => bitTurn h r i w

def allTurns : List Turn :=
  [.sig .disc, .sig .rst, .sig .susp, .sig .rsm, .sig .hspd, .pio] ++ (List.range 32).map .bit

/-- The bits of the status and done words. -/
def Regs.occurs : Turn → Bool
  | .sig .disc => r.st.getLsbD 5
  | .sig .rst => r.st.getLsbD 4
  | .sig .susp => r.st.getLsbD 2
  | .sig .rsm => r.st.getLsbD 1
  | .sig .hspd => r.st.getLsbD 3
  | .sig _ => false
  | .pio => r.st.getLsbD 8
  | .bit i => r.d.getLsbD i

def Regs.turns : List Turn := allTurns.filter r.occurs

/-- `usbd_isr`, from the reading of the registers on. -/
def usbdIsr (w : Ctl × σ) : Ctl × σ :=
  r.turns.foldl (turn h r) ({ w.1 with fresh := fun _ => false, taken := [] }, w.2)

end isr

/-! ## What can come before a done bit -/

/-- No completed request was loaded during the call. -/
def NoneFresh (s : Ctl) : Prop := ∀ i, (i, true) ∉ s.taken

/-- The client loads only what it may. -/
def Respects {σ : Type} (may : Cause → Nat → Prop) (h : Client σ) : Prop :=
  ∀ e rq s c, ∀ call ∈ (h e rq s c).1, ∀ ep q, call = .io ep q → may e (hw ep)

section before

variable (r : Regs) (s : Ctl)

/-- Some event can come before the turn of bit `j`: a signal, or an earlier bit with a request or a protocol stall. -/
def Heard (j : Nat) : Prop :=
  (∃ e, r.occurs (.sig e) = true) ∨
    ∃ k < j, r.occurs (.bit k) = true ∧ (s.rq k ≠ none ∨ (k < 2 ∧ s.stall.getLsbD k = true))

/-- The events that can come before the turn of bit `i`, with no bus reset between. A protocol stall is reported for a bit
of endpoint 0 without request; the client can abort and stall it when it is told of something before. -/
def Before (i : Nat) : Cause → Prop
  | .done j => j < i ∧ r.occurs (.bit j) = true ∧ s.rq j ≠ none ∧ r.occurs (.sig .rst) = false
  | .stall => ∃ j < i, j < 2 ∧ r.occurs (.bit j) = true ∧
      (Heard r s j ∨ (s.rq j = none ∧ s.stall.getLsbD j = true))
  | .disc => r.occurs (.sig .disc) = true ∧ r.occurs (.sig .rst) = false
  | e => r.occurs (.sig e) = true

/-- No event that can come before the turn of a latched done bit lets the client load its descriptor. -/
def Settled (may : Cause → Nat → Prop) : Prop :=
  ∀ i < 32, r.occurs (.bit i) = true → ∀ e, Before r s i e → ¬ may e i

end before

/-! ## What a delivery changes -/

section deliver

variable {σ : Type} {h : Client σ} {r : Regs} {s s' s'' : Ctl}

/-- Only descriptors in `L` are loaded. -/
structure Loads (L : Nat → Prop) (s s' : Ctl) : Prop where
  taken : s'.taken = s.taken
  others : ∀ i, ¬ L i → (s'.rq i = s.rq i ∨ s'.rq i = none) ∧ s'.fresh i = s.fresh i
  old : ∀ i, s'.rq i ≠ none → s'.fresh i = false → s.rq i ≠ none ∧ s.fresh i = false

theorem Loads.refl (L : Nat → Prop) (s : Ctl) : Loads L s s :=
  ⟨rfl, fun _ _ => ⟨Or.inl rfl, rfl⟩, fun _ hrq hf => ⟨hrq, hf⟩⟩

theorem Loads.trans {L : Nat → Prop} (h₁ : Loads L s s') (h₂ : Loads L s' s'') : Loads L s s'' where
  taken := h₂.taken.trans h₁.taken
  others := by
    intro i hi
    obtain ⟨hrq₁, hf₁⟩ := h₁.others i hi
    obtain ⟨hrq₂, hf₂⟩ := h₂.others i hi
    refine ⟨?_, hf₂.trans hf₁⟩
    rcases hrq₂ with hrq₂ | hrq₂
    · rw [hrq₂]
      exact hrq₁
    · exact Or.inr hrq₂
  old := by
    intro i hrq hf
    obtain ⟨hrq', hf'⟩ := h₂.old i hrq hf
    exact h₁.old i hrq' hf'

theorem epStall_fields (s : Ctl) (ep : BitVec 8) (on : Bool) :
    (s.epStall ep on).taken = s.taken ∧ (s.epStall ep on).rq = s.rq ∧ (s.epStall ep on).fresh = s.fresh := by
  unfold Ctl.epStall
  split_ifs <;> exact ⟨rfl, rfl, rfl⟩

theorem epAbort_rq (s : Ctl) (ep : BitVec 8) : (s.epAbort ep).rq = Function.update s.rq (hw ep) none := by
  unfold Ctl.epAbort
  split_ifs with hsome
  · rfl
  · rw [Bool.not_eq_true, Option.isSome_eq_false_iff, Option.isNone_iff_eq_none] at hsome
    rw [← hsome, Function.update_eq_self]

theorem epAbort_fields (s : Ctl) (ep : BitVec 8) :
    (s.epAbort ep).taken = s.taken ∧ (s.epAbort ep).fresh = s.fresh ∧ (s.epAbort ep).stall = s.stall := by
  unfold Ctl.epAbort
  split_ifs <;> exact ⟨rfl, rfl, rfl⟩

/-- One call of the client. -/
theorem Loads.run {L : Nat → Prop} (s : Ctl) (call : Call) (hl : ∀ ep rq, call = .io ep rq → L (hw ep)) :
    Loads L s (s.run call) := by
  cases call with
  | io ep rq =>
    refine ⟨rfl, fun i hi => ?_, fun i hrq hf => ?_⟩
    · have hne : i ≠ hw ep := fun hx => hi (hx ▸ hl ep rq rfl)
      exact ⟨Or.inl (Function.update_of_ne hne _ _), Function.update_of_ne hne _ _⟩
    · by_cases hi : i = hw ep
      · subst hi
        rw [show (s.run (.io ep rq)).fresh (hw ep) = true from Function.update_self ..] at hf
        cases hf
      · rw [show (s.run (.io ep rq)).rq i = s.rq i from Function.update_of_ne hi _ _] at hrq
        rw [show (s.run (.io ep rq)).fresh i = s.fresh i from Function.update_of_ne hi _ _] at hf
        exact ⟨hrq, hf⟩
  | abort ep =>
    obtain ⟨ht, hf, -⟩ := epAbort_fields s ep
    refine ⟨ht, fun i _ => ⟨?_, congrFun hf i⟩, fun i hrq hfr => ?_⟩
    · show (s.epAbort ep).rq i = s.rq i ∨ (s.epAbort ep).rq i = none
      rw [epAbort_rq]
      by_cases hi : i = hw ep
      · subst hi
        exact Or.inr (Function.update_self ..)
      · exact Or.inl (Function.update_of_ne hi _ _)
    · rw [show (s.run (.abort ep)).fresh = s.fresh from hf] at hfr
      rw [show (s.run (.abort ep)).rq = _ from epAbort_rq s ep] at hrq
      by_cases hi : i = hw ep
      · subst hi
        exact absurd (Function.update_self ..) hrq
      · rw [Function.update_of_ne hi] at hrq
        exact ⟨hrq, hfr⟩
  | stall ep on =>
    obtain ⟨ht, hrq, hf⟩ := epStall_fields s ep on
    refine ⟨ht, fun i _ => ⟨Or.inl (congrFun hrq i), congrFun hf i⟩, fun i h₁ h₂ => ?_⟩
    rw [show (s.run (.stall ep on)).rq = s.rq from hrq] at h₁
    rw [show (s.run (.stall ep on)).fresh = s.fresh from hf] at h₂
    exact ⟨h₁, h₂⟩
  | enable | disable => exact ⟨rfl, fun _ _ => ⟨Or.inl rfl, rfl⟩, fun _ hrq hf => ⟨hrq, hf⟩⟩

theorem Loads.foldl {L : Nat → Prop} (l : List Call) (hl : ∀ call ∈ l, ∀ ep rq, call = .io ep rq → L (hw ep)) (s : Ctl) :
    Loads L s (l.foldl Ctl.run s) := by
  induction l generalizing s with
  | nil => exact Loads.refl L s
  | cons call l ih =>
    exact (Loads.run s call (hl call List.mem_cons_self)).trans
      (ih (fun call' hmem => hl call' (List.mem_cons_of_mem _ hmem)) _)

theorem deliver_loads {may : Cause → Nat → Prop} (hresp : Respects may h) (e : Cause) (rq : Option (Rq × Int))
    (w : Ctl × σ) : Loads (may e) w.1 (deliver h e rq w).1 :=
  Loads.foldl _ (hresp e rq w.1 w.2) w.1

theorem pioEvt_none (s : Ctl) (x y : BitVec 32) (i : Nat) : (s.pioEvt x y).rq i = none ↔ s.rq i = none :=
  upto_none s.link ⟨x, y, s.mem⟩ i 32

end deliver

/-! ## The order of the turns -/

def Turn.rank : Turn → Nat
  | .sig .disc => 0
  | .sig .rst => 1
  | .sig .susp => 2
  | .sig .rsm => 3
  | .sig .hspd => 4
  | .sig _ => 5
  | .pio => 5
  | .bit i => i + 6

theorem allTurns_sorted : allTurns.Pairwise fun t u => t.rank < u.rank := by decide +kernel

section order

variable {r : Regs} {pre rest : List Turn} {t u : Turn}

theorem Regs.turns_sorted (r : Regs) : r.turns.Pairwise fun t u => t.rank < u.rank := allTurns_sorted.filter _

theorem Regs.mem_sig {e : Cause} : .sig e ∈ r.turns ↔ r.occurs (.sig e) = true := by
  unfold Regs.turns
  rw [List.mem_filter]
  refine ⟨And.right, fun h => ⟨?_, h⟩⟩
  cases e with
  | stall => cases h
  | done => cases h
  | disc | rst | susp | rsm | hspd => decide

theorem Regs.mem_bit {i : Nat} : .bit i ∈ r.turns ↔ i < 32 ∧ r.occurs (.bit i) = true := by
  unfold Regs.turns allTurns
  rw [List.mem_filter, List.mem_append, List.mem_map]
  refine and_congr_left fun _ => ⟨?_, fun h => Or.inr ⟨i, List.mem_range.mpr h, rfl⟩⟩
  rintro (hmem | ⟨k, hk, hx⟩)
  · simp at hmem
  · cases hx
    exact List.mem_range.mp hk

/-- The turns behind `t` are those of higher rank. -/
theorem Regs.mem_rest (h : r.turns = pre ++ t :: rest) : u ∈ rest ↔ u ∈ r.turns ∧ t.rank < u.rank := by
  have hs := r.turns_sorted
  rw [h, List.pairwise_append, List.pairwise_cons] at hs
  obtain ⟨-, ⟨hrest, -⟩, hpre⟩ := hs
  rw [h, List.mem_append, List.mem_cons]
  constructor
  · exact fun hu => ⟨Or.inr (Or.inr hu), hrest u hu⟩
  · rintro ⟨hu | rfl | hu, hlt⟩
    · exact absurd (hpre u hu t List.mem_cons_self) (by omega)
    · exact absurd hlt (lt_irrefl _)
    · exact hu

/-- The turns before `t` are those of lower rank. -/
theorem Regs.mem_pre (h : r.turns = pre ++ t :: rest) : u ∈ pre ↔ u ∈ r.turns ∧ u.rank < t.rank := by
  have hs := r.turns_sorted
  rw [h, List.pairwise_append, List.pairwise_cons] at hs
  obtain ⟨-, ⟨hrest, -⟩, hpre⟩ := hs
  rw [h, List.mem_append, List.mem_cons]
  constructor
  · exact fun hu => ⟨Or.inl hu, hpre u hu t List.mem_cons_self⟩
  · rintro ⟨hu | rfl | hu, hlt⟩
    · exact hu
    · exact absurd hlt (lt_irrefl _)
    · exact absurd (hrest u hu) (by omega)

end order

/-! ## No event loads a latched descriptor -/

section calm

variable {σ : Type} {h : Client σ} {may : Cause → Nat → Prop} {r : Regs} {s : Ctl} {w : Ctl × σ} {pre rest : List Turn}
  {t : Turn}

/-- While the turns `rest` are left: nothing fresh was completed, and no latched descriptor is fresh unless the bus reset is still to come;
what is loaded was so at the start, with no bus reset since; and some event was heard, or nothing has changed. -/
structure Calm (r : Regs) (s : Ctl) (w : Ctl) (rest : List Turn) : Prop where
  taken : NoneFresh w
  fresh : .sig .rst ∉ rest → ∀ i, .bit i ∈ rest → w.rq i ≠ none → w.fresh i = false
  old : ∀ i, w.rq i ≠ none → w.fresh i = false → s.rq i ≠ none ∧ (r.occurs (.sig .rst) = true → .sig .rst ∈ rest)
  heard : (w.stall = s.stall ∧ ∀ j, .bit j ∈ rest → (w.rq j = none ↔ s.rq j = none)) ∨ ∀ j, .bit j ∈ rest → Heard r s j

/-- A delivery that can be heard by all the bits that are left and loads none of them. -/
theorem Calm.deliver (hresp : Respects may h) {e : Cause} (rq : Option (Rq × Int)) (htaken : NoneFresh w.1)
    (hfresh : .sig .rst ∉ rest → ∀ i, .bit i ∈ rest → w.1.rq i ≠ none → w.1.fresh i = false)
    (hold : ∀ i, w.1.rq i ≠ none → w.1.fresh i = false →
      s.rq i ≠ none ∧ (r.occurs (.sig .rst) = true → .sig .rst ∈ rest))
    (hno : .sig .rst ∉ rest → ∀ i, .bit i ∈ rest → ¬ may e i) (hheard : ∀ j, .bit j ∈ rest → Heard r s j) :
    Calm r s (Usbd.deliver h e rq w).1 rest := by
  have hl := deliver_loads hresp e rq w
  refine ⟨?_, fun hrst i hi hrq => ?_, fun i hrq hf => ?_, Or.inr hheard⟩
  · intro i
    rw [hl.taken]
    exact htaken i
  · obtain ⟨hx | hx, hf⟩ := hl.others i (hno hrst i hi)
    · rw [hf]
      exact hfresh hrst i hi (hx ▸ hrq)
    · exact absurd hx hrq
  · obtain ⟨hrq', hf'⟩ := hl.old i hrq hf
    exact hold i hrq' hf'

theorem before_sig {e : Cause} {i : Nat} (he : r.occurs (.sig e) = true)
    (hdisc : e = .disc → r.occurs (.sig .rst) = false) : Before r s i e := by
  cases e with
  | disc => exact ⟨he, hdisc rfl⟩
  | stall => cases he
  | done => cases he
  | rst | susp | rsm | hspd => exact he

/-- A signal. -/
theorem Calm.sig (hset : Settled r s may) (hresp : Respects may h) {e : Cause} (hsplit : r.turns = pre ++ .sig e :: rest)
    (hw : Calm r s w.1 (.sig e :: rest)) : Calm r s (turn h r w (.sig e)).1 rest := by
  have he : r.occurs (.sig e) = true := by
    apply Regs.mem_sig.mp
    rw [hsplit]
    exact List.mem_append_right _ List.mem_cons_self
  have hheard : ∀ j, Turn.bit j ∈ rest → Heard r s j := fun j _ => Or.inl ⟨e, he⟩
  have hno : .sig .rst ∉ rest → ∀ i, Turn.bit i ∈ rest → ¬ may e i := by
    intro hrst i hi
    obtain ⟨hlt, hocc⟩ := Regs.mem_bit.mp ((Regs.mem_rest hsplit).mp hi).1
    apply hset i hlt hocc e
    apply before_sig he
    rintro rfl
    -- the bus reset would come after the disconnect
    cases hx : r.occurs (.sig .rst) with
    | false => rfl
    | true => exact absurd ((Regs.mem_rest hsplit).mpr ⟨Regs.mem_sig.mpr hx, by decide⟩) hrst
  by_cases hrst : e = .rst
  · subst hrst
    exact Calm.deliver hresp none hw.taken (fun _ i _ hx => absurd rfl hx) (fun i hx => absurd rfl hx) hno hheard
  · have hmem : Turn.sig .rst ∈ (.sig e :: rest : List Turn) → Turn.sig .rst ∈ rest := by
      intro hx
      rcases List.mem_cons.mp hx with hx | hx
      · cases hx
        exact absurd rfl hrst
      · exact hx
    have hfresh : .sig .rst ∉ rest → ∀ i, Turn.bit i ∈ rest → w.1.rq i ≠ none → w.1.fresh i = false :=
      fun hx i hi => hw.fresh (fun hy => hx (hmem hy)) i (List.mem_cons_of_mem _ hi)
    have hold : ∀ i, w.1.rq i ≠ none → w.1.fresh i = false →
        s.rq i ≠ none ∧ (r.occurs (.sig .rst) = true → .sig .rst ∈ rest) := by
      intro i hrq hf
      obtain ⟨hx, hy⟩ := hw.old i hrq hf
      exact ⟨hx, fun hz => hmem (hy hz)⟩
    cases e with
    | rst => exact absurd rfl hrst
    | rsm => exact Calm.deliver (w := ({ w.1 with op := w.1.op &&& ~~~2#32 }, w.2)) hresp none hw.taken hfresh hold hno hheard
    | disc | susp | hspd | stall | done => exact Calm.deliver hresp none hw.taken hfresh hold hno hheard

theorem Calm.pio (hw : Calm r s w.1 (.pio :: rest)) : Calm r s (turn h r w .pio).1 rest := by
  have hnone : ∀ i, (turn h r w .pio).1.rq i = none ↔ w.1.rq i = none := pioEvt_none w.1 r.xsta r.ysta
  have hmem : Turn.sig .rst ∈ (.pio :: rest : List Turn) → Turn.sig .rst ∈ rest := fun hx => by
    rcases List.mem_cons.mp hx with hx | hx
    · cases hx
    · exact hx
  constructor
  · exact hw.taken
  · exact fun hx i hi hrq => hw.fresh (fun hy => hx (hmem hy)) i (List.mem_cons_of_mem _ hi) (fun hz => hrq ((hnone i).mpr hz))
  · intro i hrq hf
    obtain ⟨hx, hy⟩ := hw.old i (fun hz => hrq ((hnone i).mpr hz)) hf
    exact ⟨hx, fun hz => hmem (hy hz)⟩
  · rcases hw.heard with ⟨hst, hsame⟩ | hheard
    · exact Or.inl ⟨hst, fun j hj => (hnone j).trans (hsame j (List.mem_cons_of_mem _ hj))⟩
    · exact Or.inr fun j hj => hheard j (List.mem_cons_of_mem _ hj)

theorem Heard.mono {j k : Nat} (hjk : j ≤ k) (hj : Heard r s j) : Heard r s k := by
  rcases hj with hsig | ⟨i, hi, hx⟩
  · exact Or.inl hsig
  · exact Or.inr ⟨i, lt_of_lt_of_le hi hjk, hx⟩

/-- A done bit. -/
theorem Calm.bit (hset : Settled r s may) (hresp : Respects may h) {i : Nat} (hsplit : r.turns = pre ++ .bit i :: rest)
    (hw : Calm r s w.1 (.bit i :: rest)) : Calm r s (bitTurn h r i w).1 rest := by
  have hself : Turn.bit i ∈ r.turns := by
    rw [hsplit]
    exact List.mem_append_right _ List.mem_cons_self
  have hocc := (Regs.mem_bit.mp hself).2
  -- only bits are left
  have hrst : Turn.sig .rst ∉ rest := by
    intro hx
    have hlt : i + 6 < 1 := ((Regs.mem_rest hsplit).mp hx).2
    omega
  have hrst' : Turn.sig .rst ∉ (.bit i :: rest : List Turn) := by
    intro hx
    rcases List.mem_cons.mp hx with hx | hx
    · cases hx
    · exact hrst hx
  have hlater : ∀ k, Turn.bit k ∈ rest → i < k ∧ k < 32 ∧ r.occurs (.bit k) = true := by
    intro k hk
    obtain ⟨hmem, hlt⟩ := (Regs.mem_rest hsplit).mp hk
    exact ⟨Nat.lt_of_add_lt_add_right hlt, Regs.mem_bit.mp hmem⟩
  have hfresh := hw.fresh hrst'
  have hold : ∀ k, w.1.rq k ≠ none → w.1.fresh k = false → s.rq k ≠ none ∧ r.occurs (.sig .rst) = false := by
    intro k hrq hf
    obtain ⟨hx, hy⟩ := hw.old k hrq hf
    exact ⟨hx, Bool.eq_false_iff.mpr fun hz => hrst' (hy hz)⟩
  unfold bitTurn
  cases hrq : w.1.rq i with
  | none =>
    dsimp only
    split_ifs with hst
    · -- a protocol stall
      have hwhy : Heard r s i ∨ (s.rq i = none ∧ s.stall.getLsbD i = true) := by
        rcases hw.heard with ⟨hstall, hsame⟩ | hheard
        · rw [hstall] at hst
          exact Or.inr ⟨(hsame i List.mem_cons_self).mp hrq, hst.2⟩
        · exact Or.inl (hheard i List.mem_cons_self)
      refine Calm.deliver hresp none hw.taken (fun _ k hk => hfresh k (List.mem_cons_of_mem _ hk)) ?_ ?_ ?_
      · intro k hx hf
        obtain ⟨h₁, h₂⟩ := hold k hx hf
        exact ⟨h₁, fun hz => absurd (h₂.symm.trans hz) nofun⟩
      · intro _ k hk
        obtain ⟨hik, hk32, hkocc⟩ := hlater k hk
        exact hset k hk32 hkocc .stall ⟨i, hik, hst.1, hocc, hwhy⟩
      · intro k hk
        obtain ⟨hik, -, -⟩ := hlater k hk
        rcases hwhy with hheard | ⟨-, hstall⟩
        · exact hheard.mono hik.le
        · exact Or.inr ⟨i, hik, hocc, Or.inr ⟨hst.1, hstall⟩⟩
    · refine ⟨hw.taken, fun _ k hk => hfresh k (List.mem_cons_of_mem _ hk), fun k hx hf => ?_, ?_⟩
      · obtain ⟨h₁, h₂⟩ := hold k hx hf
        exact ⟨h₁, fun hz => absurd (h₂.symm.trans hz) nofun⟩
      · rcases hw.heard with ⟨hstall, hsame⟩ | hheard
        · exact Or.inl ⟨hstall, fun j hj => hsame j (List.mem_cons_of_mem _ hj)⟩
        · exact Or.inr fun j hj => hheard j (List.mem_cons_of_mem _ hj)
  | some rq =>
    have hne : w.1.rq i ≠ none := by
      rw [hrq]
      exact nofun
    have hf := hfresh i List.mem_cons_self hne
    obtain ⟨hsrq, hnorst⟩ := hold i hne hf
    refine Calm.deliver hresp _ ?_ ?_ ?_ ?_ ?_
    · intro k hk
      rcases List.mem_append.mp hk with hk | hk
      · exact hw.taken k hk
      · rw [hf] at hk
        cases List.mem_singleton.mp hk
    · intro _ k hk hx
      have hki : k ≠ i := (hlater k hk).1.ne'
      change Function.update w.1.rq i none k ≠ none at hx
      rw [Function.update_of_ne hki] at hx
      exact hfresh k (List.mem_cons_of_mem _ hk) hx
    · intro k hx hfk
      change Function.update w.1.rq i none k ≠ none at hx
      by_cases hki : k = i
      · subst hki
        exact absurd (Function.update_self ..) hx
      · rw [Function.update_of_ne hki] at hx
        obtain ⟨h₁, h₂⟩ := hold k hx hfk
        exact ⟨h₁, fun hz => absurd (h₂.symm.trans hz) nofun⟩
    · intro _ k hk
      obtain ⟨hik, hk32, hkocc⟩ := hlater k hk
      exact hset k hk32 hkocc (.done i) ⟨hik, hocc, hsrq, hnorst⟩
    · exact fun k hk => Or.inr ⟨i, (hlater k hk).1, hocc, Or.inl hsrq⟩

theorem Calm.foldl (hset : Settled r s may) (hresp : Respects may h) : ∀ (rest pre : List Turn) (w : Ctl × σ),
    r.turns = pre ++ rest → Calm r s w.1 rest → NoneFresh (rest.foldl (turn h r) w).1 := by
  intro rest
  induction rest with
  | nil => exact fun _ w _ hw => hw.taken
  | cons t rest ih =>
    intro pre w hsplit hw
    have hnext : r.turns = (pre ++ [t]) ++ rest := by
      rw [hsplit, List.append_assoc]
      rfl
    refine ih (pre ++ [t]) (turn h r w t) hnext ?_
    cases t with
    | sig e => exact Calm.sig hset hresp hsplit hw
    | pio => exact hw.pio
    | bit i => exact Calm.bit hset hresp hsplit hw

theorem Settled.noneFresh (hset : Settled r s may) (hresp : Respects may h) (c : σ) :
    NoneFresh (usbdIsr h r (s, c)).1 := by
  refine Calm.foldl hset hresp r.turns [] _ rfl ⟨?_, fun _ _ _ _ => rfl, ?_, Or.inl ⟨rfl, fun _ _ => Iff.rfl⟩⟩
  · exact fun i hi => by cases hi
  · exact fun i hrq _ => ⟨hrq, Regs.mem_sig.mpr⟩

end calm

/-! ## What a turn does -/

/-- A turn tells the client something, or nothing happens but the service of the buffers. -/
theorem turn_cases {σ : Type} (h : Client σ) (r : Regs) (w : Ctl × σ) (t : Turn) :
    (∃ e rq w', turn h r w t = deliver h e rq w' ∧ w'.1.fresh = w.1.fresh ∧ (∀ p ∈ w.1.taken, p ∈ w'.1.taken) ∧
      (t ≠ .sig .rst → ∀ i, t ≠ .bit i → w'.1.rq i = w.1.rq i)) ∨
    ((turn h r w t).1.fresh = w.1.fresh ∧ (turn h r w t).1.taken = w.1.taken ∧ (turn h r w t).1.stall = w.1.stall ∧
      (∀ i, (turn h r w t).1.rq i = none ↔ w.1.rq i = none) ∧ (∀ e, t ≠ .sig e) ∧
      ∀ k, t = .bit k → w.1.rq k = none ∧ ¬ (k < 2 ∧ w.1.stall.getLsbD k = true)) := by
  cases t with
  | sig e =>
    refine Or.inl ?_
    cases e with
    | rst => exact ⟨_, _, _, rfl, rfl, fun _ hp => hp, fun hx => absurd rfl hx⟩
    | disc | susp | rsm | hspd | stall | done => exact ⟨_, _, _, rfl, rfl, fun _ hp => hp, fun _ _ _ => rfl⟩
  | pio => exact Or.inr ⟨rfl, rfl, rfl, pioEvt_none w.1 r.xsta r.ysta, nofun, nofun⟩
  | bit k =>
    rw [turn, bitTurn]
    cases hrq : w.1.rq k with
    | none =>
      dsimp only
      split_ifs with hst
      · exact Or.inl ⟨_, _, _, rfl, rfl, fun _ hp => hp, fun _ _ _ => rfl⟩
      · refine Or.inr ⟨rfl, rfl, rfl, fun _ => Iff.rfl, nofun, fun k' hk => ?_⟩
        cases hk
        exact ⟨hrq, hst⟩
    | some rq =>
      refine Or.inl ⟨_, _, _, rfl, rfl, fun _ hp => List.mem_append_left _ hp, fun _ i hi => ?_⟩
      exact Function.update_of_ne (fun hx => hi (congrArg Turn.bit hx.symm)) _ _

section taken

variable {σ : Type} (h : Client σ) (r : Regs)

theorem deliver_taken (e : Cause) (rq : Option (Rq × Int)) (w : Ctl × σ) : (deliver h e rq w).1.taken = w.1.taken :=
  have hresp : Respects (fun _ _ => True) h := fun _ _ _ _ _ _ _ _ _ => trivial
  (deliver_loads hresp e rq w).taken

/-- Completions are not forgotten. -/
theorem foldl_taken (l : List Turn) (w : Ctl × σ) {p : Nat × Bool} (hp : p ∈ w.1.taken) :
    p ∈ (l.foldl (turn h r) w).1.taken := by
  induction l generalizing w with
  | nil => exact hp
  | cons t l ih =>
    apply ih
    rcases turn_cases h r w t with ⟨e, rq, w', hx, -, ht, -⟩ | ⟨-, ht, -⟩
    · rw [hx, deliver_taken]
      exact ht p hp
    · rw [ht]
      exact hp

/-- What every turn of the list keeps. -/
theorem foldl_keeps {K : Ctl → Prop} (l : List Turn) (hl : ∀ t ∈ l, ∀ w : Ctl × σ, K w.1 → K (turn h r w t).1)
    (w : Ctl × σ) (hw : K w.1) : K (l.foldl (turn h r) w).1 := by
  induction l generalizing w with
  | nil => exact hw
  | cons t l ih => exact ih (fun u hu => hl u (List.mem_cons_of_mem _ hu)) _ (hl t List.mem_cons_self w hw)

end taken

/-! ## A client that loads a latched descriptor -/

/-- The endpoint address of a descriptor. -/
def epAddr (i : Nat) : BitVec 8 := BitVec.ofNat 8 (i / 2 + 128 * (i % 2))

theorem hw_epAddr {i : Nat} (hi : i < 32) : hw (epAddr i) = i := by
  have hall : ∀ i : Fin 32, hw (epAddr i.val) = i.val := by decide
  exact hall ⟨i, hi⟩

/-- A client that loads descriptor `i` when it is told of `e`, and at all other times makes the calls `prep`. -/
def loader (e : Cause) (i : Nat) (prep : List Call) : Client Unit := fun e' _ _ c =>
  (if e' = e then [.io (epAddr i) ⟨fun _ => 0, 0, 0, le_refl 0⟩] else prep, c)

/-- Descriptor `i` was loaded during the call. -/
def Armed (i : Nat) (s : Ctl) : Prop := s.rq i ≠ none ∧ s.fresh i = true

/-- The calls leave descriptor `i` alone. -/
def Spares (i : Nat) (prep : List Call) : Prop :=
  ∀ s : Ctl, (prep.foldl Ctl.run s).rq i = s.rq i ∧ (prep.foldl Ctl.run s).fresh i = s.fresh i

section loader

variable {r : Regs} {s : Ctl} {e e' : Cause} {i j : Nat} {prep : List Call} {w : Ctl × Unit} {t : Turn}

theorem loader_respects {may : Cause → Nat → Prop} (hi : i < 32) (hm : may e i)
    (hprep : ∀ call ∈ prep, ∀ ep q, call ≠ .io ep q) : Respects may (loader e i prep) := by
  intro e' rq s c call hcall ep q hio
  change call ∈ (if e' = e then [Call.io (epAddr i) _] else prep) at hcall
  split_ifs at hcall with hx
  · subst hx hio
    cases List.mem_singleton.mp hcall
    rw [hw_epAddr hi]
    exact hm
  · exact absurd hio (hprep call hcall ep q)

theorem deliver_armed (hi : i < 32) (rq : Option (Rq × Int)) (w : Ctl × Unit) :
    Armed i (deliver (loader e i prep) e rq w).1 := by
  have hrun : (deliver (loader e i prep) e rq w).1 = w.1.epIo (epAddr i) ⟨fun _ => 0, 0, 0, le_refl 0⟩ := by
    show ((if e = e then [Call.io (epAddr i) _] else prep).foldl Ctl.run w.1) = _
    rw [if_pos rfl]
    rfl
  rw [hrun, Armed, Ctl.epIo, hw_epAddr hi]
  dsimp only
  rw [Function.update_self, Function.update_self]
  exact ⟨nofun, rfl⟩

theorem deliver_other (he : e' ≠ e) (rq : Option (Rq × Int)) (w : Ctl × Unit) :
    (deliver (loader e i prep) e' rq w).1 = prep.foldl Ctl.run w.1 := by
  show ((if e' = e then [Call.io (epAddr i) _] else prep).foldl Ctl.run w.1) = _
  rw [if_neg he]

theorem Armed.deliver (hi : i < 32) (hp : Spares i prep) (rq : Option (Rq × Int)) (h : Armed i w.1) :
    Armed i (deliver (loader e i prep) e' rq w).1 := by
  by_cases he : e' = e
  · subst he
    exact deliver_armed hi rq w
  · rw [deliver_other he, Armed, (hp w.1).1, (hp w.1).2]
    exact h

theorem Armed.turn (hi : i < 32) (hp : Spares i prep) (hrst : t ≠ .sig .rst) (hbit : t ≠ .bit i) (h : Armed i w.1) :
    Armed i (turn (loader e i prep) r w t).1 := by
  rcases turn_cases (loader e i prep) r w t with ⟨e', rq, w', hx, hf, -, hrq⟩ | ⟨hf, -, -, hrq, -⟩
  · rw [hx]
    refine Armed.deliver hi hp rq ⟨?_, ?_⟩
    · rw [hrq hrst i hbit]
      exact h.1
    · rw [hf]
      exact h.2
  · refine ⟨fun hx => h.1 ((hrq i).mp hx), ?_⟩
    rw [hf]
    exact h.2

/-- A call in which descriptor `i` is loaded after the turn `u` before its own, with no bus reset between, completes it. -/
theorem Armed.stale {before mid rest : List Turn} {u : Turn} (hi : i < 32) (hp : Spares i prep)
    (hsplit : r.turns = (before ++ u :: mid) ++ .bit i :: rest) (hmid : .sig .rst ∉ mid)
    (h : ∀ w : Ctl × Unit, w = before.foldl (Usbd.turn (loader e i prep) r) ({ s with fresh := fun _ => false, taken := [] }, ()) →
      Armed i (Usbd.turn (loader e i prep) r w u).1) :
    ¬ NoneFresh (usbdIsr (loader e i prep) r (s, ())).1 := by
  have hlate : ∀ t ∈ mid, ∀ w : Ctl × Unit, Armed i w.1 → Armed i (Usbd.turn (loader e i prep) r w t).1 := by
    intro t ht w hw
    refine Armed.turn hi hp (fun hx => hmid (hx ▸ ht)) (fun hx => ?_) hw
    have hmem : t ∈ before ++ u :: mid := List.mem_append_right _ (List.mem_cons_of_mem _ ht)
    subst hx
    exact absurd ((Regs.mem_pre hsplit).mp hmem).2 (lt_irrefl _)
  have harm := foldl_keeps (loader e i prep) r mid hlate _ (h _ rfl)
  intro hnone
  apply hnone i
  rw [usbdIsr, hsplit, List.foldl_append, List.foldl_cons]
  apply foldl_taken
  rw [List.foldl_append, List.foldl_cons, Usbd.turn, bitTurn]
  split
  · next hrq => exact absurd hrq harm.1
  · rw [deliver_taken]
    refine List.mem_append_right _ (List.mem_singleton.mpr ?_)
    rw [harm.2]

theorem spares_nil (i : Nat) : Spares i [] := fun _ => ⟨rfl, rfl⟩

/-- The turns before a latched bit, around one of them. -/
theorem split_before {u : Turn} (hi : i < 32) (hocc : r.occurs (.bit i) = true) (hu : u ∈ r.turns) (hlt : u.rank < i + 6) :
    ∃ before mid rest, r.turns = (before ++ u :: mid) ++ .bit i :: rest ∧
      (∀ t, t ∈ before ↔ t ∈ r.turns ∧ t.rank < u.rank) ∧ ∀ t ∈ mid, t ∈ r.turns ∧ u.rank < t.rank := by
  obtain ⟨pre, rest, hsplit⟩ := List.append_of_mem (Regs.mem_bit.mpr ⟨hi, hocc⟩)
  obtain ⟨before, mid, rfl⟩ := List.append_of_mem ((Regs.mem_pre hsplit).mpr ⟨hu, hlt⟩)
  have hsplit' : r.turns = before ++ u :: (mid ++ .bit i :: rest) := by
    rw [hsplit, List.append_assoc]
    rfl
  refine ⟨before, mid, rest, hsplit, fun t => Regs.mem_pre hsplit', fun t ht => ?_⟩
  exact (Regs.mem_rest hsplit').mp (List.mem_append_left _ ht)

/-- A signal. -/
theorem stale_sig (hi : i < 32) (hocc : r.occurs (.bit i) = true) (he : r.occurs (.sig e) = true)
    (hrst : e = .disc → r.occurs (.sig .rst) = false) : ¬ NoneFresh (usbdIsr (loader e i []) r (s, ())).1 := by
  have hlt : (Turn.sig e).rank < i + 6 := by
    cases e <;> simp [Turn.rank]
  obtain ⟨before, mid, rest, hsplit, -, hmid⟩ := split_before hi hocc (Regs.mem_sig.mpr he) hlt
  refine Armed.stale hi (spares_nil i) hsplit (fun hx => ?_) fun w _ => ?_
  · obtain ⟨hin, hrank⟩ := hmid _ hx
    have hz : e = .disc := by
      cases e with
      | disc => rfl
      | rst | susp | rsm | hspd | stall | done => exact absurd hrank (by simp [Turn.rank])
    exact absurd ((hrst hz).symm.trans (Regs.mem_sig.mp hin)) nofun
  · cases e with
    | rst | rsm | disc | susp | hspd | stall | done => exact deliver_armed hi none _

/-- Only bits come after a bit. -/
theorem rst_after_bit {l : List Turn} (hl : ∀ t ∈ l, t ∈ r.turns ∧ (Turn.bit j).rank < t.rank) : .sig .rst ∉ l := by
  intro hx
  have hlt : j + 6 < 1 := (hl _ hx).2
  omega

/-- An earlier completion. -/
theorem stale_done (hi : i < 32) (hocc : r.occurs (.bit i) = true) (hji : j < i) (hjocc : r.occurs (.bit j) = true)
    (hrq : s.rq j ≠ none) (hrst : r.occurs (.sig .rst) = false) :
    ¬ NoneFresh (usbdIsr (loader (.done j) i []) r (s, ())).1 := by
  obtain ⟨before, mid, rest, hsplit, hbefore, hmid⟩ :=
    split_before (u := .bit j) hi hocc (Regs.mem_bit.mpr ⟨hji.trans hi, hjocc⟩) (Nat.add_lt_add_right hji 6)
  refine Armed.stale hi (spares_nil i) hsplit (rst_after_bit hmid) fun w hw => ?_
  -- the client does nothing before that completion, and loads `i` at it
  have hkeep : Armed i w.1 ∨ w.1.rq j ≠ none := by
    rw [hw]
    refine foldl_keeps (K := fun s => Armed i s ∨ s.rq j ≠ none) (loader (.done j) i []) r before ?_ _ (Or.inr hrq)
    intro t ht w hw
    obtain ⟨hin, hrank⟩ := (hbefore t).mp ht
    have hnrst : t ≠ .sig .rst := fun hx => absurd (hrst.symm.trans (Regs.mem_sig.mp (hx ▸ hin))) nofun
    have hnbit : ∀ k, j ≤ k → t ≠ .bit k := by
      intro k hk hx
      subst hx
      have hkj : k + 6 < j + 6 := hrank
      omega
    rcases hw with harm | hw
    · exact Or.inl (harm.turn hi (spares_nil i) hnrst (hnbit i hji.le))
    · rcases turn_cases (loader (.done j) i []) r w t with ⟨e', rq, w', hx, -, -, hsame⟩ | ⟨-, -, -, hsame, -⟩
      · rw [hx]
        by_cases he : e' = .done j
        · subst he
          exact Or.inl (deliver_armed hi rq w')
        · rw [deliver_other he]
          refine Or.inr ?_
          rw [List.foldl_nil, hsame hnrst j (hnbit j (le_refl j))]
          exact hw
      · exact Or.inr fun hx => hw ((hsame j).mp hx)
  rcases hkeep with harm | hsome
  · exact harm.turn hi (spares_nil i) nofun fun hx => by
      cases hx
      exact absurd hji (lt_irrefl _)
  · rw [turn, bitTurn]
    split
    · next hx => exact absurd hx hsome
    · exact deliver_armed hi _ _

/-! The client that waits for a protocol stall aborts and stalls descriptor `j` before. -/

def stallIt (j : Nat) : List Call := [.abort (epAddr j), .stall (epAddr j) true]

theorem stallIt_spares (hj : j < 2) (hij : i ≠ j) : Spares i (stallIt j) := by
  intro s
  show ((s.epAbort (epAddr j)).epStall (epAddr j) true).rq i = s.rq i ∧ ((s.epAbort (epAddr j)).epStall (epAddr j) true).fresh i = s.fresh i
  obtain ⟨-, hrq, hf⟩ := epStall_fields (s.epAbort (epAddr j)) (epAddr j) true
  rw [hrq, hf, epAbort_rq, (epAbort_fields s (epAddr j)).2.1, hw_epAddr (by omega), Function.update_of_ne hij]
  exact ⟨rfl, rfl⟩

/-- Descriptor `j` is empty and stalled. -/
def Stalled (j : Nat) (s : Ctl) : Prop := s.rq j = none ∧ s.stall.getLsbD j = true

theorem stallIt_stalled (hj : j < 2) (s : Ctl) : Stalled j ((stallIt j).foldl Ctl.run s) := by
  show Stalled j ((s.epAbort (epAddr j)).epStall (epAddr j) true)
  obtain ⟨-, hrq, -⟩ := epStall_fields (s.epAbort (epAddr j)) (epAddr j) true
  refine ⟨?_, ?_⟩
  · rw [hrq, epAbort_rq, hw_epAddr (by omega), Function.update_self]
  · unfold Ctl.epStall
    rw [hw_epAddr (by omega)]
    split_ifs with hx
    · exact hx
    · rw [Bool.not_eq_true] at hx
      rw [BitVec.getLsbD_xor, hx]
      have hall : ∀ j : Fin 2, (1#32 <<< j.val).getLsbD j.val = true := by decide
      rw [hall ⟨j, hj⟩]
      rfl

/-- A protocol stall at bit `j`. -/
theorem stale_stall (hi : i < 32) (hocc : r.occurs (.bit i) = true) (hji : j < i) (hj : j < 2)
    (hjocc : r.occurs (.bit j) = true) (hwhy : Heard r s j ∨ Stalled j s) :
    ¬ NoneFresh (usbdIsr (loader .stall i (stallIt j)) r (s, ())).1 := by
  have hsp := stallIt_spares hj hji.ne'
  obtain ⟨before, mid, rest, hsplit, hbefore, hmid⟩ :=
    split_before (u := .bit j) hi hocc (Regs.mem_bit.mpr ⟨hji.trans hi, hjocc⟩) (Nat.add_lt_add_right hji 6)
  refine Armed.stale hi hsp hsplit (rst_after_bit hmid) fun w hw => ?_
  -- whatever the client hears, the descriptor is stalled after it, or the stall was reported already
  have hdel : ∀ e' rq (w : Ctl × Unit), Armed i (deliver (loader .stall i (stallIt j)) e' rq w).1 ∨
      Stalled j (deliver (loader .stall i (stallIt j)) e' rq w).1 := by
    intro e' rq w
    by_cases he : e' = .stall
    · subst he
      exact Or.inl (deliver_armed hi rq w)
    · rw [deliver_other he]
      exact Or.inr (stallIt_stalled hj w.1)
  have hturn : ∀ t, (∀ k, j ≤ k → t ≠ .bit k) → ∀ w : Ctl × Unit, Armed i w.1 ∨ Stalled j w.1 →
      Armed i (turn (loader .stall i (stallIt j)) r w t).1 ∨ Stalled j (turn (loader .stall i (stallIt j)) r w t).1 := by
    intro t hnbit w hw
    rcases turn_cases (loader .stall i (stallIt j)) r w t with ⟨e', rq, w', hx, -⟩ | ⟨hf, -, hst, hsame, -⟩
    · rw [hx]
      exact hdel e' rq w'
    · rcases hw with harm | ⟨hrq, hstall⟩
      · refine Or.inl ⟨fun hx => harm.1 ((hsame i).mp hx), ?_⟩
        rw [hf]
        exact harm.2
      · refine Or.inr ⟨(hsame j).mpr hrq, ?_⟩
        rw [hst]
        exact hstall
  have hnbit : ∀ t ∈ before, ∀ k, j ≤ k → t ≠ .bit k := by
    intro t ht k hk hx
    subst hx
    have hkj : k + 6 < j + 6 := ((hbefore _).mp ht).2
    omega
  have hkeep : Armed i w.1 ∨ Stalled j w.1 := by
    rw [hw]
    rcases hwhy with hheard | hstalled
    · obtain ⟨u, hu, hhears⟩ : ∃ u ∈ before, (∃ e', u = .sig e') ∨
          ∃ k, u = .bit k ∧ (s.rq k ≠ none ∨ (k < 2 ∧ s.stall.getLsbD k = true)) := by
        rcases hheard with ⟨e', he⟩ | ⟨k, hk, hkocc, hx⟩
        · have hlt : (Turn.sig e').rank < j + 6 := by cases e' <;> simp [Turn.rank]
          exact ⟨_, (hbefore _).mpr ⟨Regs.mem_sig.mpr he, hlt⟩, Or.inl ⟨e', rfl⟩⟩
        · have hk32 : k < 32 := by omega
          exact ⟨_, (hbefore _).mpr ⟨Regs.mem_bit.mpr ⟨hk32, hkocc⟩, Nat.add_lt_add_right hk 6⟩, Or.inr ⟨k, rfl, hx⟩⟩
      obtain ⟨b₁, b₂, rfl⟩ := List.append_of_mem hu
      have huntil := foldl_keeps (K := fun s' => (Armed i s' ∨ Stalled j s') ∨ s'.stall = s.stall ∧
        ∀ k, s'.rq k = none ↔ s.rq k = none) (loader .stall i (stallIt j)) r b₁ (fun t ht w hw => ?_)
        ({ s with fresh := fun _ => false, taken := [] }, ()) (Or.inr ⟨rfl, fun _ => Iff.rfl⟩)
      · rw [List.foldl_append, List.foldl_cons]
        refine foldl_keeps (K := fun s => Armed i s ∨ Stalled j s) (loader .stall i (stallIt j)) r b₂
          (fun t ht => hturn t (hnbit t (List.mem_append_right _ (List.mem_cons_of_mem _ ht)))) _ ?_
        rcases huntil with hk | ⟨hstall, hsame⟩
        · exact hturn u (hnbit u hu) _ hk
        · -- nothing was heard before this turn
          rcases turn_cases (loader .stall i (stallIt j)) r (b₁.foldl (turn (loader .stall i (stallIt j)) r)
            ({ s with fresh := fun _ => false, taken := [] }, ())) u with ⟨e', rq, w', hx, -⟩ | ⟨-, -, -, -, hsig, hbit⟩
          · rw [hx]
            exact hdel e' rq w'
          · rcases hhears with ⟨e', rfl⟩ | ⟨k, rfl, hx⟩
            · exact absurd rfl (hsig e')
            · obtain ⟨hnone, hnst⟩ := hbit k rfl
              rw [hstall] at hnst
              rcases hx with hx | hx
              · exact absurd ((hsame k).mp hnone) hx
              · exact absurd hx hnst
      · rcases hw with hw | ⟨hstall, hsame⟩
        · exact Or.inl (hturn t (hnbit t (List.mem_append_left _ ht)) w hw)
        · rcases turn_cases (loader .stall i (stallIt j)) r w t with ⟨e', rq, w', hx, -⟩ | ⟨-, -, hst, hrq, -⟩
          · rw [hx]
            exact Or.inl (hdel e' rq w')
          · exact Or.inr ⟨hst.trans hstall, fun k => (hrq k).trans (hsame k)⟩
    · exact foldl_keeps (K := fun s => Armed i s ∨ Stalled j s) (loader .stall i (stallIt j)) r before
        (fun t ht => hturn t (hnbit t ht)) _ (Or.inr hstalled)
  rcases hkeep with harm | ⟨hrq, hstall⟩
  · exact harm.turn hi hsp nofun fun hx => by
      cases hx
      exact absurd hji (lt_irrefl _)
  · rw [turn, bitTurn, hrq]
    dsimp only
    rw [if_pos ⟨hj, hstall⟩]
    exact deliver_armed hi _ _

end loader

/-- For every client interface, no done bit completes a request that was loaded in the same call, whatever the client, exactly when no event
that can come before the turn of a latched done bit lets the client load its descriptor. -/
theorem done_fresh_iff (r : Regs) (s : Ctl) (may : Cause → Nat → Prop) :
    (∀ (σ : Type) (h : Client σ) (c : σ), Respects may h → NoneFresh (usbdIsr h r (s, c)).1) ↔ Settled r s may := by
  refine ⟨fun hall i hi hocc e hbefore hm => ?_, fun hset σ h c hresp => hset.noneFresh hresp c⟩
  have hnil : ∀ call ∈ ([] : List Call), ∀ ep q, call ≠ .io ep q := fun call hx => by cases hx
  cases e with
  | disc => exact stale_sig hi hocc hbefore.1 (fun _ => hbefore.2) (hall Unit _ () (loader_respects hi hm hnil))
  | rst | susp | rsm | hspd =>
    exact stale_sig hi hocc hbefore (fun hx => by cases hx) (hall Unit _ () (loader_respects hi hm hnil))
  | done j =>
    obtain ⟨hji, hjocc, hrq, hrst⟩ := hbefore
    exact stale_done hi hocc hji hjocc hrq hrst (hall Unit _ () (loader_respects hi hm hnil))
  | stall =>
    obtain ⟨j, hji, hj, hjocc, hwhy⟩ := hbefore
    refine stale_stall hi hocc hji hj hjocc hwhy (hall Unit _ () (loader_respects hi hm ?_))
    intro call hcall ep q hx
    subst hx
    simp [stallIt] at hcall

/-! ## A bus reset with a done bit -/

/-- What `udc_evt` does at the end of a bus reset: it queues the reception of the next setup packet. -/
def rearm : Client Unit := fun e _ _ c => (if e = .rst then [.io 0 ⟨fun _ => 0, 8, 0, by decide⟩] else [], c)

/-- A controller in the status stage of a control transfer: descriptor 0 waits for an empty packet. -/
def statusStage : Ctl :=
  ⟨(Usb.Usbd.init ⟨true, true, 3, 8192, 0x1000, by decide, Usb.buf_ge_low, Usb.buf_lt_low⟩).reset,
    fun i => if i = 0 then some ⟨fun _ => 0, 0, 0, le_refl 0⟩ else none, fun _ => false, fun _ => 0, 0, 0, fun _ => false, []⟩

/-- The packet and a bus reset come in one interrupt: the done bit completes the reception of the setup packet, which was queued at
the reset. -/
theorem reset_takes_done :
    (usbdIsr rearm ⟨0x210#32, 0xFFFFFFFF#32, 1#32, 0, 0, fun _ => 0⟩ (statusStage, ())).1.taken = [(0, true)] ∧
    ¬ NoneFresh (usbdIsr rearm ⟨0x210#32, 0xFFFFFFFF#32, 1#32, 0, 0, fun _ => 0⟩ (statusStage, ())).1 := by
  have htaken : (usbdIsr rearm ⟨0x210#32, 0xFFFFFFFF#32, 1#32, 0, 0, fun _ => 0⟩ (statusStage, ())).1.taken = [(0, true)] := by
    decide +kernel
  refine ⟨htaken, fun h => h 0 ?_⟩
  rw [htaken]
  exact List.mem_singleton_self _

end Emlinux.Usbd
