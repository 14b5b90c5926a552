import Emlinux.Usb.Rooted

/-!
# Control transfers

The class driver answers each packet that is passed to it with one request on endpoint 0, now or later, or with an error (`Served`). Two kinds of packets that the driver
handles by itself break the stages: `udc_setup` answers on the IN descriptor also when the packet announces an OUT data stage, and
`SET_FEATURE(ENDPOINT_HALT)` for endpoint 0 OUT reports the start of a protocol stall while the status stage is under way. `Setup.Plain`
excludes them.

`Apart` keeps the other endpoints away from endpoint 0. Then each step keeps `Staged`.
-/

namespace Emlinux.Gadget

open Lib

/-- A packet that is answered in the stage it announces. -/
def Setup.Plain (p : Setup) : Prop := p.internal = true → (p.wLength = 0 ∨ p.isIn = true) ∧ p.haltsOut = false

instance (p : Setup) : Decidable p.Plain :=
  inferInstanceAs (Decidable (p.internal = true → (p.wLength = 0 ∨ p.isIn = true) ∧ p.haltsOut = false))

/-- The tasks that take endpoint 0, or the device, down. -/
def Task.cuts : Task → Bool
  | .evDisc | .evRst | .disconnect | .fullSpeed => true
  | .nuke e | .drain e => decide (e < 2)
  | _ => false

/-- The setup packet that the next task handles. -/
def Udc.packet (s : Udc) : Option Setup := match s.control with
  | .bit 0 p :: _ => if s.stage = 0 then some p else none
  | _ => none

/-- Endpoint 0 is used for control transfers only: the class driver acts on it once for each packet that is passed to it, with a request
to which no other descriptor refers; the hardware is done only with what it was given; the bus is neither reset nor disconnected; and the packets are
plain. -/
def Served (d : Dev) (s : Udc) : Act → Prop
  | .queue e r _ _ => e = 0 → s.view.Asked ∧ ∀ i ∈ d.eps, slotOf (s.tc i) ≠ some r
  | .dequeue e _ | .setHalt e _ => e ≠ 0
  | .ret err => err = true → s.control.head? = some .setup → s.view.Asked
  | .isr ev done _ => ev.disc = false ∧ ev.rst = false ∧ (done.getLsbD 0 = true → s.rdy 0 = true) ∧
      (done.getLsbD 1 = true → s.rdy 1 = true)
  | .tick => ∀ p ∈ s.packet, p.Plain
  | .enable _ _ _ | .disable _ => True

instance (d : Dev) (s : Udc) : (a : Act) → Decidable (Served d s a)
  | .queue e r _ _ => inferInstanceAs (Decidable (e = 0 → s.view.Asked ∧ ∀ i ∈ d.eps, slotOf (s.tc i) ≠ some r))
  | .dequeue e _ | .setHalt e _ => inferInstanceAs (Decidable (e ≠ 0))
  | .ret err => inferInstanceAs (Decidable (err = true → s.control.head? = some .setup → s.view.Asked))
  | .isr ev done _ => inferInstanceAs (Decidable (ev.disc = false ∧ ev.rst = false ∧
      (done.getLsbD 0 = true → s.rdy 0 = true) ∧ (done.getLsbD 1 = true → s.rdy 1 = true)))
  | .tick => inferInstanceAs (Decidable (∀ p ∈ s.packet, p.Plain))
  | .enable _ _ _ | .disable _ => inferInstanceAs (Decidable True)

/-! ## The other endpoints -/

/-- The other descriptors refer to requests of other endpoints, and nothing takes endpoint 0 down. -/
structure Apart (d : Dev) (s : Udc) : Prop where
  int : ∀ i n, 2 ≤ i → s.tc i ≠ some (.int, n)
  slot : ∀ i r n, 2 ≤ i → s.tc i = some (.req r, n) → i ∈ d.eps ∧ (s.reqs r).ep ≠ 0
  calm : ∀ t ∈ s.control, t.cuts = false

/-- What keeps endpoint 0 apart. -/
structure Clear (d : Dev) (s u : Udc) : Prop where
  tc : ∀ i, 2 ≤ i → u.tc i = none ∨ u.tc i = s.tc i ∨ (i ∈ d.eps ∧ ∃ r n, u.tc i = some (.req r, n) ∧ (u.reqs r).ep ≠ 0)
  reqs : ∀ i r n, i ∈ d.eps → s.tc i = some (.req r, n) → (s.reqs r).ep ≠ 0 → (u.reqs r).ep ≠ 0
  calm : ∀ t ∈ u.control, t ∈ s.control ∨ t.cuts = false

section Apart

variable {d : Dev} {s u : Udc} {e : Nat}

theorem Apart.clear (h : Apart d s) (hc : Clear d s u) : Apart d u := by
  refine ⟨?_, ?_, ?_⟩
  · intro i n hi hn
    obtain htc | htc | ⟨-, r, m, htc, -⟩ := hc.tc i hi
    · rw [htc] at hn
      cases hn
    · rw [htc] at hn
      exact h.int i n hi hn
    · rw [htc] at hn
      cases hn
  · intro i r n hi hn
    obtain htc | htc | ⟨hmem, r', m, htc, hep⟩ := hc.tc i hi
    · rw [htc] at hn
      cases hn
    · rw [htc] at hn
      obtain ⟨hmem, hep⟩ := h.slot i r n hi hn
      exact ⟨hmem, hc.reqs i r n hmem hn hep⟩
    · rw [htc] at hn
      cases hn
      exact ⟨hmem, hep⟩
  · exact fun t ht => (hc.calm t ht).elim (h.calm t) id

/-- Descriptors of other endpoints and requests are left alone. -/
theorem clear_of_eq (ht : ∀ i, 2 ≤ i → u.tc i = s.tc i) (hr : ∀ r, (u.reqs r).ep = (s.reqs r).ep)
    (hc : ∀ t ∈ u.control, t ∈ s.control ∨ t.cuts = false) : Clear d s u := by
  refine ⟨fun i hi => .inr (.inl (ht i hi)), ?_, hc⟩
  intro i r n _ _ hep
  rw [hr]
  exact hep

theorem clear_io_zero (s : Udc) (rq : Rq) {i : Nat} (hi : i < 2) : Clear d s (s.usbdEpIo i rq) :=
  clear_of_eq (fun j hj => Function.update_of_ne (by omega) _ _) (fun _ => rfl) fun _ ht => .inl ht

theorem clear_io (s : Udc) {r : Nat} (he : e ∈ d.eps) (hr : (s.reqs r).ep ≠ 0) : Clear d s (s.usbdEpIo e (.req r)) := by
  refine ⟨?_, fun _ _ _ _ _ hep => hep, fun _ ht => .inl ht⟩
  intro i hi
  by_cases hie : i = e
  · subst hie
    exact .inr (.inr ⟨he, r, _, Function.update_self _ _ _, hr⟩)
  · exact .inr (.inl (Function.update_of_ne hie _ _))

theorem clear_abort (s : Udc) (i : Nat) : Clear d s (s.usbdEpAbort i) := by
  refine ⟨?_, ?_, ?_⟩
  · intro j hj
    unfold Udc.usbdEpAbort
    split
    · by_cases hji : j = i
      · subst hji
        exact .inl (Function.update_self _ _ _)
      · exact .inr (.inl (Function.update_of_ne hji _ _))
    · exact .inr (.inl rfl)
  · intro j r n _ _ hep
    rw [(abort_fields s i).2.1]
    exact hep
  · intro t ht
    rw [(abort_fields s i).2.2.1] at ht
    exact .inl ht

theorem done_reqs_ep (s : Udc) (r : Nat) (st : Status) (l : List Task) (r' : Nat) :
    ((s.done e r st l).reqs r').ep = (s.reqs r').ep := by
  unfold Udc.done Udc.setEp Udc.setReq
  by_cases hr : r' = r
  · subst hr
    simp
  · simp [hr]

theorem clear_done (s : Udc) (r : Nat) (st : Status) (l : List Task) (hl : ∀ t ∈ l, t ∈ s.control ∨ t.cuts = false) :
    Clear d s (s.done e r st l) := by
  refine clear_of_eq (fun _ _ => rfl) (done_reqs_ep s r st l) ?_
  intro t ht
  obtain ht | ht := List.mem_cons.1 ht
  · rw [ht]
    exact .inr rfl
  · obtain ht | ht := List.mem_cons.1 ht
    · rw [ht]
      exact .inr rfl
    · exact hl t ht

theorem clear_accept (s : Udc) (r len : Nat) (zero : Bool) (h : e = 0 → ∀ i ∈ d.eps, slotOf (s.tc i) ≠ some r) :
    Clear d s (s.accept e r len zero) := by
  refine ⟨fun i _ => .inr (.inl rfl), ?_, fun _ ht => .inl ht⟩
  intro i r' n hi hn hep
  by_cases hr : r' = r
  · subst hr
    rw [(accept_reqs s e r' len zero r').2]
    intro h0
    apply h h0 i hi
    rw [hn]
    rfl
  · rw [(accept_reqs s e r len zero r').1 hr]
    exact hep

theorem clear_push (s : Udc) {t : Task} (ht : t.cuts = false) : Clear d s { s with control := t :: s.control } := by
  refine clear_of_eq (fun _ _ => rfl) (fun _ => rfl) ?_
  intro t' hm
  obtain hm | hm := List.mem_cons.1 hm
  · rw [hm]
    exact .inr ht
  · exact .inl hm

theorem clear_setReq_len (s : Udc) (r n : Nat) : Clear d s (s.setReq r fun x => { x with len := n }) := by
  refine clear_of_eq (fun _ _ => rfl) ?_ fun _ ht => .inl ht
  intro r'
  unfold Udc.setReq
  by_cases hr : r' = r
  · subst hr
    simp
  · simp [hr]

theorem clear_drop (s : Udc) (i : Nat) : Clear d s (s.drop i) := by
  refine ⟨?_, fun _ _ _ _ _ hep => hep, fun _ ht => .inl ht⟩
  intro j hj
  by_cases hji : j = i
  · subst hji
    exact .inl (Function.update_self _ _ _)
  · exact .inr (.inl (Function.update_of_ne hji _ _))

theorem Tweak.clear (h : Tweak s u) : Clear d s u := by
  refine clear_of_eq ?_ ?_ ?_
  · intro i _
    rw [h.tc]
  · intro r
    rw [h.reqs]
  · intro t ht
    rw [h.control] at ht
    exact .inl ht

end Apart

/-! ## The view of endpoint 0 -/

section View

variable {d : Dev} {s u : Udc} {e : Nat}

theorem view_io (s : Udc) (b : Bool) (rq : Rq) :
    (s.usbdEpIo b.toNat rq).view =
      { s.view with
        tc := Function.update s.view.tc b (some (rq, s.rqLength rq))
        rdy := Function.update s.view.rdy b true } := by
  unfold Udc.usbdEpIo Udc.view
  simp only [View.mk.injEq, true_and, and_true]
  refine ⟨?_, ?_⟩
  · funext b'
    cases b <;> cases b' <;> rfl
  · funext b'
    cases b <;> cases b' <;> rfl

theorem toNat_ne {i : Nat} (hi : 2 ≤ i) (b : Bool) : b.toNat ≠ i := by
  cases b
  · exact fun h => absurd hi (by rw [← h]; decide)
  · exact fun h => absurd hi (by rw [← h]; decide)

theorem view_io_far (s : Udc) {i : Nat} (hi : 2 ≤ i) (rq : Rq) : (s.usbdEpIo i rq).view = s.view := by
  unfold Udc.usbdEpIo Udc.view
  simp [Function.update_of_ne (toNat_ne hi _)]

theorem view_abort_far (s : Udc) {i : Nat} (hi : 2 ≤ i) : (s.usbdEpAbort i).view = s.view := by
  unfold Udc.usbdEpAbort
  split
  · unfold Udc.view
    simp [Function.update_of_ne (toNat_ne hi _)]
  · rfl

theorem view_drop_far (s : Udc) {i : Nat} (hi : 2 ≤ i) : (s.drop i).view = s.view := by
  unfold Udc.drop Udc.view
  simp [Function.update_of_ne (toNat_ne hi _)]

theorem view_drop (s : Udc) (b : Bool) :
    (s.drop b.toNat).view =
      { s.view with tc := Function.update s.view.tc b none, rdy := Function.update s.view.rdy b false } := by
  unfold Udc.drop Udc.view
  simp only [View.mk.injEq, true_and, and_true]
  refine ⟨?_, ?_⟩
  · funext b'
    cases b <;> cases b' <;> rfl
  · funext b'
    cases b <;> cases b' <;> rfl

/-- A change of another endpoint, or of `fstall` and `maxpacket`. -/
theorem view_setEp (s : Udc) (f : Ep → Ep)
    (h : e = 0 → (f (s.ep 0)).queue = (s.ep 0).queue ∧ (f (s.ep 0)).fstopped = (s.ep 0).fstopped) :
    (s.setEp e f).view = s.view := by
  unfold Udc.setEp Udc.view
  by_cases h0 : e = 0
  · subst h0
    simp [h rfl]
  · simp [Function.update_of_ne (Ne.symm h0)]

theorem view_stall_far (s : Udc) {i : Nat} (hi : 2 ≤ i) (on : Bool) : (s.usbdEpStall i on).view = s.view := by
  unfold Udc.usbdEpStall Udc.view
  simp [Function.update_of_ne (toNat_ne hi _), show ¬i < 2 by omega]

theorem view_done_far (s : Udc) (h0 : e ≠ 0) (r : Nat) (st : Status) (l : List Task)
    (hl : l.filter Task.zero = s.control.filter Task.zero) : (s.done e r st l).view = s.view := by
  unfold Udc.done Udc.setEp Udc.setReq Udc.view
  simp [Function.update_of_ne (Ne.symm h0), Task.zero, h0, hl]

theorem view_done (s : Udc) (r : Nat) (st : Status) (l : List Task) :
    (s.done 0 r st l).view =
      { s.view with
        queue := s.view.queue.erase r
        fstopped := true
        tasks := .restore 0 s.view.fstopped :: l.filter Task.zero } := by
  unfold Udc.done Udc.setEp Udc.setReq Udc.view
  simp [Task.zero]

theorem view_accept_far (s : Udc) (h0 : e ≠ 0) (r len : Nat) (zero : Bool) : (s.accept e r len zero).view = s.view := by
  unfold Udc.accept Udc.setEp Udc.setReq Udc.view
  simp [Function.update_of_ne (Ne.symm h0)]

theorem view_accept (s : Udc) (r len : Nat) (zero : Bool) :
    (s.accept 0 r len zero).view = { s.view with queue := s.view.queue ++ [r] } := by
  unfold Udc.accept Udc.setEp Udc.setReq Udc.view
  simp

theorem view_push (s : Udc) {t : Task} (h : t.zero = true) :
    ({ s with control := t :: s.control } : Udc).view = { s.view with tasks := t :: s.view.tasks } := by
  unfold Udc.view
  simp [h]

theorem view_push_far (s : Udc) {t : Task} (h : t.zero = false) : ({ s with control := t :: s.control } : Udc).view = s.view := by
  unfold Udc.view
  simp [h]

theorem view_tasks {t : Task} {l : List Task} (hc : s.control = t :: l) (h : t.zero = true) :
    s.view.tasks = t :: ({ s with control := l } : Udc).view.tasks := by
  show s.control.filter Task.zero = t :: l.filter Task.zero
  rw [hc, List.filter_cons_of_pos h]

theorem view_pop_far {t : Task} {l : List Task} (hc : s.control = t :: l) (h : t.zero = false) :
    ({ s with control := l } : Udc).view = s.view := by
  unfold Udc.view
  simp [hc, h]

/-- The event of a request of another endpoint. -/
theorem view_evtReq_far (s : Udc) {r : Nat} (h2 : 2 ≤ (s.reqs r).ep) : (s.evtReq r).view = s.view := by
  unfold Udc.evtReq
  dsimp only
  rw [if_neg (by omega)]
  split
  · exact view_io_far _ h2 _
  · exact view_done_far s (by omega) r .ok _ (by simp [Task.zero])

theorem clear_evtReq_far (s : Udc) {r : Nat} (he : (s.reqs r).ep ∈ d.eps) (h2 : 2 ≤ (s.reqs r).ep) (h : Apart d s) :
    Apart d (s.evtReq r) := by
  unfold Udc.evtReq
  dsimp only
  rw [if_neg (by omega)]
  split
  · have hlen := h.clear (clear_setReq_len s r 0)
    refine hlen.clear (clear_io _ he ?_)
    unfold Udc.setReq
    simp only [Function.update_self]
    omega
  · refine h.clear (clear_done s r .ok _ ?_)
    intro t ht
    obtain ht | ht := List.mem_cons.1 ht
    · rw [ht]
      exact .inr rfl
    · exact .inl ht

end View

end Emlinux.Gadget
