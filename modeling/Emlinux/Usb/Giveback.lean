import Emlinux.Usb.Udc

/-!
# Requests are given back once

The driver keeps the books of `Book` (`Udc.book`). Three of its paths give a request back while a descriptor still refers to it:
`udc_ep_disable` clears `ep->desc` before it calls `nuke`, which then does not abort; `udc_ep_dequeue` aborts only the OUT
descriptor of endpoint 0; and a disconnect nukes endpoint 0 without an abort. And an endpoint that is enabled again by a callback of
its own `nuke` gets its new requests nuked as well. `Tidy` excludes these.

What remains to be shown about the tasks (`Ctl`) is that an endpoint is drained only when it is off, and that no task of an
interrupt runs while an endpoint is being drained.
-/

namespace Emlinux.Gadget

open Lib

/-- The request of a class driver that a descriptor refers to. -/
def slotOf : Option (Rq × Nat) → Option Nat
  | some (.req r, _) => some r
  | _ => none

/-- The books that the driver keeps. -/
def Udc.book (s : Udc) : Book where
  queue e := (s.ep e).queue
  item r := ⟨(s.reqs r).queued, (s.reqs r).ep, (s.reqs r).serial, (s.reqs r).status⟩
  slot i := slotOf (s.tc i)
  next := s.next
  log := s.log

/-- The steps that keep the books in order. -/
def Tidy (s : Udc) : Act → Prop
  | .dequeue e r => e = 0 → s.book.slot 1 ≠ some r
  | .enable e _ _ => .drain e ∉ s.control ∧ .nuke e ∉ s.control
  | .disable e => (s.ep e).desc = true → s.book.slot e = none
  | .tick => s.control.head? = some .evDisc → s.speed ≠ .unknown → s.book.slot 0 = none ∧ s.book.slot 1 = none
  | _ => True

instance (s : Udc) : (a : Act) → Decidable (Tidy s a)
  | .dequeue e r => inferInstanceAs (Decidable (e = 0 → s.book.slot 1 ≠ some r))
  | .enable e _ _ => inferInstanceAs (Decidable (.drain e ∉ s.control ∧ .nuke e ∉ s.control))
  | .disable e => inferInstanceAs (Decidable ((s.ep e).desc = true → s.book.slot e = none))
  | .tick => inferInstanceAs (Decidable (s.control.head? = some .evDisc → s.speed ≠ .unknown →
      s.book.slot 0 = none ∧ s.book.slot 1 = none))
  | .queue _ _ _ _ | .setHalt _ _ | .ret _ | .isr _ _ _ => inferInstanceAs (Decidable True)

/-! ## The operations on the books -/

section Books

variable (s : Udc)

theorem book_usbdEpIo_int (i : Nat) : (s.usbdEpIo i .int).book = s.book.clear i := by
  unfold Udc.usbdEpIo Udc.book Book.clear
  simp only [Book.mk.injEq, true_and, and_true]
  funext j
  by_cases hj : j = i
  · subst hj
    simp [slotOf]
  · simp [hj]

theorem book_usbdEpIo_req (i r : Nat) : (s.usbdEpIo i (.req r)).book = s.book.load i r := by
  unfold Udc.usbdEpIo Udc.book Book.load
  simp only [Book.mk.injEq, true_and, and_true]
  funext j
  by_cases hj : j = i
  · subst hj
    simp [slotOf]
  · simp [hj]

theorem book_usbdEpAbort (i : Nat) : (s.usbdEpAbort i).book = s.book.clear i := by
  unfold Udc.usbdEpAbort Udc.book Book.clear
  split
  · simp only [Book.mk.injEq, true_and, and_true]
    funext j
    by_cases hj : j = i
    · subst hj
      simp [slotOf]
    · simp [hj]
  · next h =>
    simp only [Book.mk.injEq, true_and, and_true]
    funext j
    by_cases hj : j = i
    · subst hj
      have : s.tc j = none := by simpa using h
      simp [slotOf, this]
    · simp [hj]

theorem abort_fields (s : Udc) (i : Nat) : (s.usbdEpAbort i).ep = s.ep ∧ (s.usbdEpAbort i).reqs = s.reqs ∧
    (s.usbdEpAbort i).control = s.control ∧ (s.usbdEpAbort i).speed = s.speed := by
  unfold Udc.usbdEpAbort
  split
  · exact ⟨rfl, rfl, rfl, rfl⟩
  · exact ⟨rfl, rfl, rfl, rfl⟩

/-- A change of the other fields of an endpoint. -/
theorem book_setEp (e : Nat) (f : Ep → Ep) (h : (f (s.ep e)).queue = (s.ep e).queue) : (s.setEp e f).book = s.book := by
  unfold Udc.setEp Udc.book
  simp only [Book.mk.injEq, and_true]
  funext j
  by_cases hj : j = e
  · subst hj
    simp [h]
  · simp [hj]

theorem book_done (e r : Nat) (st : Status) (l : List Task) :
    (s.done e r st l).book = s.book.give e r (((s.reqs r).status).getD st) := by
  unfold Udc.done Udc.setEp Udc.setReq Udc.book Book.give
  simp only [Book.mk.injEq, true_and]
  refine ⟨?_, ?_, ?_⟩
  · funext j
    by_cases hj : j = e
    · subst hj
      simp
    · simp [hj]
  · funext j
    by_cases hj : j = r
    · subst hj
      simp
    · simp [hj]
  · simp

end Books

/-! ## The tasks -/

/-- The tasks of an interrupt; no endpoint is taken down below them. -/
def Task.level : Task → Bool
  | .callback | .restore _ _ | .drain _ | .nuke _ | .disconnect => false
  | _ => true

/-- The tasks that take an endpoint, or the device, down. -/
def Task.down : Task → Bool
  | .drain _ | .nuke _ | .disconnect => true
  | _ => false

/-- The tasks of `udc_quiesce`, which run while the speed is unknown. -/
def Task.dark : Task → Bool
  | .drain e | .nuke e => decide (e < 2)
  | .disconnect => true
  | _ => false

/-- No task of an interrupt comes before one that takes something down. -/
def Layered : List Task → Prop
  | [] => True
  | t :: l => (t.level = true → ∀ t' ∈ l, t'.down = false) ∧ Layered l

/-- What the tasks rely on. -/
structure Ctl (desc : Nat → Bool) (queue : Nat → List Nat) (speed : Speed) (control : List Task) : Prop where
  off : ∀ e, 2 ≤ e → .drain e ∈ control → desc e = false
  dark : ∀ t ∈ control, t.dark = true → speed = .unknown
  idle : ∀ e, 2 ≤ e → desc e = false → queue e ≠ [] → .drain e ∈ control ∨ .nuke e ∈ control
  next : ∀ e, .next e ∈ control → 2 ≤ e
  layered : Layered control

namespace Ctl

variable {desc : Nat → Bool} {queue queue' : Nat → List Nat} {speed : Speed} {control : List Task} {t : Task}

/-- A task is taken off; an endpoint that was drained has nothing queued. -/
theorem pop (h : Ctl desc queue speed (t :: control)) (ht : ∀ e, t = .drain e ∨ t = .nuke e → queue e = []) :
    Ctl desc queue speed control := by
  refine ⟨?_, ?_, ?_, ?_, h.layered.2⟩
  · exact fun e he hm => h.off e he (List.mem_cons_of_mem _ hm)
  · exact fun t' hm => h.dark t' (List.mem_cons_of_mem _ hm)
  · intro e he hd hq
    obtain hm | hm := h.idle e he hd hq
    · obtain hm | hm := List.mem_cons.1 hm
      · exact absurd (ht e (.inl hm.symm)) hq
      · exact .inl hm
    · obtain hm | hm := List.mem_cons.1 hm
      · exact absurd (ht e (.inr hm.symm)) hq
      · exact .inr hm
  · exact fun e hm => h.next e (List.mem_cons_of_mem _ hm)

/-- A task that drains nothing is put on top. -/
theorem push (h : Ctl desc queue speed control) (ho : ∀ e, t ≠ .drain e) (ht : t.dark = true → speed = .unknown)
    (hn : ∀ e, t = .next e → 2 ≤ e) (hl : t.level = true → ∀ t' ∈ control, t'.down = false) :
    Ctl desc queue speed (t :: control) := by
  refine ⟨?_, ?_, ?_, ?_, hl, h.layered⟩
  · intro e he hm
    obtain hm | hm := List.mem_cons.1 hm
    · exact absurd hm.symm (ho e)
    · exact h.off e he hm
  · intro t' hm hd
    obtain hm | hm := List.mem_cons.1 hm
    · rw [hm] at hd
      exact ht hd
    · exact h.dark t' hm hd
  · intro e he hd hq
    exact (h.idle e he hd hq).imp (List.mem_cons_of_mem _) (List.mem_cons_of_mem _)
  · intro e hm
    obtain hm | hm := List.mem_cons.1 hm
    · exact hn e hm.symm
    · exact h.next e hm

/-- `done` puts a call and the restoring of `fstopped` on top. -/
theorem call (h : Ctl desc queue speed control) (e : Nat) (b : Bool) :
    Ctl desc queue speed (.callback :: .restore e b :: control) :=
  (h.push (by simp) (by simp [Task.dark]) (by simp) (by simp [Task.level])).push (by simp) (by simp [Task.dark])
    (by simp) (by simp [Task.level])

/-- Queues may shrink. -/
theorem shrink (h : Ctl desc queue speed control) (hq : ∀ e, queue' e ≠ [] → queue e ≠ []) :
    Ctl desc queue' speed control :=
  ⟨h.off, h.dark, fun e he hd hn => h.idle e he hd (hq e hn), h.next, h.layered⟩

end Ctl

/-- The books are in order, and the slots of an endpoint that is off are empty. -/
structure Inv (s : Udc) : Prop where
  fair : s.book.Fair
  off : ∀ e, 2 ≤ e → (s.ep e).desc = false → s.book.slot e = none
  dark : s.speed = .unknown → s.book.slot 0 = none ∧ s.book.slot 1 = none
  zero : (s.ep 0).desc = false
  one : (s.ep 1).queue = []
  ctl : Ctl (fun e => (s.ep e).desc) s.book.queue s.speed s.control

theorem inv_init : Inv init := by
  refine ⟨?_, fun _ _ _ => rfl, fun _ => ⟨rfl, rfl⟩, rfl, rfl, ?_⟩
  · refine ⟨?_, ?_, ?_, ?_, ?_, .inl rfl, ?_, ?_, ?_, rfl, ?_, ?_⟩
    · simp [Udc.book, init]
    · simp [Udc.book, init]
    · simp [Udc.book, init]
    · simp [Udc.book, init]
    · simp [Udc.book, init, slotOf]
    · intro r
      rfl
    · intro e
      exact List.Pairwise.nil
    · simp [Udc.book, init, okSerials]
    · simp [Udc.book, init]
    · simp [Udc.book, init]
  · refine ⟨?_, ?_, ?_, ?_, trivial⟩ <;> simp [init, Udc.book]

/-! ## Steps that the books hardly show -/

/-- The books are the same but for a slot that may be cleared. -/
structure Mild (s u : Udc) : Prop where
  book : u.book = s.book ∨ ∃ i, u.book = s.book.clear i
  desc : ∀ e, (u.ep e).desc = (s.ep e).desc
  speed : u.speed = s.speed
  control : u.control = s.control

section Steps

variable {d : Dev} {s u : Udc}

theorem Mild.slot (h : Mild s u) (i : Nat) : u.book.slot i = none ∨ u.book.slot i = s.book.slot i := by
  obtain hb | ⟨j, hb⟩ := h.book
  · right
    rw [hb]
  · rw [hb]
    by_cases hij : i = j
    · left
      simp [Book.clear, hij]
    · right
      simp [Book.clear, hij]

theorem Mild.queue (h : Mild s u) : u.book.queue = s.book.queue := by
  obtain hb | ⟨j, hb⟩ := h.book
  · rw [hb]
  · rw [hb]
    rfl

/-- Slots may be cleared and queues shrink. -/
theorem Inv.shrink (h : Inv s) (hf : u.book.Fair) (hd : ∀ e, (u.ep e).desc = (s.ep e).desc) (hs : u.speed = s.speed)
    (hsl : ∀ i, u.book.slot i = none ∨ u.book.slot i = s.book.slot i) (hone : (u.ep 1).queue = [])
    (hc : Ctl (fun e => (u.ep e).desc) u.book.queue u.speed u.control) : Inv u := by
  refine ⟨hf, ?_, ?_, ?_, hone, hc⟩
  · intro e he hde
    rw [hd] at hde
    exact (hsl e).elim id fun hx => hx.trans (h.off e he hde)
  · intro hu
    rw [hs] at hu
    obtain ⟨h0, h1⟩ := h.dark hu
    exact ⟨(hsl 0).elim id fun hx => hx.trans h0, (hsl 1).elim id fun hx => hx.trans h1⟩
  · rw [hd]
    exact h.zero

theorem Inv.mild (h : Inv s) (m : Mild s u) : Inv u := by
  have hf : u.book.Fair := by
    obtain hb | ⟨i, hb⟩ := m.book
    · rw [hb]
      exact h.fair
    · rw [hb]
      exact h.fair.clear i
  refine h.shrink hf m.desc m.speed m.slot ?_ ?_
  · exact (congrFun m.queue 1).trans h.one
  · rw [m.queue, m.speed, m.control, funext m.desc]
    exact h.ctl

/-- The head of a queue is loaded in a slot of it that the hardware has to serve. -/
theorem Inv.load {i e r : Nat} (h : Inv s) (hr : (s.ep e).queue.head? = some r) (ho : Book.Owns e i)
    (hd : 2 ≤ i → (s.ep i).desc = true) (hs : i < 2 → s.speed ≠ .unknown) (h0 : i < 2 → s.book.slot 0 = none ∧ s.book.slot 1 = none) :
    Inv (s.usbdEpIo i (.req r)) := by
  have hb := book_usbdEpIo_req s i r
  refine ⟨?_, ?_, ?_, h.zero, h.one, h.ctl⟩
  · rw [hb]
    refine h.fair.load hr ho ?_ ?_
    · intro hi
      exact (h0 (by omega)).2
    · intro hi
      exact (h0 (by omega)).1
  · intro e' he hde
    have hne : e' ≠ i := by
      intro heq
      subst heq
      have := hd he
      rw [show (s.ep e').desc = false from hde] at this
      cases this
    rw [hb]
    show Function.update s.book.slot i (some r) e' = none
    rw [Function.update_of_ne hne]
    exact h.off e' he hde
  · intro hu
    have hi : ¬i < 2 := fun hi => hs hi hu
    rw [hb]
    show Function.update s.book.slot i (some r) 0 = none ∧ Function.update s.book.slot i (some r) 1 = none
    rw [Function.update_of_ne (by omega), Function.update_of_ne (by omega)]
    exact h.dark hu

/-- `done`, for a request that is in no slot. -/
theorem Inv.done {e r : Nat} {st : Status} {l : List Task} (h : Inv s) (hr : r ∈ (s.ep e).queue)
    (hsl : ∀ i, s.book.slot i ≠ some r) (hok : st = .ok → (s.ep e).queue.head? = some r)
    (hl : Ctl (fun e => (s.ep e).desc) s.book.queue s.speed l) : Inv (s.done e r st l) := by
  have hst : (s.reqs r).status = none := h.fair.status r ((h.fair.mem e r).1 hr).1
  have hb := book_done s e r st l
  rw [hst] at hb
  have hep : ∀ e', ((s.done e r st l).ep e').desc = (s.ep e').desc := by
    intro e'
    unfold Udc.done Udc.setEp Udc.setReq
    by_cases he : e' = e
    · subst he
      simp
    · simp [he]
  have hqe : ∀ e', ((s.done e r st l).ep e').queue ≠ [] → (s.ep e').queue ≠ [] := by
    intro e'
    unfold Udc.done Udc.setEp Udc.setReq
    by_cases he : e' = e
    · subst he
      simp only [Function.update_self]
      intro hn hz
      rw [hz] at hn
      exact hn rfl
    · simp [he]
  refine h.shrink ?_ hep rfl ?_ ?_ ?_
  · rw [hb]
    exact h.fair.give hr hsl hok
  · intro i
    right
    rw [hb]
    rfl
  · by_contra hn
    exact hqe 1 hn h.one
  · rw [funext hep]
    exact (hl.shrink hqe).call e _

/-- No slot refers to a request of an endpoint that is off. -/
theorem Inv.not_slot {e r : Nat} (h : Inv s) (hr : r ∈ (s.ep e).queue) (hoff : 2 ≤ e → (s.ep e).desc = false)
    (hdark : e < 2 → s.speed = .unknown) (i : Nat) : s.book.slot i ≠ some r := by
  intro hi
  have hep : (s.book.item r).ep = e := ((h.fair.mem e r).1 hr).2
  obtain ⟨-, ho⟩ := h.fair.head i r hi
  rw [hep] at ho
  by_cases he : 2 ≤ e
  · have hie : i = e := by
      obtain ho | ⟨h0, -⟩ := ho
      · exact ho
      · omega
    rw [hie, h.off e he (hoff he)] at hi
    cases hi
  · obtain ⟨h0, h1⟩ := h.dark (hdark (by omega))
    have hi2 : i = 0 ∨ i = 1 := by
      obtain ho | ⟨-, ho⟩ := ho
      · omega
      · omega
    obtain rfl | rfl := hi2
    · rw [h0] at hi
      cases hi
    · rw [h1] at hi
      cases hi

/-- When nothing is queued on endpoint 0, neither of its slots refers to a request. -/
theorem Inv.slots_zero (h : Inv s) (hq : (s.ep 0).queue = []) : s.book.slot 0 = none ∧ s.book.slot 1 = none := by
  have hnone : ∀ i < 2, s.book.slot i = none := by
    intro i hi
    cases hs : s.book.slot i with
    | none => rfl
    | some r =>
      obtain ⟨hh, ho⟩ := h.fair.head i r hs
      have hne : (s.book.item r).ep = 0 ∨ (s.book.item r).ep = 1 := by
        obtain ho | ⟨ho, -⟩ := ho
        · omega
        · exact .inl ho
      obtain he | he := hne
      · rw [he, show s.book.queue 0 = [] from hq] at hh
        cases hh
      · rw [he, show s.book.queue 1 = [] from h.one] at hh
        cases hh
  exact ⟨hnone 0 (by omega), hnone 1 (by omega)⟩

end Steps

/-! ## The calls of the class driver -/

section Calls

variable {d : Dev} {s u : Udc}

theorem Dev.has_cases {d : Dev} {e : Nat} (h : d.has e = true) : e = 0 ∨ 2 ≤ e := by
  unfold Dev.has at h
  simp only [Bool.or_eq_true, beq_iff_eq, List.contains_eq_mem, decide_eq_true_eq] at h
  exact h.imp id (d.eps_ge e)

/-- `udc_ep_queue` without the hardware. -/
def Udc.accept (s : Udc) (e r len : Nat) (zero : Bool) : Udc :=
  { s.setReq r fun _ => ⟨e, len, zero, none, len, true, s.next⟩ with
    next := s.next + 1, log := s.log ++ [Ev.accepted e r s.next] }.setEp e fun x => { x with queue := x.queue ++ [r] }

theorem book_accept (s : Udc) (e r len : Nat) (zero : Bool) : (s.accept e r len zero).book = s.book.take e r := by
  unfold Udc.accept Udc.setEp Udc.setReq Udc.book Book.take
  simp only [Book.mk.injEq, and_true]
  refine ⟨?_, ?_⟩
  · funext j
    by_cases hj : j = e
    · subst hj
      simp
    · simp [hj]
  · funext j
    by_cases hj : j = r
    · subst hj
      simp
    · simp [hj]

theorem accept_ep (s : Udc) (e r len : Nat) (zero : Bool) (e' : Nat) :
    ((s.accept e r len zero).ep e').desc = (s.ep e').desc := by
  unfold Udc.accept Udc.setEp Udc.setReq
  by_cases he : e' = e
  · subst he
    simp
  · simp [he]

theorem accept_queue (s : Udc) (e r len : Nat) (zero : Bool) :
    ((s.accept e r len zero).ep e).queue = (s.ep e).queue ++ [r] := by
  unfold Udc.accept Udc.setEp Udc.setReq
  simp

theorem accept_queue_of_ne (s : Udc) {e e' : Nat} (r len : Nat) (zero : Bool) (he : e' ≠ e) :
    ((s.accept e r len zero).ep e').queue = (s.ep e').queue := by
  unfold Udc.accept Udc.setEp Udc.setReq
  simp [he]

theorem Inv.accept {e r len : Nat} {zero : Bool} (h : Inv s) (he : e = 0 ∨ 2 ≤ e) (hr : (s.reqs r).queued = false)
    (hd : e = 0 ∨ (s.ep e).desc = true) : Inv (s.accept e r len zero) := by
  have hb := book_accept s e r len zero
  have hep := accept_ep s e r len zero
  have hslot : (s.accept e r len zero).book.slot = s.book.slot := by rw [hb]; rfl
  refine ⟨?_, ?_, ?_, ?_, ?_, ?_⟩
  · rw [hb]
    exact h.fair.take hr
  · intro e' he' hde
    rw [hep] at hde
    rw [hslot]
    exact h.off e' he' hde
  · intro hu
    rw [hslot]
    exact h.dark hu
  · rw [hep]
    exact h.zero
  · rw [accept_queue_of_ne s r len zero (by omega)]
    exact h.one
  · rw [funext hep]
    refine ⟨h.ctl.off, h.ctl.dark, ?_, h.ctl.next, h.ctl.layered⟩
    intro e' he' hde hq
    by_cases hee : e' = e
    · subst hee
      obtain h0 | h1 := hd
      · omega
      · rw [h1] at hde
        cases hde
    · apply h.ctl.idle e' he' hde
      have hq' : ((s.accept e r len zero).ep e').queue ≠ [] := hq
      rw [accept_queue_of_ne s r len zero hee] at hq'
      exact hq'

theorem Inv.queue {e r len : Nat} {zero : Bool} (h : Inv s) (he : e = 0 ∨ 2 ≤ e) : Inv (s.udcEpQueue e r len zero) := by
  unfold Udc.udcEpQueue
  split
  · exact h
  · next hr =>
    split
    · exact h
    · next hd =>
      split
      · exact h
      · next hs =>
        have hr' : (s.reqs r).queued = false := by simpa using hr
        have hd' : e = 0 ∨ (s.ep e).desc = true := by
          by_cases h0 : e = 0
          · exact .inl h0
          · right
            by_contra hn
            exact hd ⟨by simpa using hn, h0⟩
        have hI : Inv (s.accept e r len zero) := h.accept he hr' hd'
        dsimp only
        split
        · next hk =>
          have hq : (s.ep e).queue = [] := hk.1
          have hhead : ((s.accept e r len zero).ep e).queue.head? = some r := by
            rw [accept_queue, hq]
            rfl
          have hslot : (s.accept e r len zero).book.slot = s.book.slot := by rw [book_accept]; rfl
          apply hI.load hhead
          · split
            · next h0 => exact .inr ⟨h0.1, rfl⟩
            · exact .inl rfl
          · intro hi
            have hie : (if e = 0 ∧ s.stage &&& stIn ≠ 0 then 1 else e) = e := by
              split at hi
              · omega
              · next h0 => rw [if_neg h0]
            rw [hie] at hi ⊢
            rw [accept_ep]
            exact hd'.resolve_left (by omega)
          · exact fun _ => hs
          · intro hi
            have he0 : e = 0 := by
              split at hi
              · next h0 => exact h0.1
              · omega
            subst he0
            rw [hslot]
            exact h.slots_zero hq
        · exact hI

theorem Inv.dequeue {e r : Nat} (h : Inv s) (hg : Tidy s (.dequeue e r)) :
    Inv (s.udcEpDequeue e r) := by
  unfold Udc.udcEpDequeue
  split
  · next hr =>
    have hep : (s.book.item r).ep = e := ((h.fair.mem e r).1 hr).2
    dsimp only
    split
    · -- the head: its slot is cleared
      next hh =>
      have hm : Mild s (s.usbdEpAbort e) := by
        refine ⟨.inr ⟨e, book_usbdEpAbort s e⟩, ?_, ?_, ?_⟩
        all_goals
          unfold Udc.usbdEpAbort
          split
          all_goals simp
      have hI := h.mild hm
      have hq : ((s.usbdEpAbort e).ep e).queue = (s.ep e).queue := congrFun hm.queue e
      refine hI.done (by rw [hq]; exact hr) ?_ (by simp) ?_
      · intro i hi
        rw [book_usbdEpAbort] at hi
        by_cases hie : i = e
        · simp [Book.clear, hie] at hi
        · have hi' : s.book.slot i = some r := by simpa [Book.clear, hie] using hi
          obtain ⟨-, ho⟩ := h.fair.head i r hi'
          rw [hep] at ho
          obtain ho | ⟨h0, h1⟩ := ho
          · exact hie ho
          · rw [h1] at hi'
            exact hg h0 hi'
      · exact hI.ctl
    · next hh =>
      refine h.done hr ?_ (by simp) h.ctl
      intro i hi
      obtain ⟨hh', -⟩ := h.fair.head i r hi
      rw [hep] at hh'
      exact hh hh'
  · exact h

theorem Inv.enable {e mps : Nat} {valid : Bool} (h : Inv s) (hg : Tidy s (.enable e mps valid)) :
    Inv (s.udcEpEnable e mps valid) := by
  unfold Udc.udcEpEnable
  split
  · exact h
  · next hn =>
    push Not at hn
    obtain ⟨-, -, h0, -, -⟩ := hn
    generalize hu : s.setEp e (fun x => { x with maxpacket := mps, desc := true, fstopped := false }) = u
    have hb : u.book = s.book := by
      rw [← hu]
      exact book_setEp s e _ rfl
    have hc : u.control = s.control := by rw [← hu]; rfl
    have hsp : u.speed = s.speed := by rw [← hu]; rfl
    have hon : (u.ep e).desc = true := by rw [← hu]; simp [Udc.setEp]
    have hsame : ∀ e', e' ≠ e → (u.ep e').desc = (s.ep e').desc := by
      intro e' he
      rw [← hu]
      simp [Udc.setEp, he]
    have hoff : ∀ e', (u.ep e').desc = false → e' ≠ e ∧ (s.ep e').desc = false := by
      intro e' hf
      have hne : e' ≠ e := by
        intro heq
        rw [heq, hon] at hf
        cases hf
      exact ⟨hne, (hsame e' hne).symm.trans hf⟩
    refine ⟨?_, ?_, ?_, ?_, ?_, ?_⟩
    · rw [hb]
      exact h.fair
    · intro e' he' hde
      rw [hb]
      exact h.off e' he' (hoff e' hde).2
    · rw [hb, hsp]
      exact h.dark
    · rw [hsame 0 (Ne.symm h0)]
      exact h.zero
    · exact (congrFun (congrArg Book.queue hb) 1).trans h.one
    · rw [hb, hsp, hc]
      refine ⟨?_, h.ctl.dark, ?_, h.ctl.next, h.ctl.layered⟩
      · intro e' he' hm
        have hne : e' ≠ e := by
          intro heq
          rw [heq] at hm
          exact hg.1 hm
        exact (hsame e' hne).trans (h.ctl.off e' he' hm)
      · intro e' he' hde
        exact h.ctl.idle e' he' (hoff e' hde).2

theorem Inv.disable {e : Nat} (h : Inv s) (he : e = 0 ∨ 2 ≤ e) (hg : Tidy s (.disable e)) : Inv (s.udcEpDisable e) := by
  unfold Udc.udcEpDisable
  split
  · exact h
  · next hd =>
    have hd' : (s.ep e).desc = true := by simpa using hd
    have he2 : 2 ≤ e := by
      obtain rfl | he := he
      · exact absurd h.zero hd
      · exact he
    generalize hu : s.setEp e (fun x => { x with desc := false, fstopped := true }) = u
    have hb : u.book = s.book := by
      rw [← hu]
      exact book_setEp s e _ rfl
    have hc : u.control = s.control := by rw [← hu]; rfl
    have hsp : u.speed = s.speed := by rw [← hu]; rfl
    have hoff : (u.ep e).desc = false := by rw [← hu]; simp [Udc.setEp]
    have hsame : ∀ e', e' ≠ e → (u.ep e').desc = (s.ep e').desc := by
      intro e' he
      rw [← hu]
      simp [Udc.setEp, he]
    have hslot : s.book.slot e = none := hg hd'
    rw [← hc]
    refine ⟨?_, ?_, ?_, ?_, ?_, ?_⟩
    · rw [show ({ u with control := .nuke e :: u.control } : Udc).book = s.book from hb]
      exact h.fair
    · intro e' he' hde
      rw [show ({ u with control := .nuke e :: u.control } : Udc).book = s.book from hb]
      by_cases hee : e' = e
      · rw [hee]
        exact hslot
      · exact h.off e' he' ((hsame e' hee).symm.trans hde)
    · rw [show ({ u with control := .nuke e :: u.control } : Udc).book = s.book from hb]
      intro hs
      exact h.dark (hsp.symm.trans hs)
    · exact (hsame 0 (by omega)).trans h.zero
    · exact (congrFun (congrArg Book.queue hb) 1).trans h.one
    · rw [show ({ u with control := .nuke e :: u.control } : Udc).book = s.book from hb]
      show Ctl (fun e => (u.ep e).desc) s.book.queue u.speed (.nuke e :: u.control)
      rw [hsp, hc]
      refine ⟨?_, ?_, ?_, ?_, by simp [Task.level], h.ctl.layered⟩
      · intro e' he' hm
        by_cases hee : e' = e
        · rw [hee]
          exact hoff
        · obtain hm | hm := List.mem_cons.1 hm
          · cases hm
          · exact (hsame e' hee).trans (h.ctl.off e' he' hm)
      · intro t hm hdn
        obtain hm | hm := List.mem_cons.1 hm
        · rw [hm] at hdn
          have : e < 2 := by simpa [Task.dark] using hdn
          omega
        · exact h.ctl.dark t hm hdn
      · intro e' he' hde hq
        by_cases hee : e' = e
        · rw [hee]
          exact .inr List.mem_cons_self
        · obtain hm | hm := h.ctl.idle e' he' ((hsame e' hee).symm.trans hde) hq
          · exact .inl (List.mem_cons_of_mem _ hm)
          · exact .inr (List.mem_cons_of_mem _ hm)
      · intro e' hm
        obtain hm | hm := List.mem_cons.1 hm
        · cases hm
        · exact h.ctl.next e' hm

theorem mild_usbdEpStall (s : Udc) (i : Nat) (on : Bool) : Mild s (s.usbdEpStall i on) :=
  ⟨.inl rfl, fun _ => rfl, rfl, rfl⟩

/-- A change of `fstall`, `fstopped` or `maxpacket`. -/
theorem mild_setEp (s : Udc) (e : Nat) (f : Ep → Ep) (hq : (f (s.ep e)).queue = (s.ep e).queue)
    (hd : (f (s.ep e)).desc = (s.ep e).desc) : Mild s (s.setEp e f) := by
  refine ⟨.inl (book_setEp s e f hq), ?_, rfl, rfl⟩
  intro e'
  unfold Udc.setEp
  by_cases he : e' = e
  · subst he
    simp [hd]
  · simp [he]

theorem Inv.setHalt {e : Nat} {on : Bool} (h : Inv s) : Inv (s.udcEpSetHalt e on) := by
  unfold Udc.udcEpSetHalt
  split
  · exact h
  · exact (h.mild (mild_setEp s e (fun x => { x with fstall := on }) rfl rfl)).mild (mild_usbdEpStall _ e on)

end Calls

end Emlinux.Gadget
