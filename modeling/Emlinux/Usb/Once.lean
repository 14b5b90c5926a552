import Emlinux.Usb.Giveback

/-!
# The interrupt of the gadget driver keeps the books

Each task keeps `Inv`, and so does each step of a tidy run.
-/

namespace Emlinux.Gadget

open Lib

section Evt

variable {d : Dev} {s u : Udc}

/-- Fields that neither the books nor the tasks show. -/
theorem mild_setStage (s : Udc) (v : BitVec 8) (b : Bool) : Mild s (s.setStage v b) :=
  ⟨.inl rfl, fun _ => rfl, rfl, rfl⟩

theorem mild_io_int (s : Udc) (i : Nat) : Mild s (s.usbdEpIo i .int) :=
  ⟨.inr ⟨i, book_usbdEpIo_int s i⟩, fun _ => rfl, rfl, rfl⟩

/-- `udc_setup` loads at most the internal request. -/
theorem inv_answer (h : Inv s) (len : Nat) : Inv (s.answer len) :=
  (h.mild (u := { s with rqLen := len }) ⟨.inl rfl, fun _ => rfl, rfl, rfl⟩).mild (mild_io_int _ 1)

theorem mild_getStatus (s : Udc) : Mild s s.getStatus := by
  unfold Udc.getStatus
  dsimp only
  split
  · exact ⟨.inl rfl, fun _ => rfl, rfl, rfl⟩
  · split
    · exact ⟨.inl rfl, fun _ => rfl, rfl, rfl⟩
    · split
      · exact ⟨.inl rfl, fun _ => rfl, rfl, rfl⟩
      · exact ⟨.inl rfl, fun _ => rfl, rfl, rfl⟩

theorem Inv.feature {flag : Bool} (h : Inv s) (hu : s.feature flag = some u) : Inv u ∧ u.control = s.control := by
  unfold Udc.feature at hu
  dsimp only at hu
  split at hu
  · split at hu
    · cases hu
      exact ⟨h.mild ⟨.inl rfl, fun _ => rfl, rfl, rfl⟩, rfl⟩
    · split at hu
      · cases hu
        exact ⟨h, rfl⟩
      · cases hu
  · split at hu
    · cases hu
      exact ⟨(h.mild (mild_usbdEpStall s _ flag)).mild (mild_setEp _ _ _ rfl rfl), rfl⟩
    · cases hu

theorem Inv.setup (h : Inv s) (hu : s.udcSetup = some u) : Inv u := by
  unfold Udc.udcSetup at hu
  split at hu
  · split at hu
    · cases hu
    · cases hu
      exact inv_answer h 0
  · split at hu
    · cases hu
      exact inv_answer (h.mild (mild_getStatus s)) 2
    · split at hu
      · obtain ⟨v, hv, rfl⟩ := Option.map_eq_some_iff.1 hu
        exact inv_answer (h.feature hv).1 0
      · split at hu
        · obtain ⟨v, hv, rfl⟩ := Option.map_eq_some_iff.1 hu
          exact inv_answer (h.feature hv).1 0
        · cases hu

/-- A task of an interrupt is put on top of others of its kind. -/
theorem Inv.push {t : Task} (h : Inv s) (ho : ∀ e, t ≠ .drain e) (ht : t.dark = true → s.speed = .unknown)
    (hn : ∀ e, t = .next e → 2 ≤ e) (hl : t.level = true → ∀ t' ∈ s.control, t'.down = false) :
    Inv { s with control := t :: s.control } :=
  ⟨h.fair, h.off, h.dark, h.zero, h.one, h.ctl.push ho ht hn hl⟩

theorem Inv.evtInt (h : Inv s) (hl : ∀ t ∈ s.control, t.down = false) : Inv s.evtInt := by
  unfold Udc.evtInt
  split
  · have hI := h.mild (mild_setStage s s.setup.first false)
    dsimp only
    split
    · next u hu => exact hI.setup hu
    · exact hI.push (by simp) (by simp [Task.dark]) (by simp) fun _ => hl
  · split
    · exact ((h.mild (mild_setStage s stSta false)).mild
        (u := { s.setStage stSta false with rqLen := 0 }) ⟨.inl rfl, fun _ => rfl, rfl, rfl⟩).mild (mild_io_int _ 0)
    · exact h.push (by simp) (by simp [Task.dark]) (by simp) fun _ => hl

theorem mild_setReq_len (s : Udc) (r n : Nat) : Mild s (s.setReq r fun x => { x with len := n }) := by
  refine ⟨.inl ?_, fun _ => rfl, rfl, rfl⟩
  unfold Udc.setReq Udc.book
  simp only [Book.mk.injEq, true_and, and_true]
  funext j
  by_cases hj : j = r
  · subst hj
    simp
  · simp [hj]

/-- A request that was the head of its queue and is in no slot any more. -/
structure Fetched (s : Udc) (r : Nat) : Prop where
  head : (s.ep (s.reqs r).ep).queue.head? = some r
  free : ∀ i, s.book.slot i ≠ some r
  real : (s.reqs r).ep ≠ 1
  on : 2 ≤ (s.reqs r).ep → (s.ep (s.reqs r).ep).desc = true
  zero : (s.reqs r).ep = 0 → s.speed ≠ .unknown ∧ s.book.slot 0 = none ∧ s.book.slot 1 = none

theorem Fetched.mem {r : Nat} (h : Fetched s r) : r ∈ (s.ep (s.reqs r).ep).queue := List.mem_of_head? h.head

theorem Inv.evtReq {r : Nat} (h : Inv s) (hf : Fetched s r) (hl : ∀ t ∈ s.control, t.down = false) : Inv (s.evtReq r) := by
  unfold Udc.evtReq
  dsimp only
  split
  · next h0 =>
    have hhead := hf.head
    have hmem := hf.mem
    rw [h0] at hhead hmem
    split
    · refine h.done hmem hf.free (fun _ => hhead) ?_
      exact h.ctl.push (by simp) (by simp [Task.dark]) (by simp) fun _ => hl
    · split
      · -- a packet of length zero follows
        have hI := h.mild (mild_setReq_len s r 0)
        have hb : (s.setReq r fun x => { x with len := 0 }).book.slot = s.book.slot := rfl
        refine hI.load (e := 0) hhead (.inr ⟨rfl, rfl⟩) (by omega) (fun _ => (hf.zero h0).1) ?_
        rw [hb]
        exact fun _ => (hf.zero h0).2
      · have hI := h.mild (mild_setStage s (s.stage ^^^ (stSta ||| stDat ||| stIn)) false)
        refine hI.done hmem hf.free (fun _ => hhead) ?_
        exact h.ctl.push (by simp) (by simp [Task.dark]) (by simp) fun _ => hl
  · next h0 =>
    have h2 : 2 ≤ (s.reqs r).ep := by
      have := hf.real
      omega
    split
    · have hI := h.mild (mild_setReq_len s r 0)
      exact hI.load (e := (s.reqs r).ep) hf.head (.inl rfl) (fun _ => hf.on h2) (by omega) (by omega)
    · refine h.done hf.mem hf.free (fun _ => hf.head) ?_
      refine h.ctl.push (by simp) (by simp [Task.dark]) ?_ fun _ => hl
      intro e he
      cases he
      exact h2

/-- The descriptor `i` is emptied. -/
def Udc.drop (s : Udc) (i : Nat) : Udc :=
  { s with rdy := Function.update s.rdy i false, tc := Function.update s.tc i none }

theorem book_drop (s : Udc) (i : Nat) : (s.drop i).book = s.book.clear i := by
  unfold Udc.drop Udc.book Book.clear
  simp only [Book.mk.injEq, true_and, and_true]
  funext j
  by_cases hj : j = i
  · subst hj
    simp [slotOf]
  · simp [hj]

theorem mild_drop (s : Udc) (i : Nat) : Mild s (s.drop i) := ⟨.inr ⟨i, book_drop s i⟩, fun _ => rfl, rfl, rfl⟩

/-- The request that was in descriptor `i`. -/
theorem Inv.fetched {i r : Nat} (h : Inv s) (hs : s.book.slot i = some r) : Fetched (s.drop i) r := by
  have hb : (s.drop i).book.slot = Function.update s.book.slot i none := congrArg Book.slot (book_drop s i)
  obtain ⟨hh, ho⟩ := h.fair.head i r hs
  have hne : s.book.slot i ≠ none := by
    rw [hs]
    simp
  refine ⟨hh, ?_, ?_, ?_, ?_⟩
  · intro j hj
    rw [hb] at hj
    by_cases hji : j = i
    · rw [hji, Function.update_self] at hj
      cases hj
    · rw [Function.update_of_ne hji] at hj
      exact hji (h.fair.slot_inj hj hs)
  · intro h1
    have hh' : (s.ep (s.reqs r).ep).queue.head? = some r := hh
    rw [show (s.reqs r).ep = 1 from h1, h.one] at hh'
    cases hh'
  · intro h2
    have h2' : 2 ≤ (s.book.item r).ep := h2
    have hi : i = (s.book.item r).ep := by
      obtain ho | ⟨ho, -⟩ := ho
      · exact ho
      · omega
    by_contra hd
    apply hne
    rw [hi]
    exact h.off _ h2' (Bool.eq_false_iff.2 hd)
  · intro h0
    have h0' : (s.book.item r).ep = 0 := h0
    have hi : i = 0 ∨ i = 1 := by
      obtain ho | ⟨-, ho⟩ := ho
      · omega
      · exact .inr ho
    have hsp : s.speed ≠ .unknown := by
      intro hu
      obtain ⟨hd0, hd1⟩ := h.dark hu
      obtain rfl | rfl := hi
      · exact hne hd0
      · exact hne hd1
    refine ⟨hsp, ?_⟩
    rw [hb]
    obtain rfl | rfl := hi
    · exact ⟨Function.update_self _ _ _, (Function.update_of_ne (by decide) _ _).trans (h.fair.single.resolve_left hne)⟩
    · exact ⟨(Function.update_of_ne (by decide) _ _).trans (h.fair.single.resolve_right hne), Function.update_self _ _ _⟩

theorem Inv.usbdDone {i : Nat} {pkt : Setup} (h : Inv s) (hl : ∀ t ∈ s.control, t.down = false) :
    Inv (s.usbdDone i pkt) := by
  unfold Udc.usbdDone
  dsimp only
  split
  · have hI := h.mild (u := { s with rdy := Function.update s.rdy i false }) ⟨.inl rfl, fun _ => rfl, rfl, rfl⟩
    split
    · have hI' := h.mild (u := { s with
        rdy := Function.update s.rdy i false
        stall := Function.update s.stall i false }) ⟨.inl rfl, fun _ => rfl, rfl, rfl⟩
      exact hI'.push (by simp) (by simp [Task.dark]) (by simp) fun _ => hl
    · exact hI
  · next rq n htc =>
    have hI := h.mild (mild_drop s i)
    cases rq with
    | int =>
      dsimp only
      split
      · exact (hI.mild (u := { s.drop i with setup := pkt, pkt := pkt }) ⟨.inl rfl, fun _ => rfl, rfl, rfl⟩).evtInt hl
      · exact hI.evtInt hl
    | req r =>
      have hs : s.book.slot i = some r := by
        show slotOf (s.tc i) = some r
        rw [htc]
        rfl
      exact hI.evtReq (h.fetched hs) hl

end Evt

/-! ## The tasks -/

section Tasks

variable {d : Dev} {s u : Udc} {l : List Task}

/-- The state with its first task taken off. -/
theorem Inv.pop {t : Task} (h : Inv s) (hc : s.control = t :: l) (ht : ∀ e, t = .drain e ∨ t = .nuke e → (s.ep e).queue = []) :
    Inv { s with control := l } := by
  have hctl := h.ctl
  rw [hc] at hctl
  exact ⟨h.fair, h.off, h.dark, h.zero, h.one, hctl.pop ht⟩

/-- `udc_quiesce` with the endpoint 0 out of the hardware. -/
theorem Inv.quiesce (h : Inv s) (pre : List Task) (h0 : s.book.slot 0 = none ∧ s.book.slot 1 = none)
    (hl : ∀ t ∈ s.control, t.down = false) (hpre : ∀ t ∈ pre, t = .fullSpeed ∨ t = .qsetup false) :
    Inv (s.udcQuiesce d (.disconnect :: (pre ++ s.control))) := by
  have hbase : Ctl (fun e => (s.ep e).desc) s.book.queue .unknown s.control :=
    ⟨h.ctl.off, fun _ _ _ => rfl, h.ctl.idle, h.ctl.next, h.ctl.layered⟩
  have hpush : Ctl (fun e => (s.ep e).desc) s.book.queue .unknown (pre ++ s.control) ∧
      ∀ t ∈ pre ++ s.control, t.down = false := by
    clear h0
    induction pre with
    | nil => exact ⟨hbase, hl⟩
    | cons t pre ih =>
      obtain ⟨hc, hdn⟩ := ih fun t' hm => hpre t' (List.mem_cons_of_mem _ hm)
      have ht := hpre t List.mem_cons_self
      refine ⟨hc.push ?_ (fun _ => rfl) ?_ fun _ => hdn, ?_⟩
      · intro e he
        rw [he] at ht
        simp at ht
      · intro e he
        rw [he] at ht
        simp at ht
      · intro t' hm
        obtain hm | hm := List.mem_cons.1 hm
        · rw [hm]
          obtain ht | ht := ht <;> rw [ht] <;> rfl
        · exact hdn t' hm
  have hdisc : Ctl (fun e => (s.ep e).desc) s.book.queue .unknown (.disconnect :: (pre ++ s.control)) :=
    hpush.1.push (by simp) (fun _ => rfl) (by simp) (by simp [Task.level])
  have hnukes : Ctl (fun e => (s.ep e).desc) s.book.queue .unknown
      (d.eps.map Task.nuke ++ (.disconnect :: (pre ++ s.control))) := by
    induction d.eps with
    | nil => exact hdisc
    | cons e es ih => exact ih.push (by simp) (fun _ => rfl) (by simp) (by simp [Task.level])
  exact ⟨h.fair, h.off, fun _ => h0, h.zero, h.one,
    hnukes.push (by simp) (fun _ => rfl) (by simp) (by simp [Task.level])⟩

/-- `nuke` of an endpoint that is on. -/
theorem nuke_on (s : Udc) {e : Nat} (he : e ≠ 0) (hd : (s.ep e).desc = true) :
    (s.nuke e).book = s.book.clear e ∧ ((s.nuke e).ep e).desc = false ∧
      (∀ e', e' ≠ e → ((s.nuke e).ep e').desc = (s.ep e').desc) ∧ (s.nuke e).speed = s.speed := by
  unfold Udc.nuke
  rw [if_pos hd, if_pos he, if_pos he]
  refine ⟨?_, ?_, ?_, ?_⟩
  · rw [book_setEp _ _ _ rfl, book_usbdEpAbort, book_setEp _ _ _ rfl]
  · simp [Udc.setEp]
  · intro e' hee
    simp [Udc.setEp, hee, (abort_fields _ _).1]
  · exact (abort_fields _ _).2.2.2

/-- `nuke` up to its loop. -/
theorem Inv.nuke {e : Nat} (h : Inv s) (hc : s.control = .nuke e :: l) :
    Inv { { s with control := l }.nuke e with control := .drain e :: l } := by
  have hctl := h.ctl
  rw [hc] at hctl
  -- the task is replaced by the loop, and the endpoint is off
  have key : ∀ desc : Nat → Bool, (∀ e', e' ≠ e → desc e' = (s.ep e').desc) → (2 ≤ e → desc e = false) →
      Ctl desc s.book.queue s.speed (.drain e :: l) := by
    intro desc hsame hoff
    refine ⟨?_, ?_, ?_, ?_, by simp [Task.level], hctl.layered.2⟩
    · intro e' he' hm
      by_cases hee : e' = e
      · rw [hee] at he' ⊢
        exact hoff he'
      · obtain hm | hm := List.mem_cons.1 hm
        · cases hm
          exact absurd rfl hee
        · exact (hsame e' hee).trans (hctl.off e' he' (List.mem_cons_of_mem _ hm))
    · intro t hm hd
      obtain hm | hm := List.mem_cons.1 hm
      · rw [hm] at hd
        exact hctl.dark (.nuke e) List.mem_cons_self hd
      · exact hctl.dark t (List.mem_cons_of_mem _ hm) hd
    · intro e' he' hd hq
      by_cases hee : e' = e
      · rw [hee]
        exact .inl List.mem_cons_self
      · obtain hm | hm := hctl.idle e' he' ((hsame e' hee).symm.trans hd) hq
        · obtain hm | hm := List.mem_cons.1 hm
          · cases hm
          · exact .inl (List.mem_cons_of_mem _ hm)
        · obtain hm | hm := List.mem_cons.1 hm
          · cases hm
            exact absurd rfl hee
          · exact .inr (List.mem_cons_of_mem _ hm)
    · intro e' hm
      obtain hm | hm := List.mem_cons.1 hm
      · cases hm
      · exact hctl.next e' (List.mem_cons_of_mem _ hm)
  by_cases hd : (s.ep e).desc = true
  · have he0 : e ≠ 0 := by
      intro h0
      rw [h0, h.zero] at hd
      cases hd
    obtain ⟨hb, hoff, hsame, hsp⟩ := nuke_on ({ s with control := l } : Udc) he0 hd
    refine ⟨?_, ?_, ?_, ?_, ?_, ?_⟩
    · rw [show ({ ({ s with control := l } : Udc).nuke e with control := .drain e :: l } : Udc).book = s.book.clear e from hb]
      exact h.fair.clear e
    · intro e' he' hde
      rw [show ({ ({ s with control := l } : Udc).nuke e with control := .drain e :: l } : Udc).book = s.book.clear e from hb]
      by_cases hee : e' = e
      · simp [Book.clear, hee]
      · show Function.update s.book.slot e none e' = none
        rw [Function.update_of_ne hee]
        exact h.off e' he' ((hsame e' hee).symm.trans hde)
    · rw [show ({ ({ s with control := l } : Udc).nuke e with control := .drain e :: l } : Udc).book = s.book.clear e from hb]
      intro hu
      obtain ⟨h0, h1⟩ := h.dark (hsp.symm.trans hu)
      have hcl : ∀ i, s.book.slot i = none → (s.book.clear e).slot i = none := by
        intro i hi
        by_cases hie : i = e
        · simp [Book.clear, hie]
        · simpa [Book.clear, hie] using hi
      exact ⟨hcl 0 h0, hcl 1 h1⟩
    · exact (hsame 0 (Ne.symm he0)).trans h.zero
    · exact (congrFun (congrArg Book.queue hb) 1).trans h.one
    · rw [show ({ ({ s with control := l } : Udc).nuke e with control := .drain e :: l } : Udc).book = s.book.clear e from hb]
      show Ctl _ s.book.queue (({ s with control := l } : Udc).nuke e).speed (.drain e :: l)
      rw [hsp]
      exact key _ hsame fun _ => hoff
  · have hd' : (s.ep e).desc = false := by simpa using hd
    have hn : ({ s with control := l } : Udc).nuke e = { s with control := l } := by
      unfold Udc.nuke
      rw [show ({ s with control := l } : Udc).ep = s.ep from rfl, hd']
      simp
    rw [hn]
    exact ⟨h.fair, h.off, h.dark, h.zero, h.one, key _ (fun _ _ => rfl) fun _ => hd'⟩

theorem Task.down_of_dark {t : Task} (h : t.dark = true) : t.down = true := by
  cases t <;> first | rfl | cases h

/-- The speed is known again, when nothing is being taken down. -/
theorem Inv.known {v : Speed} (h : Inv s) (hv : v ≠ .unknown) (hl : ∀ t ∈ s.control, t.down = false) :
    Inv { s with speed := v } := by
  refine ⟨h.fair, h.off, fun hu => absurd hu hv, h.zero, h.one, ?_⟩
  refine ⟨h.ctl.off, ?_, h.ctl.idle, h.ctl.next, h.ctl.layered⟩
  intro t hm hd
  have hdn := Task.down_of_dark hd
  rw [hl t hm] at hdn
  cases hdn

theorem Inv.run {t : Task} (h : Inv s) (hg : Tidy s .tick) (hc : s.control = t :: l)
    (hu : { s with control := l }.run d t = some u) : Inv u := by
  have hlev : t.level = true → ∀ t' ∈ l, t'.down = false := by
    have hlay := h.ctl.layered
    rw [hc] at hlay
    exact hlay.1
  have hpop : (∀ e, t ≠ .drain e) → (∀ e, t ≠ .nuke e) → Inv { s with control := l } := by
    intro hd hn
    exact h.pop hc fun e he => he.elim (fun x => absurd x (hd e)) (fun x => absurd x (hn e))
  cases t with
  | callback => cases hu
  | setup => cases hu
  | restore e b =>
    cases hu
    exact (hpop (by simp) (by simp)).mild (mild_setEp _ _ _ rfl rfl)
  | next e =>
    have hI := hpop (by simp) (by simp)
    have he : 2 ≤ e := h.ctl.next e (by rw [hc]; exact List.mem_cons_self)
    simp only [Udc.run] at hu
    split at hu
    · cases hu
      exact hI
    · next r q hq =>
      cases hu
      have hd : (s.ep e).desc = true := by
        by_contra hn
        -- an endpoint that is off would still be drained, below the task of an interrupt
        have hq' : s.book.queue e ≠ [] := by
          rw [show s.book.queue e = r :: q from hq]
          simp
        obtain hm | hm := hI.ctl.idle e he (Bool.eq_false_iff.2 hn) hq'
        · have := hlev rfl _ hm
          cases this
        · have := hlev rfl _ hm
          cases this
      exact hI.load (e := e) (by rw [hq]; rfl) (.inl rfl) (fun _ => hd) (by omega) (by omega)
  | status =>
    cases hu
    exact ((hpop (by simp) (by simp)).mild (u := { s with control := l, rqLen := 0 })
      ⟨.inl rfl, fun _ => rfl, rfl, rfl⟩).mild (mild_io_int _ _)
  | qsetup b =>
    cases hu
    exact ((hpop (by simp) (by simp)).mild (u := { ({ s with control := l } : Udc).setStage 0 b with rqLen := 8 })
      ⟨.inl rfl, fun _ => rfl, rfl, rfl⟩).mild (mild_io_int _ _)
  | nuke e =>
    cases hu
    exact h.nuke hc
  | drain e =>
    simp only [Udc.run] at hu
    split at hu
    · next hq =>
      cases hu
      refine h.pop hc ?_
      intro e' he
      obtain he | he := he
      · cases he
        exact hq
      · cases he
    · next r q hq =>
      cases hu
      have hq' : (s.ep e).queue = r :: q := hq
      have hr : r ∈ (s.ep e).queue := by
        rw [hq']
        exact List.mem_cons_self
      have hctl := h.ctl
      rw [hc] at hctl
      refine h.done hr ?_ (by simp) hctl
      refine h.not_slot hr ?_ ?_
      · exact fun he => hctl.off e he List.mem_cons_self
      · exact fun he => hctl.dark (.drain e) List.mem_cons_self (by simpa [Task.dark] using he)
  | disconnect =>
    cases hu
    have hI := hpop (by simp) (by simp)
    have hsp : s.speed = .unknown := h.ctl.dark .disconnect (by rw [hc]; exact List.mem_cons_self) rfl
    have hI' := hI.push (t := .callback) (by simp) (by simp [Task.dark]) (by simp) (by simp [Task.level])
    refine ⟨hI'.fair, hI'.off, fun _ => h.dark hsp, hI'.zero, hI'.one, ?_⟩
    have hctl := hI'.ctl
    rw [show ({ s with control := .callback :: l } : Udc).speed = .unknown from hsp] at hctl
    exact hctl
  | fullSpeed =>
    cases hu
    have hI := hpop (by simp) (by simp)
    exact hI.known (by simp) (hlev rfl)
  | evDisc =>
    simp only [Udc.run] at hu
    have hI := hpop (by simp) (by simp)
    split at hu
    · next hsp =>
      cases hu
      exact hI.quiesce [] (hg (by rw [hc]; rfl) hsp) (hlev rfl) (by simp)
    · cases hu
      exact hI
  | evRst =>
    cases hu
    have hI := hpop (by simp) (by simp)
    have hI' : Inv { s with control := l, tc := fun _ => none, rdy := fun _ => false } :=
      hI.shrink h.fair.reset (fun _ => rfl) rfl (fun _ => .inl rfl) h.one hI.ctl
    exact hI'.quiesce [.fullSpeed, .qsetup false] ⟨rfl, rfl⟩ (hlev rfl) (by simp)
  | evSusp =>
    simp only [Udc.run] at hu
    have hI := hpop (by simp) (by simp)
    split at hu
    · cases hu
      exact hI.push (by simp) (by simp [Task.dark]) (by simp) (by simp [Task.level])
    · cases hu
      exact hI
  | evRsm =>
    simp only [Udc.run] at hu
    have hI := hpop (by simp) (by simp)
    split at hu
    · cases hu
      exact hI.push (by simp) (by simp [Task.dark]) (by simp) (by simp [Task.level])
    · cases hu
      exact hI
  | evHspd =>
    cases hu
    have hI := hpop (by simp) (by simp)
    exact hI.known (by simp) (hlev rfl)
  | bit i pkt =>
    cases hu
    exact (hpop (by simp) (by simp)).usbdDone (hlev rfl)

end Tasks

/-! ## Tidy runs -/

theorem isrTasks_down {ev : Events} {done : BitVec 32} {pkt : Setup} {t : Task} (ht : t ∈ isrTasks ev done pkt) :
    t.down = false ∧ ∀ e, t ≠ .next e := by
  unfold isrTasks at ht
  simp only [List.mem_append, List.mem_map, List.mem_ite_nil_right, List.mem_singleton] at ht
  obtain ((((⟨-, rfl⟩ | ⟨-, rfl⟩) | ⟨-, rfl⟩) | ⟨-, rfl⟩) | ⟨-, rfl⟩) | ⟨i, -, rfl⟩ := ht
  all_goals exact ⟨rfl, by simp⟩

theorem layered_of_not_down {l : List Task} (h : ∀ t ∈ l, t.down = false) : Layered l := by
  induction l with
  | nil => trivial
  | cons t l ih =>
    have hl : ∀ t' ∈ l, t'.down = false := fun t' hm => h t' (List.mem_cons_of_mem _ hm)
    exact ⟨fun _ => hl, ih hl⟩

theorem Inv.isr {s : Udc} (h : Inv s) (hc : s.control = []) (ev : Events) (done : BitVec 32) (pkt : Setup) :
    Inv { s with control := isrTasks ev done pkt } := by
  have hdn : ∀ t ∈ isrTasks ev done pkt, t.down = false := fun t ht => (isrTasks_down ht).1
  have hctl := h.ctl
  rw [hc] at hctl
  refine ⟨h.fair, h.off, h.dark, h.zero, h.one, ?_, ?_, ?_, ?_, layered_of_not_down hdn⟩
  · intro e he hm
    have := hdn _ hm
    cases this
  · intro t hm hd
    have hdn' := Task.down_of_dark hd
    rw [hdn t hm] at hdn'
    cases hdn'
  · intro e he hd hq
    obtain hm | hm := hctl.idle e he hd hq
    · cases hm
    · cases hm
  · intro e hm
    exact absurd rfl ((isrTasks_down hm).2 e)

theorem inv_step {d : Dev} {s u : Udc} {a : Act} (h : Inv s) (hg : Tidy s a) (hu : step d s a = some u) : Inv u := by
  cases a with
  | queue e r len zero =>
    obtain ⟨-, he, rfl⟩ := client_some hu
    exact h.queue (Dev.has_cases he)
  | dequeue e r =>
    obtain ⟨-, -, rfl⟩ := client_some hu
    exact h.dequeue hg
  | enable e mps valid =>
    obtain ⟨-, -, rfl⟩ := client_some hu
    exact h.enable hg
  | disable e =>
    obtain ⟨-, he, rfl⟩ := client_some hu
    exact h.disable (Dev.has_cases he) hg
  | setHalt e on =>
    obtain ⟨-, -, rfl⟩ := client_some hu
    exact h.setHalt
  | ret err =>
    obtain ⟨l, hc, rfl⟩ | ⟨l, hc, rfl⟩ := step_ret hu
    · exact h.pop hc (by simp)
    · have hI := h.pop hc (by simp)
      split
      · exact hI.mild (mild_usbdEpStall _ _ true)
      · exact hI
  | tick =>
    obtain ⟨t, l, hc, hu⟩ := step_tick hu
    exact h.run hg hc hu
  | isr ev done pkt =>
    obtain ⟨hc, rfl⟩ := step_isr hu
    exact h.isr hc ev done pkt

/-- In a tidy run a request is given back exactly once between two times it is accepted, the requests of an endpoint that are given back with
success are so in the order they were queued, and no descriptor refers to a request that was given back. The serial numbers
count the requests as they are accepted. -/
theorem requests_given_back_once (d : Dev) {s : Udc} (h : Run (step d) Tidy init s) :
    (∀ r, track r s.log ≠ none) ∧
    (taken s.log = List.range s.next ∧ (∀ e r n st, .completed e r n st ∈ s.log → .accepted e r n ∈ s.log) ∧
      ∀ e, (okSerials e s.log).Pairwise (· < ·)) ∧
    ∀ i r n, s.tc i = some (.req r, n) → track r s.log = some true := by
  have hI : Inv s := h.invariant inv_init fun _ _ _ hI hg hu => inv_step hI hg hu
  refine ⟨?_, ⟨hI.fair.numbers, hI.fair.matched, hI.fair.order⟩, ?_⟩
  · intro r hn
    have hout : track r s.log = _ := hI.fair.out r
    rw [hn] at hout
    cases hout
  · intro i r n htc
    have hs : s.book.slot i = some r := by
      show slotOf (s.tc i) = some r
      rw [htc]
      rfl
    have hout : track r s.log = _ := hI.fair.out r
    rw [hout, hI.fair.slot_queued hs]

/-- A device with the endpoints 1 OUT and 1 IN. -/
def onePair : Dev := ⟨[2, 3], by decide⟩

/-- A bus reset, and endpoint 1 OUT is enabled. -/
def attach : List Act :=
  .isr ⟨false, true, false, false, false⟩ 0 ⟨0, 0, 0, 0, 0⟩ :: List.replicate 8 .tick ++ [.ret false, .tick, .tick, .enable 2 64 true]

/-- Two requests; the first is done, queued again by its callback, and the second is done. -/
theorem requests_given_back_once_two :
    ∃ s, Run (step onePair) Tidy init s ∧
      s.log = [.accepted 2 10 0, .accepted 2 11 1, .completed 2 10 0 .ok, .accepted 2 10 2, .completed 2 11 1 .ok] ∧
      track 10 s.log = some true ∧ okSerials 2 s.log = [0, 1] ∧ ∀ r, track r s.log ≠ none := by
  have hrun : ∃ s, play (guarded (step onePair) Tidy) init (attach ++ [.queue 2 10 31 false, .queue 2 11 31 false,
        .isr ⟨false, false, false, false, false⟩ 4#32 ⟨0, 0, 0, 0, 0⟩, .tick, .queue 2 10 31 false, .ret false, .tick, .tick,
        .isr ⟨false, false, false, false, false⟩ 4#32 ⟨0, 0, 0, 0, 0⟩, .tick]) = some s ∧
      s.log = [.accepted 2 10 0, .accepted 2 11 1, .completed 2 10 0 .ok, .accepted 2 10 2, .completed 2 11 1 .ok] :=
    play_ends _ (by decide +kernel)
  obtain ⟨s, hplay, hlog⟩ := hrun
  have hr := Run.of_play _ hplay
  obtain ⟨honce, -, -⟩ := requests_given_back_once onePair hr
  refine ⟨s, hr, hlog, ?_, ?_, honce⟩
  · rw [hlog]
    rfl
  · rw [hlog]
    rfl

/-- The endpoint is disabled while a request is in the hardware: the request is given back, its descriptor refers to it still, and the late
done bit gives it back a second time. -/
theorem request_given_back_twice :
    ∃ s, play (step onePair) init (attach ++ [.queue 2 10 31 false, .disable 2, .tick, .tick, .ret false, .tick, .tick,
        .isr ⟨false, false, false, false, false⟩ 4#32 ⟨0, 0, 0, 0, 0⟩, .tick]) = some s ∧
      s.log = [.accepted 2 10 0, .completed 2 10 0 .shutdown, .completed 2 10 0 .shutdown] ∧ track 10 s.log = none :=
  play_ends _ (by decide +kernel)

end Emlinux.Gadget
