import Emlinux.Usb.Transfer

/-!
# Served runs keep the stages

From a bus reset on, while endpoint 0 is used for control transfers only, its stages are those of whole control transfers, one after the other.
-/

namespace Emlinux.Gadget

open Lib

/-! ## The descriptors of the other endpoints -/

section Apart

variable {d : Dev} {s u : Udc}

theorem Apart.evtInt (h : Apart d s) : Apart d s.evtInt := by
  unfold Udc.evtInt
  split
  · have hst : Apart d (s.setStage s.setup.first false) := h.clear (clear_of_eq (fun _ _ => rfl) (fun _ => rfl) fun _ ht => .inl ht)
    dsimp only
    split
    · next u hu =>
      obtain ⟨v, len, rfl, htw, -⟩ := setup_cases hu
      have hlen : Apart d { v with rqLen := len } :=
        (hst.clear htw.clear).clear (clear_of_eq (fun _ _ => rfl) (fun _ => rfl) fun _ ht => .inl ht)
      exact hlen.clear (clear_io_zero _ .int (by decide))
    · exact hst.clear (clear_push _ rfl)
  · split
    · have hst : Apart d { s.setStage stSta false with rqLen := 0 } :=
        h.clear (clear_of_eq (fun _ _ => rfl) (fun _ => rfl) fun _ ht => .inl ht)
      exact hst.clear (clear_io_zero _ .int (by decide))
    · exact h.clear (clear_push _ rfl)

/-- The event of a request of endpoint 0. -/
theorem Apart.evtReq_zero {r : Nat} (h : Apart d s) (hr : (s.reqs r).ep = 0) : Apart d (s.evtReq r) := by
  have hpush : ∀ t : Task, t.cuts = false → ∀ t' ∈ t :: s.control, t' ∈ s.control ∨ t'.cuts = false := by
    intro t ht t' hm
    obtain hm | hm := List.mem_cons.1 hm
    · rw [hm]
      exact .inr ht
    · exact .inl hm
  unfold Udc.evtReq
  dsimp only
  rw [if_pos hr]
  split
  · exact h.clear (clear_done s r .ok _ (hpush _ rfl))
  · split
    · exact (h.clear (clear_setReq_len s r 0)).clear (clear_io_zero _ _ (by decide))
    · have hst : Apart d (s.setStage (s.stage ^^^ (stSta ||| stDat ||| stIn)) false) :=
        h.clear (clear_of_eq (fun _ _ => rfl) (fun _ => rfl) fun _ ht => .inl ht)
      exact hst.clear (clear_done _ r .ok _ (hpush _ rfl))

theorem Apart.evtReq {r : Nat} (h : Apart d s) (hR : Rooted d s) : Apart d (s.evtReq r) := by
  by_cases hr : (s.reqs r).ep = 0
  · exact h.evtReq_zero hr
  · have hmem := (hR.ep r).resolve_left hr
    exact clear_evtReq_far s hmem (d.eps_ge _ hmem) h

theorem Apart.usbdDone {i : Nat} {pkt : Setup} (h : Apart d s) (hR : Rooted d s) : Apart d (s.usbdDone i pkt) := by
  unfold Udc.usbdDone
  dsimp only
  split
  · have hrdy : Apart d { s with rdy := Function.update s.rdy i false } :=
      h.clear (clear_of_eq (fun _ _ => rfl) (fun _ => rfl) fun _ ht => .inl ht)
    split
    · have hst : Apart d { s with
          rdy := Function.update s.rdy i false
          stall := Function.update s.stall i false } :=
        h.clear (clear_of_eq (fun _ _ => rfl) (fun _ => rfl) fun _ ht => .inl ht)
      exact hst.clear (clear_push _ (t := .qsetup true) rfl)
    · exact hrdy
  · next rq n htc =>
    have hdrop := h.clear (clear_drop s i)
    cases rq with
    | int =>
      dsimp only
      split
      · have hset : Apart d { s.drop i with setup := pkt, pkt := pkt } :=
          hdrop.clear (clear_of_eq (fun _ _ => rfl) (fun _ => rfl) fun _ ht => .inl ht)
        exact hset.evtInt
      · exact hdrop.evtInt
    | req r => exact hdrop.evtReq (hR.level (level_of_eq rfl rfl rfl))

/-- A done bit of another endpoint does not touch endpoint 0. -/
theorem view_usbdDone_far {i : Nat} {pkt : Setup} (h : Apart d s) (hR : Rooted d s) (hi : 2 ≤ i) :
    (s.usbdDone i pkt).view = s.view := by
  cases htc : s.tc i with
  | none =>
    unfold Udc.usbdDone
    dsimp only
    rw [htc]
    dsimp only
    rw [if_neg (by omega)]
    unfold Udc.view
    simp [Function.update_of_ne (toNat_ne hi _)]
  | some x =>
    obtain ⟨rq, n⟩ := x
    cases rq with
    | int => exact absurd htc (h.int i n hi)
    | req r =>
      obtain ⟨-, hep⟩ := h.slot i r n hi htc
      have hmem := (hR.ep r).resolve_left hep
      rw [usbdDone_req s pkt htc, view_evtReq_far (s.drop i) (d.eps_ge _ hmem), view_drop_far s hi]

end Apart

/-! ## The steps -/

/-- What a served run keeps. -/
structure Serving (d : Dev) (h₀ : List Move) (s : Udc) : Prop where
  rooted : Rooted d s
  apart : Apart d s
  staged : Staged h₀ s.view

section Steps

variable {d : Dev} {s u : Udc} {h₀ : List Move}

theorem apart_pop {t : Task} {l : List Task} (h : Apart d s) (hc : s.control = t :: l) : Apart d { s with control := l } := by
  refine h.clear (clear_of_eq (fun _ _ => rfl) (fun _ => rfl) ?_)
  intro t' hm
  left
  rw [hc]
  exact List.mem_cons_of_mem _ hm

/-- The tasks of other endpoints, and those that call the class driver. -/
theorem view_run_far {t : Task} {l : List Task} (h : Serving d h₀ s) (hc : s.control = t :: l) (hz : t.zero = false)
    (hu : { s with control := l }.run d t = some u) : Apart d u ∧ u.view = s.view := by
  have hA : Apart d { s with control := l } := apart_pop h.apart hc
  have hR : Rooted d { s with control := l } := h.rooted.level (level_pop hc)
  have hv : ({ s with control := l } : Udc).view = s.view := view_pop_far hc hz
  have hcut : t.cuts = false := h.apart.calm t (by rw [hc]; exact List.mem_cons_self)
  cases t with
  | callback => cases hu
  | setup => cases hu
  | restore e b =>
    cases hu
    have he : e ≠ 0 := by simpa [Task.zero] using hz
    refine ⟨hA.clear (clear_of_eq (fun _ _ => rfl) (fun _ => rfl) fun _ ht => .inl ht), ?_⟩
    rw [view_setEp _ _ (fun h0 => absurd h0 he), hv]
  | next e =>
    have hmem : e ∈ d.eps := h.rooted.next e (by rw [hc]; exact List.mem_cons_self)
    simp only [Udc.run] at hu
    split at hu
    · cases hu
      exact ⟨hA, hv⟩
    · next r q hq =>
      cases hu
      have hr : r ∈ (s.ep e).queue := by
        rw [show (s.ep e).queue = r :: q from hq]
        exact List.mem_cons_self
      have hep : (s.reqs r).ep ≠ 0 := by
        rw [(h.rooted.mem e r hr).2]
        have := d.eps_ge e hmem
        omega
      refine ⟨hA.clear (clear_io _ hmem hep), ?_⟩
      rw [view_io_far _ (d.eps_ge e hmem), hv]
  | status => cases hz
  | qsetup b => cases hz
  | nuke e =>
    cases hu
    have he : 2 ≤ e := not_lt.1 (of_decide_eq_false hcut)
    have hdrain : Task.cuts (.drain e) = false := decide_eq_false (by omega)
    have hnuke : Apart d (({ s with control := l } : Udc).nuke e) ∧
        (({ s with control := l } : Udc).nuke e).view = s.view ∧ (({ s with control := l } : Udc).nuke e).control = l := by
      unfold Udc.nuke
      split
      · rw [if_pos (by omega), if_pos (by omega)]
        have h₁ : Apart d (({ s with control := l } : Udc).setEp e fun x => { x with fstopped := true }) :=
          hA.clear (clear_of_eq (fun _ _ => rfl) (fun _ => rfl) fun _ ht => .inl ht)
        refine ⟨?_, ?_, ?_⟩
        · exact (h₁.clear (clear_abort _ e)).clear (clear_of_eq (fun _ _ => rfl) (fun _ => rfl) fun _ ht => .inl ht)
        · rw [view_setEp _ _ (fun h0 => by omega), view_abort_far _ he, view_setEp _ _ (fun h0 => by omega), hv]
        · exact (abort_fields _ e).2.2.1
      · exact ⟨hA, hv, rfl⟩
    obtain ⟨hAn, hvn, hcn⟩ := hnuke
    refine ⟨hAn.clear (clear_of_eq (fun _ _ => rfl) (fun _ => rfl) ?_), ?_⟩
    · intro t ht
      obtain ht | ht := List.mem_cons.1 ht
      · rw [ht]
        exact .inr hdrain
      · left
        rw [hcn]
        exact ht
    · rw [← hvn, ← view_push_far (({ s with control := l } : Udc).nuke e) (t := .drain e) rfl, hcn]
  | drain e =>
    have he : 2 ≤ e := not_lt.1 (of_decide_eq_false hcut)
    simp only [Udc.run] at hu
    split at hu
    · cases hu
      exact ⟨hA, hv⟩
    · next r q hq =>
      cases hu
      refine ⟨hA.clear (clear_done _ r .shutdown _ ?_), ?_⟩
      · intro t ht
        obtain ht | ht := List.mem_cons.1 ht
        · rw [ht]
          exact .inr hcut
        · exact .inl ht
      · rw [view_done_far _ (by omega) r .shutdown _ (by simp [Task.zero]), hv]
  | disconnect => cases hcut
  | fullSpeed => cases hcut
  | evDisc => cases hcut
  | evRst => cases hcut
  | evSusp =>
    simp only [Udc.run] at hu
    split at hu
    · cases hu
      refine ⟨hA.clear (clear_push _ (t := .callback) rfl), ?_⟩
      exact (view_push_far ({ s with control := l } : Udc) (t := .callback) rfl).trans hv
    · cases hu
      exact ⟨hA, hv⟩
  | evRsm =>
    simp only [Udc.run] at hu
    split at hu
    · cases hu
      refine ⟨hA.clear (clear_push _ (t := .callback) rfl), ?_⟩
      exact (view_push_far ({ s with control := l } : Udc) (t := .callback) rfl).trans hv
    · cases hu
      exact ⟨hA, hv⟩
  | evHspd =>
    cases hu
    exact ⟨hA.clear (clear_of_eq (fun _ _ => rfl) (fun _ => rfl) fun _ ht => .inl ht), hv⟩
  | bit i pkt =>
    cases hu
    have hi : 2 ≤ i := not_lt.1 (of_decide_eq_false hz)
    refine ⟨hA.usbdDone hR, ?_⟩
    rw [view_usbdDone_far hA hR hi, hv]

/-- The tasks of endpoint 0. -/
theorem Serving.run_zero {t : Task} {l : List Task} (h : Serving d h₀ s) (hg : Served d s .tick) (hc : s.control = t :: l)
    (hz : t.zero = true) (hu : { s with control := l }.run d t = some u) : Apart d u ∧ Staged h₀ u.view := by
  have hA : Apart d { s with control := l } := apart_pop h.apart hc
  have hR : Rooted d { s with control := l } := h.rooted.level (level_pop hc)
  cases t with
  | setup => cases hu
  | status =>
    cases hu
    have hlen : Apart d { s with control := l, rqLen := 0 } :=
      hA.clear (clear_of_eq (fun _ _ => rfl) (fun _ => rfl) fun _ ht => .inl ht)
    refine ⟨hlen.clear (clear_io_zero _ .int ?_), h.staged.status hc⟩
    split
    · decide
    · decide
  | qsetup b =>
    cases hu
    have hlen : Apart d { ({ s with control := l } : Udc).setStage 0 b with rqLen := 8 } :=
      hA.clear (clear_of_eq (fun _ _ => rfl) (fun _ => rfl) fun _ ht => .inl ht)
    exact ⟨hlen.clear (clear_io_zero _ .int (by decide)), h.staged.qsetup hc⟩
  | restore e b =>
    cases hu
    have he : e = 0 := by simpa [Task.zero] using hz
    subst he
    exact ⟨hA.clear (clear_of_eq (fun _ _ => rfl) (fun _ => rfl) fun _ ht => .inl ht), h.staged.restore hc⟩
  | bit i pkt =>
    cases hu
    have hi : i < 2 := by simpa [Task.zero] using hz
    refine ⟨hA.usbdDone hR, h.staged.bit h.rooted hc hi ?_⟩
    intro h0 hst
    apply hg pkt
    unfold Udc.packet
    subst h0
    rw [hc]
    exact if_pos hst
  | callback => cases hz
  | next e => cases hz
  | nuke e => cases hz
  | drain e => cases hz
  | disconnect => cases hz
  | fullSpeed => cases hz
  | evDisc => cases hz
  | evRst => cases hz
  | evSusp => cases hz
  | evRsm => cases hz
  | evHspd => cases hz

/-- The tasks of an interrupt that work on endpoint 0 are its done bits. -/
theorem isrTasks_zero (ev : Events) (done : BitVec 32) (pkt : Setup) :
    (isrTasks ev done pkt).filter Task.zero =
      (if done.getLsbD 0 then [.bit 0 pkt] else []) ++ (if done.getLsbD 1 then [.bit 1 pkt] else []) := by
  have hif : ∀ (b : Bool) (t : Task), t.zero = false → (if b then [t] else []).filter Task.zero = [] := by
    intro b t ht
    cases b
    · rfl
    · simp [ht]
  have hrange : List.range 32 = 0 :: 1 :: (List.range 30).map (· + 2) := by decide +kernel
  have hfar : ∀ l : List Nat, (((l.map (· + 2)).filter fun i => done.getLsbD i).map fun i => Task.bit i pkt).filter Task.zero = [] := by
    intro l
    rw [List.filter_eq_nil_iff]
    intro t ht
    obtain ⟨i, hi, rfl⟩ := List.mem_map.1 ht
    obtain ⟨j, -, rfl⟩ := List.mem_map.1 (List.mem_of_mem_filter hi)
    simp [Task.zero]
  unfold isrTasks
  simp only [List.filter_append]
  rw [hif _ _ rfl, hif _ _ rfl, hif _ _ rfl, hif _ _ rfl, hif _ _ rfl, hrange, List.filter_cons, List.filter_cons]
  cases done.getLsbD 0 <;> cases done.getLsbD 1 <;> simp [Task.zero, hfar]

theorem isrTasks_cuts {ev : Events} {done : BitVec 32} {pkt : Setup} (hd : ev.disc = false) (hr : ev.rst = false) :
    ∀ t ∈ isrTasks ev done pkt, t.cuts = false := by
  intro t ht
  unfold isrTasks at ht
  rw [hd, hr] at ht
  simp only [List.mem_append, List.mem_map] at ht
  obtain ((((ht | ht) | ht) | ht) | ht) | ⟨i, -, rfl⟩ := ht
  · simp at ht
  · simp at ht
  · split at ht
    · rw [List.mem_singleton.1 ht]
      rfl
    · cases ht
  · split at ht
    · rw [List.mem_singleton.1 ht]
      rfl
    · cases ht
  · split at ht
    · rw [List.mem_singleton.1 ht]
      rfl
    · cases ht
  · rfl

theorem Staged.isr {ev : Events} {done : BitVec 32} {pkt : Setup} (h : Staged h₀ s.view) (hc : s.control = [])
    (hg : Served d s (.isr ev done pkt)) : Staged h₀ ({ s with control := isrTasks ev done pkt } : Udc).view := by
  obtain ⟨moves, ph, hh, hw, hm⟩ := h
  obtain ⟨-, -, hr0, hr1⟩ := hg
  have htasks : s.view.tasks = [] := by
    show s.control.filter Task.zero = []
    rw [hc]
    rfl
  have hnew : ({ s with control := isrTasks ev done pkt } : Udc).view.tasks = _ := isrTasks_zero ev done pkt
  -- only a ready descriptor can be done
  have hoff : ∀ b, s.view.rdy b = false → done.getLsbD b.toNat = false := by
    intro b hb
    rw [Bool.eq_false_iff]
    intro hx
    cases b with
    | false =>
      rw [show s.view.rdy false = s.rdy 0 from rfl, hr0 hx] at hb
      cases hb
    | true =>
      rw [show s.view.rdy true = s.rdy 1 from rfl, hr1 hx] at hb
      cases hb
  have hpend : ∀ b, s.view.rdy (!b) = false → Pending ({ s with control := isrTasks ev done pkt } : Udc).view b := by
    intro b hb
    have hx := hoff (!b) hb
    unfold Pending
    rw [hnew]
    cases b with
    | false =>
      rw [show done.getLsbD 1 = false from hx]
      cases done.getLsbD 0
      · exact .inl rfl
      · exact .inr ⟨pkt, rfl⟩
    | true =>
      rw [show done.getLsbD 0 = false from hx]
      cases done.getLsbD 1
      · exact .inl rfl
      · exact .inr ⟨pkt, rfl⟩
  refine ⟨moves, ph, hh, hw, ⟨hm.stage, hm.pkt, hm.data, ?_⟩⟩
  cases hm.kind with
  | wait hph ha hq ht => exact .wait hph ⟨ha.tc, ha.other, ha.rdy, ha.running⟩ hq (hpend _ ha.rdy)
  | own n hph ha hn hd hq ht => exact .own n hph ⟨ha.tc, ha.other, ha.rdy, ha.running⟩ hn hd hq (hpend _ ha.rdy)
  | serve r n hph ha hq ht => exact .serve r n hph ⟨ha.tc, ha.other, ha.rdy, ha.running⟩ hq (.inl (hpend _ ha.rdy))
  | ask hph hu hf ht =>
    refine .ask hph ⟨hu.tc, hu.rdy, hu.queue⟩ hf (.inl ?_)
    rw [hnew, show done.getLsbD 0 = false from hoff false (hu.rdy _), show done.getLsbD 1 = false from hoff true (hu.rdy _)]
    rfl
  | stalled b hph htc hr ho hst hq hf ht => exact .stalled b hph htc hr ho hst hq hf (hpend b ho)
  | close t hu hl ht =>
    rw [htasks] at ht
    obtain ⟨ht, -⟩ | ht := ht
    · cases ht
    · cases ht

/-- The class driver works on an endpoint that is not endpoint 0, or is called and returns. -/
theorem Serving.same (h : Serving d h₀ s) (hR : Rooted d u) (hA : Apart d u) (hv : u.view = s.view) : Serving d h₀ u :=
  ⟨hR, hA, hv ▸ h.staged⟩

/-- What only moves the endpoints leaves endpoint 0 apart. -/
theorem Serving.keep (h : Serving d h₀ s) {v : Udc} (ht : v.tc = s.tc) (hr : v.reqs = s.reqs) (hc : v.control = s.control) :
    Apart d v := by
  refine h.apart.clear (clear_of_eq ?_ ?_ ?_)
  · intro i _
    rw [ht]
  · intro r
    rw [hr]
  · intro t hm
    rw [hc] at hm
    exact .inl hm

section Calls

variable {e r len : Nat} {zero valid on : Bool} {mps : Nat} (h : Serving d h₀ s)
include h

theorem Serving.queue (hg : Served d s (.queue e r len zero)) (he : d.has e = true) (hR : Rooted d (s.udcEpQueue e r len zero)) :
    Serving d h₀ (s.udcEpQueue e r len zero) := by
  have hacc : Apart d (s.accept e r len zero) := h.apart.clear (clear_accept s r len zero fun h0 => (hg h0).2)
  have hreq : ((s.accept e r len zero).reqs r).ep = e := by rw [(accept_reqs s e r len zero r).2]
  by_cases h0 : e = 0
  · subst h0
    refine ⟨hR, ?_, h.staged.queue (hg rfl).1⟩
    obtain heq | ⟨-, heq⟩ := queue_cases s 0 r len zero
    · rw [heq]
      exact h.apart
    · rw [heq]
      split
      · refine hacc.clear (clear_io_zero _ _ ?_)
        split
        · decide
        · decide
      · exact hacc
  · have hmem := (Dev.has_iff.1 he).resolve_left h0
    obtain heq | ⟨-, heq⟩ := queue_cases s e r len zero
    · rw [heq]
      exact h
    · have hi : (if e = 0 ∧ s.stage &&& stIn ≠ 0 then 1 else e) = e := if_neg fun hx => h0 hx.1
      rw [hi] at heq
      rw [heq] at hR ⊢
      split at hR
      · rw [if_pos ‹_›]
        refine h.same hR (hacc.clear (clear_io _ hmem (by rw [hreq]; exact h0))) ?_
        rw [view_io_far _ (d.eps_ge e hmem), view_accept_far s h0]
      · rw [if_neg ‹_›]
        exact h.same hR hacc (view_accept_far s h0 r len zero)

theorem Serving.dequeue (hg : Served d s (.dequeue e r)) (he : d.has e = true) (hR : Rooted d (s.udcEpDequeue e r)) :
    Serving d h₀ (s.udcEpDequeue e r) := by
  have hmem := (Dev.has_iff.1 he).resolve_left hg
  unfold Udc.udcEpDequeue at hR ⊢
  split at hR
  · next hr =>
    rw [if_pos hr]
    dsimp only at hR ⊢
    split at hR
    · next hh =>
      rw [if_pos hh]
      refine h.same hR ?_ ?_
      · exact (h.apart.clear (clear_abort s e)).clear (clear_done _ r .connreset _ fun t ht => .inl ht)
      · rw [view_done_far _ hg r .connreset _ rfl, view_abort_far s (d.eps_ge e hmem)]
    · next hh =>
      rw [if_neg hh]
      refine h.same hR (h.apart.clear (clear_done s r .connreset _ fun t ht => .inl ht)) ?_
      exact view_done_far s hg r .connreset _ rfl
  · next hr =>
    rw [if_neg hr]
    exact h

theorem Serving.enable (hR : Rooted d (s.udcEpEnable e mps valid)) : Serving d h₀ (s.udcEpEnable e mps valid) := by
  unfold Udc.udcEpEnable at hR ⊢
  split at hR
  · next hn =>
    rw [if_pos hn]
    exact h
  · next hn =>
    rw [if_neg hn]
    push Not at hn
    exact h.same hR (h.keep rfl rfl rfl) (view_setEp s _ fun h0 => absurd h0 hn.2.2.1)

theorem Serving.disable (he : d.has e = true) (hR : Rooted d (s.udcEpDisable e)) : Serving d h₀ (s.udcEpDisable e) := by
  unfold Udc.udcEpDisable at hR ⊢
  split at hR
  · next hd =>
    rw [if_pos hd]
    exact h
  · next hd =>
    rw [if_neg hd]
    have h0 : e ≠ 0 := by
      intro h0
      rw [h0] at hd
      exact hd h.rooted.zero
    have hmem := (Dev.has_iff.1 he).resolve_left h0
    have h2 := d.eps_ge e hmem
    have hoff : Apart d (s.setEp e fun x => { x with desc := false, fstopped := true }) := h.keep rfl rfl rfl
    have hcut : Task.cuts (.nuke e) = false := decide_eq_false (by omega)
    refine h.same hR (hoff.clear (clear_push _ hcut)) ?_
    refine (view_push_far (s.setEp e fun x => { x with desc := false, fstopped := true }) (t := .nuke e) rfl).trans ?_
    exact view_setEp s _ fun hx => absurd hx h0

theorem Serving.setHalt (hg : Served d s (.setHalt e on)) (he : d.has e = true) (hR : Rooted d (s.udcEpSetHalt e on)) :
    Serving d h₀ (s.udcEpSetHalt e on) := by
  have hmem := (Dev.has_iff.1 he).resolve_left hg
  unfold Udc.udcEpSetHalt at hR ⊢
  split at hR
  · next hn =>
    rw [if_pos hn]
    exact h
  · next hn =>
    rw [if_neg hn]
    refine h.same hR (h.keep rfl rfl rfl) ?_
    rw [view_stall_far _ (d.eps_ge e hmem), view_setEp s _ fun h0 => absurd h0 hg]

end Calls

theorem serving_step {a : Act} (h : Serving d h₀ s) (hg : Served d s a) (hu : step d s a = some u) : Serving d h₀ u := by
  have hR := rooted_step h.rooted hu
  cases a with
  | queue e r len zero =>
    obtain ⟨-, he, rfl⟩ := client_some hu
    exact h.queue hg he hR
  | dequeue e r =>
    obtain ⟨-, he, rfl⟩ := client_some hu
    exact h.dequeue hg he hR
  | enable e mps valid =>
    obtain ⟨-, -, rfl⟩ := client_some hu
    exact h.enable hR
  | disable e =>
    obtain ⟨-, he, rfl⟩ := client_some hu
    exact h.disable he hR
  | setHalt e on =>
    obtain ⟨-, he, rfl⟩ := client_some hu
    exact h.setHalt hg he hR
  | ret err =>
    obtain ⟨l, hc, rfl⟩ | ⟨l, hc, rfl⟩ := step_ret hu
    · exact h.same hR (apart_pop h.apart hc) (view_pop_far hc rfl)
    · have hA := apart_pop h.apart hc
      cases err with
      | false => exact ⟨hR, hA, h.staged.ret hc⟩
      | true =>
        refine ⟨hR, hA.clear (clear_of_eq (fun _ _ => rfl) (fun _ => rfl) fun _ ht => .inl ht), ?_⟩
        exact h.staged.err hc (hg rfl (by rw [hc]; rfl)) s.setup.bRequestType
  | tick =>
    obtain ⟨t, l, hc, hu⟩ := step_tick hu
    cases hz : t.zero with
    | false =>
      obtain ⟨hA, hv⟩ := view_run_far h hc hz hu
      exact h.same hR hA hv
    | true =>
      obtain ⟨hA, hs⟩ := h.run_zero hg hc hz hu
      exact ⟨hR, hA, hs⟩
  | isr ev done pkt =>
    obtain ⟨hc, rfl⟩ := step_isr hu
    refine ⟨hR, ?_, h.staged.isr hc hg⟩
    refine h.apart.clear (clear_of_eq (fun _ _ => rfl) (fun _ => rfl) ?_)
    exact fun t ht => .inr (isrTasks_cuts hg.1 hg.2.1 t ht)

end Steps

/-! ## Served runs -/

/-- What a bus reset leaves: only the setup reception is armed, and nothing is left to do. -/
structure Fresh (s : Udc) : Prop where
  control : s.control = []
  stage : s.stage = 0
  setup : s.tc 0 = some (.int, 8)
  tc : ∀ i, i ≠ 0 → s.tc i = none
  rdy : s.rdy 1 = false
  queue : (s.ep 0).queue = []
  fstopped : (s.ep 0).fstopped = false

theorem Fresh.serving {d : Dev} {s : Udc} (h : Fresh s) (hR : Rooted d s) : Serving d s.hist s := by
  refine ⟨hR, ⟨?_, ?_, ?_⟩, [], .setup, (List.append_nil _).symm, rfl, ⟨h.stage, by simp, by simp, ?_⟩⟩
  · intro i n hi htc
    rw [h.tc i (by omega)] at htc
    cases htc
  · intro i r n hi htc
    rw [h.tc i (by omega)] at htc
    cases htc
  · intro t ht
    rw [h.control] at ht
    cases ht
  · refine .wait rfl ⟨h.setup, h.tc 1 (by decide), h.rdy, h.fstopped⟩ h.queue (.inl ?_)
    show s.control.filter Task.zero = []
    rw [h.control]
    rfl

/-- Nothing is stuck: outside every interrupt a descriptor is armed, the start of a stall is about to be reported, or the class driver
has to act. -/
theorem Mode.live {v : View} {ph : Phase} (h : Mode v ph) (ht : v.tasks = []) :
    v.Asked ∨ (∃ b, v.tc b ≠ none) ∨ ∃ b, v.rdy b = true ∧ v.stall b = true := by
  have harmed : ∀ {b rq n}, Armed v b rq n → ∃ b, v.tc b ≠ none := by
    intro b rq n ha
    refine ⟨b, ?_⟩
    rw [ha.tc]
    simp
  cases h.kind with
  | wait _ ha => exact .inr (.inl (harmed ha))
  | own _ _ ha => exact .inr (.inl (harmed ha))
  | serve _ _ _ ha => exact .inr (.inl (harmed ha))
  | ask hph hu =>
    refine .inl ⟨?_, fun b => ⟨hu.tc b, hu.rdy b⟩, hu.queue, .inl ht⟩
    rw [h.stage, hph]
    exact Phase.stage_ne_zero (Setup.phase_ne_setup _)
  | stalled b _ _ hr _ hst => exact .inr (.inr ⟨b, hr, hst⟩)
  | close t _ _ hx =>
    rw [ht] at hx
    obtain ⟨hx, -⟩ | hx := hx
    · cases hx
    · cases hx

/-- From a bus reset on, in a served run: the stages of endpoint 0 are those of control transfers, one after the other; what is armed on endpoint 0 is armed on
the descriptor of the direction of the stage; in the setup stage the reception of eight bytes is armed on the OUT descriptor and nothing
on the other; and outside every interrupt no transfer is stuck. -/
theorem control_transfers_staged (d : Dev) {s₀ s : Udc} (h₀ : Run (step d) free init s₀) (hf : Fresh s₀)
    (h : Run (step d) (Served d) s₀ s) :
    (∃ moves ph, s.hist = s₀.hist ++ moves ∧ walk moves = some ph ∧ s.stage = ph.stage) ∧
    (s.tc 0 ≠ none → s.stage &&& stIn = 0) ∧ (s.tc 1 ≠ none → s.stage &&& stIn ≠ 0) ∧
    (s.stage = 0 → s.tc 0 = some (.int, 8) ∧ s.tc 1 = none) ∧
    (s.control = [] → s.view.Asked ∨ s.tc 0 ≠ none ∨ s.tc 1 ≠ none ∨ ∃ b : Bool, s.rdy b.toNat = true ∧ s.stall b.toNat = true) := by
  have hR : Rooted d s₀ := h₀.invariant (rooted_init d) fun _ _ _ hR _ hu => rooted_step hR hu
  have hS : Serving d s₀.hist s := h.invariant (hf.serving hR) fun _ _ _ hS hg hu => serving_step hS hg hu
  obtain ⟨moves, ph, hh, hw, hm⟩ := hS.staged
  refine ⟨⟨moves, ph, hh, hw, hm.stage⟩, ?_, ?_, ?_, ?_⟩
  · intro h0
    by_contra hne
    have hx := (hm.armed (b := false) h0).1 hne
    cases hx
  · intro h1
    exact (hm.armed (b := true) h1).2 rfl
  · exact fun hst => hm.reception hst
  · intro hc
    have ht : s.view.tasks = [] := by
      show s.control.filter Task.zero = []
      rw [hc]
      rfl
    obtain ha | ⟨b, hb⟩ | hst := hm.live ht
    · exact .inl ha
    · cases b with
      | false => exact .inr (.inl hb)
      | true => exact .inr (.inr (.inl hb))
    · exact .inr (.inr (.inr hst))

/-- `GET_DESCRIPTOR`, answered later by the class driver, `SET_CONFIGURATION`, which it refuses, and `GET_STATUS`. -/
theorem control_transfers_staged_three :
    ∃ s₀ s, Run (step onePair) free init s₀ ∧ Fresh s₀ ∧ Run (step onePair) (Served onePair) s₀ s ∧
      s.hist.length = s₀.hist.length + 6 ∧ s.tc 1 = some (.int, 2) ∧ s.stage &&& stIn ≠ 0 := by
  have hstart : ∃ s₀, play (guarded (step onePair) free) init attach = some s₀ ∧ Fresh s₀ ∧
      ∃ s, play (guarded (step onePair) (Served onePair)) s₀
        [.isr ⟨false, false, false, false, false⟩ 1#32 ⟨0x80, 6, 0x0100, 0, 18⟩, .tick, .ret false, .queue 0 20 18 false,
          .isr ⟨false, false, false, false, false⟩ 2#32 ⟨0, 0, 0, 0, 0⟩, .tick, .ret false, .tick, .tick,
          .isr ⟨false, false, false, false, false⟩ 1#32 ⟨0, 0, 0, 0, 0⟩, .tick, .tick,
          .isr ⟨false, false, false, false, false⟩ 1#32 ⟨0, 9, 1, 0, 0⟩, .tick, .ret true,
          .isr ⟨false, false, false, false, false⟩ 1#32 ⟨0, 0, 0, 0, 0⟩, .tick, .tick,
          .isr ⟨false, false, false, false, false⟩ 1#32 ⟨0x80, 0, 0, 0, 2⟩, .tick] = some s ∧
        s.hist.length = s₀.hist.length + 6 ∧ s.tc 1 = some (.int, 2) := by
    refine ⟨_, (Option.some_get (by decide +kernel)).symm, ?_, ?_⟩
    · refine ⟨by decide +kernel, by decide +kernel, by decide +kernel, ?_, by decide +kernel, by decide +kernel, by decide +kernel⟩
      intro i hi
      exact Function.update_of_ne hi _ _
    · exact play_ends _ (by decide +kernel)
  obtain ⟨s₀, hplay₀, hf, s, hplay, hlen, htc⟩ := hstart
  have h₀ := Run.of_play _ hplay₀
  have hr := Run.of_play _ hplay
  obtain ⟨-, -, hin, -⟩ := control_transfers_staged onePair h₀ hf hr
  exact ⟨s₀, s, h₀, hf, hr, hlen, htc, hin (by rw [htc]; simp)⟩

/-- `GET_STATUS` with an OUT data stage: the answer is armed on the IN descriptor while the stage is OUT. -/
theorem answer_against_stage :
    ∃ s, play (step onePair) init (attach ++ [.isr ⟨false, false, false, false, false⟩ 1#32 ⟨0, 0, 0, 0, 2⟩, .tick]) = some s ∧
      s.control = [] ∧ s.stage = stDat ∧ s.tc 1 = some (.int, 2) ∧ s.tc 0 = none :=
  play_ends _ (by decide +kernel)

end Emlinux.Gadget
