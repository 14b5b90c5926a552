import Emlinux.Usb.Once
import Emlinux.Usb.Stage

/-!
# The queues of the gadget driver in every run

Whatever the class driver does, a request is in at most one queue, that of the endpoint it was queued on last (`Rooted`). This needs none of the conditions of a tidy run: only the
descriptors go wrong there.
-/

namespace Emlinux.Gadget

open Lib

/-! ## The queues in every run -/

structure Rooted (d : Dev) (s : Udc) : Prop where
  mem : ∀ e r, r ∈ (s.ep e).queue → (s.reqs r).queued = true ∧ (s.reqs r).ep = e
  nodup : ∀ e, (s.ep e).queue.Nodup
  ep : ∀ r, (s.reqs r).ep = 0 ∨ (s.reqs r).ep ∈ d.eps
  zero : (s.ep 0).desc = false
  next : ∀ e, .next e ∈ s.control → e ∈ d.eps

section Rooted

variable {d : Dev} {s u : Udc}

theorem rooted_init (d : Dev) : Rooted d init :=
  ⟨fun _ _ h => absurd h List.not_mem_nil, fun _ => List.nodup_nil, fun _ => .inl rfl, rfl,
    fun _ h => absurd h List.not_mem_nil⟩

/-- What `Rooted` does not see. -/
structure Level (d : Dev) (s u : Udc) : Prop where
  queue : ∀ e, (u.ep e).queue = (s.ep e).queue
  desc : (s.ep 0).desc = false → (u.ep 0).desc = false
  reqs : ∀ r, (u.reqs r).queued = (s.reqs r).queued ∧ (u.reqs r).ep = (s.reqs r).ep
  next : ∀ e, .next e ∈ u.control → .next e ∈ s.control ∨ e ∈ d.eps

theorem Rooted.level (h : Rooted d s) (hl : Level d s u) : Rooted d u := by
  refine ⟨?_, ?_, ?_, hl.desc h.zero, ?_⟩
  · intro e r hr
    rw [hl.queue] at hr
    rw [(hl.reqs r).1, (hl.reqs r).2]
    exact h.mem e r hr
  · intro e
    rw [hl.queue]
    exact h.nodup e
  · intro r
    rw [(hl.reqs r).2]
    exact h.ep r
  · exact fun e hm => (hl.next e hm).elim (h.next e) id

theorem Level.trans {v : Udc} (h : Level d s u) (h' : Level d u v) : Level d s v := by
  refine ⟨fun e => (h'.queue e).trans (h.queue e), fun hz => h'.desc (h.desc hz), ?_, ?_⟩
  · exact fun r => ⟨(h'.reqs r).1.trans (h.reqs r).1, (h'.reqs r).2.trans (h.reqs r).2⟩
  · exact fun e hm => (h'.next e hm).elim (h.next e) .inr

/-- Nothing but descriptors, registers and records is changed. -/
theorem level_of_eq (he : u.ep = s.ep) (hr : u.reqs = s.reqs) (hc : u.control = s.control) : Level d s u := by
  refine ⟨?_, ?_, ?_, ?_⟩
  · intro e
    rw [he]
  · rw [he]
    exact id
  · intro r
    rw [hr]
    exact ⟨rfl, rfl⟩
  · intro e hm
    rw [hc] at hm
    exact .inl hm

theorem level_io (s : Udc) (i : Nat) (rq : Rq) : Level d s (s.usbdEpIo i rq) := level_of_eq rfl rfl rfl

theorem level_abort (s : Udc) (i : Nat) : Level d s (s.usbdEpAbort i) :=
  level_of_eq (abort_fields s i).1 (abort_fields s i).2.1 (abort_fields s i).2.2.1

theorem level_setEp (s : Udc) (e : Nat) (f : Ep → Ep) (hq : (f (s.ep e)).queue = (s.ep e).queue)
    (hd : e = 0 → (s.ep 0).desc = false → (f (s.ep 0)).desc = false) : Level d s (s.setEp e f) := by
  refine ⟨?_, ?_, fun _ => ⟨rfl, rfl⟩, fun e hm => .inl hm⟩
  · intro e'
    by_cases he : e' = e
    · subst he
      show (Function.update s.ep e' (f (s.ep e')) e').queue = (s.ep e').queue
      rw [Function.update_self]
      exact hq
    · show (Function.update s.ep e (f (s.ep e)) e').queue = (s.ep e').queue
      rw [Function.update_of_ne he]
  · intro hz
    by_cases he : e = 0
    · subst he
      show (Function.update s.ep 0 (f (s.ep 0)) 0).desc = false
      rw [Function.update_self]
      exact hd rfl hz
    · show (Function.update s.ep e (f (s.ep e)) 0).desc = false
      rw [Function.update_of_ne (Ne.symm he)]
      exact hz

theorem level_setReq_len (s : Udc) (r n : Nat) : Level d s (s.setReq r fun x => { x with len := n }) := by
  refine ⟨fun _ => rfl, id, ?_, fun e hm => .inl hm⟩
  intro r'
  unfold Udc.setReq
  by_cases hr : r' = r
  · subst hr
    simp
  · simp [hr]

theorem level_push (s : Udc) (t : Task) (h : ∀ e, t = .next e → e ∈ d.eps) : Level d s { s with control := t :: s.control } := by
  refine ⟨fun _ => rfl, id, fun _ => ⟨rfl, rfl⟩, ?_⟩
  intro e hm
  obtain hm | hm := List.mem_cons.1 hm
  · exact .inr (h e hm.symm)
  · exact .inl hm

theorem level_pop {t : Task} {l : List Task} (hc : s.control = t :: l) : Level d s { s with control := l } := by
  refine ⟨fun _ => rfl, id, fun _ => ⟨rfl, rfl⟩, ?_⟩
  intro e hm
  rw [hc]
  exact .inl (List.mem_cons_of_mem _ hm)

/-- A request is given back on the endpoint it was queued on. -/
theorem Rooted.done {r : Nat} {st : Status} {l : List Task} (h : Rooted d s) (hl : ∀ e, .next e ∈ l → e ∈ d.eps) {e : Nat}
    (he : (s.reqs r).ep = e) : Rooted d (s.done e r st l) := by
  have hreq : ∀ r', ((s.done e r st l).reqs r').ep = (s.reqs r').ep ∧
      (r' ≠ r → ((s.done e r st l).reqs r').queued = (s.reqs r').queued) := by
    intro r'
    unfold Udc.done Udc.setEp Udc.setReq
    by_cases hr : r' = r
    · subst hr
      simp
    · simp [hr]
  have hep : (s.done e r st l).ep =
      Function.update s.ep e { s.ep e with queue := (s.ep e).queue.erase r, fstopped := true } := rfl
  have hqe : ((s.done e r st l).ep e).queue = (s.ep e).queue.erase r := by
    rw [hep, Function.update_self]
  have hq : ∀ e', e' ≠ e → ((s.done e r st l).ep e').queue = (s.ep e').queue := by
    intro e' hne
    rw [hep, Function.update_of_ne hne]
  -- the request is in no queue any more
  have hmem : ∀ e' r', r' ∈ ((s.done e r st l).ep e').queue → r' ∈ (s.ep e').queue ∧ r' ≠ r := by
    intro e' r' hr'
    by_cases hne : e' = e
    · subst hne
      rw [hqe, (h.nodup e').mem_erase_iff] at hr'
      exact ⟨hr'.2, hr'.1⟩
    · rw [hq e' hne] at hr'
      refine ⟨hr', ?_⟩
      intro hrr
      rw [hrr] at hr'
      exact hne ((h.mem e' r hr').2.symm.trans he)
  refine ⟨?_, ?_, ?_, ?_, ?_⟩
  · intro e' r' hr'
    obtain ⟨hm, hne⟩ := hmem e' r' hr'
    rw [(hreq r').1, (hreq r').2 hne]
    exact h.mem e' r' hm
  · intro e'
    by_cases hne : e' = e
    · subst hne
      rw [hqe]
      exact (h.nodup e').erase r
    · rw [hq e' hne]
      exact h.nodup e'
  · intro r'
    rw [(hreq r').1]
    exact h.ep r'
  · rw [hep]
    by_cases h0 : e = 0
    · subst h0
      rw [Function.update_self]
      exact h.zero
    · rw [Function.update_of_ne (Ne.symm h0)]
      exact h.zero
  · intro e' hm
    obtain hm | hm := List.mem_cons.1 hm
    · cases hm
    · obtain hm | hm := List.mem_cons.1 hm
      · cases hm
      · exact hl e' hm

theorem Dev.has_iff {d : Dev} {e : Nat} : d.has e = true ↔ e = 0 ∨ e ∈ d.eps := by
  unfold Dev.has
  simp

theorem accept_reqs (s : Udc) (e r len : Nat) (zero : Bool) (r' : Nat) :
    (r' ≠ r → (s.accept e r len zero).reqs r' = s.reqs r') ∧
      (s.accept e r len zero).reqs r = ⟨e, len, zero, none, len, true, s.next⟩ := by
  unfold Udc.accept Udc.setEp Udc.setReq
  refine ⟨?_, ?_⟩
  · intro hr
    simp [hr]
  · simp

theorem Rooted.accept {e r len : Nat} {zero : Bool} (h : Rooted d s) (he : d.has e = true) (hr : (s.reqs r).queued = false) :
    Rooted d (s.accept e r len zero) := by
  have hreq := accept_reqs s e r len zero
  have hout : ∀ e', r ∉ (s.ep e').queue := by
    intro e' hm
    rw [(h.mem e' r hm).1] at hr
    cases hr
  have hmem : ∀ e' r', r' ∈ ((s.accept e r len zero).ep e').queue → (r' ∈ (s.ep e').queue ∧ r' ≠ r) ∨ (e' = e ∧ r' = r) := by
    intro e' r' hm
    by_cases hne : e' = e
    · subst hne
      rw [accept_queue, List.mem_append, List.mem_singleton] at hm
      obtain hm | hm := hm
      · left
        refine ⟨hm, ?_⟩
        intro hrr
        rw [hrr] at hm
        exact hout e' hm
      · exact .inr ⟨rfl, hm⟩
    · rw [accept_queue_of_ne s r len zero hne] at hm
      left
      refine ⟨hm, ?_⟩
      intro hrr
      rw [hrr] at hm
      exact hout e' hm
  refine ⟨?_, ?_, ?_, ?_, h.next⟩
  · intro e' r' hm
    obtain ⟨hm, hne⟩ | ⟨rfl, rfl⟩ := hmem e' r' hm
    · rw [(hreq r').1 hne]
      exact h.mem e' r' hm
    · rw [(hreq r').2]
      exact ⟨rfl, rfl⟩
  · intro e'
    by_cases hne : e' = e
    · subst hne
      rw [accept_queue]
      apply List.Nodup.append (h.nodup e') (List.nodup_singleton r)
      simpa using hout e'
    · rw [accept_queue_of_ne s r len zero hne]
      exact h.nodup e'
  · intro r'
    by_cases hne : r' = r
    · rw [hne, (hreq r).2]
      exact Dev.has_iff.1 he
    · rw [(hreq r').1 hne]
      exact h.ep r'
  · rw [accept_ep]
    exact h.zero

end Rooted

/-! ## What the functions do -/

/-- A packet that `udc_setup` handles. -/
def Setup.internal (p : Setup) : Bool :=
  let typ := p.bRequestType &&& 0x1F#8
  if p.bRequest = 5#8 then decide (p.bRequestType = 0)
  else if p.bRequest = 0#8 then true
  else if p.bRequest = 3#8 ∨ p.bRequest = 1#8 then
    decide ((typ = 0#8 ∧ (p.wValue = 1#16 ∨ p.wValue = 2#16)) ∨ (typ = 2#8 ∧ p.wValue = 0#16))
  else false

/-- `SET_FEATURE(ENDPOINT_HALT)` for endpoint 0 OUT. -/
def Setup.haltsOut (p : Setup) : Bool :=
  decide (p.bRequest = 3#8 ∧ p.bRequestType &&& 0x1F#8 = 2#8 ∧ p.wValue = 0#16 ∧ Udc.hwIndex p.wIndex = 0)

section Cases

variable {d : Dev} {s u : Udc}

theorem queue_cases (s : Udc) (e r len : Nat) (zero : Bool) :
    s.udcEpQueue e r len zero = s ∨
      ((s.reqs r).queued = false ∧
        s.udcEpQueue e r len zero =
          if (s.ep e).queue = [] ∧ (s.ep e).fstopped = false then
            (s.accept e r len zero).usbdEpIo (if e = 0 ∧ s.stage &&& stIn ≠ 0 then 1 else e) (.req r)
          else s.accept e r len zero) := by
  unfold Udc.udcEpQueue
  split
  · exact .inl rfl
  · next hr =>
    split
    · exact .inl rfl
    · split
      · exact .inl rfl
      · refine .inr ⟨by simpa using hr, ?_⟩
        dsimp only
        by_cases hc : (s.ep e).queue = [] ∧ (s.ep e).fstopped = false
        · rw [if_pos hc]
          exact congrArg (fun v : Udc => v.setEp e fun x => { x with queue := x.queue ++ [r] }) (if_pos hc)
        · rw [if_neg hc]
          exact congrArg (fun v : Udc => v.setEp e fun x => { x with queue := x.queue ++ [r] }) (if_neg hc)

/-- What `udc_setup` may do before it arms the answer. -/
structure Tweak (s v : Udc) : Prop where
  ep : ∀ e, (v.ep e).queue = (s.ep e).queue ∧ (v.ep e).desc = (s.ep e).desc ∧ (v.ep e).fstopped = (s.ep e).fstopped
  reqs : v.reqs = s.reqs
  control : v.control = s.control
  tc : v.tc = s.tc
  stage : v.stage = s.stage
  hist : v.hist = s.hist
  pkt : v.pkt = s.pkt
  rdy : s.setup.haltsOut = false → v.rdy 0 = s.rdy 0

theorem tweak_of_eq (he : u.ep = s.ep) (hr : u.reqs = s.reqs) (hc : u.control = s.control) (ht : u.tc = s.tc)
    (hs : u.stage = s.stage) (hh : u.hist = s.hist) (hp : u.pkt = s.pkt) (hy : u.rdy = s.rdy) : Tweak s u := by
  refine ⟨?_, hr, hc, ht, hs, hh, hp, ?_⟩
  · intro e
    rw [he]
    exact ⟨rfl, rfl, rfl⟩
  · intro _
    rw [hy]

theorem tweak_getStatus (s : Udc) : Tweak s s.getStatus := by
  unfold Udc.getStatus
  dsimp only
  split
  · exact tweak_of_eq rfl rfl rfl rfl rfl rfl rfl rfl
  · split
    · exact tweak_of_eq rfl rfl rfl rfl rfl rfl rfl rfl
    · split
      · exact tweak_of_eq rfl rfl rfl rfl rfl rfl rfl rfl
      · exact tweak_of_eq rfl rfl rfl rfl rfl rfl rfl rfl

/-- The halt of an endpoint. -/
theorem tweak_halt (s : Udc) (i : Nat) (flag : Bool) (h : s.setup.haltsOut = false → flag = true → i ≠ 0) :
    Tweak s ((s.usbdEpStall i flag).setEp i fun x => { x with fstall := flag }) := by
  refine ⟨?_, rfl, rfl, rfl, rfl, rfl, rfl, ?_⟩
  · intro e
    unfold Udc.setEp Udc.usbdEpStall
    by_cases he : e = i
    · subst he
      simp
    · simp [he]
  · intro hh
    show (if flag = true ∧ i < 2 then Function.update s.rdy i true else s.rdy) 0 = s.rdy 0
    split
    · next hc => rw [Function.update_of_ne (Ne.symm (h hh hc.1))]
    · rfl

theorem feature_cases {flag : Bool} (hf : s.setup.bRequest = if flag then 3#8 else 1#8) (hu : s.feature flag = some u) :
    Tweak s u ∧ s.setup.internal = true := by
  have hreq : ¬s.setup.bRequest = 5#8 ∧ ¬s.setup.bRequest = 0#8 ∧ (s.setup.bRequest = 3#8 ∨ s.setup.bRequest = 1#8) := by
    rw [hf]
    cases flag <;> decide
  have hint : (s.setup.bRequestType &&& 0x1F#8 = 0#8 ∧ (s.setup.wValue = 1#16 ∨ s.setup.wValue = 2#16)) ∨
      (s.setup.bRequestType &&& 0x1F#8 = 2#8 ∧ s.setup.wValue = 0#16) → s.setup.internal = true := by
    intro hc
    unfold Setup.internal
    dsimp only
    rw [if_neg hreq.1, if_neg hreq.2.1, if_pos hreq.2.2]
    exact decide_eq_true hc
  unfold Udc.feature at hu
  dsimp only at hu
  split at hu
  · next htyp =>
    split at hu
    · next hv =>
      cases hu
      exact ⟨tweak_of_eq rfl rfl rfl rfl rfl rfl rfl rfl, hint (.inl ⟨htyp, .inl hv⟩)⟩
    · split at hu
      · next hv =>
        cases hu
        exact ⟨tweak_of_eq rfl rfl rfl rfl rfl rfl rfl rfl, hint (.inl ⟨htyp, .inr hv⟩)⟩
      · cases hu
  · split at hu
    · next hc =>
      cases hu
      refine ⟨tweak_halt s _ flag ?_, hint (.inr hc)⟩
      intro hh hflag hi
      unfold Setup.haltsOut at hh
      rw [hflag] at hf
      exact of_decide_eq_false hh ⟨hf, hc.1, hc.2, hi⟩
    · cases hu

/-- `udc_setup` arms the IN descriptor with the internal request. -/
theorem setup_cases (hu : s.udcSetup = some u) : ∃ v len, u = v.answer len ∧ Tweak s v ∧ s.setup.internal = true := by
  unfold Udc.udcSetup at hu
  split at hu
  · next h5 =>
    split at hu
    · cases hu
    · next ht =>
      cases hu
      refine ⟨s, 0, rfl, tweak_of_eq rfl rfl rfl rfl rfl rfl rfl rfl, ?_⟩
      unfold Setup.internal
      dsimp only
      rw [if_pos h5]
      exact decide_eq_true (not_not.1 ht)
  · next h5 =>
    split at hu
    · next h0 =>
      cases hu
      refine ⟨s.getStatus, 2, rfl, tweak_getStatus s, ?_⟩
      unfold Setup.internal
      dsimp only
      rw [if_neg h5, if_pos h0]
    · split at hu
      · next h3 =>
        obtain ⟨v, hv, rfl⟩ := Option.map_eq_some_iff.1 hu
        exact ⟨v, 0, rfl, feature_cases (by rw [h3]; rfl) hv⟩
      · split at hu
        · next h1 =>
          obtain ⟨v, hv, rfl⟩ := Option.map_eq_some_iff.1 hu
          exact ⟨v, 0, rfl, feature_cases (by rw [h1]; rfl) hv⟩
        · cases hu

theorem Tweak.level (h : Tweak s u) : Level d s u := by
  refine ⟨fun e => (h.ep e).1, ?_, ?_, ?_⟩
  · intro hz
    rw [(h.ep 0).2.1]
    exact hz
  · intro r
    rw [h.reqs]
    exact ⟨rfl, rfl⟩
  · intro e hm
    rw [h.control] at hm
    exact .inl hm

end Cases

/-! ## The queues in every run, step by step -/

section RootedStep

variable {d : Dev} {s u : Udc} {l : List Task}

theorem level_setup (hu : s.udcSetup = some u) : Level d s u := by
  obtain ⟨v, len, rfl, ht, -⟩ := setup_cases hu
  exact ht.level.trans (level_of_eq rfl rfl rfl)

theorem level_evtInt (s : Udc) : Level d s s.evtInt := by
  unfold Udc.evtInt
  split
  · have hst : Level d s (s.setStage s.setup.first false) := level_of_eq rfl rfl rfl
    dsimp only
    split
    · next u hu => exact hst.trans (level_setup hu)
    · exact hst.trans (level_push _ .setup (by simp))
  · split
    · exact level_of_eq rfl rfl rfl
    · exact level_push s _ (by simp)

theorem Rooted.evtReq {r : Nat} (h : Rooted d s) : Rooted d (s.evtReq r) := by
  have hpush : ∀ t, (∀ e, t ≠ Task.next e) → ∀ e, .next e ∈ t :: s.control → e ∈ d.eps := by
    intro t ht e hm
    obtain hm | hm := List.mem_cons.1 hm
    · exact absurd hm.symm (ht e)
    · exact h.next e hm
  unfold Udc.evtReq
  dsimp only
  split
  · next h0 =>
    split
    · exact h.done (hpush _ (by simp)) h0
    · split
      · exact (h.level (level_setReq_len s r 0)).level (level_io _ _ _)
      · have hst : Level d s (s.setStage (s.stage ^^^ (stSta ||| stDat ||| stIn)) false) := level_of_eq rfl rfl rfl
        exact (h.level hst).done (hpush _ (by simp)) h0
  · next h0 =>
    split
    · exact (h.level (level_setReq_len s r 0)).level (level_io _ _ _)
    · refine h.done ?_ rfl
      intro e hm
      obtain hm | hm := List.mem_cons.1 hm
      · cases hm
        exact (h.ep r).resolve_left h0
      · exact h.next e hm

theorem Rooted.usbdDone {i : Nat} {pkt : Setup} (h : Rooted d s) : Rooted d (s.usbdDone i pkt) := by
  unfold Udc.usbdDone
  dsimp only
  split
  · have hrdy : Level d s { s with rdy := Function.update s.rdy i false } := level_of_eq rfl rfl rfl
    split
    · have hst : Level d s { s with
          rdy := Function.update s.rdy i false
          stall := Function.update s.stall i false } := level_of_eq rfl rfl rfl
      exact (h.level hst).level (level_push _ (.qsetup true) (by simp))
    · exact h.level hrdy
  · next rq n htc =>
    have hdrop : Level d s (s.drop i) := level_of_eq rfl rfl rfl
    cases rq with
    | int =>
      dsimp only
      split
      · have hset : Level d s { s.drop i with setup := pkt, pkt := pkt } := level_of_eq rfl rfl rfl
        exact (h.level hset).level (level_evtInt _)
      · exact (h.level hdrop).level (level_evtInt _)
    | req r => exact (h.level hdrop).evtReq

theorem level_nuke (s : Udc) (e : Nat) : Level d s (s.nuke e) := by
  unfold Udc.nuke
  split
  · dsimp only
    split
    · exact ((level_setEp s e (fun x => { x with fstopped := true }) rfl fun _ hz => hz).trans (level_abort _ e)).trans
        (level_setEp _ e (fun x => { x with desc := false }) rfl fun _ _ => rfl)
    · exact level_abort s e
  · exact level_of_eq rfl rfl rfl

theorem level_quiesce (s : Udc) (l : List Task) (h : ∀ e, .next e ∈ l → .next e ∈ s.control) : Level d s (s.udcQuiesce d l) := by
  refine ⟨fun _ => rfl, id, fun _ => ⟨rfl, rfl⟩, ?_⟩
  intro e hm
  left
  obtain hm | hm := List.mem_cons.1 hm
  · cases hm
  · obtain hm | hm := List.mem_append.1 hm
    · obtain ⟨e', -, he⟩ := List.mem_map.1 hm
      cases he
    · exact h e hm

theorem Rooted.run {t : Task} (h : Rooted d s) (hc : s.control = t :: l) (hu : { s with control := l }.run d t = some u) :
    Rooted d u := by
  have hpop : Rooted d { s with control := l } := h.level (level_pop hc)
  cases t with
  | callback => cases hu
  | setup => cases hu
  | restore e b =>
    cases hu
    exact hpop.level (level_setEp _ e _ rfl fun _ hz => hz)
  | next e =>
    simp only [Udc.run] at hu
    split at hu
    · cases hu
      exact hpop
    · cases hu
      exact hpop.level (level_io _ _ _)
  | status =>
    cases hu
    exact hpop.level (level_of_eq rfl rfl rfl)
  | qsetup b =>
    cases hu
    exact hpop.level (level_of_eq rfl rfl rfl)
  | nuke e =>
    cases hu
    refine (hpop.level (level_nuke _ e)).level ⟨fun _ => rfl, id, fun _ => ⟨rfl, rfl⟩, ?_⟩
    intro e' hm
    obtain hm | hm := List.mem_cons.1 hm
    · cases hm
    · exact .inr (hpop.next e' hm)
  | drain e =>
    simp only [Udc.run] at hu
    split at hu
    · cases hu
      exact hpop
    · next r q hq =>
      cases hu
      have hr : r ∈ (s.ep e).queue := by
        rw [show (s.ep e).queue = r :: q from hq]
        exact List.mem_cons_self
      refine hpop.done ?_ (h.mem e r hr).2
      intro e' hm
      obtain hm | hm := List.mem_cons.1 hm
      · cases hm
      · exact hpop.next e' hm
  | disconnect =>
    cases hu
    have hsp : Level d { s with control := l } { s with control := l, speed := .unknown } := level_of_eq rfl rfl rfl
    exact (hpop.level hsp).level (level_push _ .callback (by simp))
  | fullSpeed =>
    cases hu
    exact hpop.level (level_of_eq rfl rfl rfl)
  | evDisc =>
    simp only [Udc.run] at hu
    split at hu
    · cases hu
      refine hpop.level (level_quiesce _ _ ?_)
      intro e hm
      simpa using hm
    · cases hu
      exact hpop
  | evRst =>
    cases hu
    have hreinit : Level d { s with control := l } { s with control := l, tc := fun _ => none, rdy := fun _ => false } :=
      level_of_eq rfl rfl rfl
    refine (hpop.level hreinit).level (level_quiesce _ _ ?_)
    intro e hm
    simpa using hm
  | evSusp =>
    simp only [Udc.run] at hu
    split at hu
    · cases hu
      exact hpop.level (level_push _ .callback (by simp))
    · cases hu
      exact hpop
  | evRsm =>
    simp only [Udc.run] at hu
    split at hu
    · cases hu
      exact hpop.level (level_push _ .callback (by simp))
    · cases hu
      exact hpop
  | evHspd =>
    cases hu
    exact hpop.level (level_of_eq rfl rfl rfl)
  | bit i pkt =>
    cases hu
    exact hpop.usbdDone

theorem rooted_step {a : Act} (h : Rooted d s) (hu : step d s a = some u) : Rooted d u := by
  cases a with
  | queue e r len zero =>
    obtain ⟨-, he, rfl⟩ := client_some hu
    obtain heq | ⟨hr, heq⟩ := queue_cases s e r len zero
    · rw [heq]
      exact h
    · rw [heq]
      have hacc : Rooted d (s.accept e r len zero) := h.accept he hr
      split
      · exact hacc.level (level_io _ _ _)
      · exact hacc
  | dequeue e r =>
    obtain ⟨-, -, rfl⟩ := client_some hu
    unfold Udc.udcEpDequeue
    split
    · next hr =>
      dsimp only
      split
      · refine (h.level (level_abort s e)).done ?_ ?_
        · rw [(abort_fields s e).2.2.1]
          exact h.next
        · rw [(abort_fields s e).2.1]
          exact (h.mem e r hr).2
      · exact h.done h.next (h.mem e r hr).2
    · exact h
  | enable e mps valid =>
    obtain ⟨-, -, rfl⟩ := client_some hu
    unfold Udc.udcEpEnable
    split
    · exact h
    · next hn =>
      push Not at hn
      exact h.level (level_setEp s e _ rfl fun h0 => absurd h0 hn.2.2.1)
  | disable e =>
    obtain ⟨-, -, rfl⟩ := client_some hu
    unfold Udc.udcEpDisable
    split
    · exact h
    · have hoff : Level d s (s.setEp e fun x => { x with desc := false, fstopped := true }) :=
        level_setEp s e _ rfl fun _ _ => rfl
      exact (h.level hoff).level (level_push _ (.nuke e) (by simp))
  | setHalt e on =>
    obtain ⟨-, -, rfl⟩ := client_some hu
    unfold Udc.udcEpSetHalt
    split
    · exact h
    · have hst : Level d s (s.setEp e fun x => { x with fstall := on }) := level_setEp s e _ rfl fun _ hz => hz
      exact (h.level hst).level (level_of_eq rfl rfl rfl)
  | ret err =>
    obtain ⟨l, hc, rfl⟩ | ⟨l, hc, rfl⟩ := step_ret hu
    · exact h.level (level_pop hc)
    · split
      · exact (h.level (level_pop hc)).level (level_of_eq rfl rfl rfl)
      · exact h.level (level_pop hc)
  | tick =>
    obtain ⟨t, l, hc, hu⟩ := step_tick hu
    exact h.run hc hu
  | isr ev done pkt =>
    obtain ⟨hc, rfl⟩ := step_isr hu
    refine h.level ⟨fun _ => rfl, id, fun _ => ⟨rfl, rfl⟩, ?_⟩
    intro e hm
    exact absurd rfl ((isrTasks_down hm).2 e)

end RootedStep

end Emlinux.Gadget
