import Emlinux.Usb.Once

/-!
# A queue is never left with nothing in the hardware

The head of a queue is loaded from three places: `udc_ep_queue` on an empty queue that is not stopped, the completion of the request
before it (`next`), and the packet of length zero after it. Two orders miss all three. `udc_ep_dequeue` of the head aborts it and loads nothing when
others are queued behind it; and a callback of `udc_ep_dequeue` that queues a request on the endpoint, now empty, finds it stopped. A completion
that is still under way makes up for both.
-/

namespace Emlinux.Gadget

open Lib

/-- The calls that do not leave a queue without a request in the hardware. -/
def Advances (s : Udc) : Act → Prop
  | .queue e r _ _ => 2 ≤ e → (s.ep e).desc = true → (s.reqs r).queued = false → (s.ep e).queue = [] →
      (s.ep e).fstopped = true → .next e ∈ s.control
  | .dequeue e r => 2 ≤ e → (s.ep e).desc = true → (s.ep e).queue.head? = some r →
      (s.ep e).queue = [r] ∨ .next e ∈ s.control
  | _ => True

instance (s : Udc) : (a : Act) → Decidable (Advances s a)
  | .queue e r _ _ => inferInstanceAs (Decidable (2 ≤ e → (s.ep e).desc = true → (s.reqs r).queued = false →
      (s.ep e).queue = [] → (s.ep e).fstopped = true → .next e ∈ s.control))
  | .dequeue e r => inferInstanceAs (Decidable (2 ≤ e → (s.ep e).desc = true → (s.ep e).queue.head? = some r →
      (s.ep e).queue = [r] ∨ .next e ∈ s.control))
  | .enable _ _ _ | .disable _ | .setHalt _ _ | .ret _ | .tick | .isr _ _ _ => inferInstanceAs (Decidable True)

def Steady (s : Udc) (a : Act) : Prop := Tidy s a ∧ Advances s a

instance (s : Udc) (a : Act) : Decidable (Steady s a) := inferInstanceAs (Decidable (Tidy s a ∧ Advances s a))

/-- The head of the queue of an endpoint that is on is in its descriptor, or a task is left that loads it or takes the endpoint down. -/
def Moving (d : Dev) (s : Udc) (e : Nat) : Prop :=
  (s.ep e).desc = true → e ∈ d.eps ∧
    ((s.ep e).queue ≠ [] → s.book.slot e = (s.ep e).queue.head? ∨ .next e ∈ s.control ∨ .nuke e ∈ s.control)

/-! ## What leaves an endpoint alone -/

/-- Endpoint `e` is the same, and what was left to do for it still is. -/
structure Same (s u : Udc) (e : Nat) : Prop where
  desc : (u.ep e).desc = (s.ep e).desc
  queue : (u.ep e).queue = (s.ep e).queue
  slot : u.book.slot e = s.book.slot e
  next : .next e ∈ s.control → .next e ∈ u.control
  nuke : .nuke e ∈ s.control → .nuke e ∈ u.control

section Frame

variable {d : Dev} {s u v : Udc} {e k : Nat}

theorem Same.trans (h : Same s u e) (h' : Same u v e) : Same s v e :=
  ⟨h'.desc.trans h.desc, h'.queue.trans h.queue, h'.slot.trans h.slot, fun hm => h'.next (h.next hm), fun hm => h'.nuke (h.nuke hm)⟩

theorem Moving.same (h : Moving d s e) (hs : Same s u e) : Moving d u e := by
  intro hd
  rw [hs.desc] at hd
  obtain ⟨hmem, hq⟩ := h hd
  refine ⟨hmem, ?_⟩
  rw [hs.queue, hs.slot]
  exact fun hne => (hq hne).imp id (Or.imp hs.next hs.nuke)

/-- Nothing is asked of an endpoint that is off. -/
theorem moving_off (h : (u.ep e).desc = false) : Moving d u e := by
  intro hd
  rw [h] at hd
  cases hd

theorem same_io (s : Udc) (rq : Rq) (h : k ≠ e) : Same s (s.usbdEpIo k rq) e := by
  refine ⟨rfl, rfl, ?_, id, id⟩
  cases rq with
  | int =>
    rw [book_usbdEpIo_int]
    exact Function.update_of_ne (Ne.symm h) _ _
  | req r =>
    rw [book_usbdEpIo_req]
    exact Function.update_of_ne (Ne.symm h) _ _

theorem same_abort (s : Udc) (h : k ≠ e) : Same s (s.usbdEpAbort k) e := by
  have hb : (s.usbdEpAbort k).book.slot e = s.book.slot e := by
    rw [book_usbdEpAbort]
    exact Function.update_of_ne (Ne.symm h) _ _
  obtain ⟨hep, -, hcontrol, -⟩ := abort_fields s k
  refine ⟨?_, ?_, hb, ?_, ?_⟩
  · rw [hep]
  · rw [hep]
  · rw [hcontrol]
    exact id
  · rw [hcontrol]
    exact id

theorem setEp_ep_of_ne (s : Udc) (f : Ep → Ep) (h : k ≠ e) : (s.setEp k f).ep e = s.ep e :=
  Function.update_of_ne (Ne.symm h) _ _

theorem setEp_ep_self (s : Udc) (f : Ep → Ep) : (s.setEp e f).ep e = f (s.ep e) := Function.update_self _ _ _

theorem same_setEp (s : Udc) (f : Ep → Ep) (h : k ≠ e) : Same s (s.setEp k f) e := by
  refine ⟨?_, ?_, rfl, id, id⟩
  · rw [setEp_ep_of_ne s f h]
  · rw [setEp_ep_of_ne s f h]

/-- A change of `fstall`, `fstopped` or `maxpacket`. -/
theorem same_setEp_flag (s : Udc) (f : Ep → Ep) (hd : (f (s.ep k)).desc = (s.ep k).desc)
    (hq : (f (s.ep k)).queue = (s.ep k).queue) : Same s (s.setEp k f) e := by
  by_cases h : k = e
  · subst h
    refine ⟨?_, ?_, rfl, id, id⟩
    · rw [setEp_ep_self]
      exact hd
    · rw [setEp_ep_self]
      exact hq
  · exact same_setEp s f h

theorem done_ep (s : Udc) (r : Nat) (st : Status) (l : List Task) :
    (s.done k r st l).ep =
      Function.update s.ep k { s.ep k with queue := (s.ep k).queue.erase r, fstopped := true } :=
  rfl

theorem same_done (s : Udc) {r : Nat} {st : Status} {l : List Task} (h : k ≠ e)
    (hn : .next e ∈ s.control → .next e ∈ l) (hk : .nuke e ∈ s.control → .nuke e ∈ l) : Same s (s.done k r st l) e := by
  have hep : (s.done k r st l).ep e = s.ep e := by
    rw [done_ep]
    exact Function.update_of_ne (Ne.symm h) _ _
  refine ⟨?_, ?_, ?_, ?_, ?_⟩
  · rw [hep]
  · rw [hep]
  · rw [book_done]
    rfl
  · exact fun hm => List.mem_cons_of_mem _ (List.mem_cons_of_mem _ (hn hm))
  · exact fun hm => List.mem_cons_of_mem _ (List.mem_cons_of_mem _ (hk hm))

theorem done_queue (s : Udc) (r : Nat) (st : Status) (l : List Task) :
    ((s.done e r st l).ep e).desc = (s.ep e).desc ∧ ((s.done e r st l).ep e).queue = (s.ep e).queue.erase r := by
  rw [done_ep, Function.update_self]
  exact ⟨rfl, rfl⟩

end Frame

/-! ## The calls of the class driver -/

section Calls

variable {d : Dev} {s u : Udc} {e k : Nat}

theorem same_accept (s : Udc) (r len : Nat) (zero : Bool) (h : k ≠ e) : Same s (s.accept k r len zero) e := by
  refine ⟨accept_ep s k r len zero e, accept_queue_of_ne s r len zero (Ne.symm h), ?_, id, id⟩
  rw [book_accept]
  rfl

theorem Moving.queue {r len : Nat} {zero : Bool} (h : Moving d s e) (he : 2 ≤ e)
    (hg : Advances s (.queue k r len zero)) : Moving d (s.udcEpQueue k r len zero) e := by
  unfold Udc.udcEpQueue
  split
  · exact h
  · next hr =>
    split
    · exact h
    · split
      · exact h
      · dsimp only
        by_cases hk : k = e
        · subst hk
          have h0 : ¬(k = 0 ∧ s.stage &&& stIn ≠ 0) := fun hc => by omega
          rw [if_neg h0]
          have hdesc := accept_ep s k r len zero k
          have hqueue := accept_queue s k r len zero
          -- the tail of the queue does not matter, but to an empty queue
          have hne : (s.ep k).queue ≠ [] → Moving d (s.accept k r len zero) k := by
            intro hq hd
            rw [hdesc] at hd
            obtain ⟨hmem, hmv⟩ := h hd
            refine ⟨hmem, fun _ => ?_⟩
            rw [hqueue, List.head?_append_of_ne_nil _ hq, book_accept]
            exact hmv hq
          split
          · next hc =>
            have hq : (s.ep k).queue = [] := hc.1
            intro hd
            refine ⟨(h (hdesc.symm.trans hd)).1, fun _ => .inl ?_⟩
            show ((s.accept k r len zero).usbdEpIo k (.req r)).book.slot k = ((s.accept k r len zero).ep k).queue.head?
            rw [book_usbdEpIo_req, hqueue, hq]
            exact Function.update_self _ _ _
          · next hc =>
            by_cases hq : (s.ep k).queue = []
            · intro hd
              have hd' : (s.ep k).desc = true := hdesc.symm.trans hd
              have hst : (s.ep k).fstopped = true := by
                by_contra hn
                exact hc ⟨hq, Bool.eq_false_iff.2 hn⟩
              exact ⟨(h hd').1, fun _ => .inr (.inl (hg he hd' (by simpa using hr) hq hst))⟩
            · exact hne hq
        · have hi : (if k = 0 ∧ s.stage &&& stIn ≠ 0 then 1 else k) ≠ e := by
            split
            · omega
            · exact hk
          have hacc := same_accept s r len zero hk
          split
          · exact h.same (hacc.trans (same_io _ (.req r) hi))
          · exact h.same hacc

theorem Moving.dequeue {r : Nat} (h : Moving d s e) (he : 2 ≤ e) (hg : Advances s (.dequeue k r)) :
    Moving d (s.udcEpDequeue k r) e := by
  unfold Udc.udcEpDequeue
  split
  · next hr =>
    dsimp only
    by_cases hk : k = e
    · subst hk
      split
      · -- the head
        next hh =>
        have hep : (s.usbdEpAbort k).ep = s.ep ∧ (s.usbdEpAbort k).control = s.control := by
          unfold Udc.usbdEpAbort
          split
          · exact ⟨rfl, rfl⟩
          · exact ⟨rfl, rfl⟩
        obtain ⟨hd', hq'⟩ := done_queue (e := k) (s.usbdEpAbort k) r .connreset (s.usbdEpAbort k).control
        rw [hep.1] at hd' hq'
        intro hd
        rw [hd'] at hd
        refine ⟨(h hd).1, ?_⟩
        rw [hq']
        intro hne
        obtain hq | hn := hg he hd hh
        · rw [hq] at hne
          simp at hne
        · right
          left
          show Task.next k ∈ Task.callback :: Task.restore k _ :: (s.usbdEpAbort k).control
          rw [hep.2]
          exact List.mem_cons_of_mem _ (List.mem_cons_of_mem _ hn)
      · next hh =>
        obtain ⟨hd', hq'⟩ := done_queue (e := k) s r .connreset s.control
        intro hd
        rw [hd'] at hd
        obtain ⟨hmem, hmv⟩ := h hd
        refine ⟨hmem, fun _ => ?_⟩
        have hne : (s.ep k).queue ≠ [] := List.ne_nil_of_mem hr
        have hhead : ((s.ep k).queue.erase r).head? = (s.ep k).queue.head? := by
          cases hq : (s.ep k).queue with
          | nil => exact absurd hq hne
          | cons a l =>
            have har : a ≠ r := by
              intro heq
              rw [hq, heq] at hh
              exact hh rfl
            rw [List.erase_cons_tail (by simpa using har)]
            rfl
        rw [hq', hhead, book_done]
        obtain hs | hn | hn := hmv hne
        · exact .inl hs
        · exact .inr (.inl (List.mem_cons_of_mem _ (List.mem_cons_of_mem _ hn)))
        · exact .inr (.inr (List.mem_cons_of_mem _ (List.mem_cons_of_mem _ hn)))
    · split
      · exact h.same ((same_abort s hk).trans (same_done _ hk id id))
      · exact h.same (same_done s hk id id)
  · exact h

/-- An endpoint that is off and is not being taken down has nothing queued. -/
theorem Moving.enable {mps : Nat} {valid : Bool} (h : Moving d s e) (hI : Inv s) (he : 2 ≤ e) (hk : d.has k = true)
    (hg : Tidy s (.enable k mps valid)) : Moving d (s.udcEpEnable k mps valid) e := by
  unfold Udc.udcEpEnable
  split
  · exact h
  · next hn =>
    push Not at hn
    obtain ⟨hoff, -, h0, -, -⟩ := hn
    by_cases hke : k = e
    · subst hke
      intro _
      refine ⟨?_, ?_⟩
      · unfold Dev.has at hk
        simpa [h0] using hk
      · intro hq
        rw [setEp_ep_self] at hq
        have hdr := hI.ctl.idle k he (by simpa using hoff) hq
        exact absurd hdr (not_or.2 hg)
    · exact h.same (same_setEp s _ hke)

theorem Moving.disable (h : Moving d s e) : Moving d (s.udcEpDisable k) e := by
  unfold Udc.udcEpDisable
  split
  · exact h
  · by_cases hk : k = e
    · subst hk
      have hoff : ((s.setEp k fun x => { x with desc := false, fstopped := true }).ep k).desc = false := by
        rw [setEp_ep_self]
      exact moving_off hoff
    · have hs : Same s (s.setEp k fun x => { x with desc := false, fstopped := true }) e := same_setEp s _ hk
      exact h.same (hs.trans ⟨rfl, rfl, rfl, List.mem_cons_of_mem _, List.mem_cons_of_mem _⟩)

theorem Moving.setHalt {on : Bool} (h : Moving d s e) : Moving d (s.udcEpSetHalt k on) e := by
  unfold Udc.udcEpSetHalt
  split
  · exact h
  · exact h.same ((same_setEp_flag s (fun x => { x with fstall := on }) rfl rfl).trans ⟨rfl, rfl, rfl, id, id⟩)

end Calls

/-! ## The interrupt -/

section Evt

variable {d : Dev} {s u : Udc} {e : Nat}

theorem same_answer (s : Udc) (len : Nat) (he : 2 ≤ e) : Same s (s.answer len) e :=
  (⟨rfl, rfl, rfl, id, id⟩ : Same s { s with rqLen := len } e).trans (same_io _ .int (by omega))

theorem same_getStatus (s : Udc) : Same s s.getStatus e := by
  unfold Udc.getStatus
  dsimp only
  split
  · exact ⟨rfl, rfl, rfl, id, id⟩
  · split
    · exact ⟨rfl, rfl, rfl, id, id⟩
    · split
      · exact ⟨rfl, rfl, rfl, id, id⟩
      · exact ⟨rfl, rfl, rfl, id, id⟩

theorem same_feature {flag : Bool} (hu : s.feature flag = some u) : Same s u e := by
  unfold Udc.feature at hu
  dsimp only at hu
  split at hu
  · split at hu
    · cases hu
      exact ⟨rfl, rfl, rfl, id, id⟩
    · split at hu
      · cases hu
        exact ⟨rfl, rfl, rfl, id, id⟩
      · cases hu
  · split at hu
    · cases hu
      have hstall : Same s (s.usbdEpStall (Udc.hwIndex s.setup.wIndex) flag) e := ⟨rfl, rfl, rfl, id, id⟩
      exact hstall.trans (same_setEp_flag _ _ rfl rfl)
    · cases hu

theorem same_setup (he : 2 ≤ e) (hu : s.udcSetup = some u) : Same s u e := by
  unfold Udc.udcSetup at hu
  split at hu
  · split at hu
    · cases hu
    · cases hu
      exact same_answer s 0 he
  · split at hu
    · cases hu
      exact (same_getStatus s).trans (same_answer _ 2 he)
    · split at hu
      · obtain ⟨v, hv, rfl⟩ := Option.map_eq_some_iff.1 hu
        exact (same_feature hv).trans (same_answer v 0 he)
      · split at hu
        · obtain ⟨v, hv, rfl⟩ := Option.map_eq_some_iff.1 hu
          exact (same_feature hv).trans (same_answer v 0 he)
        · cases hu

theorem same_evtInt (s : Udc) (he : 2 ≤ e) : Same s s.evtInt e := by
  unfold Udc.evtInt
  split
  · have hst : Same s (s.setStage s.setup.first false) e := ⟨rfl, rfl, rfl, id, id⟩
    dsimp only
    split
    · next u hu => exact hst.trans (same_setup he hu)
    · exact hst.trans ⟨rfl, rfl, rfl, List.mem_cons_of_mem _, List.mem_cons_of_mem _⟩
  · split
    · have hst : Same s { s.setStage stSta false with rqLen := 0 } e := ⟨rfl, rfl, rfl, id, id⟩
      exact hst.trans (same_io _ .int (by omega))
    · exact ⟨rfl, rfl, rfl, List.mem_cons_of_mem _, List.mem_cons_of_mem _⟩

/-- The length of a request is not seen. -/
theorem same_setReq_len (s : Udc) (r n : Nat) : Same s (s.setReq r fun x => { x with len := n }) e := ⟨rfl, rfl, rfl, id, id⟩

/-- The event of a request of another endpoint. -/
theorem same_evtReq (s : Udc) {r : Nat} (he : 2 ≤ e) (hr : (s.reqs r).ep ≠ e) : Same s (s.evtReq r) e := by
  unfold Udc.evtReq
  dsimp only
  split
  · split
    · exact same_done s (by omega) (List.mem_cons_of_mem _) (List.mem_cons_of_mem _)
    · split
      · exact (same_setReq_len s r 0).trans (same_io _ (.req r) (by omega))
      · have hst : Same s (s.setStage (s.stage ^^^ (stSta ||| stDat ||| stIn)) false) e := ⟨rfl, rfl, rfl, id, id⟩
        exact hst.trans (same_done _ (by omega) (List.mem_cons_of_mem _) (List.mem_cons_of_mem _))
  · split
    · exact (same_setReq_len s r 0).trans (same_io _ (.req r) hr)
    · exact same_done s hr (List.mem_cons_of_mem _) (List.mem_cons_of_mem _)

/-- The event of a request of this endpoint loads it again, or leaves `next` to do. -/
theorem moving_evtReq {r : Nat} (hf : Fetched s r) (hmem : (s.ep (s.reqs r).ep).desc = true → (s.reqs r).ep ∈ d.eps)
    (he : 2 ≤ (s.reqs r).ep) : Moving d (s.evtReq r) (s.reqs r).ep := by
  unfold Udc.evtReq
  dsimp only
  rw [if_neg (by omega)]
  split
  · intro hd
    refine ⟨hmem hd, fun _ => .inl ?_⟩
    rw [book_usbdEpIo_req]
    exact (Function.update_self _ _ _).trans hf.head.symm
  · intro hd
    rw [(done_queue s r .ok _).1] at hd
    exact ⟨hmem hd, fun _ => .inr (.inl (List.mem_cons_of_mem _ (List.mem_cons_of_mem _ List.mem_cons_self)))⟩

theorem Moving.usbdDone {i : Nat} {pkt : Setup} (h : Moving d s e) (hI : Inv s) (he : 2 ≤ e) :
    Moving d (s.usbdDone i pkt) e := by
  unfold Udc.usbdDone
  dsimp only
  split
  · have hrdy : Same s { s with rdy := Function.update s.rdy i false } e := ⟨rfl, rfl, rfl, id, id⟩
    split
    · exact h.same (hrdy.trans ⟨rfl, rfl, rfl, List.mem_cons_of_mem _, List.mem_cons_of_mem _⟩)
    · exact h.same hrdy
  · next rq n htc =>
    cases rq with
    | int =>
      have hdrop : Same s (s.drop i) e := by
        refine ⟨rfl, rfl, ?_, id, id⟩
        rw [book_drop]
        show Function.update s.book.slot i none e = s.book.slot e
        by_cases hie : e = i
        · subst hie
          rw [Function.update_self]
          show none = slotOf (s.tc e)
          rw [show s.tc e = some (.int, n) from htc]
          rfl
        · exact Function.update_of_ne hie _ _
      dsimp only
      split
      · have hset : Same (s.drop i) { s.drop i with setup := pkt, pkt := pkt } e := ⟨rfl, rfl, rfl, id, id⟩
        exact h.same ((hdrop.trans hset).trans (same_evtInt _ he))
      · exact h.same (hdrop.trans (same_evtInt _ he))
    | req r =>
      have hs : s.book.slot i = some r := by
        show slotOf (s.tc i) = some r
        rw [show s.tc i = some (.req r, n) from htc]
        rfl
      show Moving d ((s.drop i).evtReq r) e
      obtain ⟨-, ho⟩ := hI.fair.head i r hs
      by_cases hre : (s.reqs r).ep = e
      · subst hre
        exact moving_evtReq (s := s.drop i) (hI.fetched hs) (fun hd => (h hd).1) he
      · have hie : e ≠ i := by
          intro hie
          obtain ho | ⟨-, ho⟩ := ho
          · exact hre (ho.symm.trans hie.symm)
          · omega
        have hdrop : Same s (s.drop i) e := by
          refine ⟨rfl, rfl, ?_, id, id⟩
          rw [book_drop]
          exact Function.update_of_ne hie _ _
        exact h.same (hdrop.trans (same_evtReq _ he hre))

/-- Another task is taken off. -/
theorem Moving.pop {t : Task} {l : List Task} (h : Moving d s e) (hc : s.control = t :: l) (hn : t ≠ .next e) (hk : t ≠ .nuke e) :
    Moving d { s with control := l } e := by
  have hpop : ∀ t', t ≠ t' → t' ∈ s.control → t' ∈ l := by
    intro t' hne hm
    rw [hc] at hm
    exact (List.mem_cons.1 hm).resolve_left (Ne.symm hne)
  exact h.same ⟨rfl, rfl, rfl, hpop _ hn, hpop _ hk⟩

theorem Moving.nuke {k : Nat} {l : List Task} (h : Moving d s e) (hI : Inv s) (hc : s.control = .nuke k :: l) :
    Moving d { { s with control := l }.nuke k with control := .drain k :: l } e := by
  have hpush : ∀ u : Udc, u.control = l → Same u { u with control := .drain k :: l } e := by
    intro u hu
    refine ⟨rfl, rfl, rfl, ?_, ?_⟩
    · rw [hu]
      exact List.mem_cons_of_mem _
    · rw [hu]
      exact List.mem_cons_of_mem _
  by_cases hd : (s.ep k).desc = true
  · have hk0 : k ≠ 0 := by
      intro h0
      rw [h0, hI.zero] at hd
      cases hd
    obtain ⟨hb, hoff, hsame, -⟩ := nuke_on ({ s with control := l } : Udc) hk0 hd
    by_cases hke : k = e
    · subst hke
      exact moving_off hoff
    · have hpop : Moving d { s with control := l } e := h.pop hc (by simp) (by simpa using hke)
      refine hpop.same ⟨hsame e (Ne.symm hke), congrFun (congrArg Book.queue hb) e, ?_,
        List.mem_cons_of_mem _, List.mem_cons_of_mem _⟩
      exact (congrFun (congrArg Book.slot hb) e).trans (Function.update_of_ne (Ne.symm hke) _ _)
  · have hd' : (s.ep k).desc = false := by simpa using hd
    have hn : ({ s with control := l } : Udc).nuke k = { s with control := l } := by
      unfold Udc.nuke
      rw [show ({ s with control := l } : Udc).ep = s.ep from rfl, hd']
      simp
    rw [hn]
    by_cases hke : k = e
    · subst hke
      exact moving_off hd'
    · exact (h.pop hc (by simp) (by simpa using hke)).same (hpush _ rfl)

theorem Moving.quiesce {l : List Task} (h : Moving d s e) (hl : ∀ t ∈ s.control, t ∈ l) : Moving d (s.udcQuiesce d l) e :=
  h.same ⟨rfl, rfl, rfl, fun hm => List.mem_cons_of_mem _ (List.mem_append_right _ (hl _ hm)),
    fun hm => List.mem_cons_of_mem _ (List.mem_append_right _ (hl _ hm))⟩

/-- A bus reset empties every descriptor, and takes every endpoint down. -/
theorem Moving.reset {l : List Task} (h : Moving d s e) :
    Moving d ({ s with tc := fun _ => none, rdy := fun _ => false }.udcQuiesce d l) e := by
  intro hd
  obtain ⟨hmem, -⟩ := h hd
  refine ⟨hmem, fun _ => .inr (.inr ?_)⟩
  exact List.mem_cons_of_mem _ (List.mem_append_left _ (List.mem_map_of_mem hmem))

theorem Moving.run {t : Task} {l : List Task} (h : Moving d s e) (hI : Inv s) (he : 2 ≤ e) (hc : s.control = t :: l)
    (hu : { s with control := l }.run d t = some u) : Moving d u e := by
  cases t with
  | callback => cases hu
  | setup => cases hu
  | restore k b =>
    cases hu
    exact (h.pop hc (by simp) (by simp)).same (same_setEp_flag _ _ rfl rfl)
  | next k =>
    simp only [Udc.run] at hu
    by_cases hke : k = e
    · subst hke
      split at hu
      · next hq =>
        cases hu
        exact fun hd => ⟨(h hd).1, fun hne => absurd hq hne⟩
      · next r q hq =>
        cases hu
        intro hd
        refine ⟨(h hd).1, fun _ => .inl ?_⟩
        rw [book_usbdEpIo_req]
        refine (Function.update_self _ _ _).trans ?_
        show some r = (s.ep k).queue.head?
        rw [show (s.ep k).queue = r :: q from hq]
        rfl
    · have hpop := h.pop hc (by simpa using hke) (by simp)
      split at hu
      · cases hu
        exact hpop
      · cases hu
        exact hpop.same (same_io _ _ hke)
  | status =>
    cases hu
    have hlen : Same { s with control := l } { s with control := l, rqLen := 0 } e := ⟨rfl, rfl, rfl, id, id⟩
    refine (h.pop hc (by simp) (by simp)).same (hlen.trans (same_io _ .int ?_))
    split
    · omega
    · omega
  | qsetup b =>
    cases hu
    have hlen : Same { s with control := l } { ({ s with control := l } : Udc).setStage 0 b with rqLen := 8 } e :=
      ⟨rfl, rfl, rfl, id, id⟩
    exact (h.pop hc (by simp) (by simp)).same (hlen.trans (same_io _ .int (by omega)))
  | nuke k =>
    cases hu
    exact h.nuke hI hc
  | drain k =>
    have hpop := h.pop hc (by simp) (by simp)
    simp only [Udc.run] at hu
    split at hu
    · cases hu
      exact hpop
    · next r q hq =>
      cases hu
      by_cases hke : k = e
      · subst hke
        -- an endpoint is drained only when it is off
        have hoff : (s.ep k).desc = false := hI.ctl.off k he (by rw [hc]; exact List.mem_cons_self)
        exact moving_off ((done_queue _ r .shutdown _).1.trans hoff)
      · exact hpop.same (same_done _ hke (List.mem_cons_of_mem _) (List.mem_cons_of_mem _))
  | disconnect =>
    cases hu
    exact (h.pop hc (by simp) (by simp)).same ⟨rfl, rfl, rfl, List.mem_cons_of_mem _, List.mem_cons_of_mem _⟩
  | fullSpeed =>
    cases hu
    exact (h.pop hc (by simp) (by simp)).same ⟨rfl, rfl, rfl, id, id⟩
  | evDisc =>
    have hpop := h.pop hc (by simp) (by simp)
    simp only [Udc.run] at hu
    split at hu
    · cases hu
      exact hpop.quiesce fun t hm => List.mem_cons_of_mem _ hm
    · cases hu
      exact hpop
  | evRst =>
    cases hu
    exact (h.pop hc (by simp) (by simp)).reset
  | evSusp =>
    have hpop := h.pop hc (by simp) (by simp)
    simp only [Udc.run] at hu
    split at hu
    · cases hu
      exact hpop.same ⟨rfl, rfl, rfl, List.mem_cons_of_mem _, List.mem_cons_of_mem _⟩
    · cases hu
      exact hpop
  | evRsm =>
    have hpop := h.pop hc (by simp) (by simp)
    simp only [Udc.run] at hu
    split at hu
    · cases hu
      exact hpop.same ⟨rfl, rfl, rfl, List.mem_cons_of_mem _, List.mem_cons_of_mem _⟩
    · cases hu
      exact hpop
  | evHspd =>
    cases hu
    exact (h.pop hc (by simp) (by simp)).same ⟨rfl, rfl, rfl, id, id⟩
  | bit i pkt =>
    cases hu
    have hIp : Inv { s with control := l } := hI.pop hc (by simp)
    exact (h.pop hc (by simp) (by simp)).usbdDone hIp he

end Evt

/-! ## Steady runs -/

theorem moving_step {d : Dev} {s u : Udc} {a : Act} {e : Nat} (h : Moving d s e) (hI : Inv s) (he : 2 ≤ e) (hg : Steady s a)
    (hu : step d s a = some u) : Moving d u e := by
  cases a with
  | queue k r len zero =>
    obtain ⟨-, -, rfl⟩ := client_some hu
    exact h.queue he hg.2
  | dequeue k r =>
    obtain ⟨-, -, rfl⟩ := client_some hu
    exact h.dequeue he hg.2
  | enable k mps valid =>
    obtain ⟨-, hk, rfl⟩ := client_some hu
    exact h.enable hI he hk hg.1
  | disable k =>
    obtain ⟨-, -, rfl⟩ := client_some hu
    exact h.disable
  | setHalt k on =>
    obtain ⟨-, -, rfl⟩ := client_some hu
    exact h.setHalt
  | ret err =>
    obtain ⟨l, hc, rfl⟩ | ⟨l, hc, rfl⟩ := step_ret hu
    · exact h.pop hc (by simp) (by simp)
    · have hpop := h.pop hc (by simp) (by simp)
      split
      · exact hpop.same ⟨rfl, rfl, rfl, id, id⟩
      · exact hpop
  | tick =>
    obtain ⟨t, l, hc, hu⟩ := step_tick hu
    exact h.run hI he hc hu
  | isr ev done pkt =>
    obtain ⟨hc, rfl⟩ := step_isr hu
    refine h.same ⟨rfl, rfl, rfl, ?_, ?_⟩
    · rw [hc]
      exact fun hm => absurd hm List.not_mem_nil
    · rw [hc]
      exact fun hm => absurd hm List.not_mem_nil

theorem slotOf_eq_some {x : Option (Rq × Nat)} {r : Nat} (h : slotOf x = some r) : ∃ n, x = some (.req r, n) := by
  unfold slotOf at h
  split at h
  · next r' n =>
    cases h
    exact ⟨n, rfl⟩
  · cases h

/-- In a steady run, whenever nothing is left to do for an endpoint that is on, so in particular outside every interrupt and every callback, the first request
of its queue is loaded in its descriptor. -/
theorem head_in_hardware (d : Dev) {s : Udc} (h : Run (step d) Steady init s) (e r : Nat) (he : e ≠ 0)
    (hd : (s.ep e).desc = true) (hr : (s.ep e).queue.head? = some r) (hn : .next e ∉ s.control) (hk : .nuke e ∉ s.control) :
    ∃ n, s.tc e = some (.req r, n) := by
  have hI : Inv s ∧ ∀ e, 2 ≤ e → Moving d s e := by
    refine h.invariant (I := fun s => Inv s ∧ ∀ e, 2 ≤ e → Moving d s e) ⟨inv_init, fun e _ => moving_off rfl⟩ ?_
    intro t a u hI hg hu
    exact ⟨inv_step hI.1 hg.1 hu, fun e he => moving_step (hI.2 e he) hI.1 he hg hu⟩
  obtain ⟨hI, hmv⟩ := hI
  have h1 : e ≠ 1 := by
    intro h1
    rw [h1, hI.one] at hr
    cases hr
  have hne : (s.ep e).queue ≠ [] := by
    intro hq
    rw [hq] at hr
    cases hr
  obtain hs | hm | hm := (hmv e (by omega) hd).2 hne
  · rw [hr] at hs
    exact slotOf_eq_some hs
  · exact absurd hm hn
  · exact absurd hm hk

/-- Three requests; the second is dequeued, the callback of the first dequeues the third, now the head, and queues it again. -/
theorem head_in_hardware_three :
    ∃ s, Run (step onePair) Steady init s ∧ s.control = [] ∧ (s.ep 2).queue = [12] ∧
      s.log.length = 7 ∧ ∃ n, s.tc 2 = some (.req 12, n) := by
  have hrun : ∃ s, play (guarded (step onePair) Steady) init (attach ++ [.queue 2 10 31 false, .queue 2 11 31 false,
        .queue 2 12 31 false, .dequeue 2 11, .ret false, .tick,
        .isr ⟨false, false, false, false, false⟩ 4#32 ⟨0, 0, 0, 0, 0⟩, .tick, .dequeue 2 12, .queue 2 12 31 false, .ret false, .tick,
        .ret false, .tick, .tick]) = some s ∧
      s.control = [] ∧ (s.ep 2).desc = true ∧ (s.ep 2).queue = [12] ∧ s.log.length = 7 :=
    play_ends _ (by decide +kernel)
  obtain ⟨s, hplay, hc, hd, hq, hlog⟩ := hrun
  have hr := Run.of_play _ hplay
  refine ⟨s, hr, hc, hq, hlog, ?_⟩
  apply head_in_hardware onePair hr 2 12 (by decide) hd
  · rw [hq]
    rfl
  · rw [hc]
    exact List.not_mem_nil
  · rw [hc]
    exact List.not_mem_nil

/-- The first of two requests is dequeued: outside everything, the second is queued on an endpoint that is on, and nothing is in the
hardware. -/
theorem queue_left_behind :
    ∃ s, play (step onePair) init (attach ++ [.queue 2 10 31 false, .queue 2 11 31 false, .dequeue 2 10, .ret false, .tick]) = some s ∧
      s.control = [] ∧ (s.ep 2).desc = true ∧ (s.ep 2).queue = [11] ∧ s.tc 2 = none :=
  play_ends _ (by decide +kernel)

end Emlinux.Gadget
