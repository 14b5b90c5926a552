import Emlinux.Usb.Control

/-!
# Control transfers, step by step

Each step of a served run keeps `Staged`: a step of another endpoint does not change the view of endpoint 0, and each task, done bit and call of the class driver that does change it goes
from one kind of `Kind` to the next.
-/

namespace Emlinux.Gadget

open Lib

section Moves

variable {v : View} {ph : Phase} {h₀ : List Move}

theorem bnot_ne (b : Bool) : (!b) ≠ b := by cases b <;> decide

/-- The descriptor of the direction `b` is armed. -/
theorem armed_update {b : Bool} (rq : Rq) (n : Nat) (ho : v.tc (!b) = none) (hr : v.rdy (!b) = false) (hs : v.fstopped = false) :
    Armed { v with tc := Function.update v.tc b (some (rq, n)), rdy := Function.update v.rdy b true } b rq n := by
  refine ⟨Function.update_self _ _ _, ?_, ?_, hs⟩
  · exact (Function.update_of_ne (bnot_ne b) _ _).trans ho
  · exact (Function.update_of_ne (bnot_ne b) _ _).trans hr

/-- The descriptor that was armed is emptied. -/
theorem Armed.unarmed {b : Bool} {rq : Rq} {n : Nat} (h : Armed v b rq n) {w : View}
    (htc : w.tc = Function.update v.tc b none) (hr : w.rdy = Function.update v.rdy b false) :
    ∀ b', w.tc b' = none ∧ w.rdy b' = false := by
  intro b'
  rw [htc, hr]
  by_cases hb : b' = b
  · subst hb
    rw [Function.update_self, Function.update_self]
    exact ⟨rfl, rfl⟩
  · rw [Function.update_of_ne hb, Function.update_of_ne hb, Bool.eq_not.2 hb]
    exact ⟨h.other, h.rdy⟩

theorem Pending.bit {b : Bool} {i : Nat} {p : Setup} {l : List Task} (h : Pending v b) (ht : v.tasks = .bit i p :: l) :
    i = b.toNat ∧ l = [] := by
  obtain h | ⟨p', h⟩ := h
  · rw [h] at ht
    cases ht
  · rw [h] at ht
    cases ht
    exact ⟨rfl, rfl⟩

theorem Pending.ne {b : Bool} {t : Task} {l : List Task} (h : Pending v b) (ht : v.tasks = t :: l) : ∃ p, t = .bit b.toNat p := by
  obtain h | ⟨p, h⟩ := h
  · rw [h] at ht
    cases ht
  · rw [h] at ht
    cases ht
    exact ⟨p, rfl⟩

/-- One more assignment to the stage. -/
theorem Staged.move {w : View} {moves : List Move} {ph' : Phase} {m : Move} (hh : v.hist = h₀ ++ moves) (hw : walk moves = some ph)
    (hm : w.hist = v.hist ++ [m]) (hf : follow (some ph) m = some ph') (hmode : Mode w ph') : Staged h₀ w := by
  refine ⟨moves ++ [m], ph', ?_, ?_, hmode⟩
  · rw [hm, hh, List.append_assoc]
  · rw [walk_snoc, hw, hf]

end Moves

/-! ## The done bits -/

section Done

variable {d : Dev} {s : Udc} {h₀ moves : List Move} {ph : Phase} {p : Setup}

theorem usbdDone_int (s : Udc) {i n : Nat} (p : Setup) (htc : s.tc i = some (.int, n)) :
    s.usbdDone i p = (if i = 0 ∧ n = 8 then { s.drop i with setup := p, pkt := p } else s.drop i).evtInt := by
  unfold Udc.usbdDone
  dsimp only
  rw [htc]
  rfl

theorem usbdDone_req (s : Udc) {i r n : Nat} (p : Setup) (htc : s.tc i = some (.req r, n)) :
    s.usbdDone i p = (s.drop i).evtReq r := by
  unfold Udc.usbdDone
  dsimp only
  rw [htc]
  rfl

/-- Both descriptors are empty, and nothing is left to do. -/
structure Emptied (v : View) (q : List Nat) : Prop where
  none : ∀ b, v.tc b = none ∧ v.rdy b = false
  running : v.fstopped = false
  queue : v.queue = q
  tasks : v.tasks = []

theorem Armed.drop {b : Bool} {rq : Rq} {n : Nat} {q : List Nat} (ha : Armed s.view b rq n) (hq : s.view.queue = q)
    (ht : s.view.tasks = []) : Emptied (s.drop b.toNat).view q := by
  have hview := view_drop s b
  refine ⟨ha.unarmed (by rw [hview]) (by rw [hview]), ?_, ?_, ?_⟩
  · rw [hview]
    exact ha.running
  · rw [hview]
    exact hq
  · rw [hview]
    exact ht

/-- A setup packet that the driver answers itself: the answer is armed on the IN descriptor. -/
theorem mode_answer {u : Udc} (he : Emptied s.view []) (hset : s.setup = p) (hpkt : s.pkt = p) (hst : s.stage = p.phase.stage)
    (hp : p.Plain) (hu : s.udcSetup = some u) : Mode u.view p.phase ∧ u.hist = s.hist := by
  obtain ⟨x, len, rfl, htw, hint⟩ := setup_cases hu
  rw [hset] at hint
  obtain ⟨hdir, hhalt⟩ := hp hint
  have hphdir : p.phase.dir = true := by
    unfold Setup.phase
    obtain hdir | hdir := hdir
    · rw [if_neg (not_not.2 hdir)]
      simp [Phase.dir, hdir]
    · split
      · exact hdir
      · next hw0 => simp [Phase.dir, not_not.1 hw0]
  have hxrdy : x.view.rdy false = false := by
    have := htw.rdy (by rw [hset]; exact hhalt)
    exact Eq.trans this (he.none false).2
  have hxtc : x.view.tc = s.view.tc := by
    show (fun b : Bool => x.tc b.toNat) = fun b : Bool => s.tc b.toNat
    rw [htw.tc]
  have hxt : x.view.tasks = s.view.tasks := by
    show x.control.filter Task.zero = s.control.filter Task.zero
    rw [htw.control]
  have hvu : (x.answer len).view = _ := view_io { x with rqLen := len } true .int
  refine ⟨⟨?_, ?_, ?_, ?_⟩, ?_⟩
  · exact (congrArg View.stage hvu).trans (htw.stage.trans hst)
  · intro q hq
    have hpq : p = q := hq.elim (fun hd => (Setup.phase_eq_data hd).1) fun hs => (Setup.phase_eq_status hs).1
    exact (congrArg View.pkt hvu).trans (htw.pkt.trans (hpkt.trans hpq))
  · intro q hq
    obtain ⟨rfl, hw0⟩ := Setup.phase_eq_data hq
    exact hw0
  · refine .own len (Setup.phase_ne_setup p) ?_ ?_ ?_ ?_ ?_
    · rw [hphdir, hvu]
      refine armed_update (v := ({ x with rqLen := len } : Udc).view) .int len ?_ hxrdy ?_
      · exact (congrFun hxtc false).trans (he.none false).1
      · exact (htw.ep 0).2.2.trans he.running
    · intro hf
      rw [hphdir] at hf
      cases hf
    · intro q hq
      obtain ⟨rfl, hw0⟩ := Setup.phase_eq_data hq
      exact hdir.resolve_left hw0
    · rw [hvu]
      exact (htw.ep 0).1.trans he.queue
    · left
      rw [hvu]
      exact hxt.trans he.tasks
  · exact (congrArg View.hist hvu).trans htw.hist

/-- A setup packet that is passed to the class driver. -/
theorem mode_ask (he : Emptied s.view []) (hpkt : s.pkt = p) (hst : s.stage = p.phase.stage) :
    Mode ({ s with control := .setup :: s.control } : Udc).view p.phase := by
  refine ⟨hst, ?_, ?_, ?_⟩
  · intro q hq
    have hpq : p = q := hq.elim (fun hd => (Setup.phase_eq_data hd).1) fun hs => (Setup.phase_eq_status hs).1
    exact hpkt.trans hpq
  · intro q hq
    obtain ⟨rfl, hw0⟩ := Setup.phase_eq_data hq
    exact hw0
  · rw [view_push s rfl]
    refine .ask ?_ ⟨fun b => (he.none b).1, fun b => (he.none b).2, he.queue⟩ he.running ?_
    · exact congrArg Setup.phase hpkt.symm
    · right
      show Task.setup :: s.view.tasks = [.setup]
      rw [he.tasks]

/-- The setup packet is in. -/
theorem staged_wait (hh : s.hist = h₀ ++ moves) (hw : walk moves = some .setup) (hst : s.stage = 0) (ha : Armed s.view false .int 8)
    (hq : s.view.queue = []) (ht : s.view.tasks = []) (hp : p.Plain) : Staged h₀ (s.usbdDone 0 p).view := by
  rw [usbdDone_int (i := 0) s p ha.tc, if_pos ⟨rfl, rfl⟩]
  have he := ha.drop hq ht
  have hst₁ : ({ s.drop 0 with setup := p, pkt := p } : Udc).stage = 0 := hst
  unfold Udc.evtInt
  rw [if_pos hst₁]
  dsimp only
  generalize hs₂ : ({ s.drop 0 with setup := p, pkt := p } : Udc).setStage p.first false = s₂
  have hhist : s₂.hist = s.hist ++ [⟨0, p.phase.stage, p, false⟩] := by
    rw [← hs₂, Setup.first_eq]
    show s.hist ++ [⟨s.stage, p.phase.stage, p, false⟩] = _
    rw [hst]
  have hst₂ : s₂.stage = p.phase.stage := by
    rw [← hs₂, Setup.first_eq]
    rfl
  have hset₂ : s₂.setup = p := by rw [← hs₂]; rfl
  have hpkt₂ : s₂.pkt = p := by rw [← hs₂]; rfl
  have he₂ : Emptied s₂.view [] := by
    rw [← hs₂]
    exact ⟨he.none, he.running, he.queue, he.tasks⟩
  split
  · next u hu =>
    obtain ⟨hm, hhu⟩ := mode_answer he₂ hset₂ hpkt₂ hst₂ hp hu
    exact Staged.move (v := s.view) hh hw (hhu.trans hhist) (follow_first p) hm
  · exact Staged.move (v := s.view) hh hw hhist (follow_first p) (mode_ask he₂ hpkt₂ hst₂)

/-- A stage of the driver's own is done. -/
theorem staged_own {n : Nat} (hh : s.hist = h₀ ++ moves) (hw : walk moves = some ph) (hm : Mode s.view ph) (hp : ph ≠ .setup)
    (ha : Armed s.view ph.dir .int n) (hn : ph.dir = false → n ≠ 8) (hd : ∀ q, ph = .data q → q.isIn = true)
    (hq : s.view.queue = []) (ht : s.view.tasks = []) : Staged h₀ (s.usbdDone ph.dir.toNat p).view := by
  have hne : ¬(ph.dir.toNat = 0 ∧ n = 8) := by
    rintro ⟨h0, h8⟩
    refine hn ?_ h8
    cases hb : ph.dir with
    | false => rfl
    | true =>
      rw [hb] at h0
      cases h0
  rw [usbdDone_int s p ha.tc, if_neg hne]
  have hview := view_drop s ph.dir
  have he := ha.drop hq ht
  generalize hs₁ : s.drop ph.dir.toNat = s₁ at hview he ⊢
  have hst : s₁.stage = ph.stage := (congrArg View.stage hview).trans hm.stage
  have hpkt : s₁.pkt = s.view.pkt := congrArg View.pkt hview
  have hh₁ : s₁.hist = s.hist := congrArg View.hist hview
  have hst0 : s₁.stage ≠ 0 := by
    rw [hst]
    exact Phase.stage_ne_zero hp
  unfold Udc.evtInt
  rw [if_neg hst0]
  cases ph with
  | setup => exact absurd rfl hp
  | data q =>
    have hin := hd q rfl
    have hw0 := hm.data q rfl
    have hdir : (Phase.status q).dir = false := by
      rw [Phase.dir_status hw0]
      show (!q.isIn) = false
      rw [hin]
      rfl
    have hsta : stSta = (Phase.status q).stage := by
      rw [Phase.stage_status, hdir]
      rfl
    have hdat : s₁.stage &&& stDat ≠ 0 := by
      rw [hst]
      exact Phase.stage_data_dat q
    rw [if_pos hdat]
    have hvu := view_io { s₁.setStage stSta false with rqLen := 0 } false .int
    refine Staged.move (v := s.view) (m := ⟨(Phase.data q).stage, (Phase.status q).stage, q, false⟩) hh hw ?_ (follow_data q)
      ⟨?_, ?_, by simp, ?_⟩
    · refine (congrArg View.hist hvu).trans ?_
      show s₁.hist ++ [⟨s₁.stage, stSta, s₁.pkt, false⟩] = s.hist ++ _
      rw [hh₁, hst, hpkt, hm.pkt q (.inl rfl), hsta]
    · exact (congrArg View.stage hvu).trans hsta
    · intro q' hq'
      have hqq : q = q' := by
        obtain hq' | hq' := hq'
        · cases hq'
        · cases hq'
          rfl
      exact ((congrArg View.pkt hvu).trans (hpkt.trans (hm.pkt q (.inl rfl)))).trans hqq
    · refine .own 0 (by simp) ?_ (by simp) (by simp) he.queue (.inl he.tasks)
      rw [hdir]
      exact hvu ▸ armed_update (v := ({ s₁.setStage stSta false with rqLen := 0 } : Udc).view) .int 0 (he.none true).1
        (he.none true).2 he.running
  | status q =>
    have hdat : s₁.stage &&& stDat = 0 := by
      rw [hst]
      exact Phase.stage_status_dat q
    rw [if_neg (not_not.2 hdat)]
    refine ⟨moves, .status q, hh₁.trans hh, hw, ⟨?_, ?_, by simp, ?_⟩⟩
    · exact hst
    · exact fun q' hq' => hpkt.trans (hm.pkt q' hq')
    · rw [view_push s₁ rfl]
      refine .close (.qsetup false) ⟨fun b => (he.none b).1, fun b => (he.none b).2, he.queue⟩ (.inl ⟨.inr rfl, q, rfl⟩)
        (.inl ⟨?_, he.running⟩)
      show Task.qsetup false :: s₁.view.tasks = _
      rw [he.tasks]

/-- The request of the class driver is done. -/
theorem staged_serve {r n : Nat} (hh : s.hist = h₀ ++ moves) (hw : walk moves = some ph) (hm : Mode s.view ph) (hp : ph ≠ .setup)
    (ha : Armed s.view ph.dir (.req r) n) (hq : s.view.queue = [r]) (ht : s.view.tasks = []) (hr : (s.reqs r).ep = 0) :
    Staged h₀ (s.usbdDone ph.dir.toNat p).view := by
  rw [usbdDone_req s p ha.tc]
  have hview := view_drop s ph.dir
  have hreqs : (s.drop ph.dir.toNat).reqs = s.reqs := rfl
  have he := ha.drop hq ht
  generalize hs₁ : s.drop ph.dir.toNat = s₁ at hview he hreqs ⊢
  have hst : s₁.stage = ph.stage := (congrArg View.stage hview).trans hm.stage
  have hpkt : s₁.pkt = s.view.pkt := congrArg View.pkt hview
  have hh₁ : s₁.hist = s.hist := congrArg View.hist hview
  -- the call of the class driver, and then the last task of the stage
  have hclose : ∀ (x : Udc) (t : Task) (ph' : Phase), x.view.tc = s₁.view.tc → x.view.rdy = s₁.view.rdy →
      x.view.queue = [r] → x.view.fstopped = false → x.view.tasks = [] → t.zero = true → Last x.view ph' t →
      Kind (x.done 0 r .ok (t :: x.control)).view ph' := by
    intro x t ph' htc hrdy hxq hxf hxt hz hlast
    rw [view_done]
    refine .close t ⟨?_, ?_, ?_⟩ hlast (.inr ?_)
    · intro b
      show x.view.tc b = none
      rw [htc]
      exact (he.none b).1
    · intro b
      show x.view.rdy b = false
      rw [hrdy]
      exact (he.none b).2
    · show x.view.queue.erase r = []
      rw [hxq]
      simp
    · show Task.restore 0 x.view.fstopped :: (t :: x.control).filter Task.zero = _
      rw [hxf, List.filter_cons_of_pos hz, show x.control.filter Task.zero = [] from hxt]
  unfold Udc.evtReq
  dsimp only
  rw [hreqs, if_pos hr]
  cases ph with
  | setup => exact absurd rfl hp
  | status q =>
    have hsta : s₁.stage &&& stSta ≠ 0 := by
      rw [hst]
      exact Phase.stage_status_sta q
    rw [if_pos hsta]
    refine ⟨moves, .status q, hh₁.trans hh, hw, ⟨hst, ?_, by simp, ?_⟩⟩
    · exact fun q' hq' => hpkt.trans (hm.pkt q' hq')
    · exact hclose s₁ (.qsetup false) (.status q) rfl rfl he.queue he.running he.tasks rfl (.inl ⟨.inr rfl, q, rfl⟩)
  | data q =>
    have hsta : s₁.stage &&& stSta = 0 := by
      rw [hst]
      exact Phase.stage_data_sta q
    rw [if_neg (not_not.2 hsta)]
    split
    · next hz =>
      -- a packet of length zero follows, in the same direction
      have hdir : (Phase.data q).dir = true := by
        rw [← Phase.stage_in, ← hst]
        exact hz.2.2.1
      have hv₂ : (s₁.setReq r fun x => { x with len := 0 }).view = s₁.view := rfl
      generalize (s₁.setReq r fun x => { x with len := 0 }) = s₂ at hv₂ ⊢
      have hvu := view_io s₂ true (.req r)
      rw [hv₂] at hvu
      refine ⟨moves, .data q, ?_, hw, ⟨?_, ?_, hm.data, ?_⟩⟩
      · exact (congrArg View.hist hvu).trans (hh₁.trans hh)
      · exact (congrArg View.stage hvu).trans hst
      · exact fun q' hq' => (congrArg View.pkt hvu).trans (hpkt.trans (hm.pkt q' hq'))
      · refine .serve r (s₂.rqLength (.req r)) hp ?_ ?_ (.inl (.inl ?_))
        · rw [hdir]
          exact hvu ▸ armed_update (v := s₁.view) (.req r) _ (he.none false).1 (he.none false).2 he.running
        · exact (congrArg View.queue hvu).trans he.queue
        · exact (congrArg View.tasks hvu).trans he.tasks
    · have hw0 := hm.data q rfl
      have hxor : s₁.stage ^^^ (stSta ||| stDat ||| stIn) = (Phase.status q).stage := by
        rw [hst]
        exact Phase.stage_data_xor hw0
      refine Staged.move (v := s.view) (m := ⟨(Phase.data q).stage, (Phase.status q).stage, q, false⟩) hh hw ?_ (follow_data q)
        ⟨?_, ?_, by simp, ?_⟩
      · show s₁.hist ++ [⟨s₁.stage, s₁.stage ^^^ (stSta ||| stDat ||| stIn), s₁.pkt, false⟩] = s.hist ++ _
        rw [hh₁, hxor, hst, hpkt, hm.pkt q (.inl rfl)]
      · exact hxor
      · intro q' hq'
        have hqq : q = q' := by
          obtain hq' | hq' := hq'
          · cases hq'
          · cases hq'
            rfl
        exact (hpkt.trans (hm.pkt q (.inl rfl))).trans hqq
      · exact hclose (s₁.setStage (s₁.stage ^^^ (stSta ||| stDat ||| stIn)) false) .status (.status q) rfl rfl he.queue he.running he.tasks rfl
          (.inl ⟨.inl rfl, q, rfl⟩)

/-- The start of a stall is reported. -/
theorem staged_stalled {b : Bool} (hh : s.hist = h₀ ++ moves) (hw : walk moves = some ph) (hm : Mode s.view ph)
    (hp : ph = s.view.pkt.phase) (htc : ∀ b, s.view.tc b = none) (ho : s.view.rdy (!b) = false) (hst : s.view.stall b = true)
    (hq : s.view.queue = []) (hs : s.view.fstopped = false) (ht : s.view.tasks = []) : Staged h₀ (s.usbdDone b.toNat p).view := by
  have hlt : b.toNat < 2 := by cases b <;> decide
  unfold Udc.usbdDone
  dsimp only
  rw [show s.tc b.toNat = none from htc b]
  dsimp only
  rw [if_pos ⟨hlt, hst⟩]
  have hrdy : ∀ b' : Bool, Function.update s.rdy b.toNat false b'.toNat = false := by
    intro b'
    by_cases hb : b' = b
    · rw [hb]
      exact Function.update_self _ _ _
    · rw [Bool.eq_not.2 hb]
      have hne : (!b).toNat ≠ b.toNat := by cases b <;> decide
      exact (Function.update_of_ne hne _ _).trans ho
  refine ⟨moves, ph, hh, hw, ⟨hm.stage, hm.pkt, hm.data, ?_⟩⟩
  refine .close (.qsetup true) ⟨htc, hrdy, hq⟩ (.inr ⟨rfl, hp⟩) (.inl ⟨?_, hs⟩)
  show (Task.qsetup true :: s.control).filter Task.zero = [.qsetup true]
  rw [List.filter_cons_of_pos rfl]
  exact congrArg (Task.qsetup true :: ·) ht

/-- A done bit of endpoint 0. -/
theorem Staged.bit {l : List Task} {i : Nat} (h : Staged h₀ s.view) (hR : Rooted d s) (hc : s.control = .bit i p :: l) (hi : i < 2)
    (hp : i = 0 → s.stage = 0 → p.Plain) : Staged h₀ (({ s with control := l } : Udc).usbdDone i p).view := by
  obtain ⟨moves, ph, hh, hw, hm⟩ := h
  have htasks := view_tasks hc (show Task.zero (.bit i p) = true from decide_eq_true hi)
  have hm₀ : ∀ k : Kind ({ s with control := l } : Udc).view ph, Mode ({ s with control := l } : Udc).view ph :=
    fun k => ⟨hm.stage, hm.pkt, hm.data, k⟩
  cases hm.kind with
  | wait hph ha hq ht =>
    obtain ⟨hi0, hl⟩ := ht.bit htasks
    subst hph
    rw [show i = 0 from hi0]
    exact staged_wait (s := { s with control := l }) hh hw hm.stage ⟨ha.tc, ha.other, ha.rdy, ha.running⟩ hq hl (hp hi0 hm.stage)
  | own n hph ha hn hd hq ht =>
    obtain ⟨hi0, hl⟩ := ht.bit htasks
    have ha' : Armed ({ s with control := l } : Udc).view ph.dir .int n := ⟨ha.tc, ha.other, ha.rdy, ha.running⟩
    rw [hi0]
    exact staged_own hh hw (hm₀ (.own n hph ha' hn hd hq (.inl hl))) hph ha' hn hd hq hl
  | serve r n hph ha hq ht =>
    have ht' : Pending s.view ph.dir := by
      refine ht.resolve_right ?_
      intro hs
      rw [hs] at htasks
      cases htasks
    obtain ⟨hi0, hl⟩ := ht'.bit htasks
    have ha' : Armed ({ s with control := l } : Udc).view ph.dir (.req r) n := ⟨ha.tc, ha.other, ha.rdy, ha.running⟩
    have hr : r ∈ (s.ep 0).queue := by
      rw [show (s.ep 0).queue = [r] from hq]
      exact List.mem_cons_self
    rw [hi0]
    exact staged_serve hh hw (hm₀ (.serve r n hph ha' hq (.inl (.inl hl)))) hph ha' hq hl (hR.mem 0 r hr).2
  | ask hph hu hs ht =>
    obtain ht | ht := ht
    · rw [ht] at htasks
      cases htasks
    · rw [ht] at htasks
      cases htasks
  | stalled b hph htc hr ho hst hq hs ht =>
    obtain ⟨hi0, hl⟩ := ht.bit htasks
    rw [hi0]
    exact staged_stalled hh hw (hm₀ (.stalled b hph htc hr ho hst hq hs (.inl hl))) hph htc ho hst hq hs hl
  | close t hu hl ht =>
    obtain ⟨-, -, hnb⟩ := hl.ne_setup
    obtain ⟨ht, -⟩ | ht := ht
    · rw [ht] at htasks
      exact absurd (List.cons.inj htasks).1 (hnb i p)
    · rw [ht] at htasks
      cases (List.cons.inj htasks).1

end Done

/-! ## The other tasks of endpoint 0 -/

section Tasks

variable {d : Dev} {s : Udc} {h₀ : List Move} {l : List Task}

/-- A task that is not a done bit is the last of its stage, or comes before it. -/
theorem Mode.close {v : View} {ph : Phase} {t : Task} {l : List Task} (h : Mode v ph) (ht : v.tasks = t :: l) (hs : t ≠ .setup)
    (hb : ∀ i p, t ≠ .bit i p) :
    ∃ t', Unarmed v ∧ Last v ph t' ∧ ((v.tasks = [t'] ∧ v.fstopped = false) ∨ v.tasks = [.restore 0 false, t']) := by
  have hpend : ∀ b, ¬Pending v b := by
    intro b hp
    obtain ⟨p, hp⟩ := hp.ne ht
    exact hb _ p hp
  have hset : v.tasks ≠ [.setup] := by
    intro hx
    rw [hx] at ht
    cases ht
    exact hs rfl
  have hnil : v.tasks ≠ [] := by
    rw [ht]
    simp
  cases h.kind with
  | wait _ _ _ hp => exact absurd hp (hpend _)
  | own _ _ _ _ _ _ hp => exact absurd hp (hpend _)
  | serve _ _ _ _ _ hp => exact absurd hp (not_or.2 ⟨hpend _, hset⟩)
  | ask _ _ _ hp => exact absurd hp (not_or.2 ⟨hnil, hset⟩)
  | stalled _ _ _ _ _ _ _ _ hp => exact absurd hp (hpend _)
  | close t' hu hl hp => exact ⟨t', hu, hl, hp⟩

theorem Staged.restore {b : Bool} (h : Staged h₀ s.view) (hc : s.control = .restore 0 b :: l) :
    Staged h₀ (({ s with control := l } : Udc).setEp 0 fun x => { x with fstopped := b }).view := by
  obtain ⟨moves, ph, hh, hw, hm⟩ := h
  have htasks := view_tasks hc rfl
  obtain ⟨t, hu, hl, ht⟩ := hm.close htasks (by simp) (by simp)
  obtain ⟨-, hnr, -⟩ := hl.ne_setup
  have hrest : b = false ∧ ({ s with control := l } : Udc).view.tasks = [t] := by
    obtain ⟨ht, -⟩ | ht := ht
    · rw [ht] at htasks
      obtain ⟨hx, -⟩ := List.cons.inj htasks
      obtain ⟨hx', -⟩ | ⟨hx', -⟩ := hl
      · obtain hx' | hx' := hx'
        · rw [hx'] at hx
          cases hx
        · rw [hx'] at hx
          cases hx
      · rw [hx'] at hx
        cases hx
    · rw [ht] at htasks
      obtain ⟨hx, hx'⟩ := List.cons.inj htasks
      cases hx
      exact ⟨rfl, hx'.symm⟩
  obtain ⟨rfl, hrest⟩ := hrest
  refine ⟨moves, ph, hh, hw, ⟨hm.stage, hm.pkt, hm.data, ?_⟩⟩
  refine .close t ⟨hu.tc, hu.rdy, ?_⟩ hl (.inl ⟨hrest, ?_⟩)
  · show (Function.update s.ep 0 { s.ep 0 with fstopped := false } 0).queue = []
    rw [Function.update_self]
    exact hu.queue
  · show (Function.update s.ep 0 { s.ep 0 with fstopped := false } 0).fstopped = false
    rw [Function.update_self]

/-- The tasks of a stage that ends with `t`. -/
theorem Mode.last {v : View} {ph : Phase} {t : Task} {l : List Task} (h : Mode v ph) (ht : v.tasks = t :: l) (hs : t ≠ .setup)
    (hb : ∀ i p, t ≠ .bit i p) (hr : ∀ e b, t ≠ .restore e b) : Unarmed v ∧ Last v ph t ∧ v.fstopped = false ∧ l = [] := by
  obtain ⟨t', hu, hl, ht'⟩ := h.close ht hs hb
  obtain ⟨ht', hf⟩ | ht' := ht'
  · rw [ht'] at ht
    cases ht
    exact ⟨hu, hl, hf, rfl⟩
  · rw [ht'] at ht
    cases ht
    exact absurd rfl (hr 0 false)

theorem Staged.status (h : Staged h₀ s.view) (hc : s.control = .status :: l) :
    Staged h₀ (({ s with control := l, rqLen := 0 } : Udc).usbdEpIo (if s.stage &&& stIn ≠ 0 then 1 else 0) .int).view := by
  obtain ⟨moves, ph, hh, hw, hm⟩ := h
  have htasks := view_tasks hc rfl
  obtain ⟨hu, hl, hf, hnil⟩ := hm.last htasks (by simp) (by simp) (by simp)
  obtain ⟨-, q, rfl⟩ | ⟨hx, -⟩ := hl
  · have hi : (if s.stage &&& stIn ≠ 0 then 1 else 0) = (Phase.status q).dir.toNat := by
      rw [show s.stage = (Phase.status q).stage from hm.stage]
      by_cases hd : (Phase.status q).dir = true
      · rw [if_pos ((Phase.stage_in _).2 hd), hd]
        rfl
      · rw [if_neg (fun hx => hd ((Phase.stage_in _).1 hx)), Bool.eq_false_iff.2 hd]
        rfl
    have hvu := view_io ({ s with control := l, rqLen := 0 } : Udc) (Phase.status q).dir .int
    rw [hi, hvu]
    refine ⟨moves, .status q, hh, hw, ⟨hm.stage, hm.pkt, by simp, ?_⟩⟩
    refine .own 0 (by simp) ?_ (by simp) (by simp) hu.queue (.inl hnil)
    exact armed_update (v := ({ s with control := l, rqLen := 0 } : Udc).view) .int 0 (hu.tc _) (hu.rdy _) hf
  · cases hx

theorem Staged.qsetup {b : Bool} (h : Staged h₀ s.view) (hc : s.control = .qsetup b :: l) :
    Staged h₀ (({ ({ s with control := l } : Udc).setStage 0 b with rqLen := 8 } : Udc).usbdEpIo 0 .int).view := by
  obtain ⟨moves, ph, hh, hw, hm⟩ := h
  have htasks := view_tasks hc rfl
  obtain ⟨hu, hl, hf, hnil⟩ := hm.last htasks (by simp) (by simp) (by simp)
  have hfollow : follow (some ph) ⟨s.stage, 0, s.pkt, b⟩ = some .setup := by
    rw [show s.stage = ph.stage from hm.stage]
    obtain ⟨hx, q, rfl⟩ | ⟨hx, hph⟩ := hl
    · have hb : b = false := by
        obtain hx | hx := hx
        · cases hx
        · cases hx
          rfl
      rw [hb, show s.pkt = q from hm.pkt q (.inr rfl)]
      exact follow_status q
    · cases hx
      rw [hph]
      exact follow_stall s.pkt
  have hvu := view_io ({ ({ s with control := l } : Udc).setStage 0 b with rqLen := 8 } : Udc) false .int
  refine Staged.move (v := s.view) hh hw (m := ⟨s.stage, 0, s.pkt, b⟩) ?_ hfollow ⟨?_, by simp, by simp, ?_⟩
  · exact congrArg View.hist hvu
  · exact congrArg View.stage hvu
  · refine .wait rfl ?_ hu.queue (.inl hnil)
    exact hvu ▸ armed_update (v := ({ ({ s with control := l } : Udc).setStage 0 b with rqLen := 8 } : Udc).view) .int 8 (hu.tc _)
      (hu.rdy _) hf

end Tasks

/-! ## The calls of the class driver -/

section Calls

variable {d : Dev} {s : Udc} {h₀ : List Move} {l : List Task}

/-- The class driver queues its answer: it is armed in the direction of the stage. -/
theorem Staged.queue {r len : Nat} {zero : Bool} (h : Staged h₀ s.view) (ha : s.view.Asked) :
    Staged h₀ (s.udcEpQueue 0 r len zero).view := by
  obtain heq | ⟨-, heq⟩ := queue_cases s 0 r len zero
  · rw [heq]
    exact h
  · obtain ⟨moves, ph, hh, hw, hm⟩ := h
    obtain ⟨hph, hu, hf⟩ := hm.ask_of_asked ha
    have hi : (if 0 = 0 ∧ s.stage &&& stIn ≠ 0 then 1 else 0) = ph.dir.toNat := by
      rw [show s.stage = ph.stage from hm.stage]
      by_cases hd : ph.dir = true
      · rw [if_pos ⟨rfl, (Phase.stage_in _).2 hd⟩, hd]
        rfl
      · rw [if_neg (fun hx => hd ((Phase.stage_in _).1 hx.2)), Bool.eq_false_iff.2 hd]
        rfl
    have hva := view_accept s r len zero
    have hvu := view_io (s.accept 0 r len zero) ph.dir (.req r)
    rw [heq, if_pos ⟨hu.queue, hf⟩, hi, hvu, hva]
    refine ⟨moves, ph, hh, hw, ⟨hm.stage, hm.pkt, hm.data, ?_⟩⟩
    refine .serve r _ ?_ (armed_update (v := { s.view with queue := s.view.queue ++ [r] }) (.req r) _ (hu.tc _) (hu.rdy _) hf) ?_ ?_
    · rw [hph]
      exact Setup.phase_ne_setup _
    · show s.view.queue ++ [r] = [r]
      rw [hu.queue]
      rfl
    · exact ha.2.2.2.imp .inl id

/-- `setup` returns without an error. -/
theorem Staged.ret (h : Staged h₀ s.view) (hc : s.control = .setup :: l) : Staged h₀ ({ s with control := l } : Udc).view := by
  obtain ⟨moves, ph, hh, hw, hm⟩ := h
  have htasks := view_tasks hc rfl
  have hpend : ∀ b, ¬Pending s.view b := by
    intro b hp
    obtain ⟨p, hp⟩ := hp.ne htasks
    cases hp
  have hrest : s.view.tasks = [.setup] → ({ s with control := l } : Udc).view.tasks = [] := by
    intro hx
    rw [hx] at htasks
    exact (List.cons.inj htasks).2.symm
  refine ⟨moves, ph, hh, hw, ⟨hm.stage, hm.pkt, hm.data, ?_⟩⟩
  cases hm.kind with
  | wait _ _ _ hp => exact absurd hp (hpend _)
  | own _ _ _ _ _ _ hp => exact absurd hp (hpend _)
  | serve r n hph ha hq hp =>
    exact .serve r n hph ⟨ha.tc, ha.other, ha.rdy, ha.running⟩ hq (.inl (.inl (hrest (hp.resolve_left (hpend _)))))
  | ask hph hu hf hp =>
    refine .ask hph ⟨hu.tc, hu.rdy, hu.queue⟩ hf (.inl (hrest (hp.resolve_left ?_)))
    rw [htasks]
    simp
  | stalled _ _ _ _ _ _ _ _ hp => exact absurd hp (hpend _)
  | close t hu hl ht =>
    obtain ⟨hns, -, -⟩ := hl.ne_setup
    obtain ⟨ht, -⟩ | ht := ht
    · rw [ht] at htasks
      exact absurd (List.cons.inj htasks).1 hns
    · rw [ht] at htasks
      cases (List.cons.inj htasks).1

theorem ep2hw_dir (x : BitVec 8) : (Usb.ep2hw (x &&& 0x80#8)).toNat = (x &&& 0x80#8 != 0#8).toNat := by
  revert x
  decide +kernel

/-- `setup` returns an error: the stall is started. -/
theorem Staged.err (h : Staged h₀ s.view) (hc : s.control = .setup :: l) (ha : s.view.Asked) (x : BitVec 8) :
    Staged h₀ (({ s with control := l } : Udc).usbdEpStall (Usb.ep2hw (x &&& 0x80#8)).toNat true).view := by
  obtain ⟨moves, ph, hh, hw, hm⟩ := h
  obtain ⟨hph, hu, hf⟩ := hm.ask_of_asked ha
  have htasks := view_tasks hc rfl
  have hrest : ({ s with control := l } : Udc).view.tasks = [] := by
    obtain hx | hx := ha.2.2.2
    · rw [hx] at htasks
      cases htasks
    · rw [hx] at htasks
      exact (List.cons.inj htasks).2.symm
  rw [ep2hw_dir]
  generalize (x &&& 0x80#8 != 0#8) = b
  have hlt : b.toNat < 2 := by cases b <;> decide
  have hrdy : ∀ b', (({ s with control := l } : Udc).usbdEpStall b.toNat true).view.rdy b' = Function.update s.view.rdy b true b' := by
    intro b'
    show (if true = true ∧ b.toNat < 2 then Function.update s.rdy b.toNat true else s.rdy) b'.toNat = _
    rw [if_pos ⟨rfl, hlt⟩]
    cases b <;> cases b' <;> rfl
  refine ⟨moves, ph, hh, hw, ⟨hm.stage, hm.pkt, hm.data, ?_⟩⟩
  refine .stalled b hph hu.tc ?_ ?_ ?_ hu.queue hf (.inl hrest)
  · rw [hrdy, Function.update_self]
  · rw [hrdy, Function.update_of_ne (bnot_ne b)]
    exact hu.rdy _
  · exact Function.update_self _ _ _

end Calls

end Emlinux.Gadget
