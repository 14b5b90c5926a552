import Emlinux.Gpio.Dev

/-!
# The device gives back what it takes

The device disables an interrupt in its handler and enables it in a work that runs much later. If the handler ran a second time in between, the
work would not be scheduled again, and the interrupt stay disabled for good. In no order of steps does it, as long as a pin is not released
with its work outstanding: the work is freed with it.

* `Fate`: what a step of the system makes of an interrupt that the step is not a call for.
* `Retouched`: the device has changed the nodes of one interrupt.
* `DevInv`: an interrupt of the device is disabled by what is outstanding of it, which is one thing at most; `DevInv.step`.
-/

namespace Emlinux.Gpio

open Lib

/-! ## What the system does to an interrupt -/

section Fates

variable {s t u : Irqs} {i j : Nat} {a : Act}

/-- When the processor goes on, the handler of the interrupt is as it was, is started, or has returned. -/
inductive Fate (i : Nat) (s u : Irqs) : Prop
  | kept (htop : s.stack.head? ≠ some (.event i)) (hevents : i ∈ events u.stack ↔ i ∈ events s.stack)
      (howed : s.owed i = true → u.owed i = true)
  | started (hmem : i ∈ events u.stack) (hdepth : (s.desc i).depth = 0) (hfresh : i ∉ events s.stack ∨ s.stack.head? = some (.event i))
  | done (htop : s.stack.head? = some (.event i)) (hnot : i ∉ events u.stack) (howed : s.owed i = true → u.owed i = true)

/-- The descriptor has the handler and the depth that it had. -/
structure Held (i : Nat) (s u : Irqs) : Prop where
  action : (u.desc i).action = (s.desc i).action
  edge : (u.desc i).edge = (s.desc i).edge
  depth : (u.desc i).depth = (s.desc i).depth

theorem Held.of_desc (h : u.desc i = s.desc i) : Held i s u := by
  constructor <;> rw [h]

theorem Held.of_same (h : Held i t u) (hdesc : t.desc = s.desc) : Held i s u := by
  obtain ⟨haction, hedge, hdepth⟩ := h
  rw [hdesc] at haction hedge hdepth
  exact ⟨haction, hedge, hdepth⟩

namespace Irqs

theorem edge_handleIrq : ((s.handleIrq i).desc i).edge = (s.desc i).edge := by
  unfold handleIrq handleEdgeIrq handleLevelIrq edgeLoop maskAckIrq
  dsimp only
  split_ifs <;> simp

theorem edge_handled : ((s.handled i).desc i).edge = (s.desc i).edge := by
  unfold handled edgeLoop
  dsimp only
  split_ifs <;> simp

theorem held_handleIrq : Held i s (s.handleIrq i) := ⟨flow_handleIrq.action, edge_handleIrq, flow_handleIrq.depth⟩

theorem held_handled (haction : (s.desc i).action ≠ none) : Held i s (s.handled i) :=
  ⟨(back_handled haction).action, edge_handled, (back_handled haction).depth⟩

theorem edge_enableIrq : ((s.enableIrq i).desc i).edge = (s.desc i).edge := by
  unfold enableIrq checkIrqResend defaultEnable
  dsimp only
  split
  · rfl
  · split_ifs <;> simp
  · simp

theorem depth_enableIrq : ((s.enableIrq i).desc i).depth = (s.desc i).depth - 1 := by
  unfold enableIrq
  split
  · next hdepth => rw [hdepth]
  · next hdepth => simp [hdepth]
  · next hdepth => simp [hdepth]

theorem owed_handleIrq : (s.handleIrq i).stack = .event i :: s.stack ∨ (s.handleIrq i).owed = s.owed := by
  unfold handleIrq handleEdgeIrq handleLevelIrq edgeLoop
  dsimp only
  split_ifs <;> first | exact .inr rfl | exact .inl rfl

theorem owed_handled : (s.handled i).stack = .event i :: s.stack ∧ ((s.desc i).edge = true → (s.desc i).disabled = false) ∨
    (s.handled i).stack = s.stack ∧ (s.handled i).owed = s.owed := by
  unfold handled edgeLoop
  dsimp only
  split_ifs with hedge hagain <;> first | exact .inr ⟨rfl, rfl⟩ | exact .inl ⟨rfl, fun _ => by simpa using hagain.2⟩

end Irqs

/-- A flow handler is called by one of the loops, on top of the stack. -/
theorem fate_handleIrq (hi : IsPin i) (hj : IsPin j) (hdepth : (s.desc i).depth ≠ 0 → (s.desc i).disabled = true)
    (hidle : (s.desc i).inProgress = false → i ∉ events s.stack) (htop : s.stack.head? ≠ some (.event i)) :
    Held i s (s.handleIrq j) ∧ Fate i s (s.handleIrq j) := by
  have hf := Irqs.flow_handleIrq (s := s) (i := j)
  by_cases hij : i = j
  · subst hij
    refine ⟨Irqs.held_handleIrq, ?_⟩
    rcases hf.started with ⟨hstack, -⟩ | ⟨hstack, hprog, -, -, hon⟩
    · refine .kept htop (by rw [hstack]) fun howed => ?_
      rcases Irqs.owed_handleIrq (s := s) (i := i) with hpush | hsame
      · exact absurd (hpush.symm.trans hstack) (List.cons_ne_self _ _)
      · rw [hsame]
        exact howed
    · refine .started (by simp [hstack]) ?_ (.inl (hidle hprog))
      by_contra hne
      exact Bool.false_ne_true (hon.symm.trans (hdepth hne))
  · have hline := Irqs.only_handleIrq (s := s) hj.le i hi.le hij
    refine ⟨.of_desc (congrArg Line.desc hline), .kept htop ?_ fun howed => (congrArg Line.owed hline).trans howed⟩
    rcases hf.started with ⟨hstack, -⟩ | ⟨hstack, -⟩
    · rw [hstack]
    · rw [hstack]
      simp [hij]

theorem Fate.of_events {v : Irqs} (h : Fate i v u) (hevents : events v.stack = events s.stack)
    (htop : s.stack.head? ≠ some (.event i)) (htop' : v.stack.head? ≠ some (.event i)) (hdesc : v.desc = s.desc) (howed : v.owed = s.owed) :
    Fate i s u := by
  cases h with
  | kept _ hev how => exact .kept htop (by rw [hev, hevents]) (by rwa [howed] at how)
  | started hmem hdepth hfresh =>
    refine .started hmem (by rwa [hdesc] at hdepth) (.inl ?_)
    rw [← hevents]
    exact hfresh.resolve_right htop'
  | done htop'' => exact absurd htop'' htop'

/-- The processor goes on. -/
theorem fate_advance (h : Inv s) (hi : IsPin i) (haction : (s.desc i).action ≠ none) (hedge : (s.desc i).edge = true)
    (hu : s.advance = some u) : Held i s u ∧ Fate i s u := by
  have hidle : (s.desc i).inProgress = false → i ∉ events s.stack := by
    intro hprog
    rw [h.mem i hi, hprog]
    exact Bool.false_ne_true
  unfold Irqs.advance at hu
  split at hu
  · cases hu
  · next port pin isr stack hstack =>
    obtain ⟨hport, hisr⟩ := h.scans port pin isr (by rw [hstack]; exact List.mem_cons_self)
    have htop : s.stack.head? ≠ some (.event i) := by simp [hstack]
    have hnext : ∀ stack', events stack' = events stack → Fate i s { s with stack := stack' } := fun stack' hevents =>
      .kept htop (by simp [hevents, hstack]) id
    split_ifs at hu with hzero
    · cases hu
      exact ⟨.of_desc rfl, hnext _ rfl⟩
    · cases hu
      exact ⟨.of_desc rfl, hnext _ rfl⟩
    · cases hu
      have hf := fate_handleIrq (s := { s with stack := .isr port (pin + 1) (isr >>> 1) :: stack }) hi (isPin_gpioIrq hport hisr hzero)
        (h.depth i hi haction).mpr (by simpa [hstack] using hidle) (by simp)
      exact ⟨hf.1.of_same rfl, hf.2.of_events (by simp [hstack]) htop (by simp) rfl rfl⟩
    · cases hu
      exact ⟨.of_desc rfl, hnext _ rfl⟩
  · next irq stack hstack =>
    cases hu
    obtain ⟨hirq, hact⟩ := h.running irq (by rw [hstack]; exact List.mem_cons_self)
    have hnodup := h.nodup
    rw [hstack, events_event, List.nodup_cons] at hnodup
    have hback := Irqs.back_handled (s := { s with stack }) hact
    by_cases hij : i = irq
    · subst hij
      have htop : s.stack.head? = some (.event i) := by simp [hstack]
      refine ⟨(Irqs.held_handled (s := { s with stack }) hact).of_same rfl, ?_⟩
      rcases Irqs.owed_handled (s := { s with stack }) (i := i) with ⟨hpush, hon⟩ | ⟨hdone, hsame⟩
      · refine .started (by simp [hpush]) ?_ (.inr htop)
        by_contra hne
        exact Bool.false_ne_true ((hon hedge).symm.trans ((h.depth i hi haction).mpr hne))
      · exact .done htop (by rw [hdone]; exact hnodup.1) fun howed => by rwa [hsame]
    · have hline := Irqs.only_handled (s := { s with stack }) hirq.le i hi.le hij
      refine ⟨.of_desc (congrArg Line.desc hline), .kept (by simp [hstack, Ne.symm hij]) ?_ fun howed => (congrArg Line.owed hline).trans howed⟩
      rcases hback.again with ⟨hagain, -⟩ | ⟨hdone, -⟩
      · rw [hagain, hstack]
      · rw [hdone, hstack]
        simp [hij]
  · next stack hstack =>
    have htop : s.stack.head? ≠ some (.event i) := by simp [hstack]
    split at hu
    · cases hu
      exact ⟨.of_desc rfl, .kept htop (by simp [hstack]) id⟩
    · next irq hfind =>
      cases hu
      have hf := fate_handleIrq (s := { s with irqsResend := Function.update s.irqsResend irq false }) hi
        (h.resend irq (List.find?_some hfind)).1 (h.depth i hi haction).mpr hidle htop
      exact ⟨hf.1.of_same rfl, hf.2.of_events rfl htop htop rfl rfl⟩

/-- What is not a call for the interrupt, nor the processor going on. -/
theorem calm_step (h : Inv s) (hi : IsPin i) (hadvance : a ≠ .advance) (hcalls : a.calls ≠ some i) (hu : step s a = some u) :
    Held i s u ∧ events u.stack = events s.stack ∧ (s.owed i = true → u.owed i = true) := by
  have hcall : ∀ {j u'}, some j ≠ some i → Irqs.Only j s u' → Irqs.Call j s u' →
      Held i s u' ∧ events u'.stack = events s.stack ∧ (s.owed i = true → u'.owed i = true) := by
    intro j u' hji ho hc
    have hline := ho i hi.le fun hij => hji (congrArg some hij.symm)
    exact ⟨.of_desc (congrArg Line.desc hline), by rw [hc.stack], (congrArg Line.owed hline).trans⟩
  unfold step at hu
  split at hu
  · next irq =>
    split_ifs at hu with hirq
    cases hu
    refine ⟨.of_desc rfl, rfl, fun howed => ?_⟩
    by_cases hij : i = irq
    · rw [hij]
      exact congrArg Line.owed Irqs.line_edge
    · exact (congrArg Line.owed (Irqs.only_edge hirq.le i hi.le hij)).trans howed
  · split_ifs at hu
    cases hu
    exact ⟨.of_desc rfl, rfl, id⟩
  · exact absurd rfl hadvance
  · split_ifs at hu with hsoft
    cases hu
    exact ⟨.of_desc rfl, by rw [hsoft.1]; rfl, id⟩
  · split_ifs at hu
    cases hu
    exact hcall hcalls (Irqs.only_setDesc _ _) Irqs.call_disableIrqNosync
  · split_ifs at hu with hpin
    cases hu
    exact hcall hcalls (Irqs.only_enableIrq hpin.2.le) Irqs.call_enableIrq
  · split_ifs at hu with hpin
    cases hu
    exact hcall hcalls (Irqs.only_setupIrq hpin.2.le _ _) (Irqs.call_setupIrq (h.idle hpin.1 hpin.2) _ _)
  · split_ifs at hu with hpin
    cases hu
    exact hcall hcalls (Irqs.only_freeIrq _) (Irqs.call_freeIrq hpin.1)

end Fates

/-! ## The nodes -/

section Nodes

variable {l : List GpioIsr} {p : GpioIsr → Bool} {f : GpioIsr → GpioIsr} {i : Nat}

/-- The nodes are of different interrupts, so there is no other one that the loop would have come to. -/
theorem atFirst_eq_map (hnodup : (l.map GpioIsr.irqNo).Nodup) (hp : ∀ n ∈ l, p n = true → n.irqNo = i) :
    atFirst p f l = l.map fun n => if p n then f n else n := by
  induction l with
  | nil => rfl
  | cons n l ih =>
    rw [List.map_cons, List.nodup_cons] at hnodup
    rw [atFirst, List.map_cons]
    split_ifs with hn
    · congr 1
      refine ((List.map_congr_left fun m hm => if_neg fun hpm => hnodup.1 ?_).trans (List.map_id l)).symm
      rw [hp n List.mem_cons_self hn, ← hp m (List.mem_cons_of_mem _ hm) hpm]
      exact List.mem_map_of_mem hm
    · rw [ih hnodup.2 fun m hm => hp m (List.mem_cons_of_mem _ hm)]

theorem mem_atFirst {n : GpioIsr} (hn : n ∈ atFirst p f l) : n ∈ l ∨ ∃ m ∈ l, p m = true ∧ n = f m := by
  induction l with
  | nil => cases hn
  | cons m l ih =>
    rw [atFirst] at hn
    split_ifs at hn with hm
    · rcases List.mem_cons.mp hn with rfl | hn
      · exact .inr ⟨m, List.mem_cons_self, hm, rfl⟩
      · exact .inl (List.mem_cons_of_mem _ hn)
    · rcases List.mem_cons.mp hn with rfl | hn
      · exact .inl List.mem_cons_self
      · refine (ih hn).imp (List.mem_cons_of_mem _) ?_
        exact fun ⟨m', hm', hrest⟩ => ⟨m', List.mem_cons_of_mem _ hm', hrest⟩

/-- The interrupts and the pins of the nodes stay. -/
theorem map_atFirst {α : Type} {g : GpioIsr → α} (hg : ∀ n, g (f n) = g n) (l : List GpioIsr) : (atFirst p f l).map g = l.map g := by
  induction l with
  | nil => rfl
  | cons n l ih =>
    rw [atFirst]
    split_ifs
    · rw [List.map_cons, List.map_cons, hg]
    · rw [List.map_cons, List.map_cons, ih]

theorem irqNo_scheduleDelayedWork {jiffies : Nat} (n : GpioIsr) : (scheduleDelayedWork jiffies n).irqNo = n.irqNo := by
  unfold scheduleDelayedWork
  split_ifs <;> rfl

theorem gpioNo_scheduleDelayedWork {jiffies : Nat} (n : GpioIsr) : (scheduleDelayedWork jiffies n).gpioNo = n.gpioNo := by
  unfold scheduleDelayedWork
  split_ifs <;> rfl

end Nodes

/-! ## What is outstanding -/

theorem Frame.irq_eq_some {f : Frame} {irq : Nat} : f.irq = some irq ↔ f = .event irq := by
  cases f <;> simp [Frame.irq]

namespace GpioDev

def nodes (s : GpioDev) : List GpioIsr := s.gpioIsrHead ++ s.adding

/-- The work of a pin is pending. -/
def pend (s : GpioDev) (irq : Nat) : Bool := s.gpioIsrHead.any fun n => n.irqNo == irq && n.dwork.isSome

/-- How often the device has disabled an interrupt and not enabled it. -/
def out (s : GpioDev) (irq : Nat) : Nat :=
  (if s.phase irq = .disabled then 1 else 0) + (s.pend irq).toNat + if s.running = some irq then 1 else 0

variable {s u : GpioDev} {i irq : Nat}

theorem ours_iff : s.ours i = true ↔ i ∈ s.nodes.map GpioIsr.irqNo := by
  simp [ours, nodes]

@[simp] theorem phase_setPhase {phase : Phase} : (s.setPhase i phase).phase i = phase := Function.update_self _ _ _

theorem out_eq (s : GpioDev) (i : Nat) (hphase : s.phase i ≠ .disabled) (hrunning : s.running ≠ some i) : s.out i = (s.pend i).toNat := by
  rw [out, if_neg hphase, if_neg hrunning, Nat.zero_add, Nat.add_zero]

theorem pend_iff : s.pend i = true ↔ ∃ n ∈ s.gpioIsrHead, n.irqNo = i ∧ n.dwork.isSome = true := by
  simp [pend]

theorem handling_eq_some : s.handling = some irq ↔ s.irqs.stack.head? = some (.event irq) ∧ s.ours irq = true := by
  unfold handling
  rw [Option.filter_eq_some_iff, Option.bind_eq_some_iff]
  refine and_congr_left fun _ => ⟨?_, fun h => ⟨_, h, rfl⟩⟩
  rintro ⟨f, hf, hirq⟩
  rwa [(Frame.irq_eq_some.mp hirq)] at hf

theorem phase_returned : s.returned.phase i = if s.handling = some i then .enter else s.phase i := by
  unfold returned
  split
  · next irq hirq =>
    by_cases hi : i = irq
    · rw [if_pos (by rw [hirq, hi]), hi]
      exact Function.update_self _ _ _
    · rw [if_neg (by rw [hirq, Option.some.injEq]; exact Ne.symm hi)]
      exact Function.update_of_ne hi _ _
  · next hnone => rw [hnone, if_neg (by simp)]

theorem returned_eq (s : GpioDev) : s.returned = { s with phase := s.returned.phase } := by
  unfold returned
  split <;> rfl

theorem done_of_mayAdvance (hmay : s.mayAdvance = true) (hi : s.handling = some i) : s.phase i = .done := by
  rw [mayAdvance, hi, Option.all_some] at hmay
  exact of_decide_eq_true hmay

/-- What there is of an interrupt of the device. -/
structure Own (s : GpioDev) (i : Nat) : Prop where
  pin : IsPin i
  action : (s.irqs.desc i).action ≠ none
  edge : (s.irqs.desc i).edge = true
  depth : (s.irqs.desc i).depth = s.out i
  once : s.out i ≤ 1
  idle : i ∈ events s.irqs.stack → s.phase i = .enter → s.out i = 0

end GpioDev

/-- What holds in every state of the device. -/
structure DevInv (s : GpioDev) : Prop where
  sys : Inv s.irqs
  nodup : (s.nodes.map GpioIsr.irqNo).Nodup
  named : ∀ n ∈ s.nodes, n.irqNo = gpioToIrq n.gpioNo
  fresh : ∀ n ∈ s.adding, n.dwork = none
  running : ∀ i, s.running = some i → s.ours i = true
  phase : ∀ i, s.phase i ≠ .enter → s.ours i = true ∧ i ∈ events s.irqs.stack
  own : ∀ i, s.ours i = true → s.Own i

/-- A pin is released when its work is not outstanding. -/
def Careful (s : GpioDev) : DevAct → Prop
  | .release gpioNo => ∀ n ∈ s.gpioIsrHead, n.gpioNo = gpioNo → n.dwork = none ∧ s.running ≠ some n.irqNo
  | _ => True

instance (s : GpioDev) : DecidablePred (Careful s)
  | .release gpioNo => inferInstanceAs (Decidable (∀ n ∈ s.gpioIsrHead, n.gpioNo = gpioNo → n.dwork = none ∧ s.running ≠ some n.irqNo))
  | .sys _ | .tick | .handle | .work _ _ | .enable | .request _ _ | .add _ | .info _ => inferInstanceAs (Decidable True)

section Steps

variable {s u : GpioDev} {i irq : Nat}

theorem DevInv.phase_enter (h : DevInv s) (hstack : s.irqs.stack = []) (i : Nat) : s.phase i = .enter := by
  by_contra hne
  have hmem := (h.phase i hne).2
  rw [hstack] at hmem
  cases hmem

theorem GpioDev.Own.of_same (h : s.Own i) (hdesc : u.irqs.desc i = s.irqs.desc i) (hstack : u.irqs.stack = s.irqs.stack)
    (hphase : u.phase i = s.phase i) (hout : u.out i = s.out i) : u.Own i := by
  obtain ⟨hpin, haction, hedge, hdepth, honce, hidle⟩ := h
  exact ⟨hpin, by rwa [hdesc], by rwa [hdesc], by rw [hdesc, hout, hdepth], by rwa [hout], by rwa [hstack, hphase, hout]⟩

/-- A step of the device is about one interrupt. -/
theorem DevInv.update (h : DevInv s) (irq : Nat) (hsys : Inv u.irqs) (honly : Irqs.Only irq s.irqs u.irqs)
    (hstack : u.irqs.stack = s.irqs.stack) (hnodup : (u.nodes.map GpioIsr.irqNo).Nodup) (hnamed : ∀ n ∈ u.nodes, n.irqNo = gpioToIrq n.gpioNo)
    (hfresh : ∀ n ∈ u.adding, n.dwork = none)
    (hothers : ∀ i, i ≠ irq → u.ours i = s.ours i ∧ u.phase i = s.phase i ∧ u.pend i = s.pend i ∧ (u.running = some i ↔ s.running = some i))
    (hrunning : u.running = some irq → u.ours irq = true) (hphase : u.phase irq ≠ .enter → u.ours irq = true ∧ irq ∈ events s.irqs.stack)
    (hown : u.ours irq = true → u.Own irq) : DevInv u := by
  have hcases : ∀ {P : Nat → Prop}, P irq → (∀ i, i ≠ irq → P i) → ∀ i, P i := by
    intro P hself hother i
    by_cases hi : i = irq
    · rw [hi]
      exact hself
    · exact hother i hi
  refine ⟨hsys, hnodup, hnamed, hfresh, hcases hrunning ?_, hcases (by rwa [hstack]) ?_, hcases hown ?_⟩
  · intro i hi hrun
    rw [(hothers i hi).1]
    exact h.running i ((hothers i hi).2.2.2.mp hrun)
  · intro i hi hne
    rw [(hothers i hi).2.1] at hne
    rw [(hothers i hi).1, hstack]
    exact h.phase i hne
  · intro i hi hours
    obtain ⟨hours', hphase', hpend', hrunning'⟩ := hothers i hi
    rw [hours'] at hours
    have hown' := h.own i hours
    refine hown'.of_same (congrArg Line.desc (honly i hown'.pin.le hi)) hstack hphase' ?_
    unfold GpioDev.out
    rw [hphase', hpend']
    simp only [hrunning']

/-- The system goes on, apart from the processor. -/
theorem DevInv.calm {a : Act} {t : Irqs} {unseen : Nat → Bool} (h : DevInv s) (hadvance : a ≠ .advance) (hcalls : a.calls.any s.ours = false)
    (ht : step s.irqs a = some t) : DevInv { s with irqs := t, unseen } := by
  have hcalm : ∀ i, s.ours i = true → Held i s.irqs t ∧ events t.stack = events s.irqs.stack := by
    intro i hi
    have hne : a.calls ≠ some i := by
      intro hcall
      rw [hcall, Option.any_some, hi] at hcalls
      exact Bool.noConfusion hcalls
    exact (calm_step h.sys (h.own i hi).pin hadvance hne ht).imp_right And.left
  refine ⟨h.sys.step ht, h.nodup, h.named, h.fresh, h.running, fun i hne => ?_, fun i hi => ?_⟩
  · obtain ⟨hours, hmem⟩ := h.phase i hne
    exact ⟨hours, by rwa [(hcalm i hours).2]⟩
  · obtain ⟨hpin, haction, hedge, hdepth, honce, hidle⟩ := h.own i hi
    obtain ⟨⟨haction', hedge', hdepth'⟩, hevents⟩ := hcalm i hi
    exact ⟨hpin, by rwa [haction'], by rwa [hedge'], hdepth'.trans hdepth, honce, by rwa [hevents]⟩

/-- The processor goes on: a handler is started only when nothing is outstanding. -/
theorem DevInv.advance {t : Irqs} (h : DevInv s) (hmay : s.mayAdvance = true) (ht : s.irqs.advance = some t) :
    DevInv { s.returned with irqs := t } := by
  rw [s.returned_eq]
  have hdisabled : ∀ i, s.returned.phase i = .disabled ↔ s.phase i = .disabled := by
    intro i
    rw [GpioDev.phase_returned]
    split_ifs with hi
    · simp [GpioDev.done_of_mayAdvance hmay hi]
    · rfl
  have hout : ∀ i, GpioDev.out { s with irqs := t, phase := s.returned.phase } i = s.out i := by
    intro i
    unfold GpioDev.out
    simp only [hdisabled]
    rfl
  have hfate : ∀ i, s.ours i = true → Held i s.irqs t ∧ Fate i s.irqs t := fun i hi =>
    fate_advance h.sys (h.own i hi).pin (h.own i hi).action (h.own i hi).edge ht
  refine ⟨h.sys.advance ht, h.nodup, h.named, h.fresh, h.running, fun i hne => ?_, fun i hi => ?_⟩
  · have hne' : s.handling ≠ some i ∧ s.phase i ≠ .enter := by
      simpa [GpioDev.phase_returned] using hne
    obtain ⟨hours, hmem⟩ := h.phase i hne'.2
    refine ⟨hours, ?_⟩
    cases (hfate i hours).2 with
    | kept _ hevents _ => exact hevents.mpr hmem
    | started hmem' => exact hmem'
    | done htop => exact absurd (GpioDev.handling_eq_some.mpr ⟨htop, hours⟩) hne'.1
  · obtain ⟨hpin, haction, hedge, hdepth, honce, hidle⟩ := h.own i hi
    obtain ⟨⟨haction', hedge', hdepth'⟩, hcase⟩ := hfate i hi
    refine ⟨hpin, by rwa [haction'], by rwa [hedge'], by rw [hout, hdepth', hdepth], by rwa [hout], fun hmem henter => ?_⟩
    rw [hout]
    cases hcase with
    | kept htop hevents _ =>
      have hne : s.handling ≠ some i := fun hi => htop (GpioDev.handling_eq_some.mp hi).1
      simp only [GpioDev.phase_returned, if_neg hne] at henter
      exact hidle (hevents.mp hmem) henter
    | started _ hzero _ => rw [← hdepth, hzero]
    | done _ hnot _ => exact absurd hmem hnot

/-- `enable_irq` of an interrupt of the device, for which the device has come to `u` otherwise. -/
theorem DevInv.own_enabled (h : s.Own irq) (hirqs : u.irqs = s.irqs.enableIrq irq) (hone : s.out irq = 1) (hzero : u.out irq = 0) :
    u.Own irq := by
  obtain ⟨hpin, haction, hedge, hdepth, -, -⟩ := h
  refine ⟨hpin, ?_, ?_, ?_, by rw [hzero]; exact Nat.zero_le 1, fun _ _ => hzero⟩
  · rw [hirqs]
    exact Irqs.action_enableIrq haction
  · rw [hirqs, Irqs.edge_enableIrq, hedge]
  · rw [hirqs, Irqs.depth_enableIrq, hdepth, hone, hzero]

theorem DevInv.inv_enabled (h : DevInv s) (hours : s.ours irq = true) : Inv (s.irqs.enableIrq irq) :=
  have hpin := (h.own irq hours).pin
  h.sys.call hpin (Irqs.only_enableIrq hpin.le) Irqs.call_enableIrq (Irqs.ok_enableIrq (h.sys.ok irq hpin))

theorem GpioDev.mem_of_handling (hirq : s.handling = some irq) : irq ∈ events s.irqs.stack := by
  obtain ⟨stack, hstack⟩ := List.head?_eq_some_iff.mp (GpioDev.handling_eq_some.mp hirq).1
  rw [hstack]
  exact List.mem_cons_self

theorem DevInv.unique (h : DevInv s) {n m : GpioIsr} (hn : n ∈ s.nodes) (hm : m ∈ s.nodes) (hirq : n.irqNo = m.irqNo) : n = m :=
  List.inj_on_of_nodup_map h.nodup hn hm hirq

/-- The nodes of one interrupt are changed in what is not their names. -/
structure Retouched (p : GpioIsr → Bool) (f : GpioIsr → GpioIsr) (irq : Nat) (s u : GpioDev) : Prop where
  head : u.gpioIsrHead = atFirst p f s.gpioIsrHead
  adding : u.adding = s.adding
  picks : ∀ n ∈ s.gpioIsrHead, p n = true → n.irqNo = irq
  irqNo : ∀ n, (f n).irqNo = n.irqNo
  gpioNo : ∀ n, (f n).gpioNo = n.gpioNo

section Retouched

variable {p : GpioIsr → Bool} {f : GpioIsr → GpioIsr}

theorem Retouched.map (h : Retouched p f irq s u) {α : Type} {g : GpioIsr → α} (hg : ∀ n, g (f n) = g n) : u.nodes.map g = s.nodes.map g := by
  rw [GpioDev.nodes, GpioDev.nodes, List.map_append, List.map_append, h.head, h.adding, map_atFirst hg]

theorem Retouched.nodup (h : Retouched p f irq s u) (hinv : DevInv s) : (u.nodes.map GpioIsr.irqNo).Nodup := by
  rw [h.map h.irqNo]
  exact hinv.nodup

theorem Retouched.named (h : Retouched p f irq s u) (hinv : DevInv s) : ∀ n ∈ u.nodes, n.irqNo = gpioToIrq n.gpioNo := by
  intro n hn
  have hpair : (n.irqNo, n.gpioNo) ∈ s.nodes.map fun n => (n.irqNo, n.gpioNo) := by
    rw [← h.map (g := fun n => (n.irqNo, n.gpioNo)) fun n => by rw [h.irqNo, h.gpioNo]]
    exact List.mem_map_of_mem hn
  obtain ⟨m, hm, heq⟩ := List.mem_map.mp hpair
  obtain ⟨hirq, hgpio⟩ := Prod.mk.inj heq
  rw [← hirq, ← hgpio]
  exact hinv.named m hm

theorem Retouched.ours (h : Retouched p f irq s u) (i : Nat) : u.ours i = s.ours i := by
  rw [Bool.eq_iff_iff, GpioDev.ours_iff, GpioDev.ours_iff, h.map h.irqNo]

theorem Retouched.pend_iff (h : Retouched p f irq s u) (hinv : DevInv s) :
    u.pend i = true ↔ ∃ n ∈ s.gpioIsrHead, n.irqNo = i ∧ (if p n then f n else n).dwork.isSome = true := by
  have hnodup : (s.gpioIsrHead.map GpioIsr.irqNo).Nodup := by
    have hall := hinv.nodup
    rw [GpioDev.nodes, List.map_append] at hall
    exact hall.of_append_left
  rw [GpioDev.pend_iff, h.head, atFirst_eq_map hnodup h.picks]
  simp only [List.mem_map, exists_exists_and_eq_and]
  have hirqNo : ∀ n, (if p n then f n else n).irqNo = n.irqNo := by
    intro n
    split_ifs
    · exact h.irqNo n
    · rfl
  simp only [hirqNo]

theorem Retouched.pend (h : Retouched p f irq s u) (hinv : DevInv s) (hi : i ≠ irq) : u.pend i = s.pend i := by
  rw [Bool.eq_iff_iff, h.pend_iff hinv, GpioDev.pend_iff]
  have hnot : ∀ n ∈ s.gpioIsrHead, n.irqNo = i → ¬p n = true := fun n hn hirq hp => hi (hirq.symm.trans (h.picks n hn hp))
  constructor
  · rintro ⟨n, hn, hirq, hwork⟩
    rw [if_neg (hnot n hn hirq)] at hwork
    exact ⟨n, hn, hirq, hwork⟩
  · rintro ⟨n, hn, hirq, hwork⟩
    exact ⟨n, hn, hirq, by rwa [if_neg (hnot n hn hirq)]⟩

end Retouched

theorem retouched_schedule (s : GpioDev) (irq : Nat) :
    Retouched (fun n => n.irqNo == irq) (scheduleDelayedWork s.jiffies) irq s ((s.schedule irq).setPhase irq .done) :=
  ⟨rfl, rfl, fun n _ hn => by simpa using hn, irqNo_scheduleDelayedWork, gpioNo_scheduleDelayedWork⟩

theorem DevInv.pend_schedule (h : DevInv s) (hlisted : (s.gpioIsrHead.any fun n => n.irqNo == irq) = true) :
    ((s.schedule irq).setPhase irq .done).pend irq = true := by
  obtain ⟨n, hn, hirq⟩ := List.any_eq_true.mp hlisted
  refine ((retouched_schedule s irq).pend_iff h).mpr ⟨n, hn, by simpa using hirq, ?_⟩
  rw [if_pos hirq, scheduleDelayedWork]
  split_ifs with hwork
  · rfl
  · exact Option.isSome_iff_ne_none.mpr hwork

theorem retouched_work (s : GpioDev) (n : GpioIsr) (val : Bool) :
    Retouched (fun m => m == n) (fun m => { m with dwork := none, irqFlag := m.irqFlag || GpioDev.flag m val }) n.irqNo s
      (s.delayedWorkHandle n val) := ⟨rfl, rfl, fun m _ hm => by rw [eq_of_beq hm], fun _ => rfl, fun _ => rfl⟩

theorem DevInv.pend_work (h : DevInv s) {n : GpioIsr} (val : Bool) (hn : n ∈ s.gpioIsrHead) :
    (s.delayedWorkHandle n val).pend n.irqNo = false := by
  rw [← Bool.not_eq_true, (retouched_work s n val).pend_iff h]
  rintro ⟨m, hm, hirq, hwork⟩
  rw [h.unique (List.mem_append_left _ hm) (List.mem_append_left _ hn) hirq, if_pos (beq_self_eq_true n)] at hwork
  exact Bool.noConfusion hwork

theorem DevInv.retouched_info (h : DevInv s) (gpioNo : Nat) :
    Retouched (fun n => n.gpioNo == gpioNo) (fun n => { n with irqFlag := false }) (gpioToIrq gpioNo) s (s.getIsrInfo gpioNo).1 := by
  refine ⟨rfl, rfl, fun n hn hgpio => ?_, fun _ => rfl, fun _ => rfl⟩
  rw [h.named n (List.mem_append_left _ hn), eq_of_beq hgpio]

theorem DevInv.pend_info (h : DevInv s) (gpioNo i : Nat) : (s.getIsrInfo gpioNo).1.pend i = s.pend i := by
  rw [Bool.eq_iff_iff, (h.retouched_info gpioNo).pend_iff h, GpioDev.pend_iff]
  refine exists_congr fun n => and_congr_right fun _ => and_congr_right fun _ => ?_
  split_ifs <;> rfl

theorem GpioDev.pend_release {n : GpioIsr} {irqs : Irqs} (hn : n ∈ s.gpioIsrHead) (hi : i ≠ n.irqNo) :
    GpioDev.pend { s with irqs, gpioIsrHead := s.gpioIsrHead.erase n } i = s.pend i := by
  rw [Bool.eq_iff_iff, GpioDev.pend_iff, GpioDev.pend_iff]
  simp only [(List.perm_cons_erase hn).mem_iff, List.mem_cons, exists_eq_or_imp, Ne.symm hi, false_and, false_or]

/-- The handler of the device runs. -/
theorem DevInv.handle (h : DevInv s) (hirq : s.handling = some irq) : DevInv (s.gpioIsrHandle irq) := by
  have hours := (GpioDev.handling_eq_some.mp hirq).2
  have hown := h.own irq hours
  have hmem := GpioDev.mem_of_handling hirq
  unfold GpioDev.gpioIsrHandle
  split
  · next hphase =>
    have hzero := hown.idle hmem hphase
    have hout : GpioDev.out ({ s with irqs := s.irqs.disableIrqNosync irq }.setPhase irq .disabled) irq = 1 := by
      unfold GpioDev.out GpioDev.setPhase at *
      simp_all [GpioDev.pend]
    refine h.update irq ?_ (Irqs.only_setDesc _ _) rfl h.nodup h.named h.fresh ?_ (h.running irq) (fun _ => ⟨hours, hmem⟩) fun _ => ?_
    · exact h.sys.call hown.pin (Irqs.only_setDesc _ _) Irqs.call_disableIrqNosync (Irqs.ok_disableIrqNosync (h.sys.ok irq hown.pin))
    · exact fun i hi => ⟨rfl, Function.update_of_ne hi _ _, rfl, Iff.rfl⟩
    · refine ⟨hown.pin, ?_, ?_, ?_, hout.le, fun _ henter => ?_⟩
      · simpa [GpioDev.setPhase, Irqs.disableIrqNosync] using hown.action
      · simpa [GpioDev.setPhase, Irqs.disableIrqNosync] using hown.edge
      · rw [hout]
        simp [GpioDev.setPhase, Irqs.disableIrqNosync, hown.depth, hzero]
      · simp at henter
  · next hphase =>
    -- the handler has disabled the interrupt, and nothing else has
    obtain ⟨hone, hpend, hrun⟩ : s.out irq = 1 ∧ s.pend irq = false ∧ s.running ≠ some irq := by
      have honce := hown.once
      unfold GpioDev.out at honce ⊢
      rw [if_pos hphase] at honce ⊢
      cases hp : s.pend irq with
      | true => rw [hp, Bool.toNat_true] at honce; omega
      | false =>
        rw [hp, Bool.toNat_false] at honce
        split_ifs at honce with hr
        · omega
        · exact ⟨by rw [Bool.toNat_false, if_neg hr], rfl, hr⟩
    split_ifs with hlisted
    · have hr := retouched_schedule s irq
      have hpend' := h.pend_schedule hlisted
      have hout : ((s.schedule irq).setPhase irq .done).out irq = 1 := by
        rw [GpioDev.out_eq ((s.schedule irq).setPhase irq .done) irq (by simp) hrun, hpend', Bool.toNat_true]
      refine h.update irq h.sys Irqs.Only.refl rfl (hr.nodup h) (hr.named h) h.fresh ?_ (fun hr => absurd hr hrun)
        (fun _ => ⟨(hr.ours irq).trans hours, hmem⟩) fun _ => ?_
      · exact fun i hi => ⟨hr.ours i, Function.update_of_ne hi _ _, hr.pend h hi, Iff.rfl⟩
      · refine ⟨hown.pin, hown.action, hown.edge, by rw [hout]; exact hown.depth.trans hone, hout.le, fun _ henter => ?_⟩
        simp at henter
    · have hout : GpioDev.out ({ s with irqs := s.irqs.enableIrq irq }.setPhase irq .done) irq = 0 :=
        (GpioDev.out_eq (GpioDev.setPhase { s with irqs := s.irqs.enableIrq irq } irq .done) irq (by simp) hrun).trans (congrArg Bool.toNat hpend)
      refine h.update irq (h.inv_enabled hours) (Irqs.only_enableIrq hown.pin.le) Irqs.call_enableIrq.stack h.nodup h.named h.fresh ?_
        (h.running irq) (fun _ => ⟨hours, hmem⟩) fun _ => DevInv.own_enabled hown rfl hone hout
      exact fun i hi => ⟨rfl, Function.update_of_ne hi _ _, rfl, Iff.rfl⟩
  · exact h

/-- The work of a pin is called. -/
theorem DevInv.work (h : DevInv s) {n : GpioIsr} (val : Bool) (hstack : s.irqs.stack = []) (hidle : s.running = none) (hn : n ∈ s.gpioIsrHead)
    (hdue : n.dwork.any (· ≤ s.jiffies) = true) : DevInv (s.delayedWorkHandle n val) := by
  have hnode : n ∈ s.nodes := List.mem_append_left _ hn
  have hours : s.ours n.irqNo = true := GpioDev.ours_iff.mpr (List.mem_map_of_mem hnode)
  have hown := h.own _ hours
  have hr := retouched_work s n val
  have hpend : s.pend n.irqNo = true := by
    refine GpioDev.pend_iff.mpr ⟨n, hn, rfl, ?_⟩
    obtain ⟨t, ht, -⟩ := (Option.any_eq_true _ _).mp hdue
    rw [ht]
    rfl
  have hpend' := h.pend_work val hn
  have hphase := h.phase_enter hstack n.irqNo
  have hout : (s.delayedWorkHandle n val).out n.irqNo = s.out n.irqNo := by
    rw [GpioDev.out_eq s n.irqNo (by rw [hphase]; decide) (by rw [hidle]; simp), hpend, GpioDev.out, hpend']
    simp [GpioDev.delayedWorkHandle, hphase]
  refine h.update n.irqNo h.sys Irqs.Only.refl rfl (hr.nodup h) (hr.named h) h.fresh ?_ (fun _ => (hr.ours _).trans hours)
    (fun hne => absurd hphase hne) fun _ => hown.of_same rfl rfl rfl hout
  intro i hi
  exact ⟨hr.ours i, rfl, hr.pend h hi, by simp [GpioDev.delayedWorkHandle, hidle, Ne.symm hi]⟩

/-- The interrupt is enabled after its pin was read. -/
theorem DevInv.enable (h : DevInv s) (hstack : s.irqs.stack = []) (hrunning : s.running = some irq) :
    DevInv { s with irqs := s.irqs.enableIrq irq, running := none } := by
  have hours := h.running irq hrunning
  have hown := h.own irq hours
  have hphase := h.phase_enter hstack irq
  have hpend : s.out irq = 1 ∧ s.pend irq = false := by
    have honce := hown.once
    unfold GpioDev.out at honce ⊢
    rw [if_pos hrunning, hphase, if_neg (by decide)] at honce ⊢
    cases hp : s.pend irq with
    | true => rw [hp, Bool.toNat_true] at honce; omega
    | false => exact ⟨rfl, rfl⟩
  have hout : GpioDev.out { s with irqs := s.irqs.enableIrq irq, running := none } irq = 0 :=
    (GpioDev.out_eq { s with irqs := s.irqs.enableIrq irq, running := none } irq (by rw [hphase]; decide) (by simp)).trans
      (congrArg Bool.toNat hpend.2)
  refine h.update irq (h.inv_enabled hours) (Irqs.only_enableIrq hown.pin.le) Irqs.call_enableIrq.stack h.nodup h.named h.fresh ?_
    (fun _ => hours) (fun hne => absurd hphase hne) fun _ => DevInv.own_enabled hown rfl hpend.1 hout
  exact fun i hi => ⟨rfl, rfl, rfl, by simp [hrunning, Ne.symm hi]⟩

/-- The pin is requested. -/
theorem DevInv.request (h : DevInv s) {gpioNo : Nat} (irqType : IrqType) (hstack : s.irqs.stack = []) (hpin : IsPin (gpioToIrq gpioNo))
    (haction : (s.irqs.desc (gpioToIrq gpioNo)).action = none) : DevInv (s.requestIsr gpioNo irqType) := by
  have hnot : gpioToIrq gpioNo ∉ s.nodes.map GpioIsr.irqNo := fun hmem => (h.own _ (GpioDev.ours_iff.mpr hmem)).action haction
  have hperm : (s.requestIsr gpioNo irqType).nodes.Perm (⟨irqType, gpioNo, gpioToIrq gpioNo, false, none⟩ :: s.nodes) := List.perm_middle
  have hours : ∀ i, (s.requestIsr gpioNo irqType).ours i = true ↔ i = gpioToIrq gpioNo ∨ s.ours i = true := by
    intro i
    rw [GpioDev.ours_iff, GpioDev.ours_iff, (hperm.map _).mem_iff, List.map_cons, List.mem_cons]
  have hphase := h.phase_enter hstack (gpioToIrq gpioNo)
  have hdesc : (s.requestIsr gpioNo irqType).irqs.desc (gpioToIrq gpioNo) =
      { s.irqs.desc (gpioToIrq gpioNo) with
        action := some ⟨false⟩, edge := true, inProgress := false, depth := 0, disabled := false, masked := false } := by
    simp [GpioDev.requestIsr, Irqs.setupIrq, haction, Irqs.defaultEnable]
  have hout : (s.requestIsr gpioNo irqType).out (gpioToIrq gpioNo) = 0 := by
    rw [GpioDev.out_eq _ _ (by rw [show (s.requestIsr gpioNo irqType).phase = s.phase from rfl, hphase]; decide)]
    · have hpend : s.pend (gpioToIrq gpioNo) = false := by
        rw [← Bool.not_eq_true, GpioDev.pend_iff]
        rintro ⟨n, hn, hirq, -⟩
        exact hnot (List.mem_map.mpr ⟨n, List.mem_append_left _ hn, hirq⟩)
      exact congrArg Bool.toNat hpend
    · exact fun hrun => hnot (GpioDev.ours_iff.mp (h.running _ hrun))
  have hcall := Irqs.call_setupIrq (h.sys.idle hstack hpin) true ⟨false⟩
  refine h.update (gpioToIrq gpioNo) ?_ (Irqs.only_setupIrq hpin.le _ _) hcall.stack ?_ ?_ ?_ ?_ (fun _ => (hours _).mpr (.inl rfl))
    (fun hne => absurd hphase hne) fun _ => ⟨hpin, ?_, ?_, ?_, by rw [hout]; exact Nat.zero_le 1, fun _ _ => hout⟩
  · exact h.sys.call hpin (Irqs.only_setupIrq hpin.le _ _) hcall (Irqs.ok_setupIrq (h.sys.ok _ hpin) _ _)
  · rw [(hperm.map _).nodup_iff, List.map_cons]
    exact List.nodup_cons.mpr ⟨hnot, h.nodup⟩
  · intro n hn
    rcases List.mem_cons.mp (hperm.mem_iff.mp hn) with rfl | hn
    · rfl
    · exact h.named n hn
  · intro n hn
    rcases List.mem_cons.mp hn with rfl | hn
    · rfl
    · exact h.fresh n hn
  · intro i hi
    refine ⟨?_, rfl, rfl, Iff.rfl⟩
    rw [Bool.eq_iff_iff, hours]
    exact or_iff_right hi
  · rw [hdesc]
    exact Option.some_ne_none _
  · rw [hdesc]
  · rw [hdesc, hout]

theorem DevInv.add (h : DevInv s) {n : GpioIsr} (hn : n ∈ s.adding) : DevInv (s.addIsr n) := by
  have hperm : (s.addIsr n).nodes.Perm s.nodes := by
    have herase := (List.perm_cons_erase hn).symm.append_left s.gpioIsrHead
    rwa [List.append_cons] at herase
  have hours : ∀ i, (s.addIsr n).ours i = s.ours i := by
    intro i
    rw [Bool.eq_iff_iff, GpioDev.ours_iff, GpioDev.ours_iff, (hperm.map _).mem_iff]
  have hpend : ∀ i, (s.addIsr n).pend i = s.pend i := by
    intro i
    simp [GpioDev.pend, GpioDev.addIsr, h.fresh n hn]
  refine h.update n.irqNo h.sys Irqs.Only.refl rfl (((hperm.map _).nodup_iff).mpr h.nodup) (fun m hm => h.named m (hperm.mem_iff.mp hm))
    (fun m hm => h.fresh m (List.mem_of_mem_erase hm)) (fun i _ => ⟨hours i, rfl, hpend i, Iff.rfl⟩)
    (fun hrun => (hours _).trans (h.running _ hrun)) (fun hne => ⟨(hours _).trans (h.phase _ hne).1, (h.phase _ hne).2⟩) fun hi => ?_
  rw [hours] at hi
  refine (h.own _ hi).of_same rfl rfl rfl ?_
  rw [GpioDev.out, GpioDev.out, hpend]
  rfl

theorem DevInv.release (h : DevInv s) {gpioNo : Nat} (hstack : s.irqs.stack = [])
    (hcareful : ∀ n ∈ s.gpioIsrHead, n.gpioNo = gpioNo → n.dwork = none ∧ s.running ≠ some n.irqNo) : DevInv (s.releaseIsr gpioNo) := by
  unfold GpioDev.releaseIsr
  split
  · next n hfind =>
    have hn := List.mem_of_find?_eq_some hfind
    have hown := h.own n.irqNo (GpioDev.ours_iff.mpr (List.mem_map_of_mem (List.mem_append_left _ hn)))
    obtain ⟨-, hrun⟩ := hcareful n hn (by simpa using List.find?_some hfind)
    have hperm : s.nodes.Perm (n :: (s.gpioIsrHead.erase n ++ s.adding)) := (List.perm_cons_erase hn).append_right s.adding
    have hnodup := ((hperm.map GpioIsr.irqNo).nodup_iff).mp h.nodup
    rw [List.map_cons, List.nodup_cons] at hnodup
    have hnot : GpioDev.ours { s with irqs := s.irqs.freeIrq n.irqNo, gpioIsrHead := s.gpioIsrHead.erase n } n.irqNo ≠ true :=
      fun hours => hnodup.1 (GpioDev.ours_iff.mp hours)
    have hcall := Irqs.call_freeIrq (i := n.irqNo) hstack
    refine h.update n.irqNo (h.sys.call hown.pin (Irqs.only_freeIrq _) hcall (Irqs.ok_freeIrq (h.sys.ok _ hown.pin))) (Irqs.only_freeIrq _)
      hcall.stack hnodup.2 (fun m hm => h.named m (hperm.mem_iff.mpr (List.mem_cons_of_mem _ hm))) h.fresh (fun i hi => ⟨?_, rfl, GpioDev.pend_release hn hi, Iff.rfl⟩)
      (fun hrun' => absurd hrun' hrun) (fun hne => absurd (h.phase_enter hstack _) hne) fun hours => absurd hours hnot
    rw [Bool.eq_iff_iff, GpioDev.ours_iff, GpioDev.ours_iff, (hperm.map _).mem_iff, List.map_cons, List.mem_cons]
    exact (or_iff_right hi).symm
  · exact h

theorem DevInv.info (h : DevInv s) (gpioNo : Nat) : DevInv (s.getIsrInfo gpioNo).1 := by
  have hr := h.retouched_info gpioNo
  have hpend := h.pend_info gpioNo
  refine h.update (gpioToIrq gpioNo) h.sys Irqs.Only.refl rfl (hr.nodup h) (hr.named h) h.fresh (fun i _ => ⟨hr.ours i, rfl, hpend i, Iff.rfl⟩)
    (fun hrun => (hr.ours _).trans (h.running _ hrun)) (fun hne => ⟨(hr.ours _).trans (h.phase _ hne).1, (h.phase _ hne).2⟩) fun hi => ?_
  rw [hr.ours] at hi
  refine (h.own _ hi).of_same rfl rfl rfl ?_
  rw [GpioDev.out, GpioDev.out, hpend]
  rfl

theorem DevInv.step {a : DevAct} (h : DevInv s) (hcareful : Careful s a) (hu : devStep s a = some u) : DevInv u := by
  unfold devStep at hu
  split at hu
  · next a =>
    unfold sysStep at hu
    split at hu
    · next irq =>
      obtain ⟨t, ht, rfl⟩ := Option.map_eq_some_iff.mp hu
      exact h.calm (by simp) rfl ht
    · split_ifs at hu with hmay
      obtain ⟨t, ht, rfl⟩ := Option.map_eq_some_iff.mp hu
      exact h.advance hmay ht
    · next hedge hadvance =>
      split_ifs at hu with hcalls
      obtain ⟨t, ht, rfl⟩ := Option.map_eq_some_iff.mp hu
      exact h.calm hadvance (by simpa using hcalls) ht
  · cases hu
    exact ⟨h.sys, h.nodup, h.named, h.fresh, h.running, h.phase, fun i hi => (h.own i hi).of_same rfl rfl rfl rfl⟩
  · obtain ⟨irq, hirq, rfl⟩ := Option.map_eq_some_iff.mp hu
    exact h.handle hirq
  · split_ifs at hu with hwork
    cases hu
    exact h.work _ hwork.1 hwork.2.1 hwork.2.2.1 hwork.2.2.2
  · split_ifs at hu with hstack
    obtain ⟨irq, hirq, rfl⟩ := Option.map_eq_some_iff.mp hu
    exact h.enable hstack hirq
  · split_ifs at hu with hrequest
    cases hu
    exact h.request _ hrequest.1 hrequest.2.1 hrequest.2.2
  · split_ifs at hu with hadd
    cases hu
    exact h.add hadd.2
  · split_ifs at hu with hstack
    cases hu
    exact h.release hstack hcareful
  · split_ifs at hu
    cases hu
    exact h.info _

end Steps

/-- The device is there, and no pin was asked for. -/
theorem devInv_start {irqs : Irqs} (h : Inv irqs) : DevInv (devStart irqs) := by
  refine ⟨h, List.nodup_nil, ?_, ?_, ?_, ?_, ?_⟩
  · exact fun n hn => absurd hn List.not_mem_nil
  · exact fun n hn => absurd hn List.not_mem_nil
  · exact fun i hi => absurd hi (Option.some_ne_none i).symm
  · exact fun i hi => absurd rfl hi
  · exact fun i hi => absurd hi Bool.false_ne_true

/-! ## Every order of steps -/

section Runs

variable {irqs : Irqs} {s : GpioDev} {n : GpioIsr}

theorem devInv_of_run (hirqs : Run step free start irqs) (h : Run devStep Careful (devStart irqs) s) : DevInv s :=
  h.invariant (devInv_start (inv_of_run hirqs)) fun _ _ _ hinv hcareful hu => hinv.step hcareful hu

theorem DevInv.pend_eq (h : DevInv s) (hn : n ∈ s.gpioIsrHead) : s.pend n.irqNo = n.dwork.isSome := by
  rw [Bool.eq_iff_iff, GpioDev.pend_iff]
  constructor
  · rintro ⟨m, hm, hirq, hwork⟩
    rwa [← h.unique (List.mem_append_left _ hm) (List.mem_append_left _ hn) hirq]
  · exact fun hwork => ⟨n, hn, rfl, hwork⟩

end Runs

end Emlinux.Gpio
