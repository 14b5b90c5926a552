import Emlinux.Gpio.Line

/-!
# Edges are kept

Handlers are interrupted by the flow handlers of other pins, and of their own. Through all of it no edge is lost: an edge whose handler was not
started since is pending in a port, or marked in the descriptor, or among what is resent; and when the processor is done, the handlers of all
interrupts that are not disabled have been started for the edges that came.

* `events`: the interrupts whose handlers run, one on top of the other.
* `Inv`: what holds in every state that is reached, `Inv.step`.
* `edges_kept`, `disabled_silent`: for an interrupt and every order of steps.
-/

namespace Emlinux.Gpio

open Lib

def Frame.irq : Frame → Option Nat
  | .event irq => some irq
  | .isr _ _ _ | .resend => none

/-- The handlers that run. -/
def events (stack : List Frame) : List Nat := stack.filterMap Frame.irq

@[simp] theorem events_event (irq : Nat) (stack : List Frame) : events (.event irq :: stack) = irq :: events stack := rfl

@[simp] theorem events_isr (port pin : Nat) (isr : Word) (stack : List Frame) : events (.isr port pin isr :: stack) = events stack := rfl

@[simp] theorem events_resend (stack : List Frame) : events (.resend :: stack) = events stack := rfl

theorem mem_events {stack : List Frame} {irq : Nat} : irq ∈ events stack ↔ .event irq ∈ stack := by
  unfold events
  rw [List.mem_filterMap]
  constructor
  · rintro ⟨frame, hmem, hirq⟩
    cases frame with
    | event irq' =>
      cases hirq
      exact hmem
    | isr => cases hirq
    | resend => cases hirq
  · exact fun hmem => ⟨_, hmem, rfl⟩

namespace Irqs

variable {s u : Irqs} {i : Nat}

/-! ## What the flow handlers do to the stack -/

/-- The handler of `i` is started on top of the stack, or not, and what is not of `i` or the stack is left. -/
structure Flow (i : Nat) (s u : Irqs) : Prop where
  action : (u.desc i).action = (s.desc i).action
  disabled : (u.desc i).disabled = (s.desc i).disabled
  depth : (u.desc i).depth = (s.desc i).depth
  irqsResend : u.irqsResend = s.irqsResend
  tasklet : u.tasklet = s.tasklet
  started : u.stack = s.stack ∧ (u.desc i).inProgress = (s.desc i).inProgress ∨
    u.stack = .event i :: s.stack ∧ (s.desc i).inProgress = false ∧ (u.desc i).inProgress = true ∧ (s.desc i).action ≠ none ∧
      (s.desc i).disabled = false

theorem flow_handleLevelIrq : Flow i s (s.handleLevelIrq i) := by
  unfold handleLevelIrq maskAckIrq
  dsimp only
  split_ifs with hprog hquiet
  · exact ⟨rfl, rfl, rfl, rfl, rfl, .inl ⟨rfl, rfl⟩⟩
  · exact ⟨by simp, by simp, by simp, rfl, rfl, .inl ⟨rfl, by simp⟩⟩
  · refine ⟨by simp, by simp, by simp, rfl, rfl, .inr ⟨rfl, ?_, by simp, ?_, ?_⟩⟩ <;> simp_all

/-- The loop of `handle_edge_irq` starts the handler, if there is one. -/
structure Starts (i : Nat) (s u : Irqs) : Prop where
  action : (u.desc i).action = (s.desc i).action
  disabled : (u.desc i).disabled = (s.desc i).disabled
  depth : (u.desc i).depth = (s.desc i).depth
  irqsResend : u.irqsResend = s.irqsResend
  tasklet : u.tasklet = s.tasklet
  stack : u.stack = .event i :: s.stack
  inProgress : (u.desc i).inProgress = (s.desc i).inProgress

theorem starts_edgeLoop (haction : (s.desc i).action ≠ none) : Starts i s (s.edgeLoop i) := by
  unfold edgeLoop
  dsimp only
  rw [if_neg haction]
  split_ifs
  · exact ⟨by simp, by simp, by simp, rfl, rfl, rfl, by simp⟩
  · exact ⟨by simp, by simp, by simp, rfl, rfl, rfl, by simp⟩

theorem flow_handleEdgeIrq : Flow i s (s.handleEdgeIrq i) := by
  unfold handleEdgeIrq maskAckIrq
  dsimp only
  split_ifs with hbusy
  · exact ⟨by simp, by simp, by simp, rfl, rfl, .inl ⟨rfl, by simp⟩⟩
  · simp only [desc_setDesc, not_or, Bool.not_eq_true] at hbusy
    obtain ⟨hprog, hdis, haction⟩ := hbusy
    have h := starts_edgeLoop (i := i)
      (s := ((s.setDesc i { s.desc i with replay := false }).gpioAckIrq i).setDesc i { s.desc i with replay := false, inProgress := true })
      (by simpa using haction)
    simp only [desc_gpioAckIrq, desc_setDesc]
    exact ⟨h.action.trans (by simp), h.disabled.trans (by simp), h.depth.trans (by simp), h.irqsResend, h.tasklet,
      .inr ⟨h.stack, hprog, h.inProgress.trans (by simp), haction, hdis⟩⟩

theorem flow_handleIrq : Flow i s (s.handleIrq i) := by
  unfold handleIrq
  split_ifs
  · exact flow_handleEdgeIrq
  · exact flow_handleLevelIrq

/-- Back from the handler, the flow handler starts it again, or is done. -/
structure Back (i : Nat) (s u : Irqs) : Prop where
  action : (u.desc i).action = (s.desc i).action
  disabled : (u.desc i).disabled = (s.desc i).disabled
  depth : (u.desc i).depth = (s.desc i).depth
  irqsResend : u.irqsResend = s.irqsResend
  tasklet : u.tasklet = s.tasklet
  again : u.stack = .event i :: s.stack ∧ (u.desc i).inProgress = (s.desc i).inProgress ∨
    u.stack = s.stack ∧ (u.desc i).inProgress = false

theorem back_handled (haction : (s.desc i).action ≠ none) : Back i s (s.handled i) := by
  unfold handled
  dsimp only
  split_ifs
  · have h := starts_edgeLoop haction
    exact ⟨h.action, h.disabled, h.depth, h.irqsResend, h.tasklet, .inl ⟨h.stack, h.inProgress⟩⟩
  · exact ⟨by simp, by simp, by simp, rfl, rfl, .inr ⟨rfl, by simp⟩⟩
  · exact ⟨by simp, by simp, by simp, rfl, rfl, .inr ⟨rfl, by simp⟩⟩
  · exact ⟨by simp, by simp, by simp, rfl, rfl, .inr ⟨rfl, by simp⟩⟩

/-- A call of a driver leaves the handlers alone, and what it has resent is scheduled. -/
structure Call (i : Nat) (s u : Irqs) : Prop where
  stack : u.stack = s.stack
  inProgress : (u.desc i).inProgress = (s.desc i).inProgress
  action : (s.desc i).action ≠ none → s.stack = [] ∨ (u.desc i).action ≠ none
  depth : ((s.desc i).action ≠ none → ((s.desc i).disabled = true ↔ (s.desc i).depth ≠ 0)) →
    (u.desc i).action ≠ none → ((u.desc i).disabled = true ↔ (u.desc i).depth ≠ 0)
  resend : ∀ j, u.irqsResend j = true → s.irqsResend j = true ∨ j = i ∧ u.tasklet = true
  tasklet : s.tasklet = true → u.tasklet = true

theorem call_disableIrqNosync : Call i s (s.disableIrqNosync i) := by
  refine ⟨rfl, by simp [disableIrqNosync], fun h => .inr (by simpa [disableIrqNosync] using h), ?_, fun _ h => .inl h, id⟩
  intro h haction
  simp only [disableIrqNosync, desc_setDesc] at haction ⊢
  have hdepth := h haction
  by_cases hzero : (s.desc i).depth = 0
  · simp [hzero]
  · simp [hdepth.mpr hzero]

theorem call_enableIrq : Call i s (s.enableIrq i) := by
  unfold enableIrq checkIrqResend defaultEnable
  split
  · exact ⟨rfl, rfl, fun h => .inr h, id, fun _ h => .inl h, id⟩
  · next hdepth =>
    dsimp only
    split_ifs
    · refine ⟨rfl, by simp, fun h => .inr (by simpa using h), by simp, ?_, fun _ => rfl⟩
      intro j hj
      by_cases hji : j = i
      · exact .inr ⟨hji, rfl⟩
      · left
        rwa [← Function.update_of_ne hji true s.irqsResend]
    · exact ⟨rfl, by simp, fun h => .inr (by simpa using h), by simp, fun _ h => .inl h, id⟩
  · next depth hdepth =>
    refine ⟨rfl, by simp, fun h => .inr (by simpa using h), ?_, fun _ h => .inl h, id⟩
    intro h haction
    simpa [hdepth] using h (by simpa using haction)

theorem action_enableIrq (h : (s.desc i).action ≠ none) : ((s.enableIrq i).desc i).action ≠ none := by
  unfold enableIrq checkIrqResend defaultEnable
  dsimp only
  split
  · exact h
  · split_ifs <;> simpa using h
  · simpa using h

theorem call_setupIrq (hidle : (s.desc i).inProgress = false) (edge : Bool) (new : Action) : Call i s (s.setupIrq i edge new) := by
  unfold setupIrq defaultEnable
  dsimp only
  split_ifs
  · exact ⟨rfl, by simp [hidle], fun _ => .inr (by simp), by simp, fun _ h => .inl h, id⟩
  · exact ⟨rfl, rfl, fun h => .inr h, id, fun _ h => .inl h, id⟩

theorem call_freeIrq (hstack : s.stack = []) : Call i s (s.freeIrq i) := by
  unfold freeIrq
  split_ifs
  · exact ⟨rfl, rfl, fun h => .inr h, id, fun _ h => .inl h, id⟩
  · exact ⟨rfl, by simp, fun _ => .inl hstack, by simp, fun _ h => .inl h, id⟩

end Irqs

/-! ## What holds in every state -/

/-- The handlers that run are of different pins, those in progress, and what is to be resent will be. -/
structure Shape (s : Irqs) : Prop where
  depth : ∀ i, IsPin i → (s.desc i).action ≠ none → ((s.desc i).disabled = true ↔ (s.desc i).depth ≠ 0)
  nodup : (events s.stack).Nodup
  mem : ∀ i, IsPin i → (i ∈ events s.stack ↔ (s.desc i).inProgress = true)
  running : ∀ i ∈ events s.stack, IsPin i ∧ (s.desc i).action ≠ none
  scans : ∀ port pin isr, .isr port pin isr ∈ s.stack → port < 6 ∧ isr.toNat < 2 ^ (32 - pin)
  resend : ∀ i, s.irqsResend i = true → IsPin i ∧ (s.tasklet = true ∨ .resend ∈ s.stack)

structure Inv (s : Irqs) : Prop extends Shape s where
  ok : ∀ i, IsPin i → (s.line i).Ok

section Steps

variable {s u : Irqs} {i : Nat}

theorem IsPin.le (hi : IsPin i) : intcIrqs ≤ i := hi.1

/-- What becomes of the handler of `i`. -/
inductive Runs (i : Nat) (s u : Irqs) : Prop
  | same (hstack : u.stack = s.stack) (hprog : (u.desc i).inProgress = (s.desc i).inProgress)
  | push (hstack : u.stack = .event i :: s.stack) (hidle : (s.desc i).inProgress = false) (hprog : (u.desc i).inProgress = true)
  | pop (hstack : s.stack = .event i :: u.stack) (hdone : (u.desc i).inProgress = false)

theorem Shape.only (h : Shape s) (hi : IsPin i) (ho : Irqs.Only i s u) (hruns : Runs i s u)
    (hdepth : (u.desc i).action ≠ none → ((u.desc i).disabled = true ↔ (u.desc i).depth ≠ 0))
    (haction : i ∈ events u.stack → (u.desc i).action ≠ none)
    (hresend : ∀ j, u.irqsResend j = true → IsPin j ∧ (u.tasklet = true ∨ .resend ∈ u.stack)) : Shape u := by
  have hdesc : ∀ j, IsPin j → j ≠ i → u.desc j = s.desc j := fun j hj hne => congrArg Line.desc (ho j hj.le hne)
  have hdepths : ∀ j, IsPin j → (u.desc j).action ≠ none → ((u.desc j).disabled = true ↔ (u.desc j).depth ≠ 0) := by
    intro j hj
    by_cases hji : j = i
    · rw [hji]
      exact hdepth
    · rw [hdesc j hj hji]
      exact h.depth j hj
  have hrunning : (∀ j ∈ events u.stack, j ≠ i → j ∈ events s.stack) → ∀ j ∈ events u.stack, IsPin j ∧ (u.desc j).action ≠ none := by
    intro hsub j hj
    by_cases hji : j = i
    · rw [hji] at hj ⊢
      exact ⟨hi, haction hj⟩
    · obtain ⟨hpin, hact⟩ := h.running j (hsub j hj hji)
      rw [hdesc j hpin hji]
      exact ⟨hpin, hact⟩
  cases hruns with
  | same hstack hprog =>
    rw [hstack] at hrunning
    refine ⟨hdepths, by rw [hstack]; exact h.nodup, ?_, by rw [hstack]; exact hrunning fun j hj _ => hj,
      by rw [hstack]; exact h.scans, hresend⟩
    intro j hj
    rw [hstack, h.mem j hj]
    by_cases hji : j = i
    · rw [hji, hprog]
    · rw [hdesc j hj hji]
  | push hstack hidle hprog =>
    have hfresh : i ∉ events s.stack := by
      rw [h.mem i hi, hidle]
      exact Bool.false_ne_true
    rw [hstack, events_event] at hrunning
    refine ⟨hdepths, by rw [hstack]; exact List.nodup_cons.mpr ⟨hfresh, h.nodup⟩, ?_,
      by rw [hstack]; exact hrunning fun j hj hji => (List.mem_cons.mp hj).resolve_left hji, ?_, hresend⟩
    · intro j hj
      rw [hstack, events_event, List.mem_cons]
      by_cases hji : j = i
      · simp [hji, hprog]
      · rw [h.mem j hj, hdesc j hj hji]
        simp [hji]
    · intro port pin isr hmem
      rw [hstack] at hmem
      exact h.scans port pin isr (by simpa using hmem)
  | pop hstack hdone =>
    have hnodup := h.nodup
    rw [hstack, events_event, List.nodup_cons] at hnodup
    refine ⟨hdepths, hnodup.2, ?_, hrunning ?_, ?_, hresend⟩
    · intro j hj
      by_cases hji : j = i
      · rw [hji, hdone]
        simp [hnodup.1]
      · rw [hdesc j hj hji, ← h.mem j hj, hstack]
        simp [hji]
    · intro j hj _
      rw [hstack]
      exact List.mem_cons_of_mem _ hj
    · intro port pin isr hmem
      exact h.scans port pin isr (by rw [hstack]; exact List.mem_cons_of_mem _ hmem)

/-- A flow handler is called. -/
theorem Shape.handleIrq (h : Shape s) (hi : IsPin i) : Shape (s.handleIrq i) := by
  have hf := Irqs.flow_handleIrq (s := s) (i := i)
  have hdepth : ((s.handleIrq i).desc i).action ≠ none →
      (((s.handleIrq i).desc i).disabled = true ↔ ((s.handleIrq i).desc i).depth ≠ 0) := by
    rw [hf.action, hf.disabled, hf.depth]
    exact h.depth i hi
  rcases hf.started with ⟨hstack, hprog⟩ | ⟨hstack, hidle, hprog, haction, -⟩
  · refine h.only hi (Irqs.only_handleIrq hi.le) (.same hstack hprog) hdepth ?_ ?_
    · rw [hf.action, hstack]
      exact fun hmem => (h.running i hmem).2
    · rw [hf.irqsResend, hf.tasklet, hstack]
      exact h.resend
  · refine h.only hi (Irqs.only_handleIrq hi.le) (.push hstack hidle hprog) hdepth ?_ ?_
    · rw [hf.action]
      exact fun _ => haction
    · rw [hf.irqsResend, hf.tasklet, hstack]
      intro j hj
      obtain ⟨hpin, hres⟩ := h.resend j hj
      exact ⟨hpin, hres.imp_right (List.mem_cons_of_mem _)⟩

theorem Inv.handleIrq (h : Shape s) (hi : IsPin i) (hline : (s.line i).Masking) (hok : ∀ j, IsPin j → j ≠ i → (s.line j).Ok) :
    Inv (s.handleIrq i) := by
  refine ⟨h.handleIrq hi, ?_⟩
  intro j hj
  by_cases hji : j = i
  · rw [hji]
    exact Irqs.ok_handleIrq hline
  · rw [Irqs.only_handleIrq hi.le j hj.le hji]
    exact hok j hj hji

theorem Inv.call (h : Inv s) (hi : IsPin i) (ho : Irqs.Only i s u) (hc : Irqs.Call i s u) (hok : (u.line i).Ok) : Inv u := by
  refine ⟨h.toShape.only hi ho (.same hc.stack hc.inProgress) (hc.depth (h.depth i hi)) ?_ ?_, ?_⟩
  · rw [hc.stack]
    intro hmem
    refine (hc.action (h.running i hmem).2).resolve_left fun hempty => ?_
    rw [hempty] at hmem
    cases hmem
  · intro j hj
    rw [hc.stack]
    rcases hc.resend j hj with hj | ⟨rfl, htasklet⟩
    · obtain ⟨hpin, hres⟩ := h.resend j hj
      exact ⟨hpin, hres.imp_left hc.tasklet⟩
    · exact ⟨hi, .inl htasklet⟩
  · intro j hj
    by_cases hji : j = i
    · rw [hji]
      exact hok
    · rw [ho j hj.le hji]
      exact h.ok j hj

theorem Inv.idle (h : Inv s) (hstack : s.stack = []) (hi : IsPin i) : (s.desc i).inProgress = false := by
  have hmem := h.mem i hi
  rw [hstack] at hmem
  simpa [events] using hmem

theorem inv_start : Inv start := by
  refine ⟨⟨?_, ?_, ?_, ?_, ?_, ?_⟩, ?_⟩
  · intro i _ haction
    exact absurd rfl haction
  · exact List.nodup_nil
  · intro i _
    simp [start, events]
  · intro i hi
    cases hi
  · intro port pin isr hmem
    cases hmem
  · intro i hi
    cases hi
  · intro i _
    refine ⟨⟨?_, ?_, ?_⟩, ?_⟩ <;> simp [start, Irqs.line]

theorem shift_lt {isr : Word} {pin : Nat} (h : isr.toNat < 2 ^ (32 - pin)) : (isr >>> 1).toNat < 2 ^ (32 - (pin + 1)) := by
  rw [BitVec.toNat_ushiftRight, Nat.shiftRight_eq_div_pow]
  by_cases hpin : pin < 32
  · rw [show 32 - pin = 32 - (pin + 1) + 1 by omega, pow_succ] at h
    omega
  · rw [show 32 - pin = 0 by omega] at h
    rw [show 32 - (pin + 1) = 0 by omega]
    omega

/-- The loops of `gpio_isr` come to pins only. -/
theorem isPin_gpioIrq {port pin : Nat} {isr : Word} (hport : port < 6) (hisr : isr.toNat < 2 ^ (32 - pin)) (hne : isr ≠ 0#32) :
    IsPin (gpioIrq port pin) := by
  have hpin : pin < 32 := by
    by_contra hge
    rw [show 32 - pin = 0 by omega, pow_zero] at hisr
    exact hne (BitVec.eq_of_toNat_eq (by simpa using hisr))
  unfold IsPin gpioIrq gpioIrqs intcIrqs
  rw [Nat.shiftLeft_eq, Nat.shiftLeft_eq]
  omega

/-- The loops go on, or are entered and left. -/
theorem Inv.restack {stack : List Frame} {tasklet : Bool} (h : Inv s) (hevents : events stack = events s.stack)
    (hscans : ∀ port pin isr, .isr port pin isr ∈ stack → port < 6 ∧ isr.toNat < 2 ^ (32 - pin))
    (hresend : ∀ i, s.irqsResend i = true → tasklet = true ∨ .resend ∈ stack) : Inv { s with stack, tasklet } := by
  refine ⟨⟨h.depth, ?_, ?_, ?_, hscans, fun i hi => ⟨(h.resend i hi).1, hresend i hi⟩⟩, h.ok⟩
  · rw [hevents]
    exact h.nodup
  · rw [hevents]
    exact h.mem
  · rw [hevents]
    exact h.running

theorem Inv.advance (h : Inv s) (hu : s.advance = some u) : Inv u := by
  unfold Irqs.advance at hu
  split at hu
  · cases hu
  · next port pin isr stack hstack =>
    obtain ⟨hport, hisr⟩ := h.scans port pin isr (by rw [hstack]; exact List.mem_cons_self)
    have hbelow : ∀ frame ∈ stack, frame ∈ s.stack := by
      intro frame hframe
      rw [hstack]
      exact List.mem_cons_of_mem _ hframe
    have hres : ∀ i, s.irqsResend i = true → s.tasklet = true ∨ .resend ∈ stack := by
      intro i hi
      simpa [hstack] using (h.resend i hi).2
    have hnext : ∀ port' pin' isr', port' < 6 → isr'.toNat < 2 ^ (32 - pin') → Inv { s with stack := .isr port' pin' isr' :: stack } := by
      intro port' pin' isr' hport' hisr'
      refine h.restack (by rw [hstack]; rfl) ?_ fun i hi => (hres i hi).imp_right (List.mem_cons_of_mem _)
      intro port'' pin'' isr'' hmem
      rcases List.mem_cons.mp hmem with heq | hmem
      · cases heq
        exact ⟨hport', hisr'⟩
      · exact h.scans _ _ _ (hbelow _ hmem)
    split_ifs at hu with hzero hmore hbit
    · cases hu
      exact hnext _ _ _ hmore (BitVec.isLt _)
    · cases hu
      exact h.restack (by rw [hstack]; rfl) (fun _ _ _ hmem => h.scans _ _ _ (hbelow _ hmem)) hres
    · cases hu
      have hinv := hnext port (pin + 1) (isr >>> 1) hport (shift_lt hisr)
      have hi := isPin_gpioIrq hport hisr hzero
      exact Inv.handleIrq hinv.toShape hi (hinv.ok _ hi).toMasking fun j hj _ => hinv.ok j hj
    · cases hu
      exact hnext port (pin + 1) (isr >>> 1) hport (shift_lt hisr)
  · next irq stack hstack =>
    cases hu
    obtain ⟨hi, haction⟩ := h.running irq (by rw [hstack]; exact List.mem_cons_self)
    have hback := Irqs.back_handled (s := { s with stack }) haction
    have honly : Irqs.Only irq s ({ s with stack }.handled irq) := fun j hj hne => Irqs.only_handled (s := { s with stack }) hi.le j hj hne
    have hruns : Runs irq s ({ s with stack }.handled irq) := by
      rcases hback.again with ⟨hagain, hprog⟩ | ⟨hdone, hprog⟩
      · exact .same (hagain.trans hstack.symm) hprog
      · exact .pop (by rw [hstack, hdone]) hprog
    refine ⟨h.toShape.only hi honly hruns ?_ ?_ ?_, ?_⟩
    · rw [hback.action, hback.disabled, hback.depth]
      exact h.depth irq hi
    · rw [hback.action]
      exact fun _ => haction
    · rw [hback.irqsResend, hback.tasklet]
      intro j hj
      obtain ⟨hpin, hres⟩ := h.resend j hj
      refine ⟨hpin, hres.imp_right fun hmem => ?_⟩
      rcases hback.again with ⟨hagain, -⟩ | ⟨hdone, -⟩
      · rw [hagain]
        rwa [hstack] at hmem
      · rw [hdone]
        simpa [hstack] using hmem
    · intro j hj
      by_cases hji : j = irq
      · rw [hji]
        exact Irqs.ok_handled (s := { s with stack }) (h.ok irq hi)
      · rw [honly j hj.le hji]
        exact h.ok j hj
  · next stack hstack =>
    split at hu
    · cases hu
      next hnone =>
      refine h.restack (by rw [hstack]; rfl) ?_ ?_
      · intro port pin isr hmem
        exact h.scans port pin isr (by rw [hstack]; exact List.mem_cons_of_mem _ hmem)
      · intro i hi
        have hlt : i < nrIrqs := (h.resend i hi).1.2.trans (by decide)
        exact absurd hi (List.find?_eq_none.mp hnone i (List.mem_range.mpr hlt))
    · next irq hfind =>
      cases hu
      have hirq := List.find?_some hfind
      have hi := (h.resend irq hirq).1
      refine Inv.handleIrq ⟨h.depth, h.nodup, h.mem, h.running, h.scans, ?_⟩ hi ?_ ?_
      · intro j hj
        by_cases hji : j = irq
        · rw [hji] at hj
          simp at hj
        · exact h.resend j (by rwa [← Function.update_of_ne hji false s.irqsResend])
      · obtain ⟨hresent, hier, hlevel⟩ := (h.ok irq hi).toMasking
        exact ⟨hresent, hier, hlevel⟩
      · intro j hj hji
        have hline : ({ s with irqsResend := Function.update s.irqsResend irq false } : Irqs).line j = s.line j := by
          simp [Irqs.line, Function.update_of_ne hji]
        rw [hline]
        exact h.ok j hj

theorem Inv.step {a : Act} (h : Inv s) (hu : step s a = some u) : Inv u := by
  unfold Gpio.step at hu
  split at hu
  · next irq =>
    split_ifs at hu with hi
    cases hu
    refine ⟨⟨h.depth, h.nodup, h.mem, h.running, h.scans, h.resend⟩, ?_⟩
    intro j hj
    by_cases hji : j = irq
    · obtain ⟨⟨hresent, hier, hlevel⟩, -⟩ := h.ok irq hi
      rw [hji, Irqs.line_edge]
      exact ⟨⟨hresent, hier, hlevel⟩, fun _ _ _ => .inl rfl⟩
    · rw [Irqs.only_edge hi.le j hj.le hji]
      exact h.ok j hj
  · split_ifs at hu
    cases hu
    refine h.restack rfl ?_ fun i hi => (h.resend i hi).2.imp_right (List.mem_cons_of_mem _)
    intro port pin isr hmem
    rcases List.mem_cons.mp hmem with heq | hmem
    · cases heq
      exact ⟨by norm_num, BitVec.isLt _⟩
    · exact h.scans port pin isr hmem
  · exact h.advance hu
  · split_ifs at hu with hsoft
    cases hu
    refine h.restack (by rw [hsoft.1]; rfl) ?_ fun _ _ => .inr List.mem_cons_self
    intro port pin isr hmem
    simp at hmem
  · next irq =>
    split_ifs at hu with hcall
    cases hu
    exact h.call hcall.2 (Irqs.only_setDesc _ _) Irqs.call_disableIrqNosync (Irqs.ok_disableIrqNosync (h.ok irq hcall.2))
  · next irq =>
    split_ifs at hu with hcall
    cases hu
    exact h.call hcall.2 (Irqs.only_enableIrq hcall.2.le) Irqs.call_enableIrq (Irqs.ok_enableIrq (h.ok irq hcall.2))
  · next irq edge new =>
    split_ifs at hu with hcall
    cases hu
    exact h.call hcall.2 (Irqs.only_setupIrq hcall.2.le _ _) (Irqs.call_setupIrq (h.idle hcall.1 hcall.2) _ _)
      (Irqs.ok_setupIrq (h.ok irq hcall.2) _ _)
  · next irq =>
    split_ifs at hu with hcall
    cases hu
    exact h.call hcall.2 (Irqs.only_freeIrq _) (Irqs.call_freeIrq hcall.1) (Irqs.ok_freeIrq (h.ok irq hcall.2))

end Steps

/-! ## Every order of steps -/

section Runs

variable {s t : Irqs} {i : Nat}

theorem inv_of_run (h : Run step free start s) : Inv s := h.invariant inv_start fun _ _ _ hinv _ hu => hinv.step hu

theorem Inv.not_inProgress (h : Inv s) (hi : IsPin i) (hidle : .event i ∉ s.stack) : (s.desc i).inProgress = false := by
  have hnot : i ∉ events s.stack := mt mem_events.mp hidle
  rw [h.mem i hi] at hnot
  exact eq_false_of_ne_true hnot

theorem Inv.enabled (h : Inv s) (hi : IsPin i) (haction : (s.desc i).action ≠ none) (hdepth : (s.desc i).depth = 0) :
    (s.desc i).disabled = false := eq_false_of_ne_true fun hdis => (h.depth i hi haction).mp hdis hdepth

/-- An interrupt that is not disabled is masked only while its handler runs. -/
theorem Inv.unmasked (h : Inv s) (hi : IsPin i) (haction : (s.desc i).action ≠ none) (hdepth : (s.desc i).depth = 0)
    (hidle : .event i ∉ s.stack) : (s.line i).ier = true := by
  have hprog := h.not_inProgress hi hidle
  have hon := h.enabled hi haction hdepth
  by_contra hoff
  rw [Bool.not_eq_true] at hoff
  cases hedge : (s.desc i).edge with
  | false =>
    rcases (h.ok i hi).level haction hedge hoff with hdis | hrun
    · exact Bool.false_ne_true (hon.symm.trans hdis)
    · exact Bool.false_ne_true (hprog.symm.trans hrun)
  | true =>
    rcases ((h.ok i hi).edge haction hedge hoff).2.2 with hdis | hrun
    · exact Bool.false_ne_true (hon.symm.trans hdis)
    · exact Bool.false_ne_true (hprog.symm.trans hrun)

/-- An edge of an interrupt that is not disabled, and whose handler does not run, is where the processor takes it from. -/
theorem Inv.taken (h : Inv s) (hi : IsPin i) (haction : (s.desc i).action ≠ none) (hedge : (s.desc i).edge = true)
    (hdepth : (s.desc i).depth = 0) (hidle : .event i ∉ s.stack) (howed : s.owed i = true) :
    (s.line i).isr = true ∧ (s.line i).ier = true ∨ s.irqsResend i = true ∧ (s.tasklet = true ∨ .resend ∈ s.stack) := by
  rcases (h.ok i hi).kept haction hedge howed with hisr | hresend | ⟨-, hdis | hprog⟩
  · exact .inl ⟨hisr, h.unmasked hi haction hdepth hidle⟩
  · exact .inr ⟨hresend, (h.resend i hresend).2⟩
  · exact absurd ((h.enabled hi haction hdepth).symm.trans hdis) Bool.false_ne_true
  · exact absurd ((h.not_inProgress hi hidle).symm.trans hprog) Bool.false_ne_true

/-- In every order of edges, interrupts and calls of drivers: an edge that the handler was not started for since is pending, marked, or among
what is resent; and when the handler is not running, and its interrupt is not disabled, it is where the processor takes it from. -/
theorem edges_kept (h : Run step free start s) (hi : IsPin i) (haction : (s.desc i).action ≠ none) (hedge : (s.desc i).edge = true)
    (howed : s.owed i = true) :
    ((s.line i).isr = true ∨ s.irqsResend i = true ∨ (s.desc i).pending = true) ∧
      ((s.desc i).depth = 0 → .event i ∉ s.stack →
        (s.line i).isr = true ∧ (s.line i).ier = true ∨ s.irqsResend i = true ∧ (s.tasklet = true ∨ .resend ∈ s.stack)) := by
  have hinv := inv_of_run h
  constructor
  · exact ((hinv.ok i hi).kept haction hedge howed).imp_right fun hlater => hlater.imp_right And.left
  · exact fun hdepth hidle => hinv.taken hi haction hedge hdepth hidle howed

theorem edges_kept_disabled : ∃ s, Run step free start s ∧ (s.desc 40).depth = 1 ∧
    ((s.line 40).isr = true ∨ s.irqsResend 40 = true ∨ (s.desc 40).pending = true) := by
  obtain ⟨s, hplay, haction, hedge, howed, hdepth⟩ : ∃ s,
      play (guarded step free) start [.request 40 true ⟨false⟩, .disable 40, .edge 40, .interrupt, .advance] = some s ∧
        (s.desc 40).action ≠ none ∧ (s.desc 40).edge = true ∧ s.owed 40 = true ∧ (s.desc 40).depth = 1 := play_ends _ (by decide)
  have hrun := Run.of_play _ hplay
  exact ⟨s, hrun, hdepth, (edges_kept hrun (by decide) haction hedge howed).1⟩

end Runs

/-! ## Disabled interrupts -/

section Disabled

variable {s t u : Irqs} {i j : Nat}

/-- The handler of `i` is there, and not running. -/
def Idle (i : Nat) (s : Irqs) : Prop := (s.desc i).action ≠ none ∧ .event i ∉ s.stack

theorem Idle.handleIrq (h : Idle i s) (hi : IsPin i) (hj : IsPin j) (hdis : (s.desc i).disabled = true) : Idle i (s.handleIrq j) := by
  have hf := Irqs.flow_handleIrq (s := s) (i := j)
  by_cases hij : i = j
  · subst hij
    refine ⟨by rw [hf.action]; exact h.1, ?_⟩
    rcases hf.started with ⟨hstack, -⟩ | ⟨-, -, -, -, hon⟩
    · rw [hstack]
      exact h.2
    · exact absurd hdis (by rw [hon]; exact Bool.false_ne_true)
  · have hdesc : (s.handleIrq j).desc i = s.desc i := congrArg Line.desc (Irqs.only_handleIrq hj.le i hi.le hij)
    refine ⟨by rw [hdesc]; exact h.1, ?_⟩
    rcases hf.started with ⟨hstack, -⟩ | ⟨hstack, -⟩
    · rw [hstack]
      exact h.2
    · rw [hstack]
      simp [hij, h.2]

theorem Idle.of_other (h : Idle i s) (hi : IsPin i) (ho : Irqs.Only j s u) (hij : i ≠ j) (hstack : u.stack = s.stack) : Idle i u := by
  have hdesc : u.desc i = s.desc i := congrArg Line.desc (ho i hi.le hij)
  refine ⟨by rw [hdesc]; exact h.1, by rw [hstack]; exact h.2⟩

theorem Idle.call (h : Idle i s) (hi : IsPin i) (ho : Irqs.Only j s u) (hc : Irqs.Call j s u)
    (hself : (s.desc j).action ≠ none → (u.desc j).action ≠ none) : Idle i u := by
  by_cases hij : i = j
  · subst hij
    exact ⟨hself h.1, by rw [hc.stack]; exact h.2⟩
  · exact h.of_other hi ho hij hc.stack

theorem Idle.advance (h : Idle i s) (hinv : Inv s) (hi : IsPin i) (hdis : (s.desc i).disabled = true) (hu : s.advance = some u) : Idle i u := by
  unfold Irqs.advance at hu
  split at hu
  · cases hu
  · next port pin isr stack hstack =>
    obtain ⟨hport, hisr⟩ := hinv.scans port pin isr (by rw [hstack]; exact List.mem_cons_self)
    have hidle : .event i ∉ stack := fun hmem => h.2 (by rw [hstack]; exact List.mem_cons_of_mem _ hmem)
    have hnext : ∀ port' pin' isr', Idle i { s with stack := .isr port' pin' isr' :: stack } := fun _ _ _ =>
      ⟨h.1, fun hmem => hidle ((List.mem_cons.mp hmem).resolve_left (by simp))⟩
    split_ifs at hu with hzero
    · cases hu
      exact hnext _ _ _
    · cases hu
      exact ⟨h.1, hidle⟩
    · cases hu
      exact (hnext port (pin + 1) (isr >>> 1)).handleIrq hi (isPin_gpioIrq hport hisr hzero) hdis
    · cases hu
      exact hnext _ _ _
  · next irq stack hstack =>
    cases hu
    obtain ⟨hirq, haction⟩ := hinv.running irq (by rw [hstack]; exact List.mem_cons_self)
    have hne : i ≠ irq := by
      rintro rfl
      exact h.2 (by rw [hstack]; exact List.mem_cons_self)
    have hidle : .event i ∉ stack := fun hmem => h.2 (by rw [hstack]; exact List.mem_cons_of_mem _ hmem)
    have hback := Irqs.back_handled (s := { s with stack }) haction
    have hdesc : ({ s with stack }.handled irq).desc i = s.desc i :=
      congrArg Line.desc (Irqs.only_handled (s := { s with stack }) hirq.le i hi.le hne)
    refine ⟨by rw [hdesc]; exact h.1, ?_⟩
    rcases hback.again with ⟨hagain, -⟩ | ⟨hdone, -⟩
    · rw [hagain]
      simp [hne, hidle]
    · rw [hdone]
      exact hidle
  · next stack hstack =>
    split at hu
    · cases hu
      exact ⟨h.1, fun hmem => h.2 (by rw [hstack]; exact List.mem_cons_of_mem _ hmem)⟩
    · next irq hfind =>
      cases hu
      exact Idle.handleIrq h hi (hinv.resend irq (List.find?_some hfind)).1 hdis

theorem Idle.step {a : Act} (h : Idle i s) (hinv : Inv s) (hi : IsPin i) (hdepth : (s.desc i).depth ≠ 0) (ha : a ≠ .free i)
    (hu : step s a = some u) : Idle i u := by
  have hdis := (hinv.depth i hi h.1).mpr hdepth
  unfold Gpio.step at hu
  split at hu
  · split_ifs at hu
    cases hu
    exact h
  · split_ifs at hu
    cases hu
    exact ⟨h.1, fun hmem => h.2 ((List.mem_cons.mp hmem).resolve_left (by simp))⟩
  · exact h.advance hinv hi hdis hu
  · split_ifs at hu
    cases hu
    exact ⟨h.1, by simp⟩
  · next irq =>
    split_ifs at hu with hcall
    cases hu
    exact h.call hi (Irqs.only_setDesc _ _) Irqs.call_disableIrqNosync (by simp [Irqs.disableIrqNosync])
  · next irq =>
    split_ifs at hu with hcall
    cases hu
    exact h.call hi (Irqs.only_enableIrq hcall.2.le) Irqs.call_enableIrq Irqs.action_enableIrq
  · next irq edge new =>
    split_ifs at hu with hcall
    cases hu
    refine h.call hi (Irqs.only_setupIrq hcall.2.le _ _) (Irqs.call_setupIrq (hinv.idle hcall.1 hcall.2) _ _) fun haction => ?_
    rwa [Irqs.setupIrq, if_neg haction]
  · next irq =>
    split_ifs at hu with hcall
    cases hu
    refine h.of_other hi (Irqs.only_freeIrq irq) (fun hirq => ha (by rw [hirq])) (Irqs.call_freeIrq hcall.1).stack

/-- A handler that is not running is not started as long as its interrupt has been disabled more often than enabled. -/
theorem disabled_silent (h : Run step free start s) (hi : IsPin i) (haction : (s.desc i).action ≠ none) (hidle : .event i ∉ s.stack)
    (ht : Run step (fun u a => (u.desc i).depth ≠ 0 ∧ a ≠ .free i) s t) : .event i ∉ t.stack := by
  have hboth : Inv t ∧ Idle i t := by
    apply ht.invariant (I := fun u => Inv u ∧ Idle i u) ⟨inv_of_run h, haction, hidle⟩
    intro u a v hu hok hstep
    exact ⟨hu.1.step hstep, hu.2.step hu.1 hi hok.1 hok.2 hstep⟩
  exact hboth.2.2

theorem disabled_silent_pending : ∃ t : Irqs, (t.desc 40).pending = true ∧ .event 40 ∉ t.stack := by
  let later := guarded step fun (u : Irqs) a => (u.desc 40).depth ≠ 0 ∧ a ≠ .free 40
  obtain ⟨s, hs, haction, hidle, hlater⟩ : ∃ s : Irqs, play (guarded step free) start [.request 40 true ⟨false⟩, .disable 40] = some s ∧
      (s.desc 40).action ≠ none ∧ .event 40 ∉ s.stack ∧
        (play later s (.edge 40 :: .interrupt :: List.replicate 9 .advance)).any (fun t => decide ((t.desc 40).pending = true)) = true :=
    play_ends _ (by decide)
  obtain ⟨t, ht, hpending⟩ := play_ends _ hlater
  exact ⟨t, hpending, disabled_silent (Run.of_play _ hs) (by decide) haction hidle (Run.of_play _ ht)⟩

end Disabled

end Emlinux.Gpio
