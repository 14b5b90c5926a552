import Emlinux.Gpio.Edges
import Mathlib.Data.Nat.Size

/-!
# The processor comes to rest

With no more edges and no calls of drivers, the processor is done with the interrupts after finitely many steps, though a `gpio_isr` in between
may handle what another one has read, and start handlers for nothing: an interrupt is taken only when a pin is pending, and the first pin that
is handled then is acknowledged before any handler lets the next interrupt in. When it is done, every handler has been started for what came.

* `cost`: the pending pins, the loops and handlers to be gone on with, and the marks.
* `cost_advance`, `cost_own`: every step of the processor takes it down.
* `comes_to_rest`.
-/

namespace Emlinux.Gpio

open Lib

/-! ## Counting pins -/

section Count

variable {p q : Nat → Bool} {i : Nat}

/-- The number of pins with `p`. -/
def count (p : Nat → Bool) : Nat := ((Finset.Ico intcIrqs (intcIrqs + gpioIrqs)).filter fun i => p i = true).card

theorem mem_pins : i ∈ Finset.Ico intcIrqs (intcIrqs + gpioIrqs) ↔ IsPin i := Finset.mem_Ico

theorem count_le (h : ∀ j, IsPin j → p j = true → q j = true) : count p ≤ count q := by
  apply Finset.card_le_card
  intro j hj
  rw [Finset.mem_filter, mem_pins] at hj ⊢
  exact ⟨hj.1, h j hj.1 hj.2⟩

theorem count_lt (hi : IsPin i) (hp : p i = false) (hq : q i = true) (h : ∀ j, IsPin j → p j = true → q j = true) :
    count p + 1 ≤ count q := by
  apply Finset.card_lt_card
  refine Finset.ssubset_iff_subset_ne.mpr ⟨?_, ?_⟩
  · intro j hj
    rw [Finset.mem_filter, mem_pins] at hj ⊢
    exact ⟨hj.1, h j hj.1 hj.2⟩
  · intro heq
    have hmem : i ∈ (Finset.Ico intcIrqs (intcIrqs + gpioIrqs)).filter fun i => q i = true :=
      Finset.mem_filter.mpr ⟨mem_pins.mpr hi, hq⟩
    rw [← heq, Finset.mem_filter, hp] at hmem
    exact Bool.false_ne_true hmem.2

theorem count_pos (hi : IsPin i) (hp : p i = true) : 1 ≤ count p :=
  Finset.card_pos.mpr ⟨i, Finset.mem_filter.mpr ⟨mem_pins.mpr hi, hp⟩⟩

/-- One pin more or less. -/
theorem count_le_succ (h : ∀ j, IsPin j → j ≠ i → p j = true → q j = true) : count p ≤ count q + 1 := by
  have hsub : (Finset.Ico intcIrqs (intcIrqs + gpioIrqs)).filter (fun i => p i = true) ⊆
      insert i ((Finset.Ico intcIrqs (intcIrqs + gpioIrqs)).filter fun i => q i = true) := by
    intro j hj
    rw [Finset.mem_filter, mem_pins] at hj
    rw [Finset.mem_insert, Finset.mem_filter, mem_pins]
    by_cases hji : j = i
    · exact .inl hji
    · exact .inr ⟨hj.1, h j hj.1 hji hj.2⟩
  exact (Finset.card_le_card hsub).trans (Finset.card_insert_le _ _)

end Count

/-! ## The cost -/

/-- What is left of the loops of `gpio_isr`: the bits of this port, and those of the next ones. -/
def Frame.cost : Frame → Nat
  | .isr port _ w => 3 * (w.toNat.size + 1 + 33 * (5 - port))
  | .event _ | .resend => 1

/-- The top of the stack is a `gpio_isr` that has handled no pin yet: all it has read is pending still, and something is. -/
def Fresh (s : Irqs) : Prop :=
  ∃ port pin isr stack, s.stack = .isr port pin isr :: stack ∧
    (∀ j, isr.getLsbD j = true → (s.isr port).getLsbD (pin + j) = true) ∧
      (isr ≠ 0#32 ∨ ∃ port', port < port' ∧ port' < 6 ∧ s.isr port' ≠ 0#32)

def live (s : Irqs) : Nat := count fun i => (s.line i).isr

/-- The pins marked pending, and those to be resent. -/
def marks (s : Irqs) : Nat := (count fun i => (s.desc i).pending) + 3 * (count s.irqsResend) + if s.tasklet then 2 else 0

open Classical in
/-- A pending pin pays for a `gpio_isr`, and one is paid for by the first pin that it handles. -/
noncomputable def unpaid (s : Irqs) : Nat := live s - if Fresh s then 1 else 0

def left (stack : List Frame) : Nat := (stack.map Frame.cost).sum

noncomputable def cost (s : Irqs) : Nat := 700 * unpaid s + left s.stack + marks s

section Cost

variable {s u : Irqs} {i port pin : Nat}

theorem gpioIrqPort_gpioIrq (hpin : pin < 32) : gpioIrqPort (gpioIrq port pin) = port := by
  rw [gpioIrqPort_eq, gpioIrq, intcIrqs, Nat.shiftLeft_eq]
  omega

theorem gpioIrqPin_gpioIrq (hpin : pin < 32) : gpioIrqPin (gpioIrq port pin) = pin := by
  rw [gpioIrqPin_eq, gpioIrq, intcIrqs, Nat.shiftLeft_eq]
  omega

theorem line_gpioIrq_isr (hpin : pin < 32) : (s.line (gpioIrq port pin)).isr = (s.isr port).getLsbD pin := by
  rw [Irqs.line, gpioIrqPort_gpioIrq hpin, gpioIrqPin_gpioIrq hpin]

theorem isPin_of_lt (hport : port < 6) (hpin : pin < 32) : IsPin (gpioIrq port pin) := by
  unfold IsPin gpioIrq gpioIrqs intcIrqs
  rw [Nat.shiftLeft_eq, Nat.shiftLeft_eq]
  omega

/-- What is pending in a port is a pending pin. -/
theorem live_pos (hport : port < 6) (h : s.isr port ≠ 0#32) : 1 ≤ live s := by
  obtain ⟨pin, hbit⟩ : ∃ pin, (s.isr port).getLsbD pin = true := by
    by_contra hnone
    rw [not_exists] at hnone
    exact h (BitVec.eq_of_getLsbD_eq fun pin _ => by simpa using hnone pin)
  have hpin : pin < 32 := BitVec.lt_of_getLsbD hbit
  exact count_pos (isPin_of_lt hport hpin) ((line_gpioIrq_isr hpin).trans hbit)

theorem Fresh.live (h : Fresh s) (hinv : Shape s) : 1 ≤ live s := by
  obtain ⟨port, pin, isr, stack, hstack, hsub, hne | ⟨port', -, hport, hne⟩⟩ := h
  · have hport := (hinv.scans port pin isr (by rw [hstack]; exact List.mem_cons_self)).1
    refine live_pos hport fun hzero => hne (BitVec.eq_of_getLsbD_eq fun j _ => ?_)
    have hj := hsub j
    rw [hzero] at hj
    simpa using hj
  · exact live_pos hport hne

theorem unpaid_le (hlive : live u ≤ live s) (hfresh : Fresh s → Fresh u ∨ live u < live s) : unpaid u ≤ unpaid s := by
  unfold unpaid
  split_ifs with hu hs hs
  · exact Nat.sub_le_sub_right hlive 1
  · exact (Nat.sub_le _ _).trans hlive
  · have hlt := (hfresh hs).resolve_left hu
    omega
  · exact hlive

theorem not_fresh (h : ∀ port pin isr stack, s.stack ≠ .isr port pin isr :: stack) : ¬Fresh s := by
  rintro ⟨port, pin, isr, stack, hstack, -⟩
  exact h port pin isr stack hstack

/-! ## The flow handlers -/

theorem isr_handleIrq : ((s.handleIrq i).line i).isr = false := by
  unfold Irqs.handleIrq Irqs.handleEdgeIrq Irqs.handleLevelIrq Irqs.edgeLoop Irqs.maskAckIrq
  dsimp only
  split_ifs <;> simp

theorem pending_handleLevelIrq : ((s.handleLevelIrq i).desc i).pending = (s.desc i).pending := by
  unfold Irqs.handleLevelIrq Irqs.maskAckIrq
  dsimp only
  split_ifs <;> simp

theorem pending_edgeLoop (h : (s.desc i).action ≠ none) : ((s.edgeLoop i).desc i).pending = false := by
  unfold Irqs.edgeLoop
  dsimp only
  rw [if_neg h]
  simp

/-- A flow handler marks its interrupt as pending only when it does not start the handler. -/
theorem pending_handleIrq (h : ((s.handleIrq i).desc i).pending = true) : (s.handleIrq i).stack = s.stack ∨ (s.desc i).pending = true := by
  unfold Irqs.handleIrq at h ⊢
  split_ifs at h ⊢
  · unfold Irqs.handleEdgeIrq at h ⊢
    dsimp only at h ⊢
    split_ifs at h ⊢ with hbusy
    · exact .inl rfl
    · simp only [Irqs.desc_setDesc, not_or] at hbusy
      rw [pending_edgeLoop (by simpa using hbusy.2.2)] at h
      exact absurd h Bool.false_ne_true
  · rw [pending_handleLevelIrq] at h
    exact .inr h

/-- A flow handler acknowledges its pin, and costs a mark or a handler to go on with. -/
theorem cost_handleIrq (hi : IsPin i) :
    live (s.handleIrq i) ≤ live s ∧ ((s.line i).isr = true → live (s.handleIrq i) < live s) ∧
      left (s.handleIrq i).stack + marks (s.handleIrq i) ≤ left s.stack + marks s + 1 := by
  have hf := Irqs.flow_handleIrq (s := s) (i := i)
  have hline : ∀ j, IsPin j → j ≠ i → (s.handleIrq i).line j = s.line j := fun j hj => Irqs.only_handleIrq hi.le j hj.le
  have hisr : ∀ j, IsPin j → ((s.handleIrq i).line j).isr = true → (s.line j).isr = true := by
    intro j hj hset
    by_cases hji : j = i
    · rw [hji, isr_handleIrq] at hset
      exact absurd hset Bool.false_ne_true
    · rwa [hline j hj hji] at hset
  have hpending : ∀ j, IsPin j → j ≠ i → ((s.handleIrq i).desc j).pending = true → (s.desc j).pending = true := by
    intro j hj hji hset
    have hdesc : (s.handleIrq i).desc j = s.desc j := congrArg Line.desc (hline j hj hji)
    rwa [hdesc] at hset
  refine ⟨count_le hisr, fun hlive => count_lt hi isr_handleIrq hlive hisr, ?_⟩
  unfold marks
  rw [hf.irqsResend, hf.tasklet]
  rcases hf.started with ⟨hstack, -⟩ | ⟨hstack, -⟩
  · have hmarks := count_le_succ (p := fun j => ((s.handleIrq i).desc j).pending) (q := fun j => (s.desc j).pending) hpending
    rw [hstack]
    omega
  · have hmarks : (count fun j => ((s.handleIrq i).desc j).pending) ≤ count fun j => (s.desc j).pending := by
      apply count_le
      intro j hj hset
      by_cases hji : j = i
      · rw [hji] at hset ⊢
        refine (pending_handleIrq hset).resolve_left fun hsame => ?_
        rw [hstack] at hsame
        exact List.cons_ne_self _ _ hsame
      · exact hpending j hj hji hset
    have hleft : left (s.handleIrq i).stack = 1 + left s.stack := by rw [hstack]; rfl
    omega

theorem isr_edgeLoop : ((s.edgeLoop i).line i).isr = (s.line i).isr := by
  unfold Irqs.edgeLoop
  dsimp only
  split_ifs <;> simp

theorem isr_handled : ((s.handled i).line i).isr = (s.line i).isr := by
  unfold Irqs.handled
  dsimp only
  split_ifs
  · exact isr_edgeLoop
  · simp
  · simp
  · simp

theorem pending_handled (haction : (s.desc i).action ≠ none) :
    (s.handled i).stack = .event i :: s.stack ∧ (s.desc i).pending = true ∧ ((s.handled i).desc i).pending = false ∨
      (s.handled i).stack = s.stack ∧ ((s.handled i).desc i).pending = (s.desc i).pending := by
  unfold Irqs.handled
  dsimp only
  split_ifs with hedge hagain
  · exact .inl ⟨(Irqs.starts_edgeLoop haction).stack, hagain.1, pending_edgeLoop haction⟩
  · exact .inr ⟨rfl, by simp⟩
  · exact .inr ⟨rfl, by simp⟩
  · exact .inr ⟨rfl, by simp⟩

/-- Back from a handler, a flow handler starts it again for a mark. -/
theorem cost_handled (hi : IsPin i) (haction : (s.desc i).action ≠ none) :
    live (s.handled i) ≤ live s ∧ left (s.handled i).stack + marks (s.handled i) ≤ left s.stack + marks s := by
  have hback := Irqs.back_handled haction
  have hline : ∀ j, IsPin j → j ≠ i → (s.handled i).line j = s.line j := fun j hj => Irqs.only_handled hi.le j hj.le
  have hisr : ∀ j, IsPin j → ((s.handled i).line j).isr = true → (s.line j).isr = true := by
    intro j hj hset
    by_cases hji : j = i
    · rw [hji] at hset ⊢
      rwa [isr_handled] at hset
    · rwa [hline j hj hji] at hset
  have hpending : ∀ j, IsPin j → j ≠ i → ((s.handled i).desc j).pending = true → (s.desc j).pending = true := by
    intro j hj hji hset
    have hdesc : (s.handled i).desc j = s.desc j := congrArg Line.desc (hline j hj hji)
    rwa [hdesc] at hset
  refine ⟨count_le hisr, ?_⟩
  unfold marks
  rw [hback.irqsResend, hback.tasklet]
  rcases pending_handled haction with ⟨hstack, hmark, hnone⟩ | ⟨hstack, hsame⟩
  · have hmarks : (count fun j => ((s.handled i).desc j).pending) + 1 ≤ count fun j => (s.desc j).pending := by
      refine count_lt hi hnone hmark fun j hj hset => ?_
      by_cases hji : j = i
      · rw [hji]
        exact hmark
      · exact hpending j hj hji hset
    have hleft : left (s.handled i).stack = 1 + left s.stack := by rw [hstack]; rfl
    omega
  · have hmarks : (count fun j => ((s.handled i).desc j).pending) ≤ count fun j => (s.desc j).pending := by
      refine count_le fun j hj hset => ?_
      by_cases hji : j = i
      · rw [hji] at hset ⊢
        rwa [hsame] at hset
      · exact hpending j hj hji hset
    rw [hstack]
    omega

end Cost

/-! ## The steps of the processor -/

section Own

variable {s t u : Irqs}

/-- The next bit, without a handler. -/
theorem Fresh.skip {port pin : Nat} {isr : Word} {stack : List Frame} (h : Fresh s) (hstack : s.stack = .isr port pin isr :: stack)
    (hne : isr ≠ 0#32) (hbit : isr.getLsbD 0 = false) : Fresh { s with stack := .isr port (pin + 1) (isr >>> 1) :: stack } := by
  obtain ⟨port', pin', isr', stack', hstack', hsub, -⟩ := h
  rw [hstack] at hstack'
  cases hstack'
  refine ⟨port, pin + 1, isr >>> 1, stack, rfl, ?_, ?_⟩
  · intro j hj
    rw [BitVec.getLsbD_ushiftRight] at hj
    have hlive := hsub (1 + j) hj
    rwa [← Nat.add_assoc] at hlive
  · left
    intro hzero
    refine hne (BitVec.eq_of_getLsbD_eq fun j hj => ?_)
    cases j with
    | zero => simpa using hbit
    | succ j =>
      have hshift := congrArg (fun w => w.getLsbD j) hzero
      simpa [BitVec.getLsbD_ushiftRight, Nat.add_comm] using hshift

/-- The next port. -/
theorem Fresh.port {port pin : Nat} {stack : List Frame} (h : Fresh s) (hstack : s.stack = .isr port pin 0#32 :: stack) :
    port + 1 < 6 ∧ Fresh { s with stack := .isr (port + 1) 0 (s.isr (port + 1)) :: stack } := by
  obtain ⟨port', pin', isr', stack', hstack', -, hnone | ⟨next, hlt, hport, hne⟩⟩ := h
  · rw [hstack] at hstack'
    cases hstack'
    exact absurd rfl hnone
  · rw [hstack] at hstack'
    cases hstack'
    refine ⟨by omega, port + 1, 0, s.isr (port + 1), stack, rfl, fun j hj => by rwa [Nat.zero_add], ?_⟩
    by_cases hnext : next = port + 1
    · left
      rwa [hnext] at hne
    · exact .inr ⟨next, by omega, hport, hne⟩

theorem size_shift {w : Word} (h : w ≠ 0#32) : (w >>> 1).toNat.size + 1 = w.toNat.size := by
  have hne : w.toNat ≠ 0 := fun hzero => h (BitVec.eq_of_toNat_eq hzero)
  rw [BitVec.toNat_ushiftRight, Nat.shiftRight_one, ← Nat.div2_val]
  conv_rhs => rw [← Nat.bit_bodd_div2 w.toNat]
  rw [Nat.size_bit (by rwa [Nat.bit_bodd_div2])]

theorem size_le (w : Word) : w.toNat.size ≤ 32 := Nat.size_le.mpr w.isLt

theorem cost_advance (hinv : Inv s) (hu : s.advance = some u) : cost u < cost s := by
  unfold Irqs.advance at hu
  split at hu
  · cases hu
  · next port pin isr stack hstack =>
    obtain ⟨hport, hisr⟩ := hinv.scans port pin isr (by rw [hstack]; exact List.mem_cons_self)
    have hleft : left s.stack = 3 * (isr.toNat.size + 1 + 33 * (5 - port)) + left stack := by rw [hstack]; rfl
    split_ifs at hu with hzero hmore hbit
    · cases hu
      rw [hzero] at hstack hleft
      have hunpaid : unpaid { s with stack := .isr (port + 1) 0 (s.isr (port + 1)) :: stack } ≤ unpaid s :=
        unpaid_le (le_refl _) fun hfresh => .inl (hfresh.port hstack).2
      have hsize := size_le (s.isr (port + 1))
      have hnext : left (.isr (port + 1) 0 (s.isr (port + 1)) :: stack) =
          3 * ((s.isr (port + 1)).toNat.size + 1 + 33 * (5 - (port + 1))) + left stack := rfl
      have hmarks : marks { s with stack := .isr (port + 1) 0 (s.isr (port + 1)) :: stack } = marks s := rfl
      unfold cost
      dsimp only
      omega
    · cases hu
      rw [hzero] at hstack hleft
      have hunpaid : unpaid { s with stack } ≤ unpaid s := unpaid_le (le_refl _) fun hfresh => absurd (hfresh.port hstack).1 hmore
      have hmarks : marks { s with stack } = marks s := rfl
      unfold cost
      dsimp only
      omega
    · cases hu
      have hi := isPin_gpioIrq hport hisr hzero
      obtain ⟨hlive, hpaid, hcost⟩ := cost_handleIrq (s := { s with stack := .isr port (pin + 1) (isr >>> 1) :: stack }) hi
      have hunpaid : unpaid ({ s with stack := .isr port (pin + 1) (isr >>> 1) :: stack }.handleIrq (gpioIrq port pin)) ≤ unpaid s := by
        refine unpaid_le hlive fun hfresh => .inr (hpaid ?_)
        obtain ⟨port', pin', isr', stack', hstack', hsub, -⟩ := hfresh
        rw [hstack] at hstack'
        cases hstack'
        have hlt : pin < 32 := by
          by_contra hge
          rw [show 32 - pin = 0 by omega, pow_zero] at hisr
          exact hzero (BitVec.eq_of_toNat_eq (by simpa using hisr))
        exact (line_gpioIrq_isr hlt).trans (hsub 0 hbit)
      have hsize := size_shift hzero
      have hnext : left (.isr port (pin + 1) (isr >>> 1) :: stack) =
          3 * ((isr >>> 1).toNat.size + 1 + 33 * (5 - port)) + left stack := rfl
      have hmarks : marks { s with stack := .isr port (pin + 1) (isr >>> 1) :: stack } = marks s := rfl
      rw [hmarks] at hcost
      dsimp only at hcost
      unfold cost
      omega
    · cases hu
      have hunpaid : unpaid { s with stack := .isr port (pin + 1) (isr >>> 1) :: stack } ≤ unpaid s :=
        unpaid_le (le_refl _) fun hfresh => .inl (hfresh.skip hstack hzero (by simpa using hbit))
      have hsize := size_shift hzero
      have hnext : left (.isr port (pin + 1) (isr >>> 1) :: stack) =
          3 * ((isr >>> 1).toNat.size + 1 + 33 * (5 - port)) + left stack := rfl
      have hmarks : marks { s with stack := .isr port (pin + 1) (isr >>> 1) :: stack } = marks s := rfl
      unfold cost
      dsimp only
      omega
  · next irq stack hstack =>
    cases hu
    obtain ⟨hi, haction⟩ := hinv.running irq (by rw [hstack]; exact List.mem_cons_self)
    obtain ⟨hlive, hcost⟩ := cost_handled (s := { s with stack }) hi haction
    have hunpaid : unpaid ({ s with stack }.handled irq) ≤ unpaid s :=
      unpaid_le hlive fun hfresh => absurd hfresh (not_fresh (by rw [hstack]; intros; simp))
    have hleft : left s.stack = 1 + left stack := by rw [hstack]; rfl
    unfold cost
    have hmarks : marks { s with stack } = marks s := rfl
    rw [hmarks] at hcost
    dsimp only at hcost
    omega
  · next stack hstack =>
    have hstale : ¬Fresh s := not_fresh (by rw [hstack]; intros; simp)
    have hleft : left s.stack = 1 + left stack := by rw [hstack]; rfl
    split at hu
    · cases hu
      have hunpaid : unpaid { s with stack } ≤ unpaid s := unpaid_le (le_refl _) fun hfresh => absurd hfresh hstale
      have hmarks : marks { s with stack } = marks s := rfl
      unfold cost
      dsimp only
      omega
    · next irq hfind =>
      cases hu
      have hirq := List.find?_some hfind
      have hi := (hinv.resend irq hirq).1
      obtain ⟨hlive, -, hcost⟩ := cost_handleIrq (s := { s with irqsResend := Function.update s.irqsResend irq false }) hi
      have hunpaid : unpaid ({ s with irqsResend := Function.update s.irqsResend irq false }.handleIrq irq) ≤ unpaid s :=
        unpaid_le hlive fun hfresh => absurd hfresh hstale
      have hresend : count (Function.update s.irqsResend irq false) + 1 ≤ count s.irqsResend := by
        refine count_lt hi (Function.update_self _ _ _) hirq fun j _ hset => ?_
        by_cases hji : j = irq
        · rwa [hji]
        · rwa [Function.update_of_ne hji] at hset
      have hmarks : marks { s with irqsResend := Function.update s.irqsResend irq false } + 3 ≤ marks s := by
        unfold marks
        dsimp only
        omega
      unfold cost
      dsimp only at hcost
      omega

/-- The steps that the processor does by itself. -/
def Act.Own : Act → Prop
  | .interrupt | .advance | .softirq => True
  | .edge _ | .disable _ | .enable _ | .request _ _ _ | .free _ => False

theorem cost_own {a : Act} (hinv : Inv s) (ha : a.Own) (hu : step s a = some u) : cost u < cost s := by
  cases a with
  | interrupt =>
    simp only [step] at hu
    split_ifs at hu with hopen
    cases hu
    obtain ⟨htakes, port, hport, hraised⟩ := hopen
    have hstale : ¬Fresh s := by
      apply not_fresh
      intro port pin isr stack hstack
      rw [Irqs.takesIrqs, hstack] at htakes
      exact Bool.false_ne_true htakes
    have hne : s.isr port ≠ 0#32 := by
      intro hzero
      rw [hzero, BitVec.and_zero] at hraised
      exact hraised rfl
    have hfresh : Fresh { s with stack := .isr 0 0 (s.isr 0) :: s.stack } := by
      refine ⟨0, 0, s.isr 0, s.stack, rfl, fun j hj => by rwa [Nat.zero_add], ?_⟩
      cases port with
      | zero => exact .inl hne
      | succ port => exact .inr ⟨port + 1, Nat.succ_pos _, hport, hne⟩
    have hlive := live_pos hport hne
    have hsame : live { s with stack := .isr 0 0 (s.isr 0) :: s.stack } = live s := rfl
    have hunpaid : unpaid { s with stack := .isr 0 0 (s.isr 0) :: s.stack } + 1 = unpaid s := by
      unfold unpaid
      rw [if_pos hfresh, if_neg hstale, hsame]
      omega
    have hsize := size_le (s.isr 0)
    have hnext : left (.isr 0 0 (s.isr 0) :: s.stack) = 3 * ((s.isr 0).toNat.size + 1 + 33 * (5 - 0)) + left s.stack := rfl
    have hmarks : marks { s with stack := .isr 0 0 (s.isr 0) :: s.stack } = marks s := rfl
    unfold cost
    dsimp only
    omega
  | advance => exact cost_advance hinv hu
  | softirq =>
    simp only [step] at hu
    split_ifs at hu with hsoft
    cases hu
    obtain ⟨hstack, htasklet⟩ := hsoft
    have hstale : ¬Fresh s := not_fresh (by rw [hstack]; intros; simp)
    have hunpaid : unpaid { s with stack := [.resend], tasklet := false } ≤ unpaid s :=
      unpaid_le (le_refl _) fun hfresh => absurd hfresh hstale
    have hmarks : marks { s with stack := [.resend], tasklet := false } + 2 = marks s := by
      unfold marks
      simp [htasklet]
    have hleft : left s.stack = 0 := by rw [hstack]; rfl
    have hnext : left [.resend] = 1 := rfl
    unfold cost
    dsimp only
    omega
  | edge | disable | enable | request | free => cases ha

theorem advance_isSome (h : s.stack ≠ []) : s.advance.isSome = true := by
  unfold Irqs.advance
  split
  · contradiction
  · split_ifs <;> rfl
  · rfl
  · split <;> rfl

theorem rest_of_stuck (h : ∀ a, Act.Own a → step s a = none) : s.stack = [] ∧ ¬s.Raised ∧ ¬s.tasklet = true := by
  have hstack : s.stack = [] := by
    by_contra hne
    have hsome := advance_isSome hne
    rw [show s.advance = none from h .advance trivial] at hsome
    exact Bool.false_ne_true hsome
  have hopen : s.takesIrqs = true := by rw [Irqs.takesIrqs, hstack]
  have hint := h .interrupt trivial
  have hsoft := h .softirq trivial
  simp only [step] at hint hsoft
  refine ⟨hstack, fun hraised => ?_, fun htasklet => ?_⟩
  · rw [if_pos ⟨hopen, hraised⟩] at hint
    cases hint
  · rw [if_pos ⟨hstack, htasklet⟩] at hsoft
    cases hsoft

/-- A pin that is pending and not masked raises the line. -/
theorem raised {i : Nat} (hi : IsPin i) (hisr : (s.line i).isr = true) (hier : (s.line i).ier = true) : s.Raised := by
  refine ⟨gpioIrqPort i, ?_, fun hzero => ?_⟩
  · obtain ⟨hlo, hhi⟩ := hi
    unfold gpioIrqs at hhi
    unfold intcIrqs at hlo hhi
    rw [Nat.shiftLeft_eq] at hhi
    rw [gpioIrqPort_eq]
    omega
  · have hbit := congrArg (fun w => w.getLsbD (gpioIrqPin i)) hzero
    simp only [BitVec.getLsbD_and, BitVec.getLsbD_zero] at hbit
    have hboth : ((s.line i).ier && (s.line i).isr) = false := hbit
    rw [hisr, hier] at hboth
    exact Bool.false_ne_true hboth.symm

/-- With no more edges and calls, the processor is done after finitely many steps, in whatever order; and then no pin is pending of an
interrupt that is not disabled, and its handler has been started for all edges. -/
theorem comes_to_rest (h : Run step free start s) : ∃ n, ∀ l t, (∀ a ∈ l, Act.Own a) → play step s l = some t →
    l.length ≤ n ∧ ((∀ a, Act.Own a → step t a = none) → t.stack = [] ∧
      ∀ i, IsPin i → (t.desc i).action ≠ none → (t.desc i).depth = 0 →
        (t.line i).isr = false ∧ ((t.desc i).edge = true → t.owed i = false)) := by
  refine ⟨cost s, fun l t hown hplay => ?_⟩
  obtain ⟨hinv, hlength⟩ := play_length (I := Inv) (P := Act.Own) cost
    (fun _ _ _ hinv ha hu => ⟨hinv.step hu, cost_own hinv ha hu⟩) l (inv_of_run h) hown hplay
  refine ⟨by omega, fun hstuck => ?_⟩
  obtain ⟨hstack, hquiet, htasklet⟩ := rest_of_stuck hstuck
  refine ⟨hstack, fun i hi haction hdepth => ?_⟩
  have hidle : .event i ∉ t.stack := by
    rw [hstack]
    exact List.not_mem_nil
  have hisr : (t.line i).isr = false := by
    by_contra hset
    exact hquiet (raised hi (by simpa using hset) (hinv.unmasked hi haction hdepth hidle))
  refine ⟨hisr, fun hedge => ?_⟩
  by_contra howed
  rcases hinv.taken hi haction hedge hdepth hidle (by simpa using howed) with ⟨hset, -⟩ | ⟨-, hsched⟩
  · exact Bool.false_ne_true (hisr.symm.trans hset)
  · rcases hsched with hsched | hmem
    · exact htasklet hsched
    · rw [hstack] at hmem
      cases hmem

theorem comes_to_rest_served : ∃ t : Irqs, (t.line 40).isr = false ∧ t.owed 40 = false := by
  obtain ⟨s, hs, -, hlater⟩ : ∃ s : Irqs, play (guarded step free) start [.request 40 true ⟨false⟩, .edge 40] = some s ∧
      s.owed 40 = true ∧ (play step s (.interrupt :: List.replicate 16 .advance)).any (fun t =>
        decide ((t.desc 40).action ≠ none ∧ (t.desc 40).depth = 0 ∧ (t.desc 40).edge = true ∧
          (step t .interrupt).isNone = true ∧ (step t .advance).isNone = true ∧ (step t .softirq).isNone = true)) = true :=
    play_ends _ (by decide)
  obtain ⟨t, ht, haction, hdepth, hedge, hinterrupt, hadvance, hsoftirq⟩ := play_ends _ hlater
  obtain ⟨n, hn⟩ := comes_to_rest (Run.of_play _ hs)
  obtain ⟨-, hrest⟩ := hn _ t (by simp [Act.Own]) ht
  have hstuck : ∀ a, Act.Own a → step t a = none := by
    intro a ha
    cases a with
    | interrupt => exact Option.isNone_iff_eq_none.mp hinterrupt
    | advance => exact Option.isNone_iff_eq_none.mp hadvance
    | softirq => exact Option.isNone_iff_eq_none.mp hsoftirq
    | edge | disable | enable | request | free => cases ha
  obtain ⟨hisr, howed⟩ := (hrest hstuck).2 40 (by decide) haction hdepth
  exact ⟨t, hisr, howed hedge⟩

end Own

end Emlinux.Gpio
