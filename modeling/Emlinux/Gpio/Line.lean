import Emlinux.Gpio.Irq

/-!
# One interrupt among the others

A function of the chip, a flow handler or a call of a driver changes what there is of its own interrupt, and leaves the others alone.

* `Line`: what there is of one interrupt, in the registers and outside of them.
* `Only`: the interrupts but one are as they were.
* `Line.Ok`: what is kept of each interrupt that has a handler: an edge that has not been seen is to be found somewhere.
-/

namespace Emlinux.Gpio

@[ext] structure Line where
  ier : Bool
  isr : Bool
  resend : Bool
  owed : Bool
  desc : Desc

def Irqs.line (s : Irqs) (irq : Nat) : Line where
  ier := (s.ier (gpioIrqPort irq)).getLsbD (gpioIrqPin irq)
  isr := (s.isr (gpioIrqPort irq)).getLsbD (gpioIrqPin irq)
  resend := s.irqsResend irq
  owed := s.owed irq
  desc := s.desc irq

/-! ## Pins and bits -/

theorem gpioIrqPort_eq (irq : Nat) : gpioIrqPort irq = (irq - 32) / 32 := Nat.shiftRight_eq_div_pow _ _

theorem gpioIrqPin_eq (irq : Nat) : gpioIrqPin irq = (irq - 32) % 32 := Nat.and_two_pow_sub_one_eq_mod _ 5

theorem gpioIrqPin_lt (irq : Nat) : gpioIrqPin irq < 32 := by
  rw [gpioIrqPin_eq]
  exact Nat.mod_lt _ (by norm_num)

/-- Two interrupts of pins have not both the port and the pin in common. -/
theorem gpioIrqPin_ne {i j : Nat} (hi : intcIrqs ≤ i) (hj : intcIrqs ≤ j) (hne : j ≠ i) (hport : gpioIrqPort j = gpioIrqPort i) :
    gpioIrqPin j ≠ gpioIrqPin i := by
  rw [gpioIrqPort_eq, gpioIrqPort_eq] at hport
  rw [gpioIrqPin_eq, gpioIrqPin_eq]
  unfold intcIrqs at hi hj
  omega

theorem getLsbD_pinmask {i j : Nat} (hj : j < 32) : (1#32 <<< i).getLsbD j = decide (j = i) := by
  rw [BitVec.getLsbD_shiftLeft, BitVec.getLsbD_one]
  grind

theorem and_pinmask_eq_zero {v : Word} {i : Nat} (hi : i < 32) : v &&& 1#32 <<< i = 0#32 ↔ v.getLsbD i = false := by
  constructor
  · intro h
    have hbit := congrArg (fun w => w.getLsbD i) h
    simpa [getLsbD_pinmask hi] using hbit
  · intro h
    apply BitVec.eq_of_getLsbD_eq
    intro k hk
    rw [BitVec.getLsbD_and, getLsbD_pinmask hk, BitVec.getLsbD_zero]
    by_cases hki : k = i
    · rw [hki, h, Bool.false_and]
    · rw [decide_eq_false hki, Bool.and_false]

theorem getLsbD_clear_pin (v : Word) (i : Nat) {j : Nat} (hj : j < 32) :
    (v &&& ~~~(1#32 <<< i)).getLsbD j = (v.getLsbD j && !decide (j = i)) := by
  rw [BitVec.getLsbD_and, BitVec.getLsbD_not, getLsbD_pinmask hj, decide_eq_true hj, Bool.true_and]

theorem getLsbD_set_pin (v : Word) (i : Nat) {j : Nat} (hj : j < 32) : (v ||| 1#32 <<< i).getLsbD j = (v.getLsbD j || decide (j = i)) := by
  rw [BitVec.getLsbD_or, getLsbD_pinmask hj]

/-- A pin is masked and unmasked alone, however it was. -/
theorem getLsbD_gpioMaskPort (v : Word) {i j : Nat} (hi : i < 32) (hj : j < 32) (mask : Bool) :
    (gpioMaskPort v (1#32 <<< i) mask).getLsbD j = if j = i then !mask else v.getLsbD j := by
  unfold gpioMaskPort
  by_cases hji : j = i
  · subst hji
    rw [if_pos rfl]
    split_ifs with h
    · rw [BitVec.getLsbD_xor, getLsbD_pinmask hj, decide_eq_true rfl, h]
      cases hv : v.getLsbD j with
      | false => rw [decide_eq_true ((and_pinmask_eq_zero hj).mpr hv), Bool.false_xor]
      | true =>
        rw [decide_eq_false (mt (and_pinmask_eq_zero hj).mp (by rw [hv]; exact Bool.noConfusion))]
        rfl
    · cases hv : v.getLsbD j with
      | false =>
        rw [decide_eq_true ((and_pinmask_eq_zero hj).mpr hv)] at h
        cases mask with
        | false => exact absurd rfl h
        | true => rfl
      | true =>
        rw [decide_eq_false (mt (and_pinmask_eq_zero hj).mp (by rw [hv]; exact Bool.noConfusion))] at h
        cases mask with
        | false => rfl
        | true => exact absurd rfl h
  · rw [if_neg hji]
    split_ifs with h
    · rw [BitVec.getLsbD_xor, getLsbD_pinmask hj, decide_eq_false hji, Bool.xor_false]
    · rfl

/-! ## The chip -/

namespace Irqs

variable {s u v : Irqs} {i j : Nat} {d : Desc}

/-- The pins but `i` are as they were. -/
def Only (i : Nat) (s u : Irqs) : Prop := ∀ j, intcIrqs ≤ j → j ≠ i → u.line j = s.line j

theorem Only.refl : Only i s s := fun _ _ _ => rfl

theorem Only.trans (h : Only i s u) (h' : Only i u v) : Only i s v := fun j hj hne => (h' j hj hne).trans (h j hj hne)

@[simp] theorem line_gpioMaskIrq : (s.gpioMaskIrq i).line i = { s.line i with ier := false } := by
  simp [line, gpioMaskIrq, getLsbD_gpioMaskPort _ (gpioIrqPin_lt i) (gpioIrqPin_lt i)]

@[simp] theorem line_gpioUnmaskIrq : (s.gpioUnmaskIrq i).line i = { s.line i with ier := true } := by
  simp [line, gpioUnmaskIrq, getLsbD_gpioMaskPort _ (gpioIrqPin_lt i) (gpioIrqPin_lt i)]

@[simp] theorem line_gpioAckIrq : (s.gpioAckIrq i).line i = { s.line i with isr := false } := by
  simp only [line, gpioAckIrq, Function.update_self, getLsbD_clear_pin _ _ (gpioIrqPin_lt i), decide_true, Bool.not_true, Bool.and_false]

@[simp] theorem line_edge : (s.edge i).line i = { s.line i with isr := true, owed := true } := by
  simp only [line, edge, Function.update_self, getLsbD_set_pin _ _ (gpioIrqPin_lt i), decide_true, Bool.or_true]

@[simp] theorem line_setDesc : (s.setDesc i d).line i = { s.line i with desc := d } := by
  simp [line, setDesc]

@[simp] theorem line_event : (s.event i).line i = { s.line i with owed := false } := by
  simp [line, event, settle]

@[simp] theorem line_settle : (s.settle i).line i = { s.line i with owed := false } := by
  simp [line, settle]

@[simp] theorem line_setResend : (s.setResend i).line i = { s.line i with resend := true } := by
  simp [line, setResend]

@[simp] theorem line_desc : (s.line i).desc = s.desc i := rfl

@[simp] theorem desc_gpioMaskIrq : (s.gpioMaskIrq i).desc = s.desc := rfl

@[simp] theorem desc_gpioUnmaskIrq : (s.gpioUnmaskIrq i).desc = s.desc := rfl

@[simp] theorem desc_gpioAckIrq : (s.gpioAckIrq i).desc = s.desc := rfl

@[simp] theorem desc_event : (s.event i).desc = s.desc := rfl

@[simp] theorem desc_settle : (s.settle i).desc = s.desc := rfl

@[simp] theorem desc_setResend : (s.setResend i).desc = s.desc := rfl

@[simp] theorem desc_setDesc : (s.setDesc i d).desc i = d := Function.update_self _ _ _

theorem only_mask_port (mask : Bool) (hi : intcIrqs ≤ i) :
    Only i s { s with ier := Function.update s.ier (gpioIrqPort i) (gpioMaskPort (s.ier (gpioIrqPort i)) (1#32 <<< gpioIrqPin i) mask) } := by
  intro j hj hne
  by_cases hport : gpioIrqPort j = gpioIrqPort i
  · have hpin := gpioIrqPin_ne hi hj hne hport
    simp [line, hport, getLsbD_gpioMaskPort _ (gpioIrqPin_lt i) (gpioIrqPin_lt j), hpin]
  · simp [line, Function.update_of_ne hport]

theorem only_gpioMaskIrq (hi : intcIrqs ≤ i) : Only i s (s.gpioMaskIrq i) := only_mask_port true hi

theorem only_gpioUnmaskIrq (hi : intcIrqs ≤ i) : Only i s (s.gpioUnmaskIrq i) := only_mask_port false hi

theorem only_gpioAckIrq (hi : intcIrqs ≤ i) : Only i s (s.gpioAckIrq i) := by
  intro j hj hne
  by_cases hport : gpioIrqPort j = gpioIrqPort i
  · have hpin := gpioIrqPin_ne hi hj hne hport
    simp only [line, gpioAckIrq, hport, Function.update_self, getLsbD_clear_pin _ _ (gpioIrqPin_lt j), decide_eq_false hpin, Bool.not_false,
      Bool.and_true]
  · simp [line, gpioAckIrq, Function.update_of_ne hport]

theorem only_edge (hi : intcIrqs ≤ i) : Only i s (s.edge i) := by
  intro j hj hne
  by_cases hport : gpioIrqPort j = gpioIrqPort i
  · have hpin := gpioIrqPin_ne hi hj hne hport
    simp only [line, edge, hport, Function.update_self, Function.update_of_ne hne, getLsbD_set_pin _ _ (gpioIrqPin_lt j),
      decide_eq_false hpin, Bool.or_false]
  · simp [line, edge, Function.update_of_ne hport, Function.update_of_ne hne]

theorem only_setDesc (i : Nat) (d : Desc) : Only i s (s.setDesc i d) := by
  intro j _ hne
  simp [line, setDesc, Function.update_of_ne hne]

theorem only_settle (i : Nat) : Only i s (s.settle i) := by
  intro j _ hne
  simp [line, settle, Function.update_of_ne hne]

theorem only_event (i : Nat) : Only i s (s.event i) := fun j hj hne => only_settle (s := s) i j hj hne

theorem only_setResend (i : Nat) : Only i s (s.setResend i) := by
  intro j _ hne
  simp [line, setResend, Function.update_of_ne hne]

/-! ## The handlers and the calls -/

theorem only_maskAckIrq (hi : intcIrqs ≤ i) : Only i s (s.maskAckIrq i) := (only_gpioMaskIrq hi).trans (only_gpioAckIrq hi)

theorem only_defaultEnable (hi : intcIrqs ≤ i) : Only i s (s.defaultEnable i) := (only_gpioUnmaskIrq hi).trans (only_setDesc _ _)

theorem only_handleLevelIrq (hi : intcIrqs ≤ i) : Only i s (s.handleLevelIrq i) := by
  unfold handleLevelIrq
  dsimp only
  split_ifs
  · exact only_maskAckIrq hi
  · exact (only_maskAckIrq hi).trans (only_setDesc _ _)
  · exact (((only_maskAckIrq hi).trans (only_setDesc _ _)).trans (only_setDesc _ _)).trans (only_event _)

theorem only_edgeLoop (hi : intcIrqs ≤ i) : Only i s (s.edgeLoop i) := by
  unfold edgeLoop
  dsimp only
  split_ifs
  · exact only_gpioMaskIrq hi
  · exact (((only_gpioUnmaskIrq hi).trans (only_setDesc _ _)).trans (only_setDesc _ _)).trans (only_event _)
  · exact (only_setDesc _ _).trans (only_event _)

theorem only_handleEdgeIrq (hi : intcIrqs ≤ i) : Only i s (s.handleEdgeIrq i) := by
  unfold handleEdgeIrq
  dsimp only
  split_ifs
  · exact ((only_setDesc _ _).trans (only_setDesc _ _)).trans (only_maskAckIrq hi)
  · exact (((only_setDesc _ _).trans (only_gpioAckIrq hi)).trans (only_setDesc _ _)).trans (only_edgeLoop hi)

theorem only_handleIrq (hi : intcIrqs ≤ i) : Only i s (s.handleIrq i) := by
  unfold handleIrq
  split_ifs
  · exact only_handleEdgeIrq hi
  · exact only_handleLevelIrq hi

theorem only_handled (hi : intcIrqs ≤ i) : Only i s (s.handled i) := by
  unfold handled
  dsimp only
  split_ifs
  · exact only_edgeLoop hi
  · exact only_setDesc _ _
  · exact only_setDesc _ _
  · exact (only_setDesc _ _).trans (only_gpioUnmaskIrq hi)

theorem only_checkIrqResend (hi : intcIrqs ≤ i) : Only i s (s.checkIrqResend i) := by
  unfold checkIrqResend
  dsimp only
  split_ifs
  · exact ((only_defaultEnable hi).trans (only_setDesc _ _)).trans (only_setResend _)
  · exact only_defaultEnable hi

theorem only_enableIrq (hi : intcIrqs ≤ i) : Only i s (s.enableIrq i) := by
  unfold enableIrq
  split
  · exact Only.refl
  · exact ((only_setDesc _ _).trans (only_checkIrqResend hi)).trans (only_setDesc _ _)
  · exact only_setDesc _ _

theorem only_setupIrq (hi : intcIrqs ≤ i) (edge : Bool) (new : Action) : Only i s (s.setupIrq i edge new) := by
  unfold setupIrq
  dsimp only
  split_ifs
  · exact ((only_setDesc _ _).trans (only_defaultEnable hi)).trans (only_settle _)
  · exact Only.refl

theorem only_freeIrq (i : Nat) : Only i s (s.freeIrq i) := by
  unfold freeIrq
  split_ifs
  · exact Only.refl
  · exact only_setDesc _ _

end Irqs

/-! ## What is kept of an interrupt -/

/-- An interrupt that has a handler is masked only as long as something is left to be done that unmasks it. -/
structure Line.Masking (l : Line) : Prop where
  resent : l.desc.pending = true → l.desc.replay = false
  edge : l.desc.action ≠ none → l.desc.edge = true → l.ier = false →
    l.desc.pending = true ∧ l.desc.masked = true ∧ (l.desc.disabled = true ∨ l.desc.inProgress = true)
  level : l.desc.action ≠ none → l.desc.edge = false → l.ier = false → l.desc.disabled = true ∨ l.desc.inProgress = true

/-- And an edge that its handler was not started for is to be found somewhere. -/
structure Line.Ok (l : Line) : Prop extends l.Masking where
  kept : l.desc.action ≠ none → l.desc.edge = true → l.owed = true →
    l.isr = true ∨ l.resend = true ∨ l.desc.pending = true ∧ (l.desc.disabled = true ∨ l.desc.inProgress = true)

namespace Irqs

variable {s : Irqs} {i : Nat}

theorem ok_handleLevelIrq (h : (s.line i).Masking) (hedge : (s.desc i).edge = false) : ((s.handleLevelIrq i).line i).Ok := by
  obtain ⟨hresent, -, -⟩ := h
  unfold handleLevelIrq maskAckIrq
  dsimp only
  split_ifs with hprog hquiet
  · refine ⟨⟨?_, ?_, ?_⟩, ?_⟩ <;> simp_all
  · refine ⟨⟨?_, ?_, ?_⟩, ?_⟩ <;> simp_all
    exact fun haction => hquiet.resolve_left haction
  · refine ⟨⟨?_, ?_, ?_⟩, ?_⟩ <;> simp_all

theorem ok_edgeLoop (hresent : (s.desc i).pending = true → (s.desc i).replay = false) (hedge : (s.desc i).edge = true)
    (hstart : (s.desc i).pending = true → (s.desc i).disabled = false)
    (hier : (s.desc i).action ≠ none → (s.line i).ier = false → (s.desc i).pending = true ∧ (s.desc i).masked = true) :
    ((s.edgeLoop i).line i).Ok := by
  unfold edgeLoop
  dsimp only
  split_ifs with hnone hmasked
  · refine ⟨⟨?_, ?_, ?_⟩, ?_⟩ <;> simp_all
  · refine ⟨⟨?_, ?_, ?_⟩, ?_⟩ <;> simp_all
  · -- what is masked was masked by this interrupt, and would be unmasked above
    have hon : (s.line i).ier = true := by
      by_contra hoff
      obtain ⟨hpend, hmask⟩ := hier hnone (by simpa using hoff)
      exact hmasked ⟨hpend, hmask, by simp [hstart hpend]⟩
    refine ⟨⟨?_, ?_, ?_⟩, ?_⟩ <;> simp_all

theorem ok_handleEdgeIrq (h : (s.line i).Masking) (hedge : (s.desc i).edge = true) : ((s.handleEdgeIrq i).line i).Ok := by
  obtain ⟨hresent, hier, -⟩ := h
  unfold handleEdgeIrq maskAckIrq
  dsimp only
  split_ifs with hbusy
  · refine ⟨⟨?_, ?_, ?_⟩, ?_⟩ <;> simp_all
    · grind
    · grind
  · have hidle : (s.desc i).disabled = false ∧ (s.desc i).inProgress = false := by simp_all
    apply ok_edgeLoop <;> simp_all

/-- However it was with the edge, after the flow handler it is taken care of. -/
theorem ok_handleIrq (h : (s.line i).Masking) : ((s.handleIrq i).line i).Ok := by
  unfold handleIrq
  split_ifs with hedge
  · exact ok_handleEdgeIrq h hedge
  · exact ok_handleLevelIrq h (by simpa using hedge)

theorem ok_handled (h : (s.line i).Ok) : ((s.handled i).line i).Ok := by
  unfold handled
  dsimp only
  split_ifs with hedge hloop hdis
  · exact ok_edgeLoop h.resent hedge (fun _ => by simpa using hloop.2) fun haction hoff =>
      ⟨(h.edge haction hedge hoff).1, (h.edge haction hedge hoff).2.1⟩
  · obtain ⟨⟨hresent, hier, -⟩, hkept⟩ := h
    refine ⟨⟨?_, ?_, ?_⟩, ?_⟩ <;> simp_all
    grind
  · obtain ⟨⟨hresent, -, hlevel⟩, -⟩ := h
    refine ⟨⟨?_, ?_, ?_⟩, ?_⟩ <;> simp_all
  · obtain ⟨⟨hresent, -, hlevel⟩, -⟩ := h
    refine ⟨⟨?_, ?_, ?_⟩, ?_⟩ <;> simp_all

theorem ok_disableIrqNosync (h : (s.line i).Ok) : ((s.disableIrqNosync i).line i).Ok := by
  obtain ⟨⟨hresent, hier, hlevel⟩, hkept⟩ := h
  unfold disableIrqNosync
  refine ⟨⟨?_, ?_, ?_⟩, ?_⟩ <;> simp_all
  · grind
  · grind
  · grind

theorem ok_enableIrq (h : (s.line i).Ok) : ((s.enableIrq i).line i).Ok := by
  unfold enableIrq
  split
  · exact h
  · obtain ⟨⟨hresent, hier, hlevel⟩, hkept⟩ := h
    unfold checkIrqResend defaultEnable
    dsimp only
    split_ifs <;> refine ⟨⟨?_, ?_, ?_⟩, ?_⟩ <;> simp_all
  · obtain ⟨⟨hresent, hier, hlevel⟩, hkept⟩ := h
    refine ⟨⟨?_, ?_, ?_⟩, ?_⟩ <;> simp_all

theorem ok_setupIrq (h : (s.line i).Ok) (edge : Bool) (new : Action) : ((s.setupIrq i edge new).line i).Ok := by
  unfold setupIrq defaultEnable
  dsimp only
  split_ifs
  · obtain ⟨⟨hresent, -, -⟩, -⟩ := h
    refine ⟨⟨?_, ?_, ?_⟩, ?_⟩ <;> simp_all
  · exact h

theorem ok_freeIrq (h : (s.line i).Ok) : ((s.freeIrq i).line i).Ok := by
  unfold freeIrq
  split_ifs
  · exact h
  · obtain ⟨⟨hresent, -, -⟩, -⟩ := h
    refine ⟨⟨?_, ?_, ?_⟩, ?_⟩ <;> simp_all

end Irqs

end Emlinux.Gpio
