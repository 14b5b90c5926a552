import Emlinux.Gpio.Debounce
import Emlinux.Gpio.Rest

/-!
# Every edge is looked at, and not too often

* `Waits`, `Seen`: an edge that the pin was not read after has its handler called, or its work pending; `edges_checked`.
* `Spaced`: the times a pin is read at, and the timers of the works; `checks_spaced`.
-/

namespace Emlinux.Gpio

open Lib

section Edges

variable {s u : GpioDev} {i irq : Nat}

/-- Something is left to be done that leads to a look at the pin. -/
def GpioDev.Waits (s : GpioDev) (i : Nat) : Prop :=
  s.irqs.owed i = true ∨ i ∈ events s.irqs.stack ∧ s.phase i ≠ .done ∨ s.pend i = true

/-- No edge is forgotten at the pins that are on the list. -/
def Seen (s : GpioDev) : Prop := ∀ i ∈ s.gpioIsrHead.map GpioIsr.irqNo, s.unseen i = true → s.Waits i

theorem Seen.mono (h : Seen s) (hmem : ∀ i ∈ u.gpioIsrHead.map GpioIsr.irqNo, u.unseen i = true →
    i ∈ s.gpioIsrHead.map GpioIsr.irqNo ∧ s.unseen i = true ∧ (s.Waits i → u.Waits i)) : Seen u := by
  intro i hi hunseen
  obtain ⟨hi', hunseen', hwaits⟩ := hmem i hi hunseen
  exact hwaits (h i hi' hunseen')

theorem GpioDev.Waits.of_same (h : s.Waits i) (howed : s.irqs.owed i = true → u.irqs.owed i = true)
    (hevents : i ∈ events s.irqs.stack → i ∈ events u.irqs.stack) (hphase : u.phase i = s.phase i) (hpend : u.pend i = s.pend i) :
    u.Waits i := by
  unfold GpioDev.Waits
  rw [hphase, hpend]
  exact h.imp howed (Or.imp_left (And.imp_left hevents))

theorem GpioDev.ours_of_listed (hi : i ∈ s.gpioIsrHead.map GpioIsr.irqNo) : s.ours i = true := by
  rw [GpioDev.ours_iff, GpioDev.nodes, List.map_append]
  exact List.mem_append_left _ hi

theorem Seen.calm {a : Act} {t : Irqs} (h : Seen s) (hinv : DevInv s) (hadvance : a ≠ .advance) (hcalls : a.calls.any s.ours = false)
    (ht : step s.irqs a = some t) : Seen { s with irqs := t } := by
  refine h.mono fun i hi hunseen => ⟨hi, hunseen, fun hwaits => ?_⟩
  have hours : s.ours i = true := GpioDev.ours_of_listed hi
  have hne : a.calls ≠ some i := by
    intro hcall
    rw [hcall, Option.any_some, hours] at hcalls
    exact Bool.noConfusion hcalls
  obtain ⟨-, hevents, howed⟩ := calm_step hinv.sys (hinv.own i hours).pin hadvance hne ht
  exact hwaits.of_same howed (by rw [hevents]; exact id) rfl rfl

theorem Seen.edge {t : Irqs} (h : Seen s) (hinv : DevInv s) (ht : step s.irqs (.edge irq) = some t) :
    Seen { s with irqs := t, unseen := Function.update s.unseen irq true } := by
  intro i hi hunseen
  by_cases hirq : i = irq
  · left
    rw [step] at ht
    split_ifs at ht
    cases ht
    rw [hirq]
    exact congrArg Line.owed Irqs.line_edge
  · refine (h.calm hinv (a := .edge irq) (by simp) rfl ht) i hi ?_
    rwa [← Function.update_of_ne hirq true s.unseen]

theorem Seen.advance {t : Irqs} (h : Seen s) (hinv : DevInv s) (hmay : s.mayAdvance = true) (ht : s.irqs.advance = some t) :
    Seen { s.returned with irqs := t } := by
  rw [s.returned_eq]
  refine h.mono fun i hi hunseen => ⟨hi, hunseen, fun hwaits => ?_⟩
  have hours : s.ours i = true := GpioDev.ours_of_listed hi
  have hown := hinv.own i hours
  cases (fate_advance hinv.sys hown.pin hown.action hown.edge ht).2 with
  | kept htop hevents howed =>
    have hne : s.handling ≠ some i := fun hi => htop (GpioDev.handling_eq_some.mp hi).1
    exact hwaits.of_same howed hevents.mpr (by rw [GpioDev.phase_returned, if_neg hne]) rfl
  | started hmem _ hfresh =>
    -- the handler starts again from where it enters
    have henter : s.returned.phase i = .enter := by
      rw [GpioDev.phase_returned]
      split_ifs with hhandling
      · rfl
      · rcases hfresh with hnot | htop
        · by_contra hne
          exact hnot (hinv.phase i hne).2
        · exact absurd (GpioDev.handling_eq_some.mpr ⟨htop, hours⟩) hhandling
    exact .inr (.inl ⟨hmem, by rw [henter]; decide⟩)
  | done htop _ howed =>
    have hdone := GpioDev.done_of_mayAdvance hmay (GpioDev.handling_eq_some.mpr ⟨htop, hours⟩)
    rcases hwaits with howed' | ⟨-, hphase⟩ | hpend
    · exact .inl (howed howed')
    · exact absurd hdone hphase
    · exact .inr (.inr hpend)

theorem Seen.handle (h : Seen s) (hinv : DevInv s) (hirq : s.handling = some irq) : Seen (s.gpioIsrHandle irq) := by
  have hmem := GpioDev.mem_of_handling hirq
  have hpin := (hinv.own irq (GpioDev.handling_eq_some.mp hirq).2).pin
  unfold GpioDev.gpioIsrHandle
  split
  · refine h.mono fun i hi hunseen => ⟨hi, hunseen, fun hwaits => ?_⟩
    by_cases hi' : i = irq
    · rw [hi']
      exact .inr (.inl ⟨hmem, by simp⟩)
    · exact hwaits.of_same id id (Function.update_of_ne hi' _ _) rfl
  · split_ifs with hlisted
    · have hr := retouched_schedule s irq
      refine h.mono fun i hi hunseen => ⟨?_, hunseen, fun hwaits => ?_⟩
      · rwa [hr.head, map_atFirst hr.irqNo] at hi
      · by_cases hi' : i = irq
        · rw [hi']
          exact .inr (.inr (hinv.pend_schedule hlisted))
        · exact hwaits.of_same id id (Function.update_of_ne hi' _ _) (hr.pend hinv hi')
    · refine h.mono fun i hi hunseen => ⟨hi, hunseen, fun hwaits => ?_⟩
      have hne : i ≠ irq := by
        rintro rfl
        obtain ⟨n, hn, hirqNo⟩ := List.mem_map.mp hi
        exact hlisted (List.any_eq_true.mpr ⟨n, hn, by simp [hirqNo]⟩)
      have hstack := (Irqs.call_enableIrq (s := s.irqs) (i := irq)).stack
      exact hwaits.of_same (congrArg Line.owed (Irqs.only_enableIrq hpin.le i (hinv.own i (GpioDev.ours_of_listed hi)).pin.le hne)).trans
        (by rw [show (GpioDev.setPhase { s with irqs := s.irqs.enableIrq irq } irq .done).irqs.stack = s.irqs.stack from hstack]; exact id)
        (Function.update_of_ne hne _ _) rfl
  · exact h

theorem of_update_false {f : Nat → Bool} {j : Nat} (h : Function.update f j false i = true) : i ≠ j ∧ f i = true := by
  by_cases hij : i = j
  · rw [hij, Function.update_self] at h
    exact absurd h Bool.false_ne_true
  · rw [Function.update_of_ne hij] at h
    exact ⟨hij, h⟩

theorem Irqs.owed_enableIrq {s : Irqs} : (s.enableIrq i).owed = s.owed := by
  unfold Irqs.enableIrq Irqs.checkIrqResend Irqs.defaultEnable
  dsimp only
  split
  · rfl
  · split_ifs <;> rfl
  · rfl

theorem Seen.step {a : DevAct} (h : Seen s) (hinv : DevInv s) (hu : devStep s a = some u) : Seen u := by
  unfold devStep at hu
  split at hu
  · next a =>
    unfold sysStep at hu
    split at hu
    · next irq =>
      obtain ⟨t, ht, rfl⟩ := Option.map_eq_some_iff.mp hu
      exact h.edge hinv ht
    · split_ifs at hu with hmay
      obtain ⟨t, ht, rfl⟩ := Option.map_eq_some_iff.mp hu
      exact h.advance hinv hmay ht
    · next hedge hadvance =>
      split_ifs at hu with hcalls
      obtain ⟨t, ht, rfl⟩ := Option.map_eq_some_iff.mp hu
      exact h.calm hinv hadvance (by simpa using hcalls) ht
  · cases hu
    exact h
  · obtain ⟨irq, hirq, rfl⟩ := Option.map_eq_some_iff.mp hu
    exact h.handle hinv hirq
  · next n val =>
    split_ifs at hu
    cases hu
    have hr := retouched_work s n val
    intro i hi hunseen
    obtain ⟨hne, hunseen⟩ := of_update_false hunseen
    rw [hr.head, map_atFirst hr.irqNo] at hi
    exact (h i hi hunseen).of_same id id rfl (hr.pend hinv hne)
  · split_ifs at hu
    obtain ⟨irq, -, rfl⟩ := Option.map_eq_some_iff.mp hu
    refine h.mono fun i hi hunseen => ⟨hi, hunseen, fun hwaits => ?_⟩
    exact hwaits.of_same (by rw [Irqs.owed_enableIrq]; exact id) (by rw [Irqs.call_enableIrq.stack]; exact id) rfl rfl
  · split_ifs at hu with hrequest
    cases hu
    refine h.mono fun i hi hunseen => ⟨hi, hunseen, fun hwaits => ?_⟩
    have hown := hinv.own i (GpioDev.ours_of_listed hi)
    have hline := Irqs.only_setupIrq (s := s.irqs) hrequest.2.1.le true ⟨false⟩ i hown.pin.le
      fun heq => hown.action (by rw [heq]; exact hrequest.2.2)
    have hstack := (Irqs.call_setupIrq (hinv.sys.idle hrequest.1 hrequest.2.1) true ⟨false⟩).stack
    exact hwaits.of_same (congrArg Line.owed hline).trans (fun hmem => (congrArg (fun stack => i ∈ events stack) hstack).mpr hmem) rfl rfl
  · next n =>
    split_ifs at hu with hadd
    cases hu
    intro i hi hunseen
    obtain ⟨hne, hunseen⟩ := of_update_false hunseen
    have hi : i ∈ s.gpioIsrHead.map GpioIsr.irqNo := by
      rw [GpioDev.addIsr, List.map_append, List.mem_append] at hi
      exact hi.resolve_right fun hi => hne (List.mem_singleton.mp hi)
    exact (h i hi hunseen).of_same id id rfl (by simp [GpioDev.pend, GpioDev.addIsr, hinv.fresh n hadd.2])
  · split_ifs at hu with hstack
    cases hu
    unfold GpioDev.releaseIsr
    split
    · next n hfind =>
      have hn := List.mem_of_find?_eq_some hfind
      refine h.mono fun i hi hunseen => ⟨?_, hunseen, fun hwaits => ?_⟩
      · exact ((List.erase_sublist (a := n)).map _).subset hi
      · have hne : i ≠ n.irqNo := by
          rintro rfl
          have hnodup := ((((List.perm_cons_erase hn).append_right s.adding).map GpioIsr.irqNo).nodup_iff).mp hinv.nodup
          rw [List.cons_append, List.map_cons, List.nodup_cons, List.map_append] at hnodup
          exact hnodup.1 (List.mem_append_left _ hi)
        have howed : (s.irqs.freeIrq n.irqNo).owed = s.irqs.owed := by
          unfold Irqs.freeIrq
          split_ifs <;> rfl
        exact hwaits.of_same (by rw [howed]; exact id) (by rw [(Irqs.call_freeIrq hstack).stack]; exact id) rfl (GpioDev.pend_release hn hne)
    · exact h
  · next gpioNo =>
    split_ifs at hu
    cases hu
    have hr := hinv.retouched_info gpioNo
    refine h.mono fun i hi hunseen => ⟨?_, hunseen, fun hwaits => hwaits.of_same id id rfl (hinv.pend_info gpioNo i)⟩
    rwa [hr.head, map_atFirst hr.irqNo] at hi

/-- Nothing is left to be done until an edge comes, a work is due, or a program calls. -/
def GpioDev.Quiet (s : GpioDev) : Prop :=
  s.irqs.stack = [] ∧ ¬s.irqs.Raised ∧ s.irqs.tasklet = false ∧ s.running = none ∧ ∀ n ∈ s.gpioIsrHead, n.dwork = none

variable {irqs : Irqs} {n : GpioIsr}

theorem seen_of_run (hirqs : Run step free start irqs) (h : Run devStep Careful (devStart irqs) s) : DevInv s ∧ Seen s := by
  apply h.invariant (I := fun s => DevInv s ∧ Seen s) ⟨devInv_start (inv_of_run hirqs), fun i hi => absurd hi List.not_mem_nil⟩
  exact fun s a u hs hcareful hu => ⟨hs.1.step hcareful hu, hs.2.step hs.1 hu⟩

end Edges

/-! ## The times of the checks -/

section Times

variable {s u : GpioDev} {i : Nat} {irqs : Irqs}

/-- The timer of a work expires late enough after the last check, and so did those of the checks. -/
structure Spaced (s : GpioDev) : Prop where
  past : ∀ i, ∀ c ∈ s.checks i, delayJiff ≤ c ∧ c ≤ s.jiffies
  due : ∀ n ∈ s.gpioIsrHead, ∀ t, n.dwork = some t → delayJiff ≤ t ∧ ∀ c ∈ s.checks n.irqNo, c + delayJiff ≤ t
  apart : ∀ i, (s.checks i).Pairwise fun later earlier => earlier + delayJiff ≤ later

theorem Spaced.of_same (h : Spaced s) (hjiffies : s.jiffies ≤ u.jiffies) (hchecks : u.checks = s.checks)
    (hdue : ∀ n ∈ u.gpioIsrHead, n.dwork = none ∨ ∃ m ∈ s.gpioIsrHead, m.irqNo = n.irqNo ∧ m.dwork = n.dwork) : Spaced u := by
  refine ⟨fun i c hc => ?_, fun n hn t ht => ?_, fun i => by rw [hchecks]; exact h.apart i⟩
  · rw [hchecks] at hc
    exact (h.past i c hc).imp_right hjiffies.trans'
  · rcases hdue n hn with hnone | ⟨m, hm, hirq, hwork⟩
    · rw [hnone] at ht
      cases ht
    · rw [hchecks, ← hirq]
      exact h.due m hm t (hwork.trans ht)

/-- No node has got a timer, and no pin was read. -/
theorem Spaced.kept (h : Spaced s) (hjiffies : u.jiffies = s.jiffies) (hchecks : u.checks = s.checks)
    (hhead : ∀ n ∈ u.gpioIsrHead, n ∈ s.gpioIsrHead) : Spaced u :=
  h.of_same hjiffies.ge hchecks fun n hn => .inr ⟨n, hhead n hn, rfl, rfl⟩

theorem Spaced.handle (h : Spaced s) (irq : Nat) : Spaced (s.gpioIsrHandle irq) := by
  unfold GpioDev.gpioIsrHandle
  split
  · exact h.kept rfl rfl fun n hn => hn
  · split_ifs
    · refine ⟨h.past, fun n hn t ht => ?_, h.apart⟩
      rcases mem_atFirst hn with hn | ⟨m, hm, -, rfl⟩
      · exact h.due n hn t ht
      · rw [irqNo_scheduleDelayedWork]
        unfold scheduleDelayedWork at ht
        split_ifs at ht
        · cases ht
          exact ⟨Nat.le_add_left _ _, fun c hc => Nat.add_le_add_right (h.past _ c hc).2 _⟩
        · exact h.due m hm t ht
    · exact h.kept rfl rfl fun n hn => hn
  · exact h

/-- The timer of the work has expired. -/
theorem Spaced.work (h : Spaced s) (hinv : DevInv s) {n : GpioIsr} (val : Bool) (hn : n ∈ s.gpioIsrHead)
    (hdue : n.dwork.any (· ≤ s.jiffies) = true) : Spaced (s.delayedWorkHandle n val) := by
  obtain ⟨t, ht, hexpired⟩ := (Option.any_eq_true _ _).mp hdue
  have hexpired : t ≤ s.jiffies := of_decide_eq_true hexpired
  obtain ⟨hlate, hafter⟩ := h.due n hn t ht
  have hself : (s.delayedWorkHandle n val).checks n.irqNo = s.jiffies :: s.checks n.irqNo := Function.update_self _ _ _
  have hother : ∀ {i}, i ≠ n.irqNo → (s.delayedWorkHandle n val).checks i = s.checks i := fun hi => Function.update_of_ne hi _ _
  refine ⟨fun i c hc => ?_, fun m hm t' ht' => ?_, fun i => ?_⟩
  · by_cases hi : i = n.irqNo
    · rw [hi, hself] at hc
      rcases List.mem_cons.mp hc with rfl | hc
      · exact ⟨hlate.trans hexpired, le_rfl⟩
      · exact h.past _ c hc
    · rw [hother hi] at hc
      exact h.past i c hc
  · have hne : m.irqNo ≠ n.irqNo := by
      intro hirq
      have hpend : (s.delayedWorkHandle n val).pend n.irqNo = true := GpioDev.pend_iff.mpr ⟨m, hm, hirq, by rw [ht']; rfl⟩
      exact Bool.false_ne_true ((hinv.pend_work val hn).symm.trans hpend)
    rw [hother hne]
    rcases mem_atFirst hm with hm | ⟨m', -, heq, rfl⟩
    · exact h.due m hm t' ht'
    · cases ht'
  · by_cases hi : i = n.irqNo
    · rw [hi, hself]
      exact List.pairwise_cons.mpr ⟨fun c hc => (hafter c hc).trans hexpired, h.apart _⟩
    · rw [hother hi]
      exact h.apart i

theorem Spaced.step {a : DevAct} (h : Spaced s) (hinv : DevInv s) (hu : devStep s a = some u) : Spaced u := by
  unfold devStep at hu
  split at hu
  · next a =>
    unfold sysStep at hu
    split at hu
    · obtain ⟨t, -, rfl⟩ := Option.map_eq_some_iff.mp hu
      exact h.kept rfl rfl fun n hn => hn
    · split_ifs at hu
      obtain ⟨t, -, rfl⟩ := Option.map_eq_some_iff.mp hu
      rw [s.returned_eq]
      exact h.kept rfl rfl fun n hn => hn
    · split_ifs at hu
      obtain ⟨t, -, rfl⟩ := Option.map_eq_some_iff.mp hu
      exact h.kept rfl rfl fun n hn => hn
  · cases hu
    exact h.of_same (Nat.le_succ _) rfl fun n hn => .inr ⟨n, hn, rfl, rfl⟩
  · obtain ⟨irq, -, rfl⟩ := Option.map_eq_some_iff.mp hu
    exact h.handle irq
  · split_ifs at hu with hwork
    cases hu
    exact h.work hinv _ hwork.2.2.1 hwork.2.2.2
  · split_ifs at hu
    obtain ⟨irq, -, rfl⟩ := Option.map_eq_some_iff.mp hu
    exact h.kept rfl rfl fun n hn => hn
  · split_ifs at hu
    cases hu
    exact h.kept rfl rfl fun n hn => hn
  · split_ifs at hu with hadd
    cases hu
    refine h.of_same le_rfl rfl fun m hm => ?_
    rcases List.mem_append.mp hm with hm | hm
    · exact .inr ⟨m, hm, rfl, rfl⟩
    · rw [List.mem_singleton.mp hm]
      exact .inl (hinv.fresh _ hadd.2)
  · split_ifs at hu
    cases hu
    unfold GpioDev.releaseIsr
    split
    · exact h.kept rfl rfl fun n hn => List.mem_of_mem_erase hn
    · exact h
  · split_ifs at hu
    cases hu
    refine h.of_same le_rfl rfl fun n hn => .inr ?_
    rcases mem_atFirst hn with hn | ⟨m, hm, -, rfl⟩
    · exact ⟨n, hn, rfl, rfl⟩
    · exact ⟨m, hm, rfl, rfl⟩

/-- A list of times that are apart, and the last one comes first. -/
theorem length_mul_le {l : List Nat} {d t : Nat} (hapart : l.Pairwise fun later earlier => earlier + d ≤ later)
    (hpast : ∀ c ∈ l, d ≤ c ∧ c ≤ t) : l.length * d ≤ t := by
  induction l generalizing t with
  | nil => simp
  | cons c l ih =>
    rw [List.pairwise_cons] at hapart
    obtain ⟨hlate, hc⟩ := hpast c List.mem_cons_self
    have hrest : l.length * d ≤ c - d := ih hapart.2 fun b hb =>
      ⟨(hpast b (List.mem_cons_of_mem _ hb)).1, Nat.le_sub_of_add_le (hapart.1 b hb)⟩
    rw [List.length_cons, Nat.succ_mul]
    omega

end Times

end Emlinux.Gpio
