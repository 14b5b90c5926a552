import Emlinux.Spi.Matching

/-!
# Every message is completed

From every state that a timely run reaches, the worker can go on to the end of the queue: it is only stopped by the wait, and there
the transfer is in the hardware with its completion to come.
-/

namespace Emlinux.Spi

open Lib

/-- The steps of the worker for the transfers that are left. -/
def Phase.cost : Phase → Nat
  | .idle => 0
  | .leave _ => 1
  | .next _ rest => 2 + 9 * rest.length
  | .calm j => 3 + 9 * j.rest.length
  | .freed j => 4 + 9 * j.rest.length
  | .woken j => 5 + 9 * j.rest.length
  | .waiting j => 6 + 9 * j.rest.length
  | .loaded j => 7 + 9 * j.rest.length
  | .armed j => 8 + 9 * j.rest.length
  | .begun j => 9 + 9 * j.rest.length

/-- The steps of the worker for everything that is queued. -/
def Ctx.cost (s : Ctx) : Nat := s.phase.cost + (s.q.map fun m => 3 + 9 * m.transfers.length).sum

/-- The DMA layer gives no channel. -/
def noDma : Setup := ⟨false, false, false⟩

variable {d : Dev} {s : Ctx}

theorem timely_noDma (d : Dev) (s : Ctx) : Timely d s (.work noDma) := by
  simp only [Timely]
  split
  · intro h
    simp [Ctx.usesDma, noDma] at h
  · trivial

/-- Outside the wait, or with a completion, the worker goes on. -/
theorem work_cost (hq : ¬(s.phase = .idle ∧ s.q = [])) (hw : ∀ j, s.phase = .waiting j → s.done ≠ []) :
    ∃ u, s.work d noDma = some u ∧ u.cost < s.cost ∧ u.posted = s.posted := by
  unfold Ctx.work
  split
  · next hp =>
    split
    · next hq' => exact absurd ⟨hp, hq'⟩ hq
    · next m q hq' =>
      refine ⟨_, rfl, ?_, rfl⟩
      simp only [Ctx.cost, Phase.cost, hp, hq', List.map_cons, List.sum_cons]
      omega
  · next m hp =>
    refine ⟨_, rfl, ?_, rfl⟩
    simp only [Ctx.cost, Phase.cost, hp]
    omega
  · next m t rest hp =>
    obtain ⟨i, k, hc⟩ := configure_eq s m.cfg t
    rw [hc]
    refine ⟨_, rfl, ?_, rfl⟩
    simp only [Ctx.cost, Phase.cost, hp, List.length_cons]
    omega
  · next j hp =>
    rw [if_neg (by simp [Ctx.usesDma, noDma])]
    refine ⟨_, rfl, ?_, rfl⟩
    simp only [Ctx.cost, Phase.cost, hp]
    omega
  · next j hp =>
    refine ⟨_, rfl, ?_, rfl⟩
    simp only [Ctx.cost, Phase.cost, hp]
    omega
  · next j hp =>
    have hk := kept_start s j.cur j.dma
    refine ⟨_, rfl, ?_, hk.posted⟩
    simp only [Ctx.cost, Phase.cost, hp, hk.q]
    omega
  · next j hp =>
    split
    · next hd => exact absurd hd (hw j hp)
    · refine ⟨_, rfl, ?_, rfl⟩
      simp only [Ctx.cost, Phase.cost, hp]
      omega
  · next j hp =>
    refine ⟨_, rfl, ?_, rfl⟩
    simp only [Ctx.cost, Phase.cost, hp]
    omega
  · next j hp =>
    refine ⟨_, rfl, ?_, rfl⟩
    simp only [Ctx.cost, Phase.cost, hp]
    omega
  · next j hp =>
    split
    · refine ⟨_, rfl, ?_, rfl⟩
      simp only [Ctx.cost, Phase.cost, hp]
      omega
    · refine ⟨_, rfl, ?_, rfl⟩
      simp only [Ctx.cost, Phase.cost, hp]
      omega
  · next m hp =>
    refine ⟨_, rfl, ?_, rfl⟩
    simp only [Ctx.cost, Phase.cost, hp]
    omega

/-- A transfer without DMA is moved one FIFO after the other. -/
theorem pio_lands (n : Nat) : ∀ {s : Ctx} {j : Job} {b : Xfr}, Inv s → s.phase = .waiting j → Flying j s →
    j.dma = false → s.bp = some b → b.len - b.actual = n →
    ∃ u, Run (step d) (Timely d) s u ∧ Kept s u ∧ Inv u ∧ u.done ≠ [] := by
  induction n using Nat.strong_induction_on with
  | _ n ih =>
    intro s j b hI hp hf hd hb hn
    have hst : temt &&& s.ier ≠ 0 := by
      rw [BitVec.and_comm]
      exact hf.temt hd
    have hg : Timely d s (.spi temt) := fun he => absurd (by decide) he
    have hstep : step d s (.spi temt) = some (s.isr d temt) := if_pos hst
    have hk := kept_isr d s temt
    have hI' := inv_step hI hg hstep
    have hpos : 0 < d.fifosize * 2 ^ s.inc := Nat.mul_pos d.fifosize_pos (by positivity)
    have hisr : s.isr d temt =
        let b' := { b with actual := b.actual + min (d.fifosize * 2 ^ s.inc) (b.len - b.actual) }
        if b'.len - b'.actual = 0 then { s with ier := 0, bp := none }.event 0 else { s with bp := some b' } := by
      unfold Ctx.isr
      rw [if_neg (by decide), hb]
      simp only
      rw [if_pos (by decide)]
    dsimp only at hisr
    by_cases hz : b.len - (b.actual + min (d.fifosize * 2 ^ s.inc) (b.len - b.actual)) = 0
    · refine ⟨_, .next .start hg hstep, hk, hI', ?_⟩
      rw [if_pos hz] at hisr
      have hsta : s.sta = 0 := by
        by_contra hne
        have hdma := (hf.err hne).1
        rw [hd] at hdma
        cases hdma
      have hb₁ : s.busy = 1 := by simp [hf.busy, hd]
      rw [hisr, event_reported (by exact hsta) (by exact hb₁)]
      simp [Ctx.complete]
    · rw [if_neg hz] at hisr
      have hf' : Flying j (s.isr d temt) := by
        rw [hisr]
        obtain ⟨b₀, hb₀, hrx⟩ := hf.bp
        rw [hb] at hb₀
        cases hb₀
        exact ⟨hf.done, hf.busy, hf.dma, ⟨_, rfl, hrx⟩, hf.chan, hf.sta, hf.err, hf.ier, hf.temt⟩
      have hb' : (s.isr d temt).bp = some { b with
          actual := b.actual + min (d.fifosize * 2 ^ s.inc) (b.len - b.actual) } := by rw [hisr]
      have hlt : b.len - (b.actual + min (d.fifosize * 2 ^ s.inc) (b.len - b.actual)) < n := by omega
      obtain ⟨u, hrun, hku, hIu, hdu⟩ := ih _ hlt hI' (hk.phase.trans hp) hf' hd hb' rfl
      refine ⟨u, Run.trans (.next .start hg hstep) hrun, ?_, hIu, hdu⟩
      exact ⟨hku.phase.trans hk.phase, hku.q.trans hk.q, hku.outs.trans hk.outs, hku.log.trans hk.log,
        hku.posted.trans hk.posted⟩

/-- A wait is satisfied in the end. -/
theorem wait_ends {j : Job} (hI : Inv s) (hp : s.phase = .waiting j) :
    ∃ u, Run (step d) (Timely d) s u ∧ Kept s u ∧ Inv u ∧ u.done ≠ [] := by
  have hat := hI.place
  rw [hp] at hat
  obtain ⟨-, hf | ⟨hd, -⟩⟩ := hat
  · obtain ⟨b, hb, hrx⟩ := hf.bp
    by_cases hd : j.dma = true
    · have hc : s.chan = true := hf.chan.trans hd
      obtain ⟨u, hu⟩ : ∃ u, s.dmaDone 0 = some u := by
        unfold Ctx.dmaDone
        rw [hb]
        dsimp only
        split <;> exact ⟨_, rfl⟩
      have hstep : step d s (.dma false) = some u := by
        simp only [step, hc, if_true]
        exact hu
      have hg : Timely d s (.dma false) := trivial
      refine ⟨u, .next .start hg hstep, kept_dmaDone hu, inv_step hI hg hstep, ?_⟩
      rw [(hf.dmaDone hc hu).1]
      simp
    · exact pio_lands _ hI hp hf (by simpa using hd) hb rfl
  · refine ⟨s, .start, ⟨rfl, rfl, rfl, rfl, rfl⟩, hI, ?_⟩
    rw [hd]
    simp

/-- The worker can finish what is queued. -/
theorem queue_finishes (n : Nat) : ∀ {s : Ctx}, Inv s → s.cost = n →
    ∃ u, Run (step d) (Timely d) s u ∧ Inv u ∧ u.phase = .idle ∧ u.q = [] ∧ u.posted = s.posted := by
  induction n using Nat.strong_induction_on with
  | _ n ih =>
    intro s hI hn
    by_cases hq : s.phase = .idle ∧ s.q = []
    · exact ⟨s, .start, hI, hq.1, hq.2, rfl⟩
    · -- a wait first runs until its completion
      obtain ⟨t, hrun, hk, hIt, hw⟩ : ∃ t, Run (step d) (Timely d) s t ∧ Kept s t ∧ Inv t ∧
          ∀ j, t.phase = .waiting j → t.done ≠ [] := by
        by_cases hw : ∃ j, s.phase = .waiting j
        · obtain ⟨j, hj⟩ := hw
          obtain ⟨t, hrun, hk, hIt, hd⟩ := wait_ends (d := d) hI hj
          exact ⟨t, hrun, hk, hIt, fun _ _ => hd⟩
        · exact ⟨s, .start, ⟨rfl, rfl, rfl, rfl, rfl⟩, hI, fun j hj => absurd ⟨j, hj⟩ hw⟩
      have hcost : t.cost = s.cost := by
        unfold Ctx.cost
        rw [hk.phase, hk.q]
      obtain ⟨u, hu, hlt, hpost⟩ := work_cost (d := d) (s := t) (by rw [hk.phase, hk.q]; exact hq) hw
      have hIu := inv_step hIt (timely_noDma d t) hu
      obtain ⟨v, hrun', hIv, hpv, hqv, hmv⟩ := ih u.cost (by omega) hIu rfl
      refine ⟨v, ?_, hIv, hpv, hqv, hmv.trans (hpost.trans hk.posted)⟩
      exact (Run.next hrun (timely_noDma d t) hu).trans hrun'

/-- A FIFO of four words, and DMA. -/
def fourWords : Dev := ⟨4, true, by decide⟩

/-- A message that receives eight bytes, which is long enough for DMA. -/
def receiveEight (id : Nat) : Msg := ⟨id, ⟨0, 8, 1000⟩, false, [⟨true, false, 8, 0, 0⟩]⟩

def allDma : Setup := ⟨true, true, true⟩

end Emlinux.Spi
