import Emlinux.Spi.Worker

/-!
# Which completion satisfies which wait

What can go wrong is that an interrupt completes `done` for a transfer that is over. There are two ways: the wait for
a DMA is given up after a second, and an error of the SPI controller is reported after the DMA of its transfer is
complete. In the first case the message is completed as if nothing had happened, too. `Timely` excludes the two, and the two
kinds of transfer for which no completion comes: a DMA that only transmits (`spi_dmawait` clears `t->bp`, so
that `spi_isr` ignores the interrupt it asks for), and a transfer without buffers.

The invariant `At` says for each place of the worker what the interrupts may have left: nothing between two transfers (`Settled`), a
transfer in the hardware (`Flying`), or one that has reported (`Landed`).
-/

namespace Emlinux.Spi

open Lib

/-- The hardware may have been started for the transfer that the worker is at. -/
def Phase.started : Phase → Bool
  | .waiting _ | .woken _ | .freed _ => true
  | _ => false

/-- The steps of a timely run. -/
def Timely (d : Dev) (s : Ctx) : Act → Prop
  | .post m => ∀ t ∈ m.transfers, t.rx = true ∨ t.tx = true
  | .work o => match s.phase with
    | .begun j => s.usesDma d j.msg j.cur o = true → j.cur.rx = true
    | _ => True
  | .expire => False
  | .spi st => st &&& errs ≠ 0 → s.phase.started = true ∧ (s.bp.isSome = true ∨ (s.busy = 3 ∧ s.sta = 0))
  | .dma _ => True

instance (d : Dev) (s : Ctx) : (a : Act) → Decidable (Timely d s a)
  | .post m => inferInstanceAs (Decidable (∀ t ∈ m.transfers, t.rx = true ∨ t.tx = true))
  | .work o => match h : s.phase with
    | .begun j => decidable_of_iff (s.usesDma d j.msg j.cur o = true → j.cur.rx = true) (by simp [Timely, h])
    | .idle | .next _ _ | .armed _ | .loaded _ | .waiting _ | .woken _ | .freed _ | .calm _ | .leave _ =>
      isTrue (by simp [Timely, h])
  | .expire => inferInstanceAs (Decidable False)
  | .spi st => inferInstanceAs (Decidable (st &&& errs ≠ 0 → _ ∧ (_ ∨ (_ ∧ _))))
  | .dma _ => inferInstanceAs (Decidable True)

/-! ## The invariant -/

/-- Only the error interrupts are enabled, or none. -/
def OnlyErrs (ier : BitVec 32) : Prop := ier &&& errs = ier

theorem onlyErrs_zero : OnlyErrs 0 := by
  unfold OnlyErrs
  decide

theorem onlyErrs_errs : OnlyErrs errs := by
  unfold OnlyErrs
  decide

/-- An interrupt that such a mask lets through is an error. -/
theorem OnlyErrs.err {ier st : BitVec 32} (h : OnlyErrs ier) (hst : st &&& ier ≠ 0) : st &&& errs ≠ 0 := by
  intro he
  apply hst
  calc st &&& ier = st &&& (errs &&& ier) := by rw [BitVec.and_comm errs, h]
    _ = (st &&& errs) &&& ier := (BitVec.and_assoc _ _ _).symm
    _ = 0 := by rw [he]; simp

/-- The transfers `l` of the message are left, and the others went well. -/
def Left (m : Msg) (outs : List Outcome) (l : List Transfer) : Prop :=
  ∃ pre, m.transfers = pre ++ l ∧ pre.length = outs.length ∧ ∀ o ∈ outs, o.Clean

/-- Nothing is under way, and no completion is left. -/
structure Settled (s : Ctx) : Prop where
  done : s.done = []
  chan : s.chan = false
  ier : OnlyErrs s.ier

/-- A transfer that is prepared: no status yet. -/
structure Fresh (j : Job) (s : Ctx) : Prop extends Settled s where
  sta : s.sta = 0
  out : s.out = ⟨false, false, false⟩
  left : Left j.msg s.outs (j.cur :: j.rest)

/-- `busy` goes with the kind of transfer; a DMA receives. -/
structure Ready (j : Job) (s : Ctx) : Prop extends Fresh j s where
  busy : s.busy = if j.dma then 3 else 1
  dma : j.dma = true → j.cur.rx = true

/-- The transfer is in the hardware, which has its completion still to report. -/
structure Flying (j : Job) (s : Ctx) : Prop where
  done : s.done = []
  busy : s.busy = if j.dma then 3 else 1
  dma : j.dma = true → j.cur.rx = true
  bp : ∃ b, s.bp = some b ∧ b.rx = j.cur.rx
  chan : s.chan = j.dma
  sta : s.sta = 0 → s.out = ⟨false, false, false⟩
  err : s.sta ≠ 0 → j.dma = true ∧ s.ier = 0 ∧ s.out.erred = true
  ier : j.dma = true → OnlyErrs s.ier
  temt : j.dma = false → s.ier &&& temt ≠ 0

/-- The transfer has reported. Of the SPI controller only an error after the DMA can follow. -/
structure Landed (j : Job) (s : Ctx) : Prop where
  chan : s.chan = false
  ier : OnlyErrs s.ier
  clean : s.sta = 0 → s.out.Clean
  pio : j.dma = false → s.ier = 0
  dma : j.dma = true → s.bp = none

/-- What holds at each place of the worker. -/
def At (s : Ctx) : Phase → Prop
  | .idle => Settled s
  | .next m rest => Settled s ∧ Left m s.outs rest
  | .begun j => Fresh j s
  | .armed j => Ready j s
  | .loaded j => Ready j s ∧ s.bp = some ⟨j.cur.rx, j.cur.tx, j.dma, j.cur.len, 0⟩
  | .waiting j => Left j.msg s.outs (j.cur :: j.rest) ∧ (Flying j s ∨ (s.done = [s.serial] ∧ Landed j s))
  | .woken j => Left j.msg s.outs (j.cur :: j.rest) ∧ s.done = [] ∧ Landed j s
  | .freed j => Left j.msg s.outs (j.cur :: j.rest) ∧ s.done = [] ∧ Landed j s
  | .calm j => Left j.msg s.outs (j.cur :: j.rest) ∧ Settled s ∧ (s.sta = 0 → s.out.Clean)
  | .leave m => Settled s ∧ (s.sta = 0 → Left m s.outs [])

/-- The message the worker has taken. -/
def Phase.taken : Phase → List Msg
  | .idle => []
  | .next m _ | .leave m => [m]
  | .begun j | .armed j | .loaded j | .waiting j | .woken j | .freed j | .calm j => [j.msg]

/-- A message completed with status 0 had each of its transfers run to completion. -/
def Entry.Honest (e : Entry) : Prop := e.status = 0 → e.outs.length = e.msg.transfers.length ∧ ∀ o ∈ e.outs, o.Clean

structure Inv (s : Ctx) : Prop where
  place : At s s.phase
  order : s.log.map Entry.msg ++ s.phase.taken ++ s.q = s.posted
  honest : ∀ e ∈ s.log, e.Honest
  buffers : ∀ m ∈ s.posted, ∀ t ∈ m.transfers, t.rx = true ∨ t.tx = true

theorem inv_init : Inv init := ⟨⟨rfl, rfl, onlyErrs_zero⟩, rfl, by simp [init], by simp [init]⟩

/-! ## The interrupts -/

/-- What no interrupt touches. -/
structure Kept (s u : Ctx) : Prop where
  phase : u.phase = s.phase
  q : u.q = s.q
  outs : u.outs = s.outs
  log : u.log = s.log
  posted : u.posted = s.posted

theorem kept_event (s : Ctx) (e : Nat) : Kept s (s.event e) := by
  unfold Ctx.event
  dsimp only
  split
  · split
    · exact ⟨rfl, rfl, rfl, rfl, rfl⟩
    · exact ⟨rfl, rfl, rfl, rfl, rfl⟩
  · exact ⟨rfl, rfl, rfl, rfl, rfl⟩

theorem kept_isr (d : Dev) (s : Ctx) (st : BitVec 32) : Kept s (s.isr d st) := by
  unfold Ctx.isr
  split
  · obtain ⟨hp, hq, ho, hl, hm⟩ := kept_event { s with ier := 0 } 1
    exact ⟨hp, hq, ho, hl, hm⟩
  · split
    · exact ⟨rfl, rfl, rfl, rfl, rfl⟩
    · dsimp only
      split
      · split
        · obtain ⟨hp, hq, ho, hl, hm⟩ := kept_event { s with ier := 0, bp := none } 0
          exact ⟨hp, hq, ho, hl, hm⟩
        · exact ⟨rfl, rfl, rfl, rfl, rfl⟩
      · exact ⟨rfl, rfl, rfl, rfl, rfl⟩

theorem kept_dmaDone {s u : Ctx} {e : Nat} (hu : s.dmaDone e = some u) : Kept s u := by
  unfold Ctx.dmaDone at hu
  split at hu
  · cases hu
  · dsimp only at hu
    split at hu
    · cases hu
      exact ⟨rfl, rfl, rfl, rfl, rfl⟩
    · cases hu
      exact ⟨rfl, rfl, rfl, rfl, rfl⟩

/-- An interrupt keeps the invariant when it keeps what holds at the worker's place. -/
theorem Inv.of_kept {s u : Ctx} (h : Inv s) (hk : Kept s u) (hp : At u s.phase) : Inv u := by
  refine ⟨?_, ?_, ?_, ?_⟩
  · rw [hk.phase]
    exact hp
  · rw [hk.log, hk.phase, hk.q, hk.posted]
    exact h.order
  · rw [hk.log]
    exact h.honest
  · rw [hk.posted]
    exact h.buffers

section Interrupts

variable {d : Dev} {s : Ctx} {st : BitVec 32} {j : Job}

/-- With DMA the first error is noted and nothing is completed. -/
theorem event_noted (hs : s.sta = 0) (hb : s.busy = 3) :
    s.event 1 = { s with sta := 1, out := { s.out with erred := true } } := by
  unfold Ctx.event
  simp [hs, hb]

/-- Without DMA the first event completes. -/
theorem event_reported (hs : s.sta = 0) (hb : s.busy = 1) (e : Nat) :
    s.event e = { s with
      sta := e
      out := { s.out with ran := s.out.ran || e == 0, erred := s.out.erred || e != 0 } }.complete := by
  unfold Ctx.event
  simp [hs, hb]

/-- An error interrupt while the transfer is flying. -/
theorem Flying.err_isr (h : Flying j s) (hst : st &&& s.ier ≠ 0) (he : st &&& errs ≠ 0) :
    Flying j (s.isr d st) ∨ ((s.isr d st).done = [(s.isr d st).serial] ∧ Landed j (s.isr d st)) := by
  have hsta : s.sta = 0 := by
    by_contra hn
    rw [(h.err hn).2.1] at hst
    simp at hst
  have hout := h.sta hsta
  unfold Ctx.isr
  rw [if_pos he]
  by_cases hd : j.dma = true
  · left
    have hb : s.busy = 3 := by rw [h.busy, if_pos hd]
    rw [event_noted (by exact hsta) (by exact hb)]
    refine ⟨h.done, h.busy, h.dma, h.bp, h.chan, ?_, ?_, fun _ => onlyErrs_zero, ?_⟩
    · simp
    · simp [hd]
    · simp [hd]
  · right
    have hd' : j.dma = false := by simpa using hd
    have hb : s.busy = 1 := by rw [h.busy, if_neg hd]
    rw [event_reported (by exact hsta) (by exact hb)]
    refine ⟨?_, ⟨?_, onlyErrs_zero, ?_, fun _ => rfl, fun hn => absurd hn hd⟩⟩
    · simp [Ctx.complete, h.done]
    · exact h.chan.trans hd'
    · simp [Ctx.complete]

/-- A transmitter-empty interrupt of a transfer without DMA. -/
theorem Flying.temt_isr (h : Flying j s) (hst : st &&& s.ier ≠ 0) (he : st &&& errs = 0) :
    Flying j (s.isr d st) ∨ ((s.isr d st).done = [(s.isr d st).serial] ∧ Landed j (s.isr d st)) := by
  have hd : j.dma = false := by
    by_contra hn
    exact (h.ier (by simpa using hn)).err hst he
  have hsta : s.sta = 0 := by
    by_contra hn
    rw [(h.err hn).1] at hd
    cases hd
  obtain ⟨b, hb, hrx⟩ := h.bp
  unfold Ctx.isr
  rw [if_neg (by simpa using he), hb]
  simp only
  split
  · split
    · right
      have hb₁ : s.busy = 1 := by simp [h.busy, hd]
      rw [event_reported (by exact hsta) (by exact hb₁)]
      refine ⟨?_, ⟨?_, onlyErrs_zero, ?_, fun _ => rfl, ?_⟩⟩
      · simp [Ctx.complete, h.done]
      · exact h.chan.trans hd
      · intro _
        simp [Ctx.complete, Outcome.Clean, h.sta hsta]
      · intro hn
        rw [hd] at hn
        cases hn
    · exact .inl ⟨h.done, h.busy, h.dma, ⟨_, rfl, hrx⟩, h.chan, h.sta, h.err, h.ier, h.temt⟩
  · exact .inl h

/-- After the report: an error of the controller is noted, and does not complete again. -/
theorem Landed.isr {l : List Nat} (h : Landed j s) (hd : s.done = l) (hst : st &&& s.ier ≠ 0)
    (hg : s.bp.isSome = true ∨ (s.busy = 3 ∧ s.sta = 0)) :
    (s.isr d st).done = l ∧ (s.isr d st).serial = s.serial ∧ Landed j (s.isr d st) := by
  have hdma : j.dma = true := by
    by_contra hn
    rw [h.pio (by simpa using hn)] at hst
    simp at hst
  have hbp := h.dma hdma
  rw [hbp] at hg
  obtain hg | ⟨hb, hs⟩ := hg
  · cases hg
  · unfold Ctx.isr
    rw [if_pos (h.ier.err hst), event_noted (by exact hs) (by exact hb)]
    exact ⟨hd, rfl, ⟨h.chan, onlyErrs_zero, by simp, by simp [hdma], fun _ => hbp⟩⟩

/-- The DMA reports. -/
theorem Flying.dmaDone {e : Nat} {u : Ctx} (h : Flying j s) (hc : s.chan = true) (hu : s.dmaDone e = some u) :
    u.done = [u.serial] ∧ Landed j u := by
  have hd : j.dma = true := h.chan.symm.trans hc
  obtain ⟨b, hb, hrx⟩ := h.bp
  rw [h.dma hd] at hrx
  unfold Ctx.dmaDone at hu
  rw [hb] at hu
  simp only [hrx, if_true] at hu
  cases hu
  refine ⟨by simp [Ctx.complete, h.done], ⟨rfl, h.ier hd, ?_, by simp [hd], fun _ => rfl⟩⟩
  intro hz
  have hs : s.sta = 0 := by
    by_contra hn
    simp only [Ctx.complete, if_neg hn] at hz
    exact hn hz
  simp only [Ctx.complete, hs, if_true] at hz
  subst hz
  simp [Ctx.complete, Outcome.Clean, h.sta hs]

/-- Between two transfers no timely interrupt comes. -/
theorem Settled.not_spi (h : Settled s) (hst : st &&& s.ier ≠ 0) (hp : s.phase.started = false)
    (hg : Timely d s (.spi st)) : False := by
  have hn := (hg (h.ier.err hst)).1
  rw [hp] at hn
  cases hn

theorem At.isr {p : Phase} (hp : s.phase = p) (h : At s p) (hst : st &&& s.ier ≠ 0) (hg : Timely d s (.spi st)) :
    At (s.isr d st) p := by
  have houts := (kept_isr d s st).outs
  cases p with
  | idle => exact (Settled.not_spi h hst (by rw [hp]; rfl) hg).elim
  | next m rest => exact (h.1.not_spi hst (by rw [hp]; rfl) hg).elim
  | begun j => exact (Settled.not_spi h.toSettled hst (by rw [hp]; rfl) hg).elim
  | armed j => exact (Settled.not_spi h.toSettled hst (by rw [hp]; rfl) hg).elim
  | loaded j => exact (Settled.not_spi h.1.toSettled hst (by rw [hp]; rfl) hg).elim
  | waiting j =>
    obtain ⟨hl, hf | ⟨hd, hla⟩⟩ := h
    · by_cases he : st &&& errs = 0
      · exact ⟨houts ▸ hl, hf.temt_isr hst he⟩
      · exact ⟨houts ▸ hl, hf.err_isr hst he⟩
    · obtain ⟨hd', hs', hla'⟩ := hla.isr (d := d) hd hst (hg (hla.ier.err hst)).2
      exact ⟨houts ▸ hl, .inr ⟨by rw [hd', hs'], hla'⟩⟩
  | woken j =>
    obtain ⟨hl, hd, hla⟩ := h
    obtain ⟨hd', -, hla'⟩ := hla.isr (d := d) hd hst (hg (hla.ier.err hst)).2
    exact ⟨houts ▸ hl, hd', hla'⟩
  | freed j =>
    obtain ⟨hl, hd, hla⟩ := h
    obtain ⟨hd', -, hla'⟩ := hla.isr (d := d) hd hst (hg (hla.ier.err hst)).2
    exact ⟨houts ▸ hl, hd', hla'⟩
  | calm j => exact (h.2.1.not_spi hst (by rw [hp]; rfl) hg).elim
  | leave m => exact (h.1.not_spi hst (by rw [hp]; rfl) hg).elim

/-- Only a transfer that is flying has an active channel. -/
theorem At.dma {p : Phase} {e : Nat} {u : Ctx} (h : At s p) (hc : s.chan = true) (hu : s.dmaDone e = some u) :
    At u p := by
  have hno : s.chan = false → False := by
    intro hf
    rw [hc] at hf
    cases hf
  cases p with
  | idle => exact (hno (Settled.chan h)).elim
  | next m rest => exact (hno h.1.chan).elim
  | begun j => exact (hno (Fresh.toSettled h).chan).elim
  | armed j => exact (hno (Ready.toFresh h).chan).elim
  | loaded j => exact (hno h.1.chan).elim
  | waiting j =>
    obtain ⟨hl, hf | ⟨-, hla⟩⟩ := h
    · exact ⟨(kept_dmaDone hu).outs ▸ hl, .inr (hf.dmaDone hc hu)⟩
    · exact (hno hla.chan).elim
  | woken j => exact (hno h.2.2.chan).elim
  | freed j => exact (hno h.2.2.chan).elim
  | calm j => exact (hno h.2.1.chan).elim
  | leave m => exact (hno h.1.chan).elim

end Interrupts

/-! ## The worker -/

section Work

variable {d : Dev} {s u : Ctx}

theorem spiCfg_eq (s : Ctx) (c : Cfg) : ∃ i, s.spiCfg c = { s with inc := i } := by
  unfold Ctx.spiCfg
  split
  · exact ⟨s.inc, rfl⟩
  · exact ⟨_, rfl⟩

/-- The settings are the word size and the device they are for. -/
theorem configure_eq (s : Ctx) (c : Cfg) (t : Transfer) : ∃ i k, s.configure c t = { s with inc := i, cs := k } := by
  have hfirst : ∃ i k, (if t.speed ≠ 0 ∨ t.bits ≠ 0 then
      { s with cs := some c.cs }.spiCfg { c with
        word := if t.bits ≠ 0 then t.bits % 64 else c.word
        baud := if t.speed ≠ 0 then t.speed else c.baud }
      else s) = { s with inc := i, cs := k } := by
    split
    · obtain ⟨i, hi⟩ := spiCfg_eq { s with cs := some c.cs } { c with
        word := if t.bits ≠ 0 then t.bits % 64 else c.word
        baud := if t.speed ≠ 0 then t.speed else c.baud }
      exact ⟨i, some c.cs, hi⟩
    · exact ⟨s.inc, s.cs, rfl⟩
  obtain ⟨i, k, h⟩ := hfirst
  unfold Ctx.configure
  rw [h]
  dsimp only
  split
  · obtain ⟨i', hi⟩ := spiCfg_eq { s with inc := i, cs := some c.cs } c
    exact ⟨i', some c.cs, hi⟩
  · exact ⟨i, k, rfl⟩

theorem Left.next {m : Msg} {outs : List Outcome} {o : Outcome} {t : Transfer} {l : List Transfer}
    (h : Left m outs (t :: l)) (ho : o.Clean) : Left m (outs ++ [o]) l := by
  obtain ⟨pre, hm, hlen, hc⟩ := h
  refine ⟨pre ++ [t], ?_, ?_, ?_⟩
  · rw [hm, List.append_assoc, List.singleton_append]
  · rw [List.length_append, List.length_append, hlen]
    rfl
  · intro x hx
    obtain hx | hx := List.mem_append.1 hx
    · exact hc x hx
    · rw [List.mem_singleton.1 hx]
      exact ho

/-- The transfer that is prepared goes into the hardware. -/
theorem Ready.start {j : Job} (h : Ready j s) (hb : s.bp = some ⟨j.cur.rx, j.cur.tx, j.dma, j.cur.len, 0⟩)
    (hbuf : j.cur.rx = true ∨ j.cur.tx = true) : Flying j (s.start j.cur j.dma) := by
  have herr : s.sta ≠ 0 → False := fun hn => hn h.sta
  unfold Ctx.start
  split
  · next hd =>
    exact ⟨h.done, h.busy, h.dma, ⟨_, hb, rfl⟩, hd.symm, fun _ => h.out, fun hn => (herr hn).elim,
      fun _ => onlyErrs_errs, fun hf => by rw [hd] at hf; cases hf⟩
  · next hd =>
    have hd' : j.dma = false := by simpa using hd
    have hc : s.chan = j.dma := h.chan.trans hd'.symm
    split
    · exact ⟨h.done, h.busy, h.dma, ⟨_, hb, rfl⟩, hc, fun _ => h.out, fun hn => (herr hn).elim,
        fun hf => absurd hf hd, fun _ => show temt &&& temt ≠ 0 by decide⟩
    · next htx =>
      rw [if_pos (hbuf.resolve_right htx)]
      exact ⟨h.done, h.busy, h.dma, ⟨_, hb, rfl⟩, hc, fun _ => h.out, fun hn => (herr hn).elim,
        fun hf => absurd hf hd, fun _ => show (temt ||| errs) &&& temt ≠ 0 by decide⟩

theorem kept_start (s : Ctx) (t : Transfer) (dma : Bool) : Kept s (s.start t dma) := by
  unfold Ctx.start
  split
  · exact ⟨rfl, rfl, rfl, rfl, rfl⟩
  · split
    · exact ⟨rfl, rfl, rfl, rfl, rfl⟩
    · split
      · exact ⟨rfl, rfl, rfl, rfl, rfl⟩
      · exact ⟨rfl, rfl, rfl, rfl, rfl⟩

/-- A step of the worker within a message. -/
theorem Inv.within (h : Inv s) (hp : At u u.phase) (ht : u.phase.taken = s.phase.taken) (hl : u.log = s.log)
    (hq : u.q = s.q) (hm : u.posted = s.posted) : Inv u := by
  refine ⟨hp, ?_, ?_, ?_⟩
  · rw [hl, ht, hq, hm]
    exact h.order
  · rw [hl]
    exact h.honest
  · rw [hm]
    exact h.buffers

/-- Every transfer of the message that the worker has taken has a buffer. -/
theorem Inv.taken_buffers {m : Msg} (h : Inv s) (hm : m ∈ s.phase.taken) :
    ∀ t ∈ m.transfers, t.rx = true ∨ t.tx = true := by
  apply h.buffers
  rw [← h.order]
  exact List.mem_append_left _ (List.mem_append_right _ hm)

theorem Left.mem {m : Msg} {outs : List Outcome} {t : Transfer} {l : List Transfer} (h : Left m outs (t :: l)) :
    t ∈ m.transfers := by
  obtain ⟨pre, hm, -⟩ := h
  rw [hm]
  simp

theorem Inv.work {o : Setup} (h : Inv s) (hg : Timely d s (.work o)) (hu : s.work d o = some u) : Inv u := by
  have hI := h.place
  unfold Ctx.work at hu
  split at hu
  · -- the next message
    next hp =>
    rw [hp] at hI
    split at hu
    · cases hu
    · next m q hq =>
      cases hu
      refine ⟨⟨⟨hI.done, hI.chan, hI.ier⟩, [], rfl, rfl, by simp⟩, ?_, h.honest, h.buffers⟩
      have ho := h.order
      rw [hp, hq] at ho
      simpa [Phase.taken] using ho
  · -- the message has no more transfers
    next m hp =>
    rw [hp] at hI
    cases hu
    exact h.within ⟨⟨hI.1.done, hI.1.chan, hI.1.ier⟩, fun _ => hI.2⟩ (by rw [hp]; rfl) rfl rfl rfl
  · next m t rest hp =>
    rw [hp] at hI
    obtain ⟨i, k, hc⟩ := configure_eq s m.cfg t
    rw [hc] at hu
    cases hu
    exact h.within ⟨⟨hI.1.done, hI.1.chan, hI.1.ier⟩, rfl, rfl, hI.2⟩ (by rw [hp]; rfl) rfl rfl rfl
  · next j hp =>
    rw [hp] at hI
    split at hu
    · next hd =>
      cases hu
      have hrx : j.cur.rx = true := by
        unfold Timely at hg
        rw [hp] at hg
        exact hg hd
      exact h.within ⟨⟨⟨hI.done, hI.chan, hI.ier⟩, hI.sta, hI.out, hI.left⟩, rfl, fun _ => hrx⟩ (by rw [hp]; rfl) rfl rfl rfl
    · cases hu
      exact h.within ⟨⟨⟨hI.done, hI.chan, hI.ier⟩, hI.sta, hI.out, hI.left⟩, rfl, by simp⟩ (by rw [hp]; rfl) rfl rfl rfl
  · next j hp =>
    rw [hp] at hI
    cases hu
    exact h.within ⟨⟨⟨⟨hI.done, hI.chan, hI.ier⟩, hI.sta, hI.out, hI.left⟩, hI.busy, Ready.dma hI⟩, rfl⟩
      (by rw [hp]; rfl) rfl rfl rfl
  · next j hp =>
    rw [hp] at hI
    cases hu
    have hbuf := h.taken_buffers (m := j.msg) (by rw [hp]; simp [Phase.taken]) j.cur hI.1.left.mem
    have hf := hI.1.start hI.2 hbuf
    have hk := kept_start s j.cur j.dma
    refine h.within ⟨?_, .inl ⟨hf.done, hf.busy, hf.dma, hf.bp, hf.chan, hf.sta, hf.err, hf.ier, hf.temt⟩⟩
      (by rw [hp]; rfl) hk.log hk.q hk.posted
    rw [hk.outs]
    exact hI.1.left
  · next j hp =>
    rw [hp] at hI
    split at hu
    · cases hu
    · next n l hd =>
      cases hu
      obtain ⟨hl, hf | ⟨hd', hla⟩⟩ := hI
      · rw [hf.done] at hd
        cases hd
      · rw [hd'] at hd
        cases hd
        exact h.within ⟨hl, rfl, ⟨hla.chan, hla.ier, hla.clean, hla.pio, hla.dma⟩⟩ (by rw [hp]; rfl) rfl rfl rfl
  · next j hp =>
    rw [hp] at hI
    cases hu
    obtain ⟨hl, hd, hla⟩ := hI
    exact h.within ⟨hl, hd, ⟨rfl, hla.ier, hla.clean, hla.pio, hla.dma⟩⟩ (by rw [hp]; rfl) rfl rfl rfl
  · next j hp =>
    rw [hp] at hI
    cases hu
    obtain ⟨hl, hd, hla⟩ := hI
    exact h.within ⟨hl, ⟨hd, hla.chan, hla.ier⟩, hla.clean⟩ (by rw [hp]; rfl) rfl rfl rfl
  · next j hp =>
    rw [hp] at hI
    obtain ⟨hl, hs, hc⟩ := hI
    split at hu
    · next hsta =>
      cases hu
      exact h.within ⟨⟨hs.done, hs.chan, hs.ier⟩, fun hz => absurd hz hsta⟩ (by rw [hp]; rfl) rfl rfl rfl
    · next hsta =>
      cases hu
      exact h.within ⟨⟨hs.done, hs.chan, hs.ier⟩, hl.next (hc (by simpa using hsta))⟩ (by rw [hp]; rfl) rfl rfl rfl
  · -- the message is completed
    next m hp =>
    rw [hp] at hI
    cases hu
    obtain ⟨hs, hl⟩ := hI
    refine ⟨⟨hs.done, hs.chan, hs.ier⟩, ?_, ?_, h.buffers⟩
    · have ho := h.order
      rw [hp] at ho
      simpa [Phase.taken] using ho
    · intro e he
      obtain he | he := List.mem_append.1 he
      · exact h.honest e he
      · rw [List.mem_singleton.1 he]
        intro hz
        have hsta : s.sta = 0 := by
          by_contra hn
          simp [hn] at hz
        obtain ⟨pre, hm, hlen, hc⟩ := hl hsta
        refine ⟨?_, hc⟩
        simp only [hm, List.append_nil, hlen]

end Work

/-- A new message changes nothing for the one the worker is at. -/
theorem At.post {s : Ctx} {p : Phase} (h : At s p) (q l : List Msg) : At { s with q := q, posted := l } p := by
  have hset : Settled s → Settled { s with q := q, posted := l } := fun h => ⟨h.done, h.chan, h.ier⟩
  have hfresh : ∀ {j}, Fresh j s → Fresh j { s with q := q, posted := l } :=
    fun h => ⟨hset h.toSettled, h.sta, h.out, h.left⟩
  have hland : ∀ {j}, Landed j s → Landed j { s with q := q, posted := l } :=
    fun h => ⟨h.chan, h.ier, h.clean, h.pio, h.dma⟩
  cases p with
  | idle => exact hset h
  | next m rest => exact ⟨hset h.1, h.2⟩
  | begun j => exact hfresh h
  | armed j =>
    obtain ⟨hf, hb, hd⟩ := h
    exact ⟨hfresh hf, hb, hd⟩
  | loaded j => exact ⟨⟨hfresh h.1.toFresh, h.1.busy, h.1.dma⟩, h.2⟩
  | waiting j =>
    obtain ⟨hl, hf | ⟨hd, hla⟩⟩ := h
    · exact ⟨hl, .inl ⟨hf.done, hf.busy, hf.dma, hf.bp, hf.chan, hf.sta, hf.err, hf.ier, hf.temt⟩⟩
    · exact ⟨hl, .inr ⟨hd, hland hla⟩⟩
  | woken j => exact ⟨h.1, h.2.1, hland h.2.2⟩
  | freed j => exact ⟨h.1, h.2.1, hland h.2.2⟩
  | calm j => exact ⟨h.1, hset h.2.1, h.2.2⟩
  | leave m => exact ⟨hset h.1, h.2⟩

/-- One timely step. -/
theorem inv_step {d : Dev} {s u : Ctx} {a : Act} (h : Inv s) (hg : Timely d s a) (hu : step d s a = some u) : Inv u := by
  cases a with
  | post m =>
    cases hu
    refine ⟨h.place.post _ _, ?_, h.honest, ?_⟩
    · show _ ++ _ ++ (s.q ++ [m]) = s.posted ++ [m]
      rw [← h.order, List.append_assoc _ s.q]
    · intro x hx
      obtain hx | hx := List.mem_append.1 hx
      · exact h.buffers x hx
      · rw [List.mem_singleton.1 hx]
        exact hg
  | work o => exact h.work hg hu
  | expire => exact hg.elim
  | spi st =>
    simp only [step] at hu
    split at hu
    · next hst =>
      cases hu
      exact h.of_kept (kept_isr d s st) (At.isr rfl h.place hst hg)
    · cases hu
  | dma err =>
    simp only [step] at hu
    split at hu
    · next hc => exact h.of_kept (kept_dmaDone hu) (h.place.dma hc hu)
    · cases hu

end Emlinux.Spi
