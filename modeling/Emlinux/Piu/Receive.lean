import Emlinux.Lib.Run
import Emlinux.Piu.Device

/-!
# Receiving messages of the DSP

A `Receiver` is the device, the DSP that writes messages into slots 1 and 2, and processes inside `piu_rx` and
`piu_rx_msg`. The interrupt routine is one step, and so is the critical section of `piu_rx`. What follows it is not under
the lock and is split where an interrupt or another process can come between: the copy of the message, the
acknowledgement through `COM1`, and the read and the write of the mask register in `piu_int_ena`. `piu_rx_msg` reads
the flags one by one without the lock.

The blocking commands: an unacknowledged command whose interrupt was served is never forgotten, as long as a listener (or
the audio control) takes it, its length is in range and no ioctl resets the flags while it is pending (`Careful`).
-/

namespace Emlinux.Piu

open Lib

/-- A message of the DSP: the slot it came through, the reply register and the body. -/
abbrev Packet := Evt × Word × Msg

/-- The place of a process in `piu_rx` (`taken` to `enabling`) or in `piu_rx_msg` (`peek…`). -/
inductive RxPc where
  | idle
  | taken (e : Evt)
  | copied (m : Word × Msg)
  | replied (e : Evt) (m : Word × Msg)
  | enabling (e : Evt) (m : Word × Msg) (mask : Word)
  | peekNonblock
  | peekBlock
  | peekReg (e : Evt)
deriving DecidableEq

/-- The slot chosen by a `piu_rx` that has not looked at its length yet. -/
def RxPc.chosen : RxPc → Option Evt
  | .taken e => some e
  | _ => none

/-- Chosen by `piu_rx` out of slot 1 and not yet acknowledged. -/
def RxPc.taking : RxPc → Bool
  | .taken e => decide (e = .msgIn)
  | .copied _ => true
  | _ => false

/-- `unread e`: the DSP's last message in the slot has not been read (slot 2) or acknowledged (slot 1). `cleared`: the
interrupt of the last blocking message was served. `named` is the answer of the last `piu_rx_msg`, if a message was pending and none was
returned since; `returned` keeps it beside each message. `rejects` keeps, for each message rejected with an error,
whether its slot's interrupt was enabled right after. -/
structure Receiver (P : Type) where
  dev : Dev
  pc : P → RxPc
  unread : Evt → Bool
  cleared : Bool
  named : Option Word
  sent : List Packet
  handled : List Packet
  returned : List (Packet × Option Word)
  rejects : List (Evt × Bool)

inductive RxAction (P : Type) where
  | send (e : Evt) (msg : Word) (body : Msg)
  | irq
  | rx (p : P)
  | rxMsg (p : P)
  | go (p : P)
  | ioctl (c : Dev.Ioctl)
  | openFile
  | release (file : Nat)
  | fasync (file : Nat) (mode : Bool)

namespace Dev

variable (t : Dev)

/-- The DSP writes a message into a slot: the body to shared memory, then the reply register. -/
def dspSend (e : Evt) (msg : Word) (b : Msg) : Dev :=
  let hw := t.piuHw.wr32 e.slot false msg
  { t with
    piuHw := { hw with status := hw.status ||| e.mask }
    mem := if e = .nonblockMsgIn then { t.mem with lenS := b.len, typeS := b.type, arrayS := b.p }
      else { t.mem with rxLen := b.len, rxType := b.type, rxArray := b.p } }

/-- The interrupt of the slot is about to be served. -/
def served (e : Evt) : Bool := t.piuHw.enabled e && t.piuHw.raised e

/-- The message in a slot, with the slot. -/
def packet (e : Evt) : Packet := (e, t.slotMsg e)

/-- The messages about to be served, in the order of `piu_isr`. -/
def arriving : List Packet :=
  (if t.served .msgIn then [t.packet .msgIn] else []) ++ (if t.served .nonblockMsgIn then [t.packet .nonblockMsgIn] else [])

/-- The pending messages: what `piu_rx` will return, first one first. -/
def queue : List Evt :=
  if t.blockFirst then .msgIn :: (if t.raiseNonblock then [.nonblockMsgIn] else [])
  else (if t.raiseNonblock then [.nonblockMsgIn] else []) ++ (if t.raiseBlock then [.msgIn] else [])

end Dev

namespace Receiver

variable {P : Type} [DecidableEq P] (s : Receiver P)

/-- `sslpiu_irq`. -/
def irq : Receiver P :=
  let r := s.dev.piuIsr.2
  { s with
    dev := r.1
    unread := if r.2.any (fun n => n matches .acked _) then Function.update s.unread .msgIn false else s.unread
    cleared := s.cleared || s.dev.served .msgIn
    handled := s.handled ++ s.dev.arriving
    rejects := s.rejects ++ r.2.filterMap
      (fun n => match n with | .rejected e => some (e, r.1.piuHw.enabled e) | _ => none) }

/-- The next line of a process. -/
def goLine (p : P) : Option (Receiver P) :=
  match s.pc p with
  | .idle => none
  | .taken e =>
    if (s.dev.slotLen e).toNat > internalMem then
      some { s with pc := Function.update s.pc p .idle, rejects := s.rejects ++ [(e, s.dev.piuHw.enabled e)] }
    else if e = .msgIn then some { s with pc := Function.update s.pc p (.copied (s.dev.slotMsg e)) }
    else some { s with
      pc := Function.update s.pc p (.replied e (s.dev.slotMsg e)), unread := Function.update s.unread e false }
  | .copied m => some { s with
      dev := { s.dev with piuHw := s.dev.piuHw.wr32 1 true m.1 }
      pc := Function.update s.pc p (.replied .msgIn m), unread := Function.update s.unread .msgIn false }
  | .replied e m => some { s with pc := Function.update s.pc p (.enabling e m s.dev.piuHw.intmask) }
  | .enabling e m v => some { s with
      dev := { s.dev with piuHw := { s.dev.piuHw with intmask := v ||| (e.mask &&& hints) } }
      pc := Function.update s.pc p .idle, returned := s.returned ++ [((e, m), s.named)], named := none }
  | .peekNonblock => some { s with
      pc := Function.update s.pc p (if s.dev.raiseNonblock then .peekReg .nonblockMsgIn else .peekBlock) }
  -- with and without a pending blocking message the answer is read from slot 1
  | .peekBlock => some { s with pc := Function.update s.pc p (.peekReg .msgIn) }
  | .peekReg e => some { s with
      pc := Function.update s.pc p .idle
      named := if s.dev.queue = [] then none else some (s.dev.piuHw.rd32 e.slot false) }

/-- The critical section of `piu_rx`; a call that finds nothing pending returns at once. -/
def startRx (p : P) : Receiver P :=
  match s.dev.rxSelect with
  | (t, some e) => { s with dev := t, pc := Function.update s.pc p (.taken e) }
  | (t, none) => { s with dev := t }

def step : RxAction P → Option (Receiver P)
  | .send e msg b =>
    if e = .ackIn then none
    else
      let dev := s.dev.dspSend e msg b
      some { s with
        dev := dev, unread := Function.update s.unread e true, cleared := s.cleared && decide (e ≠ .msgIn)
        sent := s.sent ++ [dev.packet e] }
  | .irq => some s.irq
  | .rx p => if s.pc p = .idle then some (s.startRx p) else none
  | .rxMsg p =>
    if s.pc p = .idle then
      some { s with pc := Function.update s.pc p (if s.dev.blockFirst then .peekReg .msgIn else .peekNonblock) }
    else none
  | .go p => s.goLine p
  | .ioctl c => some { s with dev := s.dev.ioctl c }
  | .openFile => some { s with dev := s.dev.openFile }
  | .release file => some { s with dev := s.dev.release file }
  | .fasync file mode => some { s with dev := s.dev.fasync file mode }

/-- A device with no process inside and no message sent. -/
def start (t : Dev) : Receiver P where
  dev := t
  pc := fun _ => .idle
  unread := fun _ => false
  cleared := false
  named := none
  sent := []
  handled := []
  returned := []
  rejects := []

end Receiver

/-! ## Blocking commands are not swallowed -/

/-- A blocking command is in the hands of a process: chosen by `piu_rx` and not yet acknowledged. -/
def Taking {P : Type} (pc : P → RxPc) : Prop := ∃ p, (pc p).taking = true

/-- An unacknowledged blocking command whose interrupt was served is pending or on its way out of `piu_rx`, and every rejected
message left the interrupt of its slot enabled. -/
structure Kept {P : Type} (s : Receiver P) : Prop where
  pending : s.unread .msgIn = true → s.cleared = true → s.dev.raiseBlock = true ∨ Taking s.pc
  rejects : ∀ x ∈ s.rejects, x.2 = true

/-- The interrupt of a blocking command is served with a listener registered or by the audio control with a length in range, `piu_rx` finds
a length in range, and the ioctls come while no blocking command is pending. -/
def Careful {P : Type} (s : Receiver P) : RxAction P → Prop
  | .irq => s.dev.served .msgIn = true →
      if s.dev.piuHw.rd32 1 false = 2#32 then s.dev.mem.rxLen.toNat ≤ internalMem else s.dev.fasyncP ≠ []
  | .go p => ∀ e ∈ (s.pc p).chosen, (s.dev.slotLen e).toNat ≤ internalMem
  | .ioctl _ => s.dev.raiseBlock = false
  | _ => True

instance {P : Type} (s : Receiver P) : (a : RxAction P) → Decidable (Careful s a)
  | .irq => by unfold Careful; infer_instance
  | .go p => inferInstanceAs (Decidable (∀ e ∈ (s.pc p).chosen, (s.dev.slotLen e).toNat ≤ internalMem))
  | .ioctl _ => inferInstanceAs (Decidable (s.dev.raiseBlock = false))
  | .send _ _ _ | .rx _ | .rxMsg _ | .openFile | .release _ | .fasync _ _ => inferInstanceAs (Decidable True)

/-! ## What the interrupt does to the receiver -/

namespace Dev

variable (t : Dev)

/-- After the status bits are cleared and the acknowledgement, if there is one, is handled. -/
def isrAck : Dev :=
  let t' := { t with piuHw := t.piuHw.wrStatus t.pendingInts }
  if t.served .ackIn then t'.handleAck else t'

/-- And after the blocking message is handled. -/
def isrMsg : Dev × List Note := if t.served .msgIn then t.isrAck.handleMsg else (t.isrAck, [])

/-- And after the non-blocking one. -/
def isrNonblock : Dev × List Note :=
  if t.served .nonblockMsgIn then t.isrMsg.1.handleNonblock else (t.isrMsg.1, [])

theorem serve_pendingInts (e : Evt) (r : Dev × List Note) :
    serve t.pendingInts e r = if t.served e then ((r.1.handler e).1, r.2 ++ (r.1.handler e).2) else r := by
  unfold serve
  by_cases h : t.served e = true
  · rw [if_pos h, if_pos ((and_mask_ne_zero _ _).mpr (by rw [getLsbD_pendingInts]; exact h))]
  · rw [if_neg h, if_neg (fun hx => h (by rw [and_mask_ne_zero, getLsbD_pendingInts] at hx; exact hx))]

theorem wrStatus_zero (r : Regs) : r.wrStatus 0 = r := by
  have h : ~~~(0 : Word) = BitVec.allOnes 32 := by decide
  unfold Regs.wrStatus
  rw [h, BitVec.and_allOnes]

theorem piuIsr_eq : t.piuIsr.2 = (t.isrNonblock.1, t.isrMsg.2 ++ t.isrNonblock.2) := by
  have key : serve t.pendingInts .nonblockMsgIn (serve t.pendingInts .msgIn (serve t.pendingInts .ackIn
      ({ t with piuHw := t.piuHw.wrStatus t.pendingInts }, []))) = (t.isrNonblock.1, t.isrMsg.2 ++ t.isrNonblock.2) := by
    rw [serve_pendingInts, serve_pendingInts, serve_pendingInts]
    unfold isrNonblock isrMsg isrAck handler
    by_cases h0 : t.served .ackIn <;> by_cases h1 : t.served .msgIn <;> by_cases h2 : t.served .nonblockMsgIn <;>
      simp [h0, h1, h2]
  unfold piuIsr
  dsimp only
  split_ifs with h
  · -- with no interrupt pending the calls below do nothing
    rw [← key, h, wrStatus_zero]
    simp [serve]
  · exact key

theorem isrAck_frame : t.isrAck.mem = t.mem ∧ t.isrAck.piuHw.rep = t.piuHw.rep ∧ t.isrAck.fasyncP = t.fasyncP ∧
    t.isrAck.status = t.status ∧ t.isrAck.raiseBlock = t.raiseBlock ∧ t.isrAck.raiseNonblock = t.raiseNonblock ∧
    t.isrAck.blockFirst = t.blockFirst ∧ t.isrAck.piuHw.intmask = t.piuHw.intmask ∧
    t.isrAck.piuHw.status = t.piuHw.status &&& ~~~t.pendingInts := by
  unfold isrAck
  dsimp only
  split_ifs <;> exact ⟨rfl, rfl, rfl, rfl, rfl, rfl, rfl, rfl, rfl⟩

/-- The handling of a non-blocking message does not touch the blocking side. -/
theorem handleNonblock_block : t.handleNonblock.1.raiseBlock = t.raiseBlock ∧
    (∀ m, Note.acked m ∉ t.handleNonblock.2) ∧ ∀ e, Note.rejected e ∈ t.handleNonblock.2 → e = .nonblockMsgIn ∧
      t.handleNonblock.1 = t := by
  unfold handleNonblock
  split_ifs <;> simp [raiseNonblockMsg, intDis]

theorem handleMsg_careful (h : if t.piuHw.rd32 1 false = 2#32 then t.mem.rxLen.toNat ≤ internalMem else t.fasyncP ≠ []) :
    (t.handleMsg.1.raiseBlock = true ∨ ∃ m, Note.acked m ∈ t.handleMsg.2) ∧ ∀ e, Note.rejected e ∉ t.handleMsg.2 := by
  unfold handleMsg
  dsimp only
  split_ifs at h with hid
  · rw [if_pos hid, if_neg (by omega)]
    simp
  · rw [if_neg hid, if_pos h]
    simp [raiseMsg]

end Dev

variable {P : Type} {s s' : Receiver P}

theorem Kept.irq (h : Kept s) (hok : Careful s .irq) : Kept s.irq := by
  have hrep : s.dev.isrAck.piuHw.rd32 1 false = s.dev.piuHw.rd32 1 false := congrFun s.dev.isrAck_frame.2.1 1
  have hmem : s.dev.isrAck.mem = s.dev.mem := s.dev.isrAck_frame.1
  have hfas : s.dev.isrAck.fasyncP = s.dev.fasyncP := s.dev.isrAck_frame.2.2.1
  have hblock : s.dev.isrNonblock.1.raiseBlock = s.dev.isrMsg.1.raiseBlock := by
    unfold Dev.isrNonblock
    split_ifs
    · exact (Dev.handleNonblock_block _).1
    · rfl
  -- what serving the blocking message leaves
  have hmsg : s.dev.served .msgIn = true → (s.dev.isrMsg.1.raiseBlock = true ∨ ∃ m, Note.acked m ∈ s.dev.isrMsg.2) ∧
      ∀ e, Note.rejected e ∉ s.dev.isrMsg.2 := by
    intro hs
    unfold Dev.isrMsg
    rw [if_pos hs]
    apply Dev.handleMsg_careful
    rw [hrep, hmem, hfas]
    exact hok hs
  have hidle : s.dev.served .msgIn = false → s.dev.isrMsg = (s.dev.isrAck, []) := by
    intro hs
    unfold Dev.isrMsg
    rw [hs]
    simp
  unfold Receiver.irq
  rw [s.dev.piuIsr_eq]
  refine ⟨fun hu hc => ?_, fun x hx => ?_⟩
  · dsimp only at hu hc ⊢
    rw [hblock]
    split_ifs at hu with hn
    · simp at hu
    cases hs : s.dev.served .msgIn with
    | true =>
      rcases (hmsg hs).1 with hr | ⟨m, hm⟩
      · exact Or.inl hr
      · exact absurd (List.any_eq_true.mpr ⟨_, List.mem_append_left _ hm, rfl⟩) hn
    | false =>
      rw [hidle hs, s.dev.isrAck_frame.2.2.2.2.1]
      rw [hs, Bool.or_false] at hc
      exact h.pending hu hc
  · dsimp only at hx
    rcases List.mem_append.mp hx with hx | hx
    · exact h.rejects x hx
    obtain ⟨n, hn, hne⟩ := List.mem_filterMap.mp hx
    cases n with
    | rejected e =>
      simp only [Option.some.injEq] at hne
      subst hne
      dsimp only
      rcases List.mem_append.mp hn with hn | hn
      · cases hs : s.dev.served .msgIn with
        | true => exact absurd hn ((hmsg hs).2 e)
        | false => simp [hidle hs] at hn
      · -- the sound card's message was too long; its interrupt was never masked
        unfold Dev.isrNonblock at hn ⊢
        split_ifs at hn ⊢ with hs
        · obtain ⟨rfl, heq⟩ := (Dev.handleNonblock_block _).2.2 e hn
          rw [heq]
          have hen : s.dev.piuHw.enabled .nonblockMsgIn = true := by
            unfold Dev.served at hs
            exact (Bool.and_eq_true_iff.mp hs).1
          have hack : s.dev.isrAck.piuHw.enabled .nonblockMsgIn = true := by
            unfold Regs.enabled
            rw [s.dev.isrAck_frame.2.2.2.2.2.2.2.1]
            exact hen
          unfold Dev.isrMsg Dev.handleMsg
          dsimp only
          split_ifs <;> simp [Dev.raiseMsg, Dev.intDis, hack]
        · simp at hn
    | acked m => simp at hne
    | signalled e => simp at hne
    | audioCtl p => simp at hne
    | pcm p => simp at hne

/-- Steps that leave the flag of slot 1 alone. -/
theorem Kept.frame (h : Kept s) {t : Dev} (ht : t.raiseBlock = s.dev.raiseBlock) : Kept { s with dev := t } := by
  refine ⟨fun hu hc => ?_, h.rejects⟩
  dsimp only
  rw [ht]
  exact h.pending hu hc

variable [DecidableEq P]

theorem Taking.update {pc : P → RxPc} (h : Taking pc) {p : P} {c : RxPc} (hc : (pc p).taking = false ∨ c.taking = true) :
    Taking (Function.update pc p c) := by
  obtain ⟨q, hq⟩ := h
  by_cases hqp : q = p
  · subst hqp
    rcases hc with hc | hc
    · rw [hc] at hq
      cases hq
    · exact ⟨q, by rw [Function.update_self]; exact hc⟩
  · exact ⟨q, by rw [Function.update_of_ne hqp]; exact hq⟩

theorem Kept.pending_update (h : Kept s) {p : P} {c : RxPc} (hc : (s.pc p).taking = false ∨ c.taking = true)
    (hu : s.unread .msgIn = true) (hcl : s.cleared = true) :
    s.dev.raiseBlock = true ∨ Taking (Function.update s.pc p c) :=
  (h.pending hu hcl).imp_right (fun hx => hx.update hc)

theorem Kept.startRx (h : Kept s) {p : P} (hp : s.pc p = .idle) : Kept (s.startRx p) := by
  have hidle : (s.pc p).taking = false := by rw [hp]; rfl
  have hself : Taking (Function.update s.pc p (.taken .msgIn)) := ⟨p, by simp [RxPc.taking]⟩
  unfold Receiver.startRx Dev.rxSelect
  split
  next t e heq =>
    refine ⟨fun hu hc => ?_, h.rejects⟩
    dsimp only at hu hc ⊢
    split_ifs at heq with hb hn hr
    · cases heq
      exact Or.inr hself
    · cases heq
      exact h.pending_update (Or.inl hidle) hu hc
    · cases heq
      exact Or.inr hself
    · cases heq
  next t heq =>
    split_ifs at heq
    all_goals cases heq
    exact h

theorem Kept.goLine (h : Kept s) {p : P} (hok : Careful s (.go p)) (hs : s.goLine p = some s') : Kept s' := by
  unfold Receiver.goLine at hs
  split at hs
  next => cases hs
  next e hp =>
    have hlen : (s.dev.slotLen e).toNat ≤ internalMem := hok e (by simp [RxPc.chosen, hp])
    rw [if_neg (by omega)] at hs
    split_ifs at hs with he
    · cases hs
      exact ⟨h.pending_update (Or.inr rfl), h.rejects⟩
    · cases hs
      refine ⟨fun hu hc => ?_, h.rejects⟩
      dsimp only at hu hc ⊢
      rw [Function.update_of_ne (Ne.symm he)] at hu
      exact h.pending_update (Or.inl (by simp [hp, RxPc.taking, he])) hu hc
  next m hp =>
    cases hs
    refine ⟨fun hu => ?_, h.rejects⟩
    simp at hu
  next e m hp =>
    cases hs
    exact ⟨h.pending_update (Or.inl (by simp [hp, RxPc.taking])), h.rejects⟩
  next e m v hp =>
    cases hs
    exact ⟨h.pending_update (Or.inl (by simp [hp, RxPc.taking])), h.rejects⟩
  next hp =>
    cases hs
    exact ⟨h.pending_update (Or.inl (by simp [hp, RxPc.taking])), h.rejects⟩
  next hp =>
    cases hs
    exact ⟨h.pending_update (Or.inl (by simp [hp, RxPc.taking])), h.rejects⟩
  next e hp =>
    cases hs
    exact ⟨h.pending_update (Or.inl (by simp [hp, RxPc.taking])), h.rejects⟩

theorem Kept.step {a : RxAction P} (h : Kept s) (hok : Careful s a) (hs : s.step a = some s') : Kept s' := by
  unfold Receiver.step at hs
  cases a with
  | send e msg b =>
    dsimp only at hs
    split_ifs at hs with he
    cases hs
    refine ⟨fun hu hc => ?_, h.rejects⟩
    dsimp only at hu hc ⊢
    obtain ⟨hc, hne⟩ := Bool.and_eq_true_iff.mp hc
    rw [Function.update_of_ne (Ne.symm (of_decide_eq_true hne))] at hu
    exact h.pending hu hc
  | irq =>
    cases hs
    exact h.irq hok
  | rx p =>
    dsimp only at hs
    split_ifs at hs with hp
    cases hs
    exact h.startRx hp
  | rxMsg p =>
    dsimp only at hs
    split_ifs at hs with hp hb
    · cases hs
      exact ⟨h.pending_update (Or.inl (by simp [hp, RxPc.taking])), h.rejects⟩
    · cases hs
      exact ⟨h.pending_update (Or.inl (by simp [hp, RxPc.taking])), h.rejects⟩
  | go p => exact h.goLine hok hs
  | ioctl c =>
    cases hs
    have hraise : s.dev.raiseBlock = false := hok
    exact h.frame (by cases c <;> rw [hraise] <;> rfl)
  | openFile =>
    cases hs
    apply h.frame
    unfold Dev.openFile
    dsimp only
    split_ifs <;> rfl
  | release file =>
    cases hs
    apply h.frame
    unfold Dev.release
    dsimp only
    split_ifs <;> rfl
  | fasync file mode =>
    cases hs
    exact h.frame rfl

/-- In every careful run no blocking command is swallowed and no rejected message leaves its slot masked. -/
theorem blocking_commands_kept (r : Regs) (mem : Mem) (s : Receiver P)
    (h : Run Receiver.step Careful (.start (.init r mem)) s) : Kept s := by
  apply h.invariant
  · exact ⟨fun hu => by simp [Receiver.start] at hu, by simp [Receiver.start]⟩
  · intro t a u ht ha hu
    exact ht.step ha hu

/-- The audio control answers at once, the listener through `piu_rx`. -/
theorem blocking_commands_kept_two :
    ∃ s : Receiver (Fin 1), Run Receiver.step Careful (.start (.init zeroRegs zeroMem)) s ∧ Kept s ∧ (s.handled.length = 2 ∧
      s.returned.length = 1 ∧ s.unread .msgIn = false) := by
  have h : Run (σ := Receiver (Fin 1)) Receiver.step Careful (.start (.init zeroRegs zeroMem)) _ :=
    .of_isSome [.openFile, .fasync 0 true, .send .msgIn 2#32 ⟨0, 1, [0]⟩, .irq, .send .msgIn 7#32 ⟨0, 1, [0]⟩, .irq,
      .rx 0, .go 0, .go 0, .go 0, .go 0] (by decide +kernel)
  exact ⟨_, h, blocking_commands_kept _ _ _ h, by decide +kernel⟩

/-- With no listener the command is served, neither pending nor acknowledged; and a message that `piu_rx` finds too long is
rejected with its interrupt masked. -/
theorem blocking_command_swallowed :
    (∃ s : Receiver (Fin 1), Run Receiver.step free (.start (.init zeroRegs zeroMem)) s ∧
      s.unread .msgIn = true ∧ s.cleared = true ∧ s.dev.raiseBlock = false ∧ ∀ p, s.pc p = .idle) ∧
    ∃ s : Receiver (Fin 1), Run Receiver.step free (.start (.init zeroRegs zeroMem)) s ∧ (.msgIn, false) ∈ s.rejects := by
  constructor
  · have h : Run (σ := Receiver (Fin 1)) Receiver.step free (.start (.init zeroRegs zeroMem)) _ :=
      .of_isSome [.openFile, .send .msgIn 7#32 ⟨0, 1, [0]⟩, .irq] (by decide +kernel)
    exact ⟨_, h, by decide +kernel⟩
  · have h : Run (σ := Receiver (Fin 1)) Receiver.step free (.start (.init zeroRegs zeroMem)) _ :=
      .of_isSome [.openFile, .fasync 0 true, .send .msgIn 7#32 ⟨0, 65, [0]⟩, .irq, .rx 0, .go 0] (by decide +kernel)
    exact ⟨_, h, by decide +kernel⟩

end Emlinux.Piu
