import Emlinux.Piu.Receive

/-!
# The order of the messages

Two flags say which slots hold a pending message and a third one which of the two came first. `Dev.queue` reads the
three flags as the queue they encode: the interrupt appends to it (`served_isr`) and `piu_rx` takes its head
(`rxSelect_spec`). The messages returned, the one in the hands of a process and the queue are then, in this order, the messages whose
interrupts were handled (`Fifo`).

The mask register is where this can break: `piu_int_ena` reads and writes it without the lock, and an interrupt in between, or
another `piu_rx`, has its own change undone (`Alone` excludes both).
-/

namespace Emlinux.Piu

open Lib

/-! ## The flags as a queue -/

namespace Dev

variable {t : Dev}

theorem mem_queue (hf : t.blockFirst = true → t.raiseBlock = true) (e : Evt) :
    e ∈ t.queue ↔ e = .msgIn ∧ t.raiseBlock = true ∨ e = .nonblockMsgIn ∧ t.raiseNonblock = true := by
  unfold queue
  cases hb : t.blockFirst <;> cases hr : t.raiseBlock <;> cases hn : t.raiseNonblock <;> cases e <;> simp_all

theorem queue_nodup : t.queue.Nodup := by
  unfold queue
  cases t.blockFirst <;> cases t.raiseBlock <;> cases t.raiseNonblock <;> decide

theorem queue_raiseMsg (hf : t.blockFirst = true → t.raiseBlock = true) (hr : t.raiseBlock = false) :
    t.raiseMsg.queue = t.queue ++ [.msgIn] := by
  have hb : t.blockFirst = false := by
    by_contra hx
    rw [hf (by simpa using hx)] at hr
    cases hr
  unfold queue raiseMsg intDis
  cases hn : t.raiseNonblock <;> simp [hb, hr]

theorem queue_raiseNonblockMsg (hf : t.blockFirst = true → t.raiseBlock = true) (hn : t.raiseNonblock = false) :
    t.raiseNonblockMsg.queue = t.queue ++ [.nonblockMsgIn] := by
  unfold queue raiseNonblockMsg intDis
  cases hb : t.blockFirst <;> cases hr : t.raiseBlock <;> simp_all

/-- The flags agree with the bits of the software status word. -/
structure Flags (t : Dev) : Prop where
  block : t.raiseBlock = true ↔ t.status.getLsbD 0 = true
  nonblock : t.raiseNonblock = true ↔ t.status.getLsbD 1 = true
  first : t.blockFirst = true → t.raiseBlock = true

theorem Flags.raiseMsg (h : t.Flags) : t.raiseMsg.Flags := by
  refine ⟨?_, ?_, fun _ => rfl⟩
  · simp [Dev.raiseMsg]
  · simpa [Dev.raiseMsg, intDis] using h.nonblock

theorem Flags.raiseNonblockMsg (h : t.Flags) : t.raiseNonblockMsg.Flags := by
  refine ⟨?_, ?_, fun hb => hb⟩
  · simpa [Dev.raiseNonblockMsg, intDis] using h.block
  · simp [Dev.raiseNonblockMsg]

/-- The critical section of `piu_rx` takes the head of the queue and nothing else. -/
theorem rxSelect_spec (h : t.Flags) :
    t.rxSelect.2 = t.queue.head? ∧ t.rxSelect.1.queue = t.queue.tail ∧ t.rxSelect.1.Flags ∧
      t.rxSelect.1.piuHw = t.piuHw ∧ t.rxSelect.1.mem = t.mem ∧ t.rxSelect.1.fasyncP = t.fasyncP := by
  have hf := h.first
  unfold rxSelect
  split_ifs with hb hn hr
  · refine ⟨by simp [queue, hb], by simp [queue, hb], ⟨by simp, ?_, by simp⟩, rfl, rfl, rfl⟩
    simpa using h.nonblock
  · refine ⟨by simp [queue, hb, hn], by simp [queue, hb, hn], ⟨?_, by simp, hf⟩, rfl, rfl, rfl⟩
    simpa using h.block
  · refine ⟨by simp [queue, hb, hn, hr], by simp [queue, hb, hn, hr], ⟨by simp, ?_, ?_⟩, rfl, rfl, rfl⟩
    · simpa using h.nonblock
    · simp [hb]
  · exact ⟨by simp [queue, hb, hn, hr], by simp [queue, hb, hn, hr], h, rfl, rfl, rfl⟩

theorem mem_arriving {e : Evt} (he : e ≠ .ackIn) : e ∈ t.arriving.map Prod.fst ↔ t.served e = true := by
  unfold arriving packet
  cases e with
  | ackIn => exact absurd rfl he
  | msgIn => cases t.served .msgIn <;> cases t.served .nonblockMsgIn <;> simp
  | nonblockMsgIn => cases t.served .msgIn <;> cases t.served .nonblockMsgIn <;> simp

theorem map_arriving : (t.arriving.map Prod.fst).map t.packet = t.arriving := by
  unfold arriving packet
  cases t.served .msgIn <;> cases t.served .nonblockMsgIn <;> simp

theorem filter_arriving {e : Evt} (he : e ≠ .ackIn) :
    t.arriving.filter (fun m => m.1 = e) = if t.served e then [t.packet e] else [] := by
  unfold arriving packet
  cases e with
  | ackIn => exact absurd rfl he
  | msgIn => cases t.served .msgIn <;> cases t.served .nonblockMsgIn <;> simp
  | nonblockMsgIn => cases t.served .msgIn <;> cases t.served .nonblockMsgIn <;> simp

/-- The interrupt appends the arriving messages to the queue, masks their slots and clears their status bits. -/
structure Served (t t' : Dev) : Prop where
  flags : t'.Flags
  queue : t'.queue = t.queue ++ t.arriving.map Prod.fst
  mem : t'.mem = t.mem
  rep : t'.piuHw.rep = t.piuHw.rep
  fasyncP : t'.fasyncP = t.fasyncP
  raised : ∀ e, t'.piuHw.raised e = (t.piuHw.raised e && !t.served e)
  enabled : ∀ e, e ≠ .ackIn → t'.piuHw.enabled e = (t.piuHw.enabled e && !t.served e)
  quiet : t.arriving = [] → t'.blockFirst = t.blockFirst ∧ t'.raiseNonblock = t.raiseNonblock

theorem raised_isrAck (e : Evt) : t.isrAck.piuHw.raised e = (t.piuHw.raised e && !t.served e) := by
  obtain ⟨-, -, -, -, -, -, -, -, hst⟩ := t.isrAck_frame
  unfold Regs.raised
  rw [hst, BitVec.getLsbD_and, BitVec.getLsbD_not, getLsbD_pendingInts]
  simp [bit_lt, served, Regs.raised]

theorem enabled_isrAck (e : Evt) : t.isrAck.piuHw.enabled e = t.piuHw.enabled e := by
  obtain ⟨-, -, -, -, -, -, -, fi, -⟩ := t.isrAck_frame
  unfold Regs.enabled
  rw [fi]

theorem queue_isrAck : t.isrAck.queue = t.queue := by
  obtain ⟨-, -, -, -, fb, fn, f1, -, -⟩ := t.isrAck_frame
  unfold Dev.queue
  rw [fb, fn, f1]

theorem Flags.isrAck (h : t.Flags) : t.isrAck.Flags := by
  obtain ⟨-, -, -, fs, fb, fn, f1, -, -⟩ := t.isrAck_frame
  refine ⟨?_, ?_, ?_⟩
  · rw [fb, fs]
    exact h.block
  · rw [fn, fs]
    exact h.nonblock
  · rw [f1, fb]
    exact h.first

theorem isrMsg_eq (hl : t.fasyncP ≠ []) (hm : t.served .msgIn = true → t.piuHw.rep 1 ≠ 2#32) :
    t.isrMsg = if t.served .msgIn then (t.isrAck.raiseMsg, [.signalled .msgIn]) else (t.isrAck, []) := by
  obtain ⟨-, fr, ff, -, -, -, -, -, -⟩ := t.isrAck_frame
  unfold isrMsg
  split_ifs with hs
  · unfold handleMsg Regs.rd32
    simp [fr, hm hs, ff, hl]
  · rfl

/-- What the second handler finds after the first. -/
theorem isrMsg_frame (hl : t.fasyncP ≠ []) (hm : t.served .msgIn = true → t.piuHw.rep 1 ≠ 2#32) :
    t.isrMsg.1.piuHw.rep = t.piuHw.rep ∧ t.isrMsg.1.fasyncP = t.fasyncP ∧ t.isrMsg.1.raiseNonblock = t.raiseNonblock := by
  obtain ⟨-, fr, ff, -, -, fn, -, -, -⟩ := t.isrAck_frame
  rw [isrMsg_eq hl hm]
  split_ifs
  · exact ⟨fr, ff, fn⟩
  · exact ⟨fr, ff, fn⟩

theorem isrNonblock_eq (hl : t.fasyncP ≠ []) (hm : t.served .msgIn = true → t.piuHw.rep 1 ≠ 2#32)
    (hn : t.served .nonblockMsgIn = true → t.piuHw.rep 2 ≠ 5#32) :
    t.isrNonblock =
      if t.served .nonblockMsgIn then (t.isrMsg.1.raiseNonblockMsg, [.signalled .nonblockMsgIn]) else (t.isrMsg.1, []) := by
  obtain ⟨hrep, hfas, -⟩ := isrMsg_frame hl hm
  unfold isrNonblock
  split_ifs with hs
  · unfold handleNonblock Regs.rd32
    simp [hrep, hn hs, hfas, hl]
  · rfl

/-- The interrupt with both handlers at work. -/
theorem isr_eq (hl : t.fasyncP ≠ []) (hm : t.served .msgIn = true → t.piuHw.rep 1 ≠ 2#32)
    (hn : t.served .nonblockMsgIn = true → t.piuHw.rep 2 ≠ 5#32) :
    t.piuIsr.2.1 = (if t.served .nonblockMsgIn then t.isrMsg.1.raiseNonblockMsg else t.isrMsg.1) ∧
      t.isrMsg.1 = if t.served .msgIn then t.isrAck.raiseMsg else t.isrAck := by
  rw [piuIsr_eq, isrNonblock_eq hl hm hn, isrMsg_eq hl hm]
  dsimp only
  constructor
  · split_ifs <;> rfl
  · split_ifs <;> rfl

theorem served_isr (h : t.Flags) (hl : t.fasyncP ≠ [])
    (hm : t.served .msgIn = true → t.raiseBlock = false ∧ t.piuHw.rep 1 ≠ 2#32)
    (hn : t.served .nonblockMsgIn = true → t.raiseNonblock = false ∧ t.piuHw.rep 2 ≠ 5#32) : Served t t.piuIsr.2.1 := by
  obtain ⟨fm, fr, ff, -, fb, fn, f1, -, -⟩ := t.isrAck_frame
  obtain ⟨hnon, hmsg⟩ := isr_eq hl (fun hs => (hm hs).2) fun hs => (hn hs).2
  obtain ⟨hmrep, hmfas, hmn⟩ := isrMsg_frame hl fun hs => (hm hs).2
  have hflag : t.isrMsg.1.Flags := by
    rw [hmsg]
    split_ifs
    · exact h.isrAck.raiseMsg
    · exact h.isrAck
  have hqm : t.isrMsg.1.queue = t.queue ++ (if t.served .msgIn then [.msgIn] else []) := by
    rw [hmsg]
    split_ifs with hs
    · rw [queue_raiseMsg h.isrAck.first (by rw [fb]; exact (hm hs).1), queue_isrAck]
    · simp [queue_isrAck]
  constructor
  case flags =>
    rw [hnon]
    split_ifs
    · exact hflag.raiseNonblockMsg
    · exact hflag
  case queue =>
    rw [hnon]
    unfold arriving packet
    split_ifs with hs hs'
    · rw [queue_raiseNonblockMsg hflag.first (by rw [hmn]; exact (hn hs).1), hqm]
      simp [hs']
    · rw [queue_raiseNonblockMsg hflag.first (by rw [hmn]; exact (hn hs).1), hqm]
      simp [hs']
    · simp_all
    · simp_all
  case mem =>
    rw [hnon, hmsg]
    split_ifs <;> exact fm
  case rep =>
    rw [hnon]
    split_ifs <;> exact hmrep
  case fasyncP =>
    rw [hnon]
    split_ifs <;> exact hmfas
  case raised =>
    intro e
    rw [← raised_isrAck, hnon, hmsg]
    split_ifs <;> rfl
  case enabled =>
    intro e he
    rw [hnon, hmsg]
    cases e with
    | ackIn => exact absurd rfl he
    | msgIn => split_ifs <;> simp_all [Dev.raiseMsg, Dev.raiseNonblockMsg, intDis, enabled_isrAck]
    | nonblockMsgIn => split_ifs <;> simp_all [Dev.raiseMsg, Dev.raiseNonblockMsg, intDis, enabled_isrAck]
  case quiet =>
    intro ha
    unfold arriving at ha
    rw [List.append_eq_nil_iff] at ha
    rw [hnon, hmsg]
    split_ifs at ha ⊢ with h1 h2
    · simp at ha
    · simp at ha
    · simp at ha
    · exact ⟨f1, fn⟩

/-- Neither handler takes its message for an acknowledgement or rejects it. -/
theorem notes_isr (hl : t.fasyncP ≠ []) (hm : t.served .msgIn = true → t.piuHw.rep 1 ≠ 2#32)
    (hn : t.served .nonblockMsgIn = true → t.piuHw.rep 2 ≠ 5#32) {n : Note} (hx : n ∈ t.piuIsr.2.2) :
    ∃ e, n = .signalled e := by
  rw [piuIsr_eq, isrNonblock_eq hl hm hn, isrMsg_eq hl hm] at hx
  obtain hx | hx := List.mem_append.1 hx
  · by_cases hs : t.served .msgIn = true
    · rw [if_pos hs] at hx
      exact ⟨_, List.mem_singleton.1 hx⟩
    · rw [if_neg hs] at hx
      cases hx
  · by_cases hs : t.served .nonblockMsgIn = true
    · rw [if_pos hs] at hx
      exact ⟨_, List.mem_singleton.1 hx⟩
    · rw [if_neg hs] at hx
      cases hx

end Dev

/-! ## What is delivered -/

/-- The slot of the message in the hands of a `piu_rx`. -/
def RxPc.holds : RxPc → Option Evt
  | .taken e => some e
  | .copied _ => some .msgIn
  | .replied e _ => some e
  | .enabling e _ _ => some e
  | _ => none

/-- The message itself. -/
def RxPc.hand (t : Dev) : RxPc → List Packet
  | .taken e => [t.packet e]
  | .copied m => [(.msgIn, m)]
  | .replied e m => [(e, m)]
  | .enabling e m _ => [(e, m)]
  | _ => []

/-- The process has read part of what an interrupt changes. -/
def RxPc.exposed : RxPc → Bool
  | .enabling _ _ _ => true
  | .peekNonblock => true
  | .peekBlock => true
  | .peekReg _ => true
  | _ => false

variable {P : Type}

/-- The messages returned, the one in hand and the pending ones are those handled, in order; those handled and the
one still raised are those sent; `piu_rx_msg` named each message it named; the flags and masks are in step. -/
structure Delivered (s : Receiver P) : Prop where
  order : ∃ c, s.handled = s.returned.map Prod.fst ++ c.hand s.dev ++ s.dev.queue.map s.dev.packet ∧
    (c = .idle ∧ (∀ p, s.pc p = .idle) ∨ ∃ p, s.pc p = c ∧ ∀ q, q ≠ p → s.pc q = .idle)
  once : ∀ e, e ≠ .ackIn → s.sent.filter (fun m => m.1 = e) =
    s.handled.filter (fun m => m.1 = e) ++ if s.dev.piuHw.raised e then [s.dev.packet e] else []
  next : s.dev.rxSelect.2 = s.dev.queue.head?
  rejects : s.rejects = []
  names : ∀ x ∈ s.returned, ∀ w, x.2 = some w → x.1.2.1 = w
  flags : s.dev.Flags
  masked : ∀ e, e ≠ .ackIn →
    (s.dev.piuHw.enabled e = false ↔ e ∈ s.dev.queue ∨ ∃ p, (s.pc p).holds = some e)

/-- The DSP keeps to its slots and to messages for the listener; the device is only used to receive. -/
def Regular (s : Receiver P) : RxAction P → Prop
  | .send e msg b => s.unread e = false ∧ b.len.toNat ≤ internalMem ∧ ¬ (e = .msgIn ∧ msg = 2#32) ∧
      ¬ (e = .nonblockMsgIn ∧ msg = 5#32)
  | .irq => True
  | .rx _ => True
  | .rxMsg _ => True
  | .go _ => True
  | _ => False

/-- One `piu_rx` or `piu_rx_msg` at a time, and no message interrupt while one stands between its reads of the flags or
between the read and the write of the mask register. -/
def Alone (s : Receiver P) : RxAction P → Prop
  | .irq => s.dev.arriving = [] ∨ ∀ p, (s.pc p).exposed = false
  | .rx _ => ∀ p, s.pc p = .idle
  | .rxMsg _ => ∀ p, s.pc p = .idle
  | _ => True

/-- At most one process is inside, at `c`. -/
def Only (pc : P → RxPc) (c : RxPc) : Prop :=
  c = .idle ∧ (∀ p, pc p = .idle) ∨ ∃ p, pc p = c ∧ ∀ q, q ≠ p → pc q = .idle

/-- The invariant, with the place `c` of the process inside. -/
structure Fifo (s : Receiver P) (c : RxPc) : Prop where
  only : Only s.pc c
  listener : s.dev.fasyncP ≠ []
  flags : s.dev.Flags
  slot : ∀ e, c.holds = some e → e ≠ .ackIn ∧ e ∉ s.dev.queue
  masked : ∀ e, e ≠ .ackIn → (s.dev.piuHw.enabled e = false ↔ e ∈ s.dev.queue ∨ c.holds = some e)
  mask : ∀ e m v, c = .enabling e m v → ∀ e', e' ≠ .ackIn → v.getLsbD e'.bit = s.dev.piuHw.enabled e'
  order : s.handled = s.returned.map Prod.fst ++ c.hand s.dev ++ s.dev.queue.map s.dev.packet
  once : ∀ e, e ≠ .ackIn → s.sent.filter (fun m => m.1 = e) =
    s.handled.filter (fun m => m.1 = e) ++ if s.dev.piuHw.raised e then [s.dev.packet e] else []
  unread : ∀ e, e ≠ .ackIn → (s.unread e = true ↔
    s.dev.piuHw.raised e = true ∨ e ∈ s.dev.queue ∨ c = .taken e ∨ e = .msgIn ∧ ∃ m, c = .copied m)
  settled : ∀ e, e ≠ .ackIn → e ∈ s.dev.queue ∨ c = .taken e ∨ (e = .msgIn ∧ ∃ m, c = .copied m) →
    s.dev.piuHw.raised e = false
  len : ∀ e, e ≠ .ackIn → s.unread e = true → (s.dev.slotLen e).toNat ≤ internalMem
  block : s.unread .msgIn = true → s.dev.piuHw.rep 1 ≠ 2#32
  nonblock : s.unread .nonblockMsgIn = true → s.dev.piuHw.rep 2 ≠ 5#32
  named : ∀ w, s.named = some w → ∃ m l, c.hand s.dev ++ s.dev.queue.map s.dev.packet = m :: l ∧ m.2.1 = w
  names : ∀ x ∈ s.returned, ∀ w, x.2 = some w → x.1.2.1 = w
  rejects : s.rejects = []
  peekNonblock : c = .peekNonblock → s.dev.blockFirst = false
  peekBlock : c = .peekBlock → s.dev.blockFirst = false ∧ s.dev.raiseNonblock = false
  peekReg : ∀ e, c = .peekReg e → s.dev.queue = [] ∨ s.dev.queue.head? = some e

variable {s s' : Receiver P} {c : RxPc}

theorem Only.exists_holds (h : Only s.pc c) (e : Evt) : (∃ p, (s.pc p).holds = some e) ↔ c.holds = some e := by
  rcases h with ⟨rfl, h⟩ | ⟨p, hp, h⟩
  · simp [h, RxPc.holds]
  · constructor
    · intro ⟨q, hq⟩
      by_cases hqp : q = p
      · rw [hqp, hp] at hq
        exact hq
      · rw [h q hqp] at hq
        cases hq
    · intro hc
      exact ⟨p, by rw [hp]; exact hc⟩

theorem Fifo.delivered (h : Fifo s c) : Delivered s where
  order := ⟨c, h.order, h.only⟩
  once := h.once
  next := (Dev.rxSelect_spec h.flags).1
  rejects := h.rejects
  names := h.names
  flags := h.flags
  masked := by
    intro e he
    rw [h.masked e he, h.only.exists_holds]

theorem Dev.packet_congr {t t' : Dev} (hm : t'.mem = t.mem) (hr : t'.piuHw.rep = t.piuHw.rep) : t'.packet = t.packet := by
  funext e
  unfold Dev.packet Dev.slotMsg Regs.rd32
  cases e <;> simp [hm, hr]

theorem RxPc.hand_congr {t t' : Dev} (h : t'.packet = t.packet) (c : RxPc) : c.hand t' = c.hand t := by
  cases c <;> simp [RxPc.hand, h]

/-! ## The steps -/

/-- A message the interrupt serves was not read yet, and its slot was neither pending nor in hand. -/
theorem Fifo.served (h : Fifo s c) {e : Evt} (he : e ≠ .ackIn) (hs : s.dev.served e = true) :
    s.unread e = true ∧ e ∉ s.dev.queue ∧ c.holds ≠ some e := by
  obtain ⟨hen, hra⟩ := Bool.and_eq_true_iff.mp hs
  have hx : ¬ (e ∈ s.dev.queue ∨ c.holds = some e) := by
    rw [← h.masked e he, hen]
    simp
  exact ⟨(h.unread e he).mpr (Or.inl hra), fun hq => hx (Or.inl hq), fun hc => hx (Or.inr hc)⟩

theorem Fifo.isr (h : Fifo s c) : Dev.Served s.dev s.dev.piuIsr.2.1 := by
  have hmem := Dev.mem_queue h.flags.first
  apply Dev.served_isr h.flags h.listener
  · intro hs
    obtain ⟨h1, h2, -⟩ := h.served (by simp) hs
    exact ⟨by simpa [hmem] using h2, h.block h1⟩
  · intro hs
    obtain ⟨h1, h2, -⟩ := h.served (by simp) hs
    exact ⟨by simpa [hmem] using h2, h.nonblock h1⟩

theorem Fifo.notes (h : Fifo s c) {n : Note} (hx : n ∈ s.dev.piuIsr.2.2) : ∃ e, n = .signalled e := by
  apply Dev.notes_isr h.listener _ _ hx
  · intro hs
    exact h.block (h.served (by simp) hs).1
  · intro hs
    exact h.nonblock (h.served (by simp) hs).1

/-- No message arrives while the process stands between two reads. -/
theorem Fifo.quiet (h : Fifo s c) (hok : Alone s .irq) (hc : c.exposed = true) : s.dev.arriving = [] := by
  rcases hok with hx | hx
  · exact hx
  · rcases h.only with ⟨rfl, -⟩ | ⟨p, rfl, -⟩
    · cases hc
    · rw [hx p] at hc
      cases hc

theorem Fifo.irq_unread (h : Fifo s c) : s.irq.unread = s.unread := by
  unfold Receiver.irq
  dsimp only
  rw [if_neg]
  intro hx
  obtain ⟨n, hn, hne⟩ := List.any_eq_true.mp hx
  obtain ⟨e, rfl⟩ := h.notes hn
  simp at hne

theorem Fifo.irq_rejects (h : Fifo s c) : s.irq.rejects = [] := by
  show s.rejects ++ _ = []
  rw [h.rejects, List.nil_append, List.filterMap_eq_nil_iff]
  intro n hn
  obtain ⟨e, rfl⟩ := h.notes hn
  rfl

theorem Fifo.irq_packet (h : Fifo s c) : s.irq.dev.packet = s.dev.packet :=
  Dev.packet_congr h.isr.mem h.isr.rep

theorem Fifo.mem_irq (h : Fifo s c) {e : Evt} (he : e ≠ .ackIn) :
    e ∈ s.irq.dev.queue ↔ e ∈ s.dev.queue ∨ s.dev.served e = true := by
  have hq : s.irq.dev.queue = s.dev.queue ++ s.dev.arriving.map Prod.fst := h.isr.queue
  rw [hq, List.mem_append, Dev.mem_arriving he]

theorem Fifo.irq_pending (h : Fifo s c) :
    c.hand s.irq.dev ++ s.irq.dev.queue.map s.irq.dev.packet =
      c.hand s.dev ++ s.dev.queue.map s.dev.packet ++ s.dev.arriving := by
  have hq : s.irq.dev.queue = s.dev.queue ++ s.dev.arriving.map Prod.fst := h.isr.queue
  rw [RxPc.hand_congr h.irq_packet, hq, h.irq_packet, List.map_append, Dev.map_arriving, List.append_assoc]

theorem Fifo.irq (h : Fifo s c) (hok : Alone s .irq) : Fifo s.irq c where
  only := h.only
  listener := by
    show s.dev.piuIsr.2.1.fasyncP ≠ []
    rw [h.isr.fasyncP]
    exact h.listener
  flags := h.isr.flags
  slot := by
    intro e hc
    obtain ⟨he, hn⟩ := h.slot e hc
    refine ⟨he, ?_⟩
    rw [h.mem_irq he]
    rintro (hx | hx)
    · exact hn hx
    · exact (h.served he hx).2.2 hc
  masked := by
    intro e he
    rw [h.mem_irq he]
    show s.dev.piuIsr.2.1.piuHw.enabled e = false ↔ _
    rw [h.isr.enabled e he]
    have hme := h.masked e he
    cases hs : s.dev.served e with
    | true => simp
    | false =>
      simp only [Bool.not_false, Bool.and_true, hme]
      simp
  mask := by
    intro e m v hc e' he'
    show _ = s.dev.piuIsr.2.1.piuHw.enabled e'
    have hx := h.quiet hok (by rw [hc]; rfl)
    have hns : s.dev.served e' = false := by
      by_contra hs
      have := (Dev.mem_arriving he').mpr (by simpa using hs)
      rw [hx] at this
      cases this
    rw [h.isr.enabled e' he', hns, h.mask e m v hc e' he']
    simp
  order := by
    show s.handled ++ s.dev.arriving = s.returned.map Prod.fst ++ _ ++ _
    rw [List.append_assoc, h.irq_pending, ← List.append_assoc, ← List.append_assoc, ← h.order]
  once := by
    intro e he
    show s.sent.filter _ = (s.handled ++ s.dev.arriving).filter _ ++
      if s.dev.piuIsr.2.1.piuHw.raised e then [s.irq.dev.packet e] else []
    rw [h.once e he, List.filter_append, Dev.filter_arriving he, h.isr.raised e, h.irq_packet]
    cases hs : s.dev.served e with
    | true =>
      have hra : s.dev.piuHw.raised e = true := (Bool.and_eq_true_iff.mp hs).2
      simp [hra]
    | false => simp
  unread := by
    intro e he
    rw [h.irq_unread, h.unread e he, h.mem_irq he]
    show _ ↔ s.dev.piuIsr.2.1.piuHw.raised e = true ∨ _
    rw [h.isr.raised e]
    cases hs : s.dev.served e with
    | true =>
      have hra : s.dev.piuHw.raised e = true := (Bool.and_eq_true_iff.mp hs).2
      simp [hra]
    | false => simp
  settled := by
    intro e he hx
    show s.dev.piuIsr.2.1.piuHw.raised e = false
    rw [h.mem_irq he] at hx
    rw [h.isr.raised e]
    cases hs : s.dev.served e with
    | true => simp
    | false =>
      rw [h.settled e he (by simpa [hs] using hx)]
      rfl
  len := by
    intro e he hu
    rw [h.irq_unread] at hu
    have hmem : s.irq.dev.mem = s.dev.mem := h.isr.mem
    have := h.len e he hu
    unfold Dev.slotLen at this ⊢
    rw [hmem]
    exact this
  block := by
    intro hu
    rw [h.irq_unread] at hu
    show s.dev.piuIsr.2.1.piuHw.rep 1 ≠ 2#32
    rw [h.isr.rep]
    exact h.block hu
  nonblock := by
    intro hu
    rw [h.irq_unread] at hu
    show s.dev.piuIsr.2.1.piuHw.rep 2 ≠ 5#32
    rw [h.isr.rep]
    exact h.nonblock hu
  named := by
    intro w hw
    obtain ⟨m, l, hl, hm⟩ := h.named w hw
    refine ⟨m, l ++ s.dev.arriving, ?_, hm⟩
    rw [h.irq_pending, hl]
    rfl
  names := h.names
  rejects := h.irq_rejects
  peekNonblock := by
    intro hc
    exact (h.isr.quiet (h.quiet hok (by rw [hc]; rfl))).1.trans (h.peekNonblock hc)
  peekBlock := by
    intro hc
    obtain ⟨q1, q2⟩ := h.isr.quiet (h.quiet hok (by rw [hc]; rfl))
    exact ⟨q1.trans (h.peekBlock hc).1, q2.trans (h.peekBlock hc).2⟩
  peekReg := by
    intro e hc
    have hq : s.irq.dev.queue = s.dev.queue ++ s.dev.arriving.map Prod.fst := h.isr.queue
    rw [hq, h.quiet hok (by rw [hc]; rfl)]
    simpa using h.peekReg e hc

theorem Only.eq {pc : P → RxPc} (h : Only pc c) {p : P} (hp : pc p ≠ .idle) : c = pc p ∧ ∀ q, q ≠ p → pc q = .idle := by
  rcases h with ⟨-, h⟩ | ⟨q, rfl, h⟩
  · exact absurd (h p) hp
  · by_cases hpq : p = q
    · subst hpq
      exact ⟨rfl, h⟩
    · exact absurd (h p hpq) hp

theorem Only.idle {pc : P → RxPc} (h : Only pc c) (hi : ∀ p, pc p = .idle) : c = .idle := by
  rcases h with ⟨h, -⟩ | ⟨q, rfl, -⟩
  · exact h
  · exact hi q

/-- Lines that change neither the flags nor the slots, and keep what the process holds. -/
theorem Fifo.move (h : Fifo s c) {c' : RxPc} {pc : P → RxPc} {k : Nat → Word} {un : Evt → Bool} {n : Option Word}
    (ho : Only pc c') (hh : c'.holds = c.holds) (hd : c'.hand s.dev = c.hand s.dev)
    (hu : ∀ e, e ≠ .ackIn → (un e = true ↔
      s.dev.piuHw.raised e = true ∨ e ∈ s.dev.queue ∨ c' = .taken e ∨ e = .msgIn ∧ ∃ m, c' = .copied m))
    (hle : ∀ e, un e = true → s.unread e = true)
    (hm : ∀ e m v, c' = .enabling e m v → ∀ e', e' ≠ .ackIn → v.getLsbD e'.bit = s.dev.piuHw.enabled e')
    (hs : ∀ e, e ≠ .ackIn → c' = .taken e ∨ (e = .msgIn ∧ ∃ m, c' = .copied m) → s.dev.piuHw.raised e = false)
    (hn : ∀ w, n = some w → ∃ m l, c'.hand s.dev ++ s.dev.queue.map s.dev.packet = m :: l ∧ m.2.1 = w)
    (p1 : c' = .peekNonblock → s.dev.blockFirst = false)
    (p2 : c' = .peekBlock → s.dev.blockFirst = false ∧ s.dev.raiseNonblock = false)
    (p3 : ∀ e, c' = .peekReg e → s.dev.queue = [] ∨ s.dev.queue.head? = some e) :
    Fifo { s with dev := { s.dev with piuHw := { s.dev.piuHw with com := k } }, pc := pc, unread := un, named := n } c' where
  only := ho
  listener := h.listener
  flags := ⟨h.flags.block, h.flags.nonblock, h.flags.first⟩
  slot := by rw [hh]; exact h.slot
  masked := by rw [hh]; exact h.masked
  mask := hm
  order := h.order.trans (by rw [← hd]; rfl)
  once := h.once
  unread := hu
  settled := fun e he hx => hx.elim (fun hq => h.settled e he (Or.inl hq)) (hs e he)
  len := fun e he hx => h.len e he (hle e hx)
  block := fun hx => h.block (hle _ hx)
  nonblock := fun hx => h.nonblock (hle _ hx)
  named := hn
  names := h.names
  rejects := h.rejects
  peekNonblock := p1
  peekBlock := p2
  peekReg := p3

/-- The lines of `piu_rx_msg`, where the process holds nothing before and after. -/
theorem Fifo.peek (h : Fifo s c) {c' : RxPc} {pc : P → RxPc} {n : Option Word} (ho : Only pc c') (hc : c.holds = none)
    (hc' : c'.holds = none) (hn : ∀ w, n = some w → ∃ m l, s.dev.queue.map s.dev.packet = m :: l ∧ m.2.1 = w)
    (p1 : c' = .peekNonblock → s.dev.blockFirst = false)
    (p2 : c' = .peekBlock → s.dev.blockFirst = false ∧ s.dev.raiseNonblock = false)
    (p3 : ∀ e, c' = .peekReg e → s.dev.queue = [] ∨ s.dev.queue.head? = some e) :
    Fifo { s with pc := pc, named := n } c' := by
  have nohand : ∀ {c : RxPc}, c.holds = none → c.hand s.dev = [] := by
    intro c hc
    cases c with
    | taken e => cases hc
    | copied m => cases hc
    | replied e m => cases hc
    | enabling e m v => cases hc
    | idle => rfl
    | peekNonblock => rfl
    | peekBlock => rfl
    | peekReg e => rfl
  have free : ∀ {c : RxPc}, c.holds = none → ∀ e, ¬ (c = .taken e ∨ e = .msgIn ∧ ∃ m, c = .copied m) := by
    intro c hc e hx
    rcases hx with rfl | ⟨-, m, rfl⟩
    · cases hc
    · cases hc
  refine h.move (k := s.dev.piuHw.com) ho (by rw [hc, hc']) (by rw [nohand hc, nohand hc']) (fun e he => ?_)
    (fun e he => he) (fun e m v hx => ?_) (fun e he hx => ?_) ?_ p1 p2 p3
  · have h1 := free hc e
    have h2 := free hc' e
    rw [h.unread e he]
    exact or_congr_right (or_congr_right (iff_of_false h1 h2))
  · rw [hx] at hc'
    cases hc'
  · exact absurd hx (free hc' e)
  · rw [nohand hc']
    exact hn

/-! ## The start -/

/-- The device opened, with a listener. -/
def listening (r : Regs) (mem : Mem) (file : Nat) : Receiver P := .start (((Dev.init r mem).openFile).fasync file true)

theorem raised_init (r : Regs) (e : Evt) : r.init.raised e = false := by
  unfold Regs.init
  rw [Regs.raised_wrStatus, BitVec.getLsbD_and, getLsbD_hints, Bool.and_true]
  exact Bool.and_not_self _

theorem Fifo.listening (r : Regs) (mem : Mem) (file : Nat) : Fifo (P := P) (Piu.listening r mem file) .idle where
  only := Or.inl ⟨rfl, fun _ => rfl⟩
  listener := by simp [Piu.listening, Receiver.start, Dev.fasync]
  flags := ⟨by simp [Piu.listening, Receiver.start, Dev.fasync, Dev.openFile, Dev.init, Dev.intEna],
    by simp [Piu.listening, Receiver.start, Dev.fasync, Dev.openFile, Dev.init, Dev.intEna],
    by simp [Piu.listening, Receiver.start, Dev.fasync, Dev.openFile, Dev.init, Dev.intEna]⟩
  slot := fun _ hx => (by cases hx)
  masked := by
    intro e he
    simp [Piu.listening, Receiver.start, Dev.fasync, Dev.openFile, Dev.init, Dev.intEna, Dev.queue, RxPc.holds]
    cases e <;> simp_all
  mask := fun _ _ _ hx => (by cases hx)
  order := rfl
  once := by
    intro e he
    have hr : (Piu.listening (P := P) r mem file).dev.piuHw.raised e = false := raised_init r e
    rw [hr]
    rfl
  unread := by
    intro e he
    have hr : (Piu.listening (P := P) r mem file).dev.piuHw.raised e = false := raised_init r e
    rw [hr]
    simp [Piu.listening, Receiver.start, Dev.fasync, Dev.openFile, Dev.init, Dev.intEna, Dev.queue]
  settled := fun e _ _ => raised_init r e
  len := fun _ _ hu => (by cases hu)
  block := fun hu => (by cases hu)
  nonblock := fun hu => (by cases hu)
  named := fun _ hw => (by cases hw)
  names := fun _ hx => (by cases hx)
  rejects := rfl
  peekNonblock := fun hx => (by cases hx)
  peekBlock := fun hx => (by cases hx)
  peekReg := fun _ hx => (by cases hx)

variable [DecidableEq P]

theorem Only.update {pc : P → RxPc} {p : P} (h : ∀ q, q ≠ p → pc q = .idle) (c : RxPc) :
    Only (Function.update pc p c) c :=
  Or.inr ⟨p, by simp, fun q hq => by simp [hq, h]⟩

theorem Dev.rxSelect_none {t : Dev} (h : t.rxSelect.2 = none) : t.rxSelect.1 = t := by
  unfold Dev.rxSelect at h ⊢
  split_ifs at h ⊢
  rfl

theorem Fifo.startRx (h : Fifo s c) {p : P} (hok : Alone s (.rx p)) : ∃ c', Fifo (s.startRx p) c' := by
  have hc : c = .idle := h.only.idle hok
  subst hc
  obtain ⟨h1, h2, h3, h4, h5, h6⟩ := Dev.rxSelect_spec h.flags
  have hpk : s.dev.rxSelect.1.packet = s.dev.packet := Dev.packet_congr h5 (by rw [h4])
  unfold Receiver.startRx
  cases hq : s.dev.queue with
  | nil =>
    rw [hq] at h1
    have hd := Dev.rxSelect_none h1
    rw [show s.dev.rxSelect = (s.dev, none) from Prod.ext hd h1]
    exact ⟨.idle, h⟩
  | cons e rest =>
    rw [hq, List.head?_cons] at h1
    rw [hq, List.tail_cons] at h2
    have hmem : ∀ e', e' ∈ s.dev.queue ↔ e' = e ∨ e' ∈ rest := by
      intro e'
      rw [hq]
      exact List.mem_cons
    have hne : e ≠ .ackIn := by
      intro he
      have := (Dev.mem_queue h.flags.first e).mp ((hmem e).mpr (Or.inl rfl))
      simp [he] at this
    have hrest : e ∉ rest := by
      have := s.dev.queue_nodup
      rw [hq] at this
      exact (List.nodup_cons.mp this).1
    rw [show s.dev.rxSelect = (s.dev.rxSelect.1, some e) from Prod.ext rfl h1]
    dsimp only
    refine ⟨.taken e, Only.update (fun q _ => hok q) _, by rw [h6]; exact h.listener, h3, fun e' he' => ?_, fun e' he' => ?_,
      fun e' m v hx => (by cases hx), ?_, ?_, fun e' he' => ?_, fun e' he' hx => ?_, ?_, ?_, ?_, fun w hw => ?_, h.names, h.rejects,
      fun hx => (by cases hx), fun hx => (by cases hx), fun e' hx => (by cases hx)⟩
    · cases he'
      rw [h2]
      exact ⟨hne, hrest⟩
    · rw [h4, h.masked e' he', h2, hmem]
      simp only [RxPc.holds, Option.some.injEq]
      constructor
      · rintro ((rfl | hx) | hx)
        · exact Or.inr rfl
        · exact Or.inl hx
        · cases hx
      · rintro (hx | rfl)
        · exact Or.inl (Or.inr hx)
        · exact Or.inl (Or.inl rfl)
    · rw [h.order, h2, hpk, hq]
      simp [RxPc.hand, hpk]
    · intro e' he'
      rw [h.once e' he', h4, hpk]
    · rw [h.unread e' he', h4, h2, hmem]
      simp only [RxPc.taken.injEq, reduceCtorEq, exists_false, and_false, or_false]
      constructor
      · rintro (hx | rfl | hx)
        · exact Or.inl hx
        · exact Or.inr (Or.inr rfl)
        · exact Or.inr (Or.inl hx)
      · rintro (hx | hx | rfl)
        · exact Or.inl hx
        · exact Or.inr (Or.inr hx)
        · exact Or.inr (Or.inl rfl)
    · rw [h4]
      apply h.settled e' he'
      rw [hmem]
      rw [h2] at hx
      rcases hx with hx | hx | ⟨-, m, hx⟩
      · exact Or.inl (Or.inr hx)
      · cases hx
        exact Or.inl (Or.inl rfl)
      · cases hx
    · intro e' he' hu
      have := h.len e' he' hu
      unfold Dev.slotLen at this ⊢
      rw [h5]
      exact this
    · rw [h4]
      exact h.block
    · rw [h4]
      exact h.nonblock
    · obtain ⟨m, l, hl, hm⟩ := h.named w hw
      refine ⟨m, l, ?_, hm⟩
      rw [← hl, h2, hpk, hq]
      simp [RxPc.hand, hpk]

theorem Fifo.startRxMsg (h : Fifo s c) {p : P} (hok : Alone s (.rxMsg p)) :
    ∃ c', Fifo { s with pc := Function.update s.pc p (if s.dev.blockFirst then .peekReg .msgIn else .peekNonblock) } c' := by
  have hc : c = .idle := h.only.idle hok
  subst hc
  refine ⟨if s.dev.blockFirst then .peekReg .msgIn else .peekNonblock,
    h.peek (n := s.named) (Only.update (fun q _ => hok q) _) rfl ?_ h.named ?_ ?_ ?_⟩
  · split_ifs <;> rfl
  · split_ifs with hb
    · intro hx
      cases hx
    · simpa using hb
  · split_ifs <;> intro hx <;> cases hx
  · split_ifs with hb
    · intro e hx
      cases hx
      right
      simp [Dev.queue, hb]
    · intro e hx
      cases hx

theorem Fifo.copy (h : Fifo s c) {p : P} {e : Evt} (hp : s.pc p = .taken e) (hs : s.goLine p = some s') :
    ∃ c', Fifo s' c' := by
  obtain ⟨rfl, hq⟩ := h.only.eq (p := p) (by simp [hp])
  rw [hp] at h
  obtain ⟨he, hnq⟩ := h.slot e rfl
  have hu : s.unread e = true := (h.unread e he).mpr (Or.inr (Or.inr (Or.inl rfl)))
  have hlen := h.len e he hu
  have hra : s.dev.piuHw.raised e = false := h.settled e he (Or.inr (Or.inl rfl))
  unfold Receiver.goLine at hs
  rw [hp] at hs
  dsimp only at hs
  rw [if_neg (by omega)] at hs
  split_ifs at hs with hm
  · cases hs
    subst hm
    refine ⟨_, h.move (k := s.dev.piuHw.com) (Only.update hq _) rfl rfl (fun e' he' => ?_) (fun e' hx => hx)
      (fun _ _ _ hx => (by cases hx)) (fun e' he' hx => ?_) h.named (fun hx => (by cases hx)) (fun hx => (by cases hx))
      (fun _ hx => (by cases hx))⟩
    · rw [h.unread e' he']
      simp only [RxPc.taken.injEq, reduceCtorEq, exists_false, and_false, or_false, false_or]
      constructor
      · rintro (hx | hx | hx)
        · exact Or.inl hx
        · exact Or.inr (Or.inl hx)
        · exact Or.inr (Or.inr ⟨hx.symm, _, rfl⟩)
      · rintro (hx | hx | ⟨hx, -⟩)
        · exact Or.inl hx
        · exact Or.inr (Or.inl hx)
        · exact Or.inr (Or.inr hx.symm)
    · rcases hx with hx | ⟨rfl, -⟩
      · cases hx
      · exact hra
  · cases hs
    refine ⟨_, h.move (k := s.dev.piuHw.com) (Only.update hq _) rfl rfl (fun e' he' => ?_) (fun e' hx => ?_)
      (fun _ _ _ hx => (by cases hx)) (fun e' he' hx => ?_) h.named (fun hx => (by cases hx)) (fun hx => (by cases hx))
      (fun _ hx => (by cases hx))⟩
    · by_cases hee : e' = e
      · subst hee
        simp [hra, hnq]
      · have hee' : e ≠ e' := Ne.symm hee
        simp [Function.update_of_ne hee, h.unread e' he', hee']
    · by_cases hee : e' = e
      · rw [hee] at hx
        simp at hx
      · rwa [Function.update_of_ne hee] at hx
    · rcases hx with hx | ⟨-, m, hx⟩
      · cases hx
      · cases hx

theorem Fifo.reply (h : Fifo s c) {p : P} {m : Word × Msg} (hp : s.pc p = .copied m) (hs : s.goLine p = some s') :
    ∃ c', Fifo s' c' := by
  obtain ⟨rfl, hq⟩ := h.only.eq (p := p) (by simp [hp])
  rw [hp] at h
  have hra : s.dev.piuHw.raised .msgIn = false := h.settled .msgIn (by simp) (Or.inr (Or.inr ⟨rfl, m, rfl⟩))
  have hnq := (h.slot .msgIn rfl).2
  unfold Receiver.goLine at hs
  rw [hp] at hs
  cases hs
  refine ⟨_, h.move (k := Function.update s.dev.piuHw.com 1 m.1) (Only.update hq _) rfl rfl (fun e' he' => ?_) (fun e' hx => ?_)
    (fun _ _ _ hx => (by cases hx)) (fun e' he' hx => ?_) h.named (fun hx => (by cases hx)) (fun hx => (by cases hx))
    (fun _ hx => (by cases hx))⟩
  · by_cases hee : e' = .msgIn
    · subst hee
      simp [hra, hnq]
    · simp [h.unread e' he', hee]
  · by_cases hee : e' = .msgIn
    · rw [hee] at hx
      simp at hx
    · rwa [Function.update_of_ne hee] at hx
  · rcases hx with hx | ⟨-, m, hx⟩
    · cases hx
    · cases hx

/-- `piu_int_ena` reads the mask register. -/
theorem Fifo.readMask (h : Fifo s c) {p : P} {e : Evt} {m : Word × Msg} (hp : s.pc p = .replied e m)
    (hs : s.goLine p = some s') : ∃ c', Fifo s' c' := by
  obtain ⟨rfl, hq⟩ := h.only.eq (p := p) (by simp [hp])
  rw [hp] at h
  unfold Receiver.goLine at hs
  rw [hp] at hs
  cases hs
  refine ⟨_, h.move (k := s.dev.piuHw.com) (Only.update hq _) rfl rfl (fun e' he' => ?_) (fun e' hx => hx)
    (fun _ _ _ hx => ?_) (fun e' he' hx => ?_) h.named (fun hx => (by cases hx)) (fun hx => (by cases hx))
    (fun _ hx => (by cases hx))⟩
  · rw [h.unread e' he']
    simp
  · cases hx
    intro e' _
    rfl
  · rcases hx with hx | ⟨-, m, hx⟩
    · cases hx
    · cases hx

/-- `piu_int_ena` writes the mask register, and the message is returned. -/
theorem Fifo.writeMask (h : Fifo s c) {p : P} {e : Evt} {m : Word × Msg} {v : Word} (hp : s.pc p = .enabling e m v)
    (hs : s.goLine p = some s') : ∃ c', Fifo s' c' := by
  obtain ⟨rfl, hq⟩ := h.only.eq (p := p) (by simp [hp])
  rw [hp] at h
  obtain ⟨he, hnq⟩ := h.slot e rfl
  have hmask := h.mask e m v rfl
  unfold Receiver.goLine at hs
  rw [hp] at hs
  cases hs
  refine ⟨.idle, Only.update hq _, h.listener, ⟨h.flags.block, h.flags.nonblock, h.flags.first⟩, fun _ hx => (by cases hx),
    fun e' he' => ?_, fun _ _ _ hx => (by cases hx), ?_, h.once, fun e' he' => ?_, fun e' he' hx => ?_, h.len, h.block, h.nonblock,
    fun w hw => (by cases hw), fun x hx w hw => ?_, h.rejects, fun hx => (by cases hx), fun hx => (by cases hx),
    fun _ hx => (by cases hx)⟩
  · have hen : Regs.enabled { s.dev.piuHw with intmask := v ||| (e.mask &&& hints) } e' =
        (s.dev.piuHw.enabled e' || decide (e' = e)) := by
      rw [← hmask e' he']
      simp [Regs.enabled, getLsbD_mask, getLsbD_hints]
    dsimp only
    rw [hen, Bool.or_eq_false_iff, h.masked e' he']
    simp only [RxPc.holds, Option.some.injEq, decide_eq_false_iff_not, reduceCtorEq, or_false]
    constructor
    · rintro ⟨hx | hx, hne⟩
      · exact hx
      · exact absurd hx.symm hne
    · intro hx
      refine ⟨Or.inl hx, fun hee => hnq (hee ▸ hx)⟩
  · show s.handled = (s.returned ++ [((e, m), s.named)]).map Prod.fst ++ [] ++ s.dev.queue.map s.dev.packet
    rw [h.order]
    simp [RxPc.hand]
  · rw [h.unread e' he']
    simp [Regs.raised]
    rfl
  · apply h.settled e' he'
    rcases hx with hx | hx | ⟨-, m', hx⟩
    · exact Or.inl hx
    · cases hx
    · cases hx
  · rcases List.mem_append.mp hx with hx | hx
    · exact h.names x hx w hw
    · rw [List.mem_singleton] at hx
      subst hx
      obtain ⟨m', l, hl, hm⟩ := h.named w hw
      simp only [RxPc.hand, List.cons_append, List.nil_append, List.cons.injEq] at hl
      rw [← hl.1] at hm
      exact hm

theorem Fifo.look (h : Fifo s c) {p : P} (hp : s.pc p = .peekNonblock ∨ s.pc p = .peekBlock ∨ ∃ e, s.pc p = .peekReg e)
    (hs : s.goLine p = some s') : ∃ c', Fifo s' c' := by
  have hne : s.pc p ≠ .idle := by
    rcases hp with hp | hp | ⟨e, hp⟩ <;> simp [hp]
  obtain ⟨rfl, hq⟩ := h.only.eq hne
  unfold Receiver.goLine at hs
  rcases hp with hp | hp | ⟨e, hp⟩
  · rw [hp] at hs h
    cases hs
    have hb := h.peekNonblock rfl
    refine ⟨_, h.peek (n := s.named) (Only.update hq _) rfl ?_ h.named ?_ ?_ ?_⟩
    · split_ifs <;> rfl
    · split_ifs <;> intro hx <;> cases hx
    · split_ifs with hn
      · intro hx
        cases hx
      · exact fun _ => ⟨hb, by simpa using hn⟩
    · split_ifs with hn
      · intro e hx
        cases hx
        right
        simp [Dev.queue, hb, hn]
      · intro e hx
        cases hx
  · rw [hp] at hs h
    cases hs
    obtain ⟨hb, hn⟩ := h.peekBlock rfl
    refine ⟨_, h.peek (n := s.named) (Only.update hq _) rfl rfl h.named (fun hx => (by cases hx)) (fun hx => (by cases hx))
      (fun e hx => ?_)⟩
    cases hx
    cases hr : s.dev.raiseBlock with
    | true =>
      right
      simp [Dev.queue, hb, hn, hr]
    | false =>
      left
      simp [Dev.queue, hb, hn, hr]
  · rw [hp] at hs h
    cases hs
    refine ⟨_, h.peek (Only.update hq _) rfl rfl (fun w hw => ?_) (fun hx => (by cases hx)) (fun hx => (by cases hx))
      (fun e hx => (by cases hx))⟩
    split_ifs at hw with hnil
    cases hw
    rcases h.peekReg e rfl with hx | hx
    · exact absurd hx hnil
    obtain ⟨l, hl⟩ := List.head?_eq_some_iff.mp hx
    refine ⟨s.dev.packet e, l.map s.dev.packet, by rw [hl]; rfl, ?_⟩
    have he : e ∈ s.dev.queue := by simp [hl]
    rcases (Dev.mem_queue h.flags.first e).mp he with ⟨rfl, -⟩ | ⟨rfl, -⟩
    · rfl
    · rfl

/-! ## A new message -/

theorem Dev.packet_dspSend_of_ne {t : Dev} {e e' : Evt} (he : e ≠ .ackIn) (he' : e' ≠ .ackIn) (hne : e' ≠ e) (msg : Word) (b : Msg) :
    (t.dspSend e msg b).packet e' = t.packet e' ∧ (t.dspSend e msg b).slotLen e' = t.slotLen e' := by
  cases e <;> cases e' <;>
    simp_all [Dev.dspSend, Dev.packet, Dev.slotMsg, Dev.slotLen, Regs.rd32, Regs.wr32, Evt.slot]

theorem Dev.raised_dspSend (t : Dev) (e e' : Evt) (msg : Word) (b : Msg) :
    (t.dspSend e msg b).piuHw.raised e' = (t.piuHw.raised e' || decide (e' = e)) := by
  simp [Dev.dspSend, Regs.raised, Regs.wr32, getLsbD_mask]

theorem Fifo.send (h : Fifo s c) {e : Evt} {msg : Word} {b : Msg} (he : e ≠ .ackIn) (hok : Regular s (.send e msg b))
    (hs : s.step (.send e msg b) = some s') : Fifo s' c := by
  obtain ⟨hfree, hlen, hid, hid'⟩ := hok
  have hold : ¬ (s.dev.piuHw.raised e = true ∨ e ∈ s.dev.queue ∨ c = .taken e ∨ e = .msgIn ∧ ∃ m, c = .copied m) := by
    rw [← h.unread e he, hfree]
    simp
  push Not at hold
  obtain ⟨hra, hnq, hnt, hnc⟩ := hold
  have hslot : ∀ e', e' ∈ s.dev.queue → e' ≠ .ackIn ∧ e' ≠ e := by
    intro e' hx
    refine ⟨fun hy => ?_, fun hy => hnq (hy ▸ hx)⟩
    have := (Dev.mem_queue h.flags.first e').mp hx
    simp [hy] at this
  have hpk : s.dev.queue.map (s.dev.dspSend e msg b).packet = s.dev.queue.map s.dev.packet := by
    apply List.map_congr_left
    intro e' hx
    exact (Dev.packet_dspSend_of_ne he (hslot e' hx).1 (hslot e' hx).2 msg b).1
  have hhand : c.hand (s.dev.dspSend e msg b) = c.hand s.dev := by
    cases c with
    | taken e' =>
      have hne : e' ≠ e := fun hy => hnt (by rw [hy])
      simp only [RxPc.hand]
      rw [(Dev.packet_dspSend_of_ne he (h.slot e' rfl).1 hne msg b).1]
    | _ => rfl
  unfold Receiver.step at hs
  dsimp only at hs
  rw [if_neg he] at hs
  cases hs
  refine ⟨h.only, h.listener, ⟨h.flags.block, h.flags.nonblock, h.flags.first⟩, h.slot, h.masked, h.mask, ?_, fun e' he' => ?_,
    fun e' he' => ?_, fun e' he' hx => ?_, fun e' he' hu => ?_, fun hu => ?_, fun hu => ?_, fun w hw => ?_, h.names, h.rejects,
    h.peekNonblock, h.peekBlock, h.peekReg⟩
  · dsimp only
    rw [hhand]
    exact h.order.trans (by rw [← hpk]; rfl)
  · dsimp only
    rw [List.filter_append, h.once e' he', Dev.raised_dspSend]
    by_cases hee : e' = e
    · subst hee
      simp [hra, Dev.packet]
    · have hee' : e ≠ e' := Ne.symm hee
      rw [(Dev.packet_dspSend_of_ne he he' hee msg b).1]
      simp [hee, Dev.packet, hee']
  · dsimp only
    rw [Dev.raised_dspSend]
    by_cases hee : e' = e
    · subst hee
      simp
    · simp only [Function.update_of_ne hee, h.unread e' he', hee, decide_false, Bool.or_false]
      exact Iff.rfl
  · dsimp only
    rw [Dev.raised_dspSend, h.settled e' he' hx, Bool.false_or, decide_eq_false_iff_not]
    rintro rfl
    rcases hx with hx | hx | ⟨hx, m, hm⟩
    · exact hnq hx
    · exact hnt hx
    · exact hnc hx m hm
  · by_cases hee : e' = e
    · subst hee
      cases e' with
      | ackIn => exact absurd rfl he
      | msgIn => exact hlen
      | nonblockMsgIn => exact hlen
    · dsimp only at hu ⊢
      rw [Function.update_of_ne hee] at hu
      rw [(Dev.packet_dspSend_of_ne he he' hee msg b).2]
      exact h.len e' he' hu
  · cases e with
    | ackIn => exact absurd rfl he
    | msgIn =>
      intro hx
      exact hid ⟨rfl, by simpa [Dev.dspSend, Regs.wr32, Evt.slot] using hx⟩
    | nonblockMsgIn =>
      have := h.block (by simpa using hu)
      simpa [Dev.dspSend, Regs.wr32, Evt.slot] using this
  · cases e with
    | ackIn => exact absurd rfl he
    | msgIn =>
      have := h.nonblock (by simpa using hu)
      simpa [Dev.dspSend, Regs.wr32, Evt.slot] using this
    | nonblockMsgIn =>
      intro hx
      exact hid' ⟨rfl, by simpa [Dev.dspSend, Regs.wr32, Evt.slot] using hx⟩
  · obtain ⟨m, l, hl, hm⟩ := h.named w hw
    refine ⟨m, l, ?_, hm⟩
    dsimp only
    rw [hhand, ← hl, ← hpk]
    rfl

/-! ## Runs -/

theorem Fifo.go (h : Fifo s c) {p : P} (hs : s.goLine p = some s') : ∃ c', Fifo s' c' := by
  cases hp : s.pc p with
  | idle => simp [Receiver.goLine, hp] at hs
  | taken e => exact h.copy hp hs
  | copied m => exact h.reply hp hs
  | replied e m => exact h.readMask hp hs
  | enabling e m v => exact h.writeMask hp hs
  | peekNonblock => exact h.look (Or.inl hp) hs
  | peekBlock => exact h.look (Or.inr (Or.inl hp)) hs
  | peekReg e => exact h.look (Or.inr (Or.inr ⟨e, hp⟩)) hs

theorem Fifo.step {a : RxAction P} (h : Fifo s c) (hr : Regular s a) (ha : Alone s a) (hs : s.step a = some s') :
    ∃ c', Fifo s' c' := by
  cases a with
  | send e msg b =>
    have he : e ≠ .ackIn := by
      intro hx
      simp [Receiver.step, hx] at hs
    exact ⟨c, h.send he hr hs⟩
  | irq =>
    cases hs
    exact ⟨c, h.irq ha⟩
  | rx p =>
    unfold Receiver.step at hs
    dsimp only at hs
    split_ifs at hs
    cases hs
    exact h.startRx ha
  | rxMsg p =>
    unfold Receiver.step at hs
    dsimp only at hs
    rw [if_pos (ha p)] at hs
    cases hs
    exact h.startRxMsg ha
  | go p => exact h.go hs
  | ioctl _ => exact absurd hr id
  | openFile => exact absurd hr id
  | release _ => exact absurd hr id
  | fasync _ _ => exact absurd hr id

/-- From a regular DSP, with one reader at a time whose unlocked reads are not interrupted, every message is delivered once
and in order. -/
theorem messages_delivered (r : Regs) (mem : Mem) (file : Nat) (s : Receiver P)
    (h : Run Receiver.step (fun s a => Regular s a ∧ Alone s a) (listening r mem file) s) : Delivered s := by
  have hf : ∃ c, Fifo s c := by
    refine h.invariant (I := fun s => ∃ c, Fifo s c) ⟨.idle, Fifo.listening r mem file⟩ ?_
    intro t a u ht ha hu
    obtain ⟨c, hc⟩ := ht
    exact hc.step ha.1 ha.2 hu
  obtain ⟨c, hc⟩ := hf
  exact hc.delivered

instance (s : Receiver P) : (a : RxAction P) → Decidable (Regular s a)
  | .send e msg b => inferInstanceAs (Decidable (s.unread e = false ∧ b.len.toNat ≤ internalMem ∧
      ¬ (e = .msgIn ∧ msg = 2#32) ∧ ¬ (e = .nonblockMsgIn ∧ msg = 5#32)))
  | .irq | .rx _ | .rxMsg _ | .go _ => inferInstanceAs (Decidable True)
  | .ioctl _ | .openFile | .release _ | .fasync _ _ => inferInstanceAs (Decidable False)

instance [Fintype P] (s : Receiver P) : (a : RxAction P) → Decidable (Alone s a)
  | .irq => inferInstanceAs (Decidable (s.dev.arriving = [] ∨ ∀ p, (s.pc p).exposed = false))
  | .rx _ | .rxMsg _ => inferInstanceAs (Decidable (∀ p, s.pc p = .idle))
  | .send _ _ _ | .go _ | .ioctl _ | .openFile | .release _ | .fasync _ _ => inferInstanceAs (Decidable True)

/-- A blocking message arrives while a non-blocking one is pending, and is returned after it. -/
theorem messages_delivered_two :
    ∃ s : Receiver (Fin 1), Run Receiver.step (fun s a => Regular s a ∧ Alone s a) (listening zeroRegs zeroMem 0) s ∧
      Delivered s ∧ s.returned = [((.nonblockMsgIn, 8#32, ⟨0, 1, [3]⟩), some 8#32), ((.msgIn, 7#32, ⟨1, 2, [4, 5]⟩), none)] := by
  have h : Run (σ := Receiver (Fin 1)) Receiver.step (fun s a => Regular s a ∧ Alone s a) (listening zeroRegs zeroMem 0) _ :=
    .of_isSome [.send .nonblockMsgIn 8#32 ⟨0, 1, [3]⟩, .irq, .rxMsg 0, .go 0, .go 0, .send .msgIn 7#32 ⟨1, 2, [4, 5]⟩, .irq,
      .rx 0, .go 0, .go 0, .go 0, .rx 0, .go 0, .go 0, .go 0, .go 0] (by decide +kernel)
  exact ⟨_, h, messages_delivered _ _ _ _ h, by decide +kernel⟩

/-- A blocking message arrives while `piu_rx` stands between the read and the write of the mask register: its slot is unmasked
again although it is pending. And when two readers overlap there, slot 2 stays masked with nothing pending or in hand. -/
theorem mask_update_lost :
    (∃ s : Receiver (Fin 1), Run Receiver.step Regular (listening zeroRegs zeroMem 0) s ∧
      s.dev.queue = [.msgIn] ∧ s.dev.piuHw.enabled .msgIn = true ∧ ¬ Delivered s) ∧
    ∃ s : Receiver (Fin 2), Run Receiver.step Regular (listening zeroRegs zeroMem 0) s ∧
      s.dev.queue = [] ∧ (∀ p, s.pc p = .idle) ∧ s.dev.piuHw.enabled .nonblockMsgIn = false ∧ ¬ Delivered s := by
  constructor
  · have h : Run (σ := Receiver (Fin 1)) Receiver.step Regular (listening zeroRegs zeroMem 0) _ :=
      .of_isSome [.send .nonblockMsgIn 8#32 ⟨0, 1, [3]⟩, .irq, .rx 0, .go 0, .go 0, .send .msgIn 7#32 ⟨1, 2, [4, 5]⟩, .irq,
        .go 0] (by decide +kernel)
    refine ⟨_, h, by decide +kernel, by decide +kernel, fun hd => ?_⟩
    have := (hd.masked .msgIn (by simp)).mpr (Or.inl (by decide +kernel))
    revert this
    decide +kernel
  · have h : Run (σ := Receiver (Fin 2)) Receiver.step Regular (listening zeroRegs zeroMem 0) _ :=
      .of_isSome [.send .nonblockMsgIn 8#32 ⟨0, 1, [3]⟩, .send .msgIn 7#32 ⟨1, 2, [4, 5]⟩, .irq, .rx 0, .rx 1, .go 0, .go 0, .go 0,
        .go 1, .go 1, .go 1, .go 0] (by decide +kernel)
    refine ⟨_, h, by decide +kernel, by decide +kernel, by decide +kernel, fun hd => ?_⟩
    rcases (hd.masked .nonblockMsgIn (by simp)).mp (by decide +kernel) with hx | hx
    · revert hx
      decide +kernel
    · revert hx
      decide +kernel

end Emlinux.Piu
