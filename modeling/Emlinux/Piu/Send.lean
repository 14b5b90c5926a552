import Emlinux.Lib.Run
import Emlinux.Piu.Device

/-!
# Sending commands to the DSP

`piu_tx` takes the semaphore, arms the acknowledge timer and then writes the shared memory, `last_cmd` and `COM0`
line by line, with interrupts enabled. The semaphore is given back by the acknowledge interrupt and by
the timer, neither of which looks at whose command it is about. A `Sender` is the device with any number of processes inside
`piu_tx`, the commands the DSP has not acknowledged, and the history.

Every call of `piu_tx` that passes its length check has a number. A run is *prompt* when no acknowledge
interrupt comes after the timeout of its command and the timer never expires on a call that has not written `COM0` yet
(`Prompt`). In a prompt run one call at a time owns the mailbox (`Owned`).
-/

namespace Emlinux.Piu

open Lib

/-- What `piu_tx` writes. -/
inductive TxField where
  | txLen
  | txType
  | txArray
  | lastCmd
  | com0
deriving DecidableEq, Repr

/-- The place of a process in `piu_tx`: waiting for the semaphore, before `mod_timer`, before the write of a field. -/
inductive TxPc where
  | idle
  | waiting
  | locked
  | writing (f : TxField)
deriving DecidableEq, Repr

/-- A call of `piu_tx`: its number and arguments. -/
structure TxCall where
  id : Nat
  msg : Word
  body : Msg

/-- The history: a call wrote a field, its command was acknowledged, its timer expired. -/
inductive TxEvent where
  | wrote (id : Nat) (f : TxField)
  | acked (id : Nat)
  | timeout (id : Nat)
deriving DecidableEq, Repr

/-- The driver's sending side. `unacked` are the commands written to `COM0` that the DSP has not acknowledged, `armedBy` is the
call that armed the timer last. -/
structure Sender where
  dev : Dev
  pc : Nat → TxPc
  call : Nat → TxCall
  calls : Nat
  unacked : List (Nat × Word)
  armedBy : Nat
  log : List TxEvent

inductive TxAction where
  | enter (p : Nat) (msg : Word) (body : Msg)
  | signal (p : Nat)
  | go (p : Nat)
  | ack (id : Nat)
  | expire

namespace Sender

variable (s : Sender)

/-- The line of `piu_tx` that writes a field, and the line after it. -/
def write (c : TxCall) : TxField → Dev × TxPc
  | .txLen => ({ s.dev with mem := { s.dev.mem with txLen := c.body.len } }, .writing .txType)
  | .txType => ({ s.dev with mem := { s.dev.mem with txType := c.body.type } }, .writing .txArray)
  | .txArray =>
    let n := s.dev.mem.txLen.toNat
    ({ s.dev with mem := { s.dev.mem with txArray := c.body.p.take n ++ s.dev.mem.txArray.drop n } }, .writing .lastCmd)
  | .lastCmd => ({ s.dev with lastCmd := c.msg }, .writing .com0)
  | .com0 => ({ s.dev with piuHw := s.dev.piuHw.wr32 0 true c.msg }, .idle)

/-- The next line of a process inside `piu_tx`. -/
def goLine (p : Nat) : Option Sender :=
  match s.pc p with
  | .idle => none
  | .waiting =>
    if s.dev.mutex = 0 then none
    else some { s with dev := { s.dev with mutex := s.dev.mutex - 1 }, pc := Function.update s.pc p .locked }
  | .locked => some { s with
      dev := { s.dev with timer := true }, armedBy := (s.call p).id, pc := Function.update s.pc p (.writing .txLen) }
  | .writing f =>
    let c := s.call p
    let r := s.write c f
    some { s with
      dev := r.1, pc := Function.update s.pc p r.2, log := s.log ++ [.wrote c.id f],
      unacked := if f = .com0 then s.unacked ++ [(c.id, c.msg)] else s.unacked }

/-- The DSP writes the acknowledgement of a command to `REP0`, and `piu_isr` runs on the interrupt. -/
def acknowledge (id : Nat) : Option Sender :=
  match s.unacked.find? (fun u => u.1 == id) with
  | none => none
  | some u =>
    let hw := s.dev.piuHw.wr32 0 false u.2
    let dev := { s.dev with piuHw := { hw with status := hw.status ||| Evt.ackIn.mask } }
    some { s with
      dev := dev.piuIsr.2.1, unacked := s.unacked.filter (fun u => u.1 ≠ id), log := s.log ++ [.acked id] }

def step : TxAction → Option Sender
  | .enter p msg body =>
    if s.pc p ≠ .idle then none
    -- the overlong message is refused before the semaphore is touched
    else if body.len.toNat > internalMem then some s
    else some { s with
      pc := Function.update s.pc p .waiting, call := Function.update s.call p ⟨s.calls, msg, body⟩, calls := s.calls + 1 }
  | .signal p => if s.pc p = .waiting then some { s with pc := Function.update s.pc p .idle } else none
  | .go p => s.goLine p
  | .ack id => s.acknowledge id
  | .expire =>
    if s.dev.timer then some { s with dev := s.dev.releaseTx, log := s.log ++ [.timeout s.armedBy] } else none

/-- The device after `sslpiu_init` and the first `sslpiu_open`. -/
def init (r : Regs) (mem : Mem) : Sender where
  dev := (Dev.init r mem).openFile
  pc := fun _ => .idle
  call := fun _ => ⟨0, 0, ⟨0, 0, []⟩⟩
  calls := 0
  unacked := []
  armedBy := 0
  log := []

/-- The process has taken the semaphore and not yet written `COM0`. -/
def inside (p : Nat) : Bool :=
  match s.pc p with
  | .idle => false
  | .waiting => false
  | _ => true

end Sender

/-- From its write to `COM0` to its own acknowledgement or timeout, no other call writes anything. -/
def Undisturbed (log : List TxEvent) : Prop :=
  ∀ i j f pre mid post, log = pre ++ .wrote i .com0 :: (mid ++ .wrote j f :: post) →
    .acked i ∉ mid → .timeout i ∉ mid → j = i

/-- The command of call `i` is out: written, and neither acknowledged nor timed out since. -/
def Outstanding (log : List TxEvent) (i : Nat) : Prop :=
  ∃ pre mid, log = pre ++ .wrote i .com0 :: mid ∧ .acked i ∉ mid ∧ .timeout i ∉ mid

theorem outstanding_append (log : List TxEvent) (e : TxEvent) (i : Nat) :
    Outstanding (log ++ [e]) i ↔ e = .wrote i .com0 ∨ Outstanding log i ∧ e ≠ .acked i ∧ e ≠ .timeout i := by
  constructor
  · intro h
    obtain ⟨pre, mid, he, h1, h2⟩ := h
    rcases List.eq_nil_or_concat mid with rfl | ⟨mid', x, rfl⟩
    · left
      exact (List.append_inj' he rfl).2 |> List.head_eq_of_cons_eq
    · right
      rw [List.concat_eq_append, ← List.cons_append, ← List.append_assoc] at he
      obtain ⟨hl, hx⟩ := List.append_inj' he rfl
      cases hx
      simp only [List.concat_eq_append, List.mem_append, List.mem_singleton, not_or] at h1 h2
      exact ⟨⟨pre, mid', hl, h1.1, h2.1⟩, Ne.symm h1.2, Ne.symm h2.2⟩
  · intro h
    rcases h with rfl | ⟨⟨pre, mid, rfl, h1, h2⟩, h3, h4⟩
    · exact ⟨log, [], rfl, by simp, by simp⟩
    · exact ⟨pre, mid ++ [e], by simp, by simp [h1, Ne.symm h3], by simp [h2, Ne.symm h4]⟩

theorem Undisturbed.append {log : List TxEvent} {e : TxEvent} (h : Undisturbed log)
    (he : ∀ i j f, e = .wrote j f → Outstanding log i → j = i) : Undisturbed (log ++ [e]) := by
  intro i j f pre mid post hl h1 h2
  rcases List.eq_nil_or_concat post with rfl | ⟨post', x, rfl⟩
  · have hl' : log ++ [e] = (pre ++ .wrote i .com0 :: mid) ++ [.wrote j f] := by simpa using hl
    obtain ⟨hlog, hx⟩ := List.append_inj' hl' rfl
    cases hx
    exact he i j f rfl ⟨pre, mid, hlog, h1, h2⟩
  · have hl' : log ++ [e] = (pre ++ .wrote i .com0 :: (mid ++ .wrote j f :: post')) ++ [x] := by simpa using hl
    obtain ⟨hlog, -⟩ := List.append_inj' hl' rfl
    exact h i j f pre mid post' hlog h1 h2

/-- No late acknowledgement, and no timeout of a call that has not written its command yet. -/
def Prompt (s : Sender) : TxAction → Prop
  | .ack id => TxEvent.timeout id ∉ s.log
  | .expire => TxEvent.wrote s.armedBy .com0 ∈ s.log
  | _ => True

instance (s : Sender) (a : TxAction) : Decidable (Prompt s a) := by
  cases a <;> unfold Prompt <;> infer_instance

/-! ## The interrupt and the timer -/

/-- What the sending side sees of the interrupts of the DSP's own messages: nothing. -/
def Dev.SameTx (t t' : Dev) : Prop :=
  t'.mutex = t.mutex ∧ t'.timer = t.timer ∧ t'.piuHw.enabled .ackIn = t.piuHw.enabled .ackIn

theorem Dev.handleMsg_tx (t : Dev) : t.SameTx t.handleMsg.1 := by
  unfold Dev.handleMsg SameTx
  dsimp only
  split_ifs <;> simp [raiseMsg, intDis]

theorem Dev.handleNonblock_tx (t : Dev) : t.SameTx t.handleNonblock.1 := by
  unfold Dev.handleNonblock SameTx
  split_ifs <;> simp [raiseNonblockMsg, intDis]

theorem Dev.serve_tx (stat : Word) (e : Evt) (he : e ≠ .ackIn) (r : Dev × List Note) :
    r.1.SameTx (Dev.serve stat e r).1 := by
  unfold Dev.serve
  split_ifs
  · cases e with
    | ackIn => exact absurd rfl he
    | msgIn => exact Dev.handleMsg_tx r.1
    | nonblockMsgIn => exact Dev.handleNonblock_tx r.1
  · exact ⟨rfl, rfl, rfl⟩

/-- An enabled acknowledge interrupt gives the semaphore back and stops the timer. -/
theorem Dev.piuIsr_ack (t : Dev) (h : t.piuHw.enabled .ackIn = true) (hr : t.piuHw.raised .ackIn = true) :
    t.piuIsr.2.1.mutex = t.mutex + 1 ∧ t.piuIsr.2.1.timer = false ∧ t.piuIsr.2.1.piuHw.enabled .ackIn = true := by
  have hbit : t.pendingInts.getLsbD Evt.ackIn.bit = true := by
    rw [getLsbD_pendingInts, h, hr]
    rfl
  have hne : t.pendingInts ≠ 0 := by
    intro h0
    rw [h0] at hbit
    simp at hbit
  unfold Dev.piuIsr
  dsimp only
  rw [if_neg hne]
  dsimp only
  obtain ⟨a1, a2, a3⟩ := Dev.serve_tx t.pendingInts .nonblockMsgIn (by simp)
    (Dev.serve t.pendingInts .msgIn (Dev.serve t.pendingInts .ackIn ({ t with piuHw := t.piuHw.wrStatus t.pendingInts }, [])))
  obtain ⟨b1, b2, b3⟩ := Dev.serve_tx t.pendingInts .msgIn (by simp)
    (Dev.serve t.pendingInts .ackIn ({ t with piuHw := t.piuHw.wrStatus t.pendingInts }, []))
  rw [a1, a2, a3, b1, b2, b3]
  unfold Dev.serve
  rw [if_pos ((and_mask_ne_zero _ _).mpr hbit)]
  exact ⟨rfl, rfl, h⟩

/-! ## One owner at a time -/

/-- Who owns the mailbox: nobody, a call on its way to `COM0`, or a command that is out with its timer running. -/
inductive Phase (s : Sender) : Prop
  | free (hm : s.dev.mutex = 1) (hi : ∀ p, s.inside p = false) (ho : ∀ i, ¬ Outstanding s.log i) (ht : s.dev.timer = false)
  | sending (p : Nat) (hm : s.dev.mutex = 0) (hp : s.inside p = true) (hi : ∀ q, s.inside q = true → q = p)
      (ho : ∀ i, ¬ Outstanding s.log i) (ha : s.dev.timer = true ∨ s.pc p ≠ .locked → s.armedBy = (s.call p).id)
  | sent (hm : s.dev.mutex = 0) (hi : ∀ p, s.inside p = false) (ho : ∀ i, Outstanding s.log i → i = s.armedBy)

structure Owned (s : Sender) : Prop where
  phase : Phase s
  ena : s.dev.piuHw.enabled .ackIn = true
  fresh : ∀ p, s.pc p ≠ .idle → (s.call p).id < s.calls ∧ TxEvent.wrote (s.call p).id .com0 ∉ s.log
  inj : ∀ p q, s.pc p ≠ .idle → s.pc q ≠ .idle → (s.call p).id = (s.call q).id → p = q
  past : ∀ i, TxEvent.wrote i .com0 ∈ s.log → i < s.calls
  out : ∀ u ∈ s.unacked, TxEvent.timeout u.1 ∉ s.log → Outstanding s.log u.1
  log : Undisturbed s.log

theorem Owned.init (r : Regs) (mem : Mem) : Owned (.init r mem) where
  phase := .free rfl (fun _ => rfl) (fun i h => by obtain ⟨pre, mid, hl, -⟩ := h; simp [Sender.init] at hl) rfl
  ena := by simp [Sender.init, Dev.openFile, Dev.init, Dev.intEna]
  fresh := fun p hp => absurd rfl hp
  inj := fun p q hp => absurd rfl hp
  past := by simp [Sender.init]
  out := by simp [Sender.init]
  log := by
    intro i j f pre mid post hl
    simp [Sender.init] at hl

variable {s s' : Sender}

theorem inside_update (s : Sender) (p : Nat) (c : TxPc) (q : Nat) (dev : Dev) (call : Nat → TxCall) (n m : Nat)
    (un : List (Nat × Word)) (l : List TxEvent) :
    Sender.inside ⟨dev, Function.update s.pc p c, call, n, un, m, l⟩ q =
      if q = p then (match c with | .idle => false | .waiting => false | _ => true) else s.inside q := by
  unfold Sender.inside
  by_cases h : q = p
  · subst h
    simp
  · simp [h]

theorem Owned.outside (h : Owned s) {p : Nat} (hp : s.inside p = false) {c : TxPc}
    (hc : c = .idle ∨ c = .waiting) {call : Nat → TxCall} {n : Nat} (hcall : ∀ q, s.inside q = true → call q = s.call q) :
    Phase { s with pc := Function.update s.pc p c, call := call, calls := n } := by
  have hin : ∀ q, Sender.inside { s with pc := Function.update s.pc p c, call := call, calls := n } q = s.inside q := by
    intro q
    rw [inside_update]
    split_ifs with hq
    · subst hq
      rcases hc with rfl | rfl <;> exact hp.symm
    · rfl
  cases h.phase with
  | free hm hi ho ht => exact .free hm (fun q => by rw [hin, hi]) ho ht
  | sending q hm hq hi ho ha =>
    have hqp : q ≠ p := by
      intro e
      rw [e, hp] at hq
      cases hq
    refine .sending q hm (by rw [hin, hq]) (fun r hr => hi r (by rwa [hin] at hr)) ho (fun hx => ?_)
    dsimp only at hx ⊢
    rw [Function.update_of_ne hqp] at hx
    rw [hcall q hq, ha hx]
  | sent hm hi ho => exact .sent hm (fun q => by rw [hin, hi]) ho

theorem Owned.enter (h : Owned s) {p : Nat} {msg : Word} {body : Msg} (hs : s.step (.enter p msg body) = some s') :
    Owned s' := by
  unfold Sender.step at hs
  dsimp only at hs
  split_ifs at hs with hp hl
  · cases hs
    exact h
  push Not at hp
  cases hs
  have hin : s.inside p = false := by simp [Sender.inside, hp]
  refine ⟨h.outside hin (Or.inr rfl) (fun q hq => ?_), h.ena, fun q hq => ?_, fun q q' hq hq' he => ?_,
    fun i hi => Nat.lt_succ_of_lt (h.past i hi), h.out, h.log⟩
  · have : q ≠ p := by
      intro e
      rw [e, hin] at hq
      cases hq
    simp [this]
  · dsimp only at hq ⊢
    by_cases hqp : q = p
    · subst hqp
      simp only [Function.update_self]
      exact ⟨Nat.lt_succ_self _, fun hx => absurd (h.past _ hx) (Nat.lt_irrefl _)⟩
    · simp only [Function.update_of_ne hqp] at hq ⊢
      obtain ⟨h1, h2⟩ := h.fresh q hq
      exact ⟨Nat.lt_succ_of_lt h1, h2⟩
  · -- the number of the new call is larger than those of all calls under way
    dsimp only at hq hq' he
    by_cases hqp : q = p <;> by_cases hqp' : q' = p
    · rw [hqp, hqp']
    · subst hqp
      simp only [Function.update_self, Function.update_of_ne hqp'] at he hq'
      have := (h.fresh q' hq').1
      omega
    · subst hqp'
      simp only [Function.update_self, Function.update_of_ne hqp] at he hq
      have := (h.fresh q hq).1
      omega
    · simp only [Function.update_of_ne hqp, Function.update_of_ne hqp'] at he hq hq'
      exact h.inj q q' hq hq' he

theorem pc_of_update {p : Nat} (hp : s.pc p ≠ .idle) {c : TxPc} {q : Nat}
    (hq : Function.update s.pc p c q ≠ .idle) : s.pc q ≠ .idle := by
  by_cases e : q = p
  · rwa [e]
  · rwa [Function.update_of_ne e] at hq

theorem Owned.signal (h : Owned s) {p : Nat} (hs : s.step (.signal p) = some s') : Owned s' := by
  unfold Sender.step at hs
  dsimp only at hs
  split_ifs at hs with hp
  cases hs
  have hne : s.pc p ≠ .idle := by simp [hp]
  exact ⟨h.outside (by simp [Sender.inside, hp]) (Or.inl rfl) (fun q _ => rfl), h.ena,
    fun q hq => h.fresh q (pc_of_update hne hq), fun q q' hq hq' => h.inj q q' (pc_of_update hne hq) (pc_of_update hne hq'),
    h.past, h.out, h.log⟩

/-- Inside `piu_tx` there is only the owner. -/
theorem Owned.sending (h : Owned s) {p : Nat} (hp : s.inside p = true) :
    s.dev.mutex = 0 ∧ (∀ q, s.inside q = true → q = p) ∧ (∀ i, ¬ Outstanding s.log i) ∧
      (s.dev.timer = true ∨ s.pc p ≠ .locked → s.armedBy = (s.call p).id) := by
  cases h.phase with
  | free _ hi _ _ =>
    rw [hi p] at hp
    cases hp
  | sending q hm _ hi ho ha =>
    have : p = q := hi p hp
    subst this
    exact ⟨hm, hi, ho, ha⟩
  | sent _ hi _ =>
    rw [hi p] at hp
    cases hp

theorem Owned.down (h : Owned s) {p : Nat} (hp : s.pc p = .waiting) (hm : s.dev.mutex ≠ 0) :
    Owned { s with dev := { s.dev with mutex := s.dev.mutex - 1 }, pc := Function.update s.pc p .locked } := by
  have hne : s.pc p ≠ .idle := by simp [hp]
  refine ⟨?_, h.ena, fun q hq => h.fresh q (pc_of_update hne hq),
    fun q q' hq hq' => h.inj q q' (pc_of_update hne hq) (pc_of_update hne hq'), h.past, h.out, h.log⟩
  cases h.phase with
  | free hm1 hi ho ht =>
    refine .sending p (by simp [hm1]) (by simp [inside_update]) (fun q hq => ?_) ho (fun hx => ?_)
    · rw [inside_update] at hq
      split_ifs at hq with hqp
      · exact hqp
      · rw [hi q] at hq
        cases hq
    · simp [ht] at hx
  | sending _ hm0 => exact absurd hm0 hm
  | sent hm0 => exact absurd hm0 hm

theorem Owned.arm (h : Owned s) {p : Nat} (hp : s.pc p = .locked) :
    Owned { s with
      dev := { s.dev with timer := true }, armedBy := (s.call p).id, pc := Function.update s.pc p (.writing .txLen) } := by
  have hne : s.pc p ≠ .idle := by simp [hp]
  obtain ⟨hm, hi, ho, -⟩ := h.sending (p := p) (by simp [Sender.inside, hp])
  refine ⟨.sending p hm (by simp [inside_update]) (fun q hq => ?_) ho (fun _ => rfl), h.ena,
    fun q hq => h.fresh q (pc_of_update hne hq),
    fun q q' hq hq' => h.inj q q' (pc_of_update hne hq) (pc_of_update hne hq'), h.past, h.out, h.log⟩
  rw [inside_update] at hq
  split_ifs at hq with hqp
  · exact hqp
  · exact hi q hq

theorem Sender.write_dev (s : Sender) (c : TxCall) (f : TxField) :
    (s.write c f).1.mutex = s.dev.mutex ∧ (s.write c f).1.piuHw.enabled .ackIn = s.dev.piuHw.enabled .ackIn := by
  cases f <;> simp [Sender.write]

theorem Sender.write_pc (s : Sender) (c : TxCall) (f : TxField) :
    f = .com0 ∧ (s.write c f).2 = .idle ∨ f ≠ .com0 ∧ ∃ g, (s.write c f).2 = .writing g := by
  cases f <;> simp [Sender.write]

theorem Owned.line (h : Owned s) {p : Nat} {f : TxField} (hp : s.pc p = .writing f) (hs : s.goLine p = some s') :
    Owned s' := by
  unfold Sender.goLine at hs
  rw [hp] at hs
  cases hs
  have hne : s.pc p ≠ .idle := by simp [hp]
  obtain ⟨hm, hi, ho, ha⟩ := h.sending (p := p) (by simp [Sender.inside, hp])
  obtain ⟨w1, w2⟩ := s.write_dev (s.call p) f
  have harm : s.armedBy = (s.call p).id := ha (Or.inr (by simp [hp]))
  have hin : ∀ q, q ≠ p → s.inside q = false := by
    intro q hq
    by_contra hx
    exact hq (hi q (by simpa using hx))
  have hlast : ∀ q, q ≠ p → s.pc q ≠ .idle → TxEvent.wrote (s.call q).id .com0 ∉ s.log ++ [.wrote (s.call p).id f] := by
    intro q hq hqi hx
    rcases List.mem_append.mp hx with hx | hx
    · exact (h.fresh q hqi).2 hx
    · rw [List.mem_singleton] at hx
      injection hx with hid _
      exact hq (h.inj q p hqi hne hid)
  have hout : ∀ i, Outstanding (s.log ++ [.wrote (s.call p).id f]) i → f = .com0 ∧ i = (s.call p).id := by
    intro i hx
    rcases (outstanding_append _ _ _).mp hx with hx | hx
    · injection hx with h1 h2
      exact ⟨h2, h1.symm⟩
    · exact absurd hx.1 (ho i)
  refine ⟨?_, by rw [w2]; exact h.ena, fun q hq => ?_,
    fun q q' hq hq' => h.inj q q' (pc_of_update hne hq) (pc_of_update hne hq'), fun i hx => ?_, fun u hu ht => ?_,
    h.log.append (fun i j g _ hx => absurd hx (ho i))⟩
  · rcases s.write_pc (s.call p) f with ⟨rfl, hw⟩ | ⟨hf, g, hw⟩
    · refine .sent (by rw [w1, hm]) (fun q => ?_) (fun i hx => ?_)
      · rw [inside_update, hw]
        split_ifs with hqp
        · rfl
        · exact hin q hqp
      · dsimp only at hx ⊢
        rw [harm, (hout i hx).2]
    · refine .sending p (by rw [w1, hm]) (by rw [inside_update, hw]; simp) (fun q hq => ?_) (fun i hx => ?_) (fun _ => harm)
      · rw [inside_update] at hq
        split_ifs at hq with hqp
        · exact hqp
        · exact hi q hq
      · exact hf (hout i hx).1
  · dsimp only at hq ⊢
    by_cases hqp : q = p
    · subst hqp
      refine ⟨(h.fresh q hne).1, fun hx => ?_⟩
      rcases List.mem_append.mp hx with hx | hx
      · exact (h.fresh q hne).2 hx
      · -- the command itself ends the call
        rw [List.mem_singleton] at hx
        injection hx with _ hf
        subst hf
        simp [Sender.write] at hq
    · rw [Function.update_of_ne hqp] at hq
      exact ⟨(h.fresh q hq).1, hlast q hqp hq⟩
  · rcases List.mem_append.mp hx with hx | hx
    · exact h.past i hx
    · rw [List.mem_singleton] at hx
      injection hx with hid _
      rw [hid]
      exact (h.fresh p hne).1
  · dsimp only at hu ht ⊢
    rw [outstanding_append]
    split_ifs at hu with hf
    · rcases List.mem_append.mp hu with hu | hu
      · right
        refine ⟨h.out u hu (fun hx => ht (by simp [hx])), by simp, by simp⟩
      · rw [List.mem_singleton] at hu
        subst hu hf
        exact Or.inl rfl
    · right
      exact ⟨h.out u hu (fun hx => ht (by simp [hx])), by simp, by simp⟩

theorem Owned.go (h : Owned s) {p : Nat} (hs : s.step (.go p) = some s') : Owned s' := by
  change s.goLine p = some s' at hs
  cases hp : s.pc p with
  | idle => simp [Sender.goLine, hp] at hs
  | waiting =>
    unfold Sender.goLine at hs
    rw [hp] at hs
    dsimp only at hs
    split_ifs at hs with hm
    cases hs
    exact h.down hp hm
  | locked =>
    unfold Sender.goLine at hs
    rw [hp] at hs
    cases hs
    exact h.arm hp
  | writing f => exact h.line hp hs

/-- The history after an event that ends the outstanding command: nothing is out. -/
theorem not_outstanding_of_end {log : List TxEvent} {k : Nat} {e : TxEvent} (ho : ∀ i, Outstanding log i → i = k)
    (he : e = .acked k ∨ e = .timeout k) (i : Nat) : ¬ Outstanding (log ++ [e]) i := by
  intro hx
  rcases (outstanding_append _ _ _).mp hx with hx | ⟨hx, h1, h2⟩
  · rcases he with rfl | rfl <;> cases hx
  · rw [ho i hx] at h1 h2
    rcases he with rfl | rfl
    · exact h1 rfl
    · exact h2 rfl

theorem Owned.fresh_append (h : Owned s) {e : TxEvent} (he : ∀ i f, e ≠ .wrote i f) :
    (∀ p, s.pc p ≠ .idle → (s.call p).id < s.calls ∧ TxEvent.wrote (s.call p).id .com0 ∉ s.log ++ [e]) ∧
      (∀ i, TxEvent.wrote i .com0 ∈ s.log ++ [e] → i < s.calls) ∧ Undisturbed (s.log ++ [e]) := by
  have hmem : ∀ i, TxEvent.wrote i .com0 ∈ s.log ++ [e] → TxEvent.wrote i .com0 ∈ s.log := by
    intro i hi
    rcases List.mem_append.mp hi with hi | hi
    · exact hi
    · exact absurd (List.mem_singleton.mp hi).symm (he _ _)
  exact ⟨fun p hp => ⟨(h.fresh p hp).1, fun hx => (h.fresh p hp).2 (hmem _ hx)⟩, fun i hi => h.past i (hmem i hi),
    h.log.append (fun i j f hx => absurd hx (he j f))⟩

theorem Owned.acknowledge (h : Owned s) {id : Nat} (hok : Prompt s (.ack id)) (hs : s.step (.ack id) = some s') :
    Owned s' := by
  change s.acknowledge id = some s' at hs
  unfold Sender.acknowledge at hs
  split at hs
  · cases hs
  next u hu =>
  cases hs
  have hid : u.1 = id := by simpa using List.find?_some hu
  have hout : Outstanding s.log id := by
    have := h.out u (List.mem_of_find?_eq_some hu)
    rw [hid] at this
    exact this hok
  obtain ⟨f1, f2, f3⟩ := h.fresh_append (e := .acked id) (by simp)
  have hack := Dev.piuIsr_ack { s.dev with
      piuHw := { s.dev.piuHw.wr32 0 false u.2 with status := (s.dev.piuHw.wr32 0 false u.2).status ||| Evt.ackIn.mask } }
    (by simpa [Regs.enabled, Regs.wr32] using h.ena) (by simp [Regs.raised, getLsbD_mask])
  refine ⟨?_, hack.2.2, f1, h.inj, f2, fun v hv ht => ?_, f3⟩
  · cases h.phase with
    | free _ _ ho _ => exact absurd hout (ho id)
    | sending _ _ _ _ ho _ => exact absurd hout (ho id)
    | sent hm hi ho =>
      have hk : id = s.armedBy := ho id hout
      refine .free (hack.1.trans (by rw [hm])) hi (fun i => ?_) hack.2.1
      exact not_outstanding_of_end ho (Or.inl (by rw [hk])) i
  · dsimp only at hv ht ⊢
    obtain ⟨hv, hne⟩ := List.mem_filter.mp hv
    rw [outstanding_append]
    right
    exact ⟨h.out v hv (fun hx => ht (by simp [hx])), by simpa using Ne.symm (by simpa using hne), by simp⟩

theorem Owned.expire (h : Owned s) (hok : Prompt s .expire) (hs : s.step .expire = some s') : Owned s' := by
  unfold Sender.step at hs
  dsimp only at hs
  split_ifs at hs with ht
  cases hs
  obtain ⟨f1, f2, f3⟩ := h.fresh_append (e := .timeout s.armedBy) (by simp)
  refine ⟨?_, ?_, f1, h.inj, f2, fun v hv hx => ?_, f3⟩
  · cases h.phase with
    | free _ _ _ ht' =>
      rw [ht] at ht'
      cases ht'
    | sending p _ hp _ _ ha =>
      -- the timer belongs to the call under way, which has not written its command
      have hne : s.pc p ≠ .idle := by
        intro e
        simp [Sender.inside, e] at hp
      have hw : TxEvent.wrote s.armedBy .com0 ∈ s.log := hok
      rw [ha (Or.inl ht)] at hw
      exact absurd hw (h.fresh p hne).2
    | sent hm hi ho =>
      exact .free (by simp [Dev.releaseTx, hm]) hi (not_outstanding_of_end ho (Or.inr rfl)) rfl
  · have := h.ena
    simp only [Dev.releaseTx, Dev.intEna, Regs.enabled_intEna, Bool.or_eq_true]
    left
    unfold Regs.clrStatus
    dsimp only
    split_ifs
    · exact this
    · exact this
  · dsimp only at hv hx ⊢
    rw [outstanding_append]
    simp only [List.mem_append, List.mem_singleton, not_or] at hx
    exact Or.inr ⟨h.out v hv hx.1, by simp, fun e => hx.2 e.symm⟩

theorem Owned.step {a : TxAction} (h : Owned s) (hok : Prompt s a) (hs : s.step a = some s') : Owned s' := by
  cases a with
  | enter p msg body => exact h.enter hs
  | signal p => exact h.signal hs
  | go p => exact h.go hs
  | ack id => exact h.acknowledge hok hs
  | expire => exact h.expire hok hs

/-- In every run without late acknowledgements and without timeouts of unsent commands, the semaphore stays
binary and no call writes into the mailbox while the command of another is out. -/
theorem one_outstanding_command (r : Regs) (mem : Mem) (s : Sender)
    (h : Run Sender.step Prompt (.init r mem) s) : s.dev.mutex ≤ 1 ∧ Undisturbed s.log := by
  have ho : Owned s := h.invariant (Owned.init r mem) (fun t a u ht ha hu => ht.step ha hu)
  refine ⟨?_, ho.log⟩
  cases ho.phase with
  | free hm _ _ _ => exact hm.le
  | sending _ hm _ _ _ _ => omega
  | sent hm _ _ => omega

/-- The actions of a process that sends an empty message. -/
def sendEmpty (p : Nat) : List TxAction := .enter p 7#32 ⟨0, 0, []⟩ :: List.replicate 7 (.go p)

theorem one_outstanding_command_two_sends :
    ∃ s, Run Sender.step Prompt (.init zeroRegs zeroMem) s ∧ (s.dev.mutex ≤ 1 ∧ Undisturbed s.log) ∧
      s.log.length = 12 := by
  have h : Run Sender.step Prompt (.init zeroRegs zeroMem) _ :=
    .of_isSome (sendEmpty 0 ++ .ack 0 :: sendEmpty 1 ++ [.expire]) (by decide +kernel)
  exact ⟨_, h, one_outstanding_command _ _ _ h, by decide +kernel⟩

/-- The acknowledgement of the first command comes after its timeout: the semaphore counts to two, and the third
call writes its length while the command of the second is out. -/
theorem late_ack_two_outstanding :
    (∃ s, Run Sender.step free (.init zeroRegs zeroMem) s ∧ ¬ s.dev.mutex ≤ 1) ∧
      ∃ s, Run Sender.step free (.init zeroRegs zeroMem) s ∧ ¬ Undisturbed s.log := by
  constructor
  · have h : Run Sender.step free (.init zeroRegs zeroMem) _ :=
      .of_isSome (sendEmpty 0 ++ [.expire, .ack 0]) (by decide +kernel)
    exact ⟨_, h, by decide +kernel⟩
  · have h : Run Sender.step free (.init zeroRegs zeroMem) _ :=
      .of_isSome (sendEmpty 0 ++ [.expire, .ack 0] ++ sendEmpty 1 ++ (sendEmpty 2).take 4) (by decide +kernel)
    refine ⟨_, h, fun hu => ?_⟩
    have h21 : 2 = 1 := hu 1 2 .txLen
      [.wrote 0 .txLen, .wrote 0 .txType, .wrote 0 .txArray, .wrote 0 .lastCmd, .wrote 0 .com0, .timeout 0, .acked 0,
        .wrote 1 .txLen, .wrote 1 .txType, .wrote 1 .txArray, .wrote 1 .lastCmd] [] []
      (by decide +kernel) (by simp) (by simp)
    omega

end Emlinux.Piu
