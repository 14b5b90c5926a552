import Emlinux.I2c.Master
import Mathlib.Tactic

/-!
# What a successful transfer means

`Sound`: `ssli2c_xfer` returns the number of messages only if no address or written byte was refused and no error was
reported, the bytes on the bus are those of the buffers, and else a negative code. The driver judges a message by its
counter, which is advanced when a byte is handed over: the answer to the last byte of a write, and the only answer of
an empty message, do not count.

* `write_wait`, `read_wait`: how a message goes, by induction on the bytes left.
* `do_spec`: when a message fails, and when its success is honest.
* `transfer_sound_iff`: over all lists of messages and all answers of the bus.
-/

namespace Emlinux.I2c

/-! ## What the bus saw -/

/-- The operation was accepted: no error was reported, and an address or a written byte was acknowledged. -/
def Accepted (o : Op) (r : Reply) : Prop := r.sta &&& intErr = 0#32 ∧ (o.isRx = false → r.sta &&& staNak = 0#32)

/-- The bytes put on the bus. -/
def txBytes (ops : List Op) : List Byte := (ops.filter Op.isTx).map Op.data

/-- The bytes read from the bus, when operation `j` is answered by `bus j` and the list starts with operation `n`. -/
def rxBytes (bus : Nat → Reply) : Nat → List Op → List Byte
  | _, [] => []
  | n, o :: ops => if o.isRx then (bus n).dat :: rxBytes bus (n + 1) ops else rxBytes bus (n + 1) ops

/-- A message whose success is honest. -/
structure Faithful (m : Msg) (bus : Nat → Reply) (d : Result) : Prop where
  accepted : ∀ j o, d.ops[j]? = some o → Accepted o (bus j)
  written : m.isRead = false → txBytes d.ops = m.buf
  read : m.isRead = true → d.buf = rxBytes bus 0 d.ops

/-- `ssli2c_xfer` returns, the number of messages only if every message went well, else a negative code. -/
def Sound (msgs : List Msg) (bus : Nat → Nat → Reply) : Prop :=
  ∃ rc ds, ssli2cXfer msgs bus = some (rc, ds) ∧ (rc < 0 ∨ rc = msgs.length ∧ ds.length = msgs.length ∧
    ∀ i m d, msgs[i]? = some m → ds[i]? = some d → Faithful m (bus i) d)

/-! ## One interrupt -/

variable {bus : Nat → Reply} {t : Master} {r : Reply}

/-- Nothing is wrong with the answer. -/
def Reply.quiet (r : Reply) : Bool := r.sta &&& intErr = 0#32 && r.sta &&& staNak = 0#32

theorem isr_bad (h : r.quiet = false) : t.isr r = t.done r.sta := by
  have hen := r.enabled
  unfold Master.isr
  dsimp only
  simp only [Reply.quiet, Bool.and_eq_false_iff, decide_eq_false_iff_not] at h
  rw [if_neg hen]
  by_cases he : r.sta &&& intErr = 0#32
  · rw [if_neg (not_not.mpr he), if_pos (h.resolve_left (not_not.mpr he))]
  · rw [if_pos he]

theorem isr_quiet (h : r.quiet = true) :
    t.isr r = if t.cmd.wr.len ≠ 0 ∧ t.cmd.wr.actual < t.cmd.wr.len then t.isrWrite
      else if t.cmd.rd.len ≠ 0 ∧ t.cmd.rd.actual < t.cmd.rd.len then t.isrRead r.dat
      else t.done 0#32 := by
  have hen := r.enabled
  simp only [Reply.quiet, Bool.and_eq_true, decide_eq_true_eq] at h
  have hrdy : r.sta &&& intRdy ≠ 0#32 := by
    intro h0
    apply hen
    unfold ier
    rw [BitVec.and_or_distrib_left, h.1, h0]
    rfl
  unfold Master.isr
  dsimp only
  rw [if_neg hen, if_neg (not_not.mpr h.1), if_neg (not_not.mpr h.2), if_pos hrdy]

theorem wait_comp (h : t.comp = true) (n : Nat) : t.wait bus n = some t := by
  cases n with
  | zero => simp [Master.wait, h]
  | succ n => simp [Master.wait, h]

theorem wait_succ (h : t.comp = false) (n : Nat) : t.wait bus (n + 1) = (t.isr (bus (t.ops.length - 1))).wait bus n := by
  simp [Master.wait, h]

/-- A command whose bytes have all been handed over ends with the next interrupt, whatever it says. -/
theorem wait_over (bus : Nat → Reply) (hc : t.comp = false) (hw : ¬ (t.cmd.wr.len ≠ 0 ∧ t.cmd.wr.actual < t.cmd.wr.len))
    (hr : ¬ (t.cmd.rd.len ≠ 0 ∧ t.cmd.rd.actual < t.cmd.rd.len)) (n : Nat) : ∃ sta, t.wait bus (n + 1) = some (t.done sta) := by
  rw [wait_succ hc]
  cases hq : (bus (t.ops.length - 1)).quiet with
  | false => exact ⟨_, by rw [isr_bad hq, wait_comp rfl]⟩
  | true => exact ⟨0#32, by rw [isr_quiet hq, if_neg hw, if_neg hr, wait_comp rfl]⟩

theorem wait_bad (bus : Nat → Reply) (hc : t.comp = false) (hq : (bus (t.ops.length - 1)).quiet = false) (n : Nat) :
    t.wait bus (n + 1) = some (t.done (bus (t.ops.length - 1)).sta) := by
  rw [wait_succ hc, isr_bad hq, wait_comp rfl]

/-! ## The kinds of operations -/

/-- The flags of the operation register leave the kind of the operation alone. -/
def Plain (v : Word) : Prop := v = 0#32 ∨ v = oprAck

theorem plain_cfg (m : Master) (a : Byte) (ack : Bool) : Plain (m.cfg a ack).flag := by
  cases ack
  · exact Or.inl rfl
  · exact Or.inr rfl

theorem Plain.tx {v : Word} (h : Plain v) (c : Prop) [Decidable c] (a d : Byte) :
    (⟨v ||| (if c then oprCmdEnd else oprCmdCont), a, d⟩ : Op).isTx = true := by
  rcases h with rfl | rfl
  · split_ifs <;> simp [Op.isTx, oprCmdEnd, oprCmdCont, oprAddr, oprRx]
  · split_ifs <;> simp [Op.isTx, oprCmdEnd, oprCmdCont, oprAddr, oprRx, oprAck]

theorem Plain.rx {v : Word} (h : Plain v) (c : Prop) [Decidable c] (a d : Byte) :
    (⟨v ||| oprRx ||| (if c then oprCmdEnd else oprCmdCont), a, d⟩ : Op).isRx = true := by
  rcases h with rfl | rfl
  · split_ifs <;> simp [Op.isRx, oprCmdEnd, oprCmdCont, oprAddr, oprRx]
  · split_ifs <;> simp [Op.isRx, oprCmdEnd, oprCmdCont, oprAddr, oprRx, oprAck]

theorem Op.isRx_eq_false_of_tx {o : Op} (h : o.isTx = true) : o.isRx = false := by
  simp only [Op.isTx, Bool.and_eq_true, decide_eq_true_eq] at h
  simp [Op.isRx, h.2]

theorem Op.isTx_eq_false_of_rx {o : Op} (h : o.isRx = true) : o.isTx = false := by
  simp only [Op.isRx, Bool.and_eq_true, decide_eq_true_eq] at h
  simp [Op.isTx, h.2]

theorem Op.of_addr {o : Op} (h : o.isAddr = true) : o.isRx = false ∧ o.isTx = false := by
  simp only [Op.isAddr, decide_eq_true_eq] at h
  simp [Op.isRx, Op.isTx, h]

/-! ## Writing -/

/-- A command that writes `buf`, of which `k` bytes have been handed over. -/
structure Writing (t : Master) (buf : List Byte) (k : Nat) : Prop where
  comp : t.comp = false
  len : t.cmd.wr.len = buf.length
  src : t.cmd.wr.buf = buf
  actual : t.cmd.wr.actual = k
  rd : t.cmd.rd.len = 0
  flag : Plain t.flag
  ops : 0 < t.ops.length
  le : k ≤ buf.length

/-- The next byte is handed over. -/
theorem Writing.next {buf : List Byte} {k : Nat} (h : Writing t buf k) (hk : k < buf.length) :
    Writing t.isrWrite buf (k + 1) ∧ ∃ o : Op, t.isrWrite.ops = t.ops ++ [o] ∧ o.isTx = true ∧ o.data = buf[k] := by
  refine ⟨⟨h.comp, h.len, h.src, ?_, h.rd, h.flag, ?_, hk⟩, _, rfl, h.flag.tx _ _ _, ?_⟩
  · show t.cmd.wr.actual + 1 = _
    rw [h.actual]
    omega
  · simp [Master.isrWrite, Master.opr]
  · show t.cmd.wr.buf.getD t.cmd.wr.actual.toNat 0#8 = _
    rw [h.src, h.actual, Int.toNat_natCast, List.getD_eq_getElem?_getD, List.getElem?_eq_getElem hk, Option.getD_some]

/-- How a write goes on with `n` bytes left: it stops short at the first answer that is not quiet, and otherwise puts
the bytes left on the bus. -/
theorem write_wait (bus : Nat → Reply) {buf : List Byte} (n : Nat) : ∀ {t : Master} {k f : Nat}, Writing t buf k → k + n = buf.length → n < f →
    ∃ t', t.wait bus f = some t' ∧
      ((∃ i < n, (bus (t.ops.length - 1 + i)).quiet = false) ∧ t'.cmd.wr.actual < buf.length ∨
        (∀ i < n, (bus (t.ops.length - 1 + i)).quiet = true) ∧ t'.cmd.wr.actual = buf.length ∧
          ∃ new, t'.ops = t.ops ++ new ∧ (∀ o ∈ new, o.isTx = true) ∧ new.map Op.data = buf.drop k) := by
  induction n with
  | zero =>
    intro t k f h hn hf
    obtain ⟨f, rfl⟩ := Nat.exists_eq_add_of_lt hf
    have hw : ¬ (t.cmd.wr.len ≠ 0 ∧ t.cmd.wr.actual < t.cmd.wr.len) := by
      rw [h.actual, h.len]
      omega
    have hr : ¬ (t.cmd.rd.len ≠ 0 ∧ t.cmd.rd.actual < t.cmd.rd.len) := by
      rw [h.rd]
      omega
    obtain ⟨sta, hs⟩ := wait_over bus h.comp hw hr (0 + f)
    refine ⟨_, hs, Or.inr ⟨by omega, ?_, [], by simp [Master.done], by simp, ?_⟩⟩
    · show t.cmd.wr.actual = _
      rw [h.actual]
      omega
    · rw [List.drop_eq_nil_of_le (by omega)]
      rfl
  | succ n ih =>
    intro t k f h hn hf
    obtain ⟨f, rfl⟩ := Nat.exists_eq_add_of_lt hf
    have hk : k < buf.length := by omega
    cases hq : (bus (t.ops.length - 1)).quiet with
    | false =>
      refine ⟨_, wait_bad bus h.comp hq _, Or.inl ⟨⟨0, by omega, hq⟩, ?_⟩⟩
      show t.cmd.wr.actual < _
      rw [h.actual]
      omega
    | true =>
      have hw : t.cmd.wr.len ≠ 0 ∧ t.cmd.wr.actual < t.cmd.wr.len := by
        rw [h.actual, h.len]
        omega
      obtain ⟨hnext, o, ho, hotx, hod⟩ := h.next hk
      have hlen : t.isrWrite.ops.length = t.ops.length + 1 := by simp [ho]
      have hpos := h.ops
      have hidx (i : Nat) : t.ops.length + 1 - 1 + i = t.ops.length - 1 + (i + 1) := by omega
      obtain ⟨t', ht', hor⟩ := ih (f := n + 1 + f) hnext (by omega) (by omega)
      simp only [hlen, hidx] at hor
      refine ⟨t', by rw [wait_succ h.comp, isr_quiet hq, if_pos hw, ht'], ?_⟩
      rcases hor with ⟨⟨i, hi, hb⟩, ha⟩ | ⟨hall, ha, new, hops, htx, hdata⟩
      · exact Or.inl ⟨⟨i + 1, by omega, hb⟩, ha⟩
      · refine Or.inr ⟨fun i hi => ?_, ha, o :: new, ?_, ?_, ?_⟩
        · cases i with
          | zero => exact hq
          | succ i => exact hall i (by omega)
        · rw [hops, ho, List.append_assoc, List.singleton_append]
        · intro p hp
          rcases List.mem_cons.mp hp with rfl | hp
          · exact hotx
          · exact htx p hp
        · rw [List.map_cons, hdata, hod, List.drop_eq_getElem_cons hk]

/-! ## Reading -/

/-- A command that reads into a buffer, of which `a` bytes have come; the operation under way reads the next. -/
structure Reading (t : Master) (len a : Nat) : Prop where
  comp : t.comp = false
  wr : t.cmd.wr.len = 0
  rd : t.cmd.rd.len = len
  size : t.cmd.rd.buf.length = len
  actual : t.cmd.rd.actual = a
  flag : Plain t.flag
  ops : 0 < t.ops.length
  lt : a < len

theorem take_set_succ {l : List Byte} {a : Nat} (x : Byte) (h : a < l.length) : (l.set a x).take (a + 1) = l.take a ++ [x] := by
  rw [List.take_succ_eq_append_getElem (by simpa using h), List.getElem_set_self, List.take_set_of_le le_rfl]

/-- A byte comes and is not the last. -/
theorem Reading.next {len a : Nat} (h : Reading t len a) (dat : Byte) (hlt : a + 1 < len) :
    Reading (t.isrRead dat) len (a + 1) ∧ (t.isrRead dat).cmd.rd.buf = t.cmd.rd.buf.set a dat ∧
      ∃ o : Op, (t.isrRead dat).ops = t.ops ++ [o] ∧ o.isRx = true := by
  have hmore : ¬ ((t.cmd.rd.len : Int) - t.cmd.rd.actual ≤ 1) := by
    rw [h.rd, h.actual]
    omega
  have hbuf : (if 0 ≤ t.cmd.rd.actual then t.cmd.rd.buf.set t.cmd.rd.actual.toNat dat else t.cmd.rd.buf) = t.cmd.rd.buf.set a dat := by
    rw [h.actual, if_pos (by omega), Int.toNat_natCast]
  have hact : t.cmd.rd.actual + 1 = ((a + 1 : Nat) : Int) := by
    rw [h.actual]
    omega
  unfold Master.isrRead
  dsimp only
  rw [if_neg hmore, hbuf]
  refine ⟨⟨h.comp, h.wr, h.rd, ?_, hact, h.flag, ?_, hlt⟩, rfl, _, rfl, h.flag.rx _ _ _⟩
  · show (t.cmd.rd.buf.set a dat).length = _
    rw [List.length_set, h.size]
  · simp [Master.opr]

/-- The last byte comes. -/
theorem Reading.last {len a : Nat} (h : Reading t len a) (dat : Byte) (he : a + 1 = len) :
    (t.isrRead dat).comp = true ∧ (t.isrRead dat).cmd.rd.actual = len ∧
      (t.isrRead dat).cmd.rd.buf = t.cmd.rd.buf.set a dat ∧ (t.isrRead dat).ops = t.ops := by
  have hover : (t.cmd.rd.len : Int) - t.cmd.rd.actual ≤ 1 := by
    rw [h.rd, h.actual]
    omega
  have hbuf : (if 0 ≤ t.cmd.rd.actual then t.cmd.rd.buf.set t.cmd.rd.actual.toNat dat else t.cmd.rd.buf) = t.cmd.rd.buf.set a dat := by
    rw [h.actual, if_pos (by omega), Int.toNat_natCast]
  have hact : t.cmd.rd.actual + 1 = (len : Int) := by
    rw [h.actual]
    omega
  unfold Master.isrRead
  dsimp only
  rw [if_pos hover, hbuf]
  exact ⟨rfl, hact, rfl, rfl⟩

/-- How a read goes on with `n` bytes to come: it stops short at the first answer that is not quiet, and otherwise
fills the buffer with the answers. -/
theorem read_wait (bus : Nat → Reply) {len : Nat} (n : Nat) : ∀ {t : Master} {a f : Nat}, Reading t len a → a + n = len → n ≤ f →
    ∃ t', t.wait bus f = some t' ∧
      ((∃ i < n, (bus (t.ops.length - 1 + i)).quiet = false) ∧ t'.cmd.rd.actual < len ∨
        (∀ i < n, (bus (t.ops.length - 1 + i)).quiet = true) ∧ t'.cmd.rd.actual = len ∧
          t'.cmd.rd.buf = t.cmd.rd.buf.take a ++ (List.range n).map (fun i => (bus (t.ops.length - 1 + i)).dat) ∧
          ∃ new, t'.ops = t.ops ++ new ∧ new.length + 1 = n ∧ ∀ o ∈ new, o.isRx = true) := by
  induction n with
  | zero =>
    intro t a f h hn hf
    have := h.lt
    omega
  | succ n ih =>
    intro t a f h hn hf
    obtain ⟨f, rfl⟩ := Nat.exists_eq_add_of_le' hf
    have hlt := h.lt
    have hpos := h.ops
    cases hq : (bus (t.ops.length - 1)).quiet with
    | false =>
      refine ⟨_, wait_bad bus h.comp hq _, Or.inl ⟨⟨0, by omega, hq⟩, ?_⟩⟩
      show t.cmd.rd.actual < _
      rw [h.actual]
      omega
    | true =>
      have hw : ¬ (t.cmd.wr.len ≠ 0 ∧ t.cmd.wr.actual < t.cmd.wr.len) := by
        rw [h.wr]
        omega
      have hr : t.cmd.rd.len ≠ 0 ∧ t.cmd.rd.actual < t.cmd.rd.len := by
        rw [h.actual, h.rd]
        omega
      have hstep : t.wait bus (f + n + 1) = (t.isrRead (bus (t.ops.length - 1)).dat).wait bus (f + n) := by
        rw [wait_succ h.comp, isr_quiet hq, if_neg hw, if_pos hr]
      have htake := take_set_succ (bus (t.ops.length - 1)).dat (h.size.symm ▸ hlt)
      by_cases hl : a + 1 = len
      · obtain rfl : n = 0 := by omega
        obtain ⟨hc, hact, hbuf, hops⟩ := h.last (bus (t.ops.length - 1)).dat hl
        refine ⟨_, by rw [← Nat.add_assoc, hstep, wait_comp hc], Or.inr ⟨fun i hi => ?_, hact, ?_, [], by simp [hops], rfl, by simp⟩⟩
        · obtain rfl : i = 0 := by omega
          exact hq
        · rw [hbuf, ← List.take_length (l := t.cmd.rd.buf.set a _), List.length_set, h.size, ← hl, htake]
          rfl
      · obtain ⟨hnext, hbuf, o, ho, horx⟩ := h.next (bus (t.ops.length - 1)).dat (by omega)
        have hlen : (t.isrRead (bus (t.ops.length - 1)).dat).ops.length = t.ops.length + 1 := by simp [ho]
        have hidx (i : Nat) : t.ops.length + 1 - 1 + i = t.ops.length - 1 + (i + 1) := by omega
        obtain ⟨t', ht', hor⟩ := ih (f := f + n) hnext (by omega) (by omega)
        simp only [hlen, hidx] at hor
        refine ⟨t', by rw [← Nat.add_assoc, hstep, ht'], ?_⟩
        rcases hor with ⟨⟨i, hi, hb⟩, ha⟩ | ⟨hall, ha, hb, new, hops, hnew, hrx⟩
        · exact Or.inl ⟨⟨i + 1, by omega, hb⟩, ha⟩
        · refine Or.inr ⟨fun i hi => ?_, ha, ?_, o :: new, ?_, by simp [hnew], ?_⟩
          · cases i with
            | zero => exact hq
            | succ i => exact hall i (by omega)
          · rw [hb, hbuf, htake, List.range_succ_eq_map, List.map_cons, List.map_map, List.append_assoc]
            rfl
          · rw [hops, ho, List.append_assoc, List.singleton_append]
          · intro p hp
            rcases List.mem_cons.mp hp with rfl | hp
            · exact horx
            · exact hrx p hp

/-! ## One message -/

theorem rxBytes_of_rx (n : Nat) {ops : List Op} (h : ∀ o ∈ ops, o.isRx = true) :
    rxBytes bus n ops = (List.range ops.length).map (fun i => (bus (n + i)).dat) := by
  induction ops generalizing n with
  | nil => rfl
  | cons o ops ih =>
    rw [rxBytes, if_pos (h o List.mem_cons_self), ih (n + 1) fun p hp => h p (List.mem_cons_of_mem _ hp), List.length_cons,
      List.range_succ_eq_map, List.map_cons, List.map_map, Nat.add_zero]
    congr 1
    apply List.map_congr_left
    intro i _
    show (bus (n + 1 + i)).dat = (bus (n + (i + 1))).dat
    congr 2
    omega

theorem rxBytes_append (n : Nat) (ops ops' : List Op) :
    rxBytes bus n (ops ++ ops') = rxBytes bus n ops ++ rxBytes bus (n + ops.length) ops' := by
  induction ops generalizing n with
  | nil => rfl
  | cons o ops ih =>
    rw [List.cons_append, rxBytes, rxBytes, ih (n + 1), List.length_cons, show n + 1 + ops.length = n + (ops.length + 1) by omega]
    split_ifs <;> rfl

theorem txBytes_of_tx {ops : List Op} (h : ∀ o ∈ ops, o.isTx = true) : txBytes ops = ops.map Op.data := by
  rw [txBytes, List.filter_eq_self.mpr h]

theorem quiet_iff : r.quiet = true ↔ r.sta &&& intErr = 0#32 ∧ r.sta &&& staNak = 0#32 := by
  simp [Reply.quiet]

theorem accepted_of_quiet (h : r.quiet = true) (o : Op) : Accepted o r := ⟨(quiet_iff.mp h).1, fun _ => (quiet_iff.mp h).2⟩

namespace Msg

variable (m : Msg) (st : Bool)

/-- How many answers of the bus the driver heeds: for a read all of them, for a write all but the last. -/
def heeded : Nat := if m.isRead then m.buf.length + st.toNat else m.buf.length - (!st).toNat

/-- The driver sees the message fail: an answer that it heeds is not quiet, or the message is an empty read that starts. -/
def Noticed (bus : Nat → Reply) : Prop :=
  m.isRead = true ∧ st = true ∧ m.buf = [] ∨ ∃ j < m.heeded st, (bus j).quiet = false

/-- What the driver does not look at is in order too: the last byte of a write, the only operation of an empty message,
which must not be a read without start, since that one takes a byte from the bus. -/
def Honest (bus : Nat → Reply) : Prop :=
  if m.buf = [] then m.isRead = false ∧ (bus 0).sta &&& intErr = 0#32 ∧ (st = true → (bus 0).sta &&& staNak = 0#32)
  else m.isRead = true ∨ (bus (m.heeded st)).quiet = true

end Msg

/-- The verdict on a message from its outcome. -/
structure Judged (m : Msg) (st : Bool) (bus : Nat → Reply) (d : Result) : Prop where
  noticed : d.rc < 0 ↔ m.Noticed st bus
  rc : d.rc < 0 ∨ d.rc = 0
  honest : ¬ m.Noticed st bus → (Faithful m bus d ↔ m.Honest st bus)

variable {m : Msg} {st : Bool}

/-- The driver before the first interrupt of the message. -/
def begun (m : Msg) (f : CmdCode) : Master :=
  (idle.cfg (m.addr.setWidth 8) (m.flags &&& mIgnoreNak = 0#16)).rw (cmdOf m f)

theorem begun_plain (f : CmdCode) : Plain (begun m f).flag := by
  have h := plain_cfg idle (m.addr.setWidth 8) (m.flags &&& mIgnoreNak = 0#16)
  unfold begun Master.rw
  dsimp only
  split_ifs <;> exact h

theorem failed_neg : -eremoteio < 0 := by
  decide

/-- The outcome of a write that has handed over its first `k` bytes. -/
theorem write_judged {f : CmdCode} {o : Op} {k : Nat} (hr : m.isRead = false) (hne : m.buf ≠ [])
    (hk : m.heeded st = m.buf.length - k) (hw : Writing (begun m f) m.buf k) (ho : (begun m f).ops = [o])
    (hrx : o.isRx = false) (htx : txBytes [o] = m.buf.take k) :
    ∃ d, ssli2cDo m f bus = some d ∧ Judged m st bus d := by
  have hle := hw.le
  obtain ⟨t', ht', hor⟩ := write_wait bus (m.buf.length - k) (f := m.buf.length + 2) hw (by omega) (by omega)
  simp only [ho, List.length_singleton, Nat.sub_self, Nat.zero_add] at hor
  have hnot : ¬ (m.isRead = true ∧ st = true ∧ m.buf = []) := by simp [hr]
  refine ⟨⟨if t'.cmd.wr.actual ≠ m.buf.length then -eremoteio else 0, t'.cmd.wr.buf, t'.ops⟩, ?_, ?_⟩
  · show (Master.wait bus (m.buf.length + 2) (begun m f)).bind _ = _
    rw [ht']
    simp [hr]
  · rcases hor with ⟨hbad, ha⟩ | ⟨hall, ha, new, hops, hnew, hdata⟩
    · have hrc : t'.cmd.wr.actual ≠ m.buf.length := by omega
      have hn : m.Noticed st bus := Or.inr (by rw [hk]; exact hbad)
      refine ⟨iff_of_true ?_ hn, Or.inl ?_, fun h => absurd hn h⟩
      · rw [if_pos hrc]
        exact failed_neg
      · rw [if_pos hrc]
        exact failed_neg
    · have hn : ¬ m.Noticed st bus := by
        rintro (h | ⟨j, hj, hq⟩)
        · exact hnot h
        · rw [hall j (by omega)] at hq
          cases hq
      have hlen : new.length = m.buf.length - k := by
        rw [← List.length_map (f := Op.data), hdata, List.length_drop]
      have hnorx : ∀ p ∈ t'.ops, p.isRx = false := by
        rw [hops]
        intro p hp
        rcases List.mem_cons.mp hp with rfl | hp
        · exact hrx
        · exact Op.isRx_eq_false_of_tx (hnew p hp)
      have hsize : t'.ops.length = m.buf.length - k + 1 := by
        rw [hops]
        simp [hlen]
      rw [if_neg (not_not.mpr ha)]
      refine ⟨iff_of_false (by simp) hn, Or.inr rfl, fun _ => ?_⟩
      unfold Msg.Honest
      rw [if_neg hne, hk]
      constructor
      · intro hf
        have hl : m.buf.length - k < t'.ops.length := by omega
        obtain ⟨he, hnak⟩ := hf.accepted _ _ (List.getElem?_eq_getElem hl)
        exact Or.inr (quiet_iff.mpr ⟨he, hnak (hnorx _ (List.getElem_mem hl))⟩)
      · intro hh
        have hlast := hh.resolve_left (by simp [hr])
        refine ⟨fun j p hp => ?_, fun _ => ?_, fun h => by simp [hr] at h⟩
        · have hj : j < t'.ops.length := (List.getElem?_eq_some_iff.mp hp).1
          by_cases he : j < m.buf.length - k
          · exact accepted_of_quiet (hall j he) p
          · obtain rfl : j = m.buf.length - k := by omega
            exact accepted_of_quiet hlast p
        · show txBytes t'.ops = _
          have happ : txBytes ([o] ++ new) = txBytes [o] ++ txBytes new := by
            unfold txBytes
            rw [List.filter_append, List.map_append]
          rw [hops, happ, htx, txBytes_of_tx hnew, hdata, List.take_append_drop]

/-- The outcome of a read that starts with one operation which reads nothing, when `c` is one, or already reads, when
`c` is zero. -/
theorem read_judged {f : CmdCode} {t : Master} {ops : List Op} {c g : Nat} (hr : m.isRead = true) (hne : m.buf ≠ [])
    (hk : m.heeded st = m.buf.length + c) (hc : ∀ i < c, (bus i).quiet = true) (ht : Reading t m.buf.length 0)
    (hg : m.buf.length ≤ g) (hstep : (begun m f).wait bus (m.buf.length + 2) = t.wait bus g) (hops : t.ops = ops)
    (hlen : ops.length = c + 1) (hrx : rxBytes bus 0 ops = [(bus c).dat]) :
    ∃ d, ssli2cDo m f bus = some d ∧ Judged m st bus d := by
  have hidx (i : Nat) : c + 1 - 1 + i = c + i := by omega
  obtain ⟨t', ht', hor⟩ := read_wait bus m.buf.length (f := g) ht (by omega) hg
  simp only [hops, hlen, hidx] at hor
  have hnot : ¬ (m.isRead = true ∧ st = true ∧ m.buf = []) := by simp [hne]
  refine ⟨⟨if t'.cmd.rd.actual ≠ m.buf.length then -eremoteio else 0, t'.cmd.rd.buf, t'.ops⟩, ?_, ?_⟩
  · show (Master.wait bus (m.buf.length + 2) (begun m f)).bind _ = _
    rw [hstep, ht']
    simp [hr]
  · rcases hor with ⟨⟨i, hi, hbad⟩, ha⟩ | ⟨hall, ha, hbuf, new, hnews, hnlen, hnew⟩
    · have hrc : t'.cmd.rd.actual ≠ m.buf.length := by omega
      have hn : m.Noticed st bus := Or.inr ⟨c + i, by omega, hbad⟩
      refine ⟨iff_of_true ?_ hn, Or.inl ?_, fun h => absurd hn h⟩
      · rw [if_pos hrc]
        exact failed_neg
      · rw [if_pos hrc]
        exact failed_neg
    · have hquiet : ∀ j < m.heeded st, (bus j).quiet = true := by
        intro j hj
        by_cases he : j < c
        · exact hc j he
        · have := hall (j - c) (by omega)
          rwa [show c + (j - c) = j by omega] at this
      have hn : ¬ m.Noticed st bus := by
        rintro (h | ⟨j, hj, hq⟩)
        · exact hnot h
        · rw [hquiet j hj] at hq
          cases hq
      rw [if_neg (not_not.mpr ha)]
      refine ⟨iff_of_false (by simp) hn, Or.inr rfl, fun _ => iff_of_true ⟨fun j p hp => ?_, fun h => by simp [hr] at h, fun _ => ?_⟩ ?_⟩
      · have hj : j < t'.ops.length := (List.getElem?_eq_some_iff.mp hp).1
        rw [hnews, List.length_append, hlen] at hj
        exact accepted_of_quiet (hquiet j (by omega)) p
      · show t'.cmd.rd.buf = rxBytes bus 0 t'.ops
        rw [hbuf, hnews, rxBytes_append, hrx, hlen, Nat.zero_add, rxBytes_of_rx _ hnew, List.take_zero, List.nil_append, ← hnlen,
          List.range_succ_eq_map, List.map_cons, List.map_map, List.singleton_append, Nat.add_zero]
        congr 1
        apply List.map_congr_left
        intro i _
        show (bus (c + (i + 1))).dat = (bus (c + 1 + i)).dat
        congr 2
        omega
      · unfold Msg.Honest
        rw [if_neg hne]
        exact Or.inl hr

theorem cmdOf_cmd (f : CmdCode) : (cmdOf m f).cmd = f := by
  unfold cmdOf
  dsimp only
  split_ifs <;> rfl

/-- A message that starts: the address goes first. -/
theorem begun_start {f : CmdCode} (hf : f.hasStart = true) : ∃ o, o.isAddr = true ∧
    begun m f = { idle.cfg (m.addr.setWidth 8) (m.flags &&& mIgnoreNak = 0#16) with
      cmd := { cmdOf m f with wr := { (cmdOf m f).wr with actual := 0 }, rd := { (cmdOf m f).rd with actual := -1 } },
      ops := [o] } := by
  have hp := plain_cfg idle (m.addr.setWidth 8) (m.flags &&& mIgnoreNak = 0#16)
  unfold begun Master.rw
  dsimp only
  rw [cmdOf_cmd, if_pos hf]
  refine ⟨_, ?_, rfl⟩
  rcases hp with hp | hp <;> rw [hp] <;> split_ifs <;> simp [Op.isAddr, oprAddr, oprCmdStart, oprAck, oprRx]

/-- A write without start: its first byte goes first. -/
theorem begun_write {f : CmdCode} (hf : f.hasStart = false) (hl : (cmdOf m f).wr.len ≠ 0) : ∃ o, o.isTx = true ∧
    o.data = (cmdOf m f).wr.buf.headD 0#8 ∧
    begun m f = { idle.cfg (m.addr.setWidth 8) (m.flags &&& mIgnoreNak = 0#16) with
      data := (cmdOf m f).wr.buf.headD 0#8,
      cmd := { cmdOf m f with wr := { (cmdOf m f).wr with actual := 1 }, rd := { (cmdOf m f).rd with actual := -1 } },
      ops := [o] } := by
  have hp := plain_cfg idle (m.addr.setWidth 8) (m.flags &&& mIgnoreNak = 0#16)
  unfold begun Master.rw
  dsimp only
  rw [cmdOf_cmd, if_neg (by simp [hf]), if_pos hl]
  exact ⟨_, hp.tx _ _ _, rfl, rfl⟩

/-- A read without start, or an empty message: a byte is read first. -/
theorem begun_read {f : CmdCode} (hf : f.hasStart = false) (hl : (cmdOf m f).wr.len = 0) : ∃ o, o.isRx = true ∧
    begun m f = { idle.cfg (m.addr.setWidth 8) (m.flags &&& mIgnoreNak = 0#16) with
      cmd := { cmdOf m f with wr := { (cmdOf m f).wr with actual := 0 }, rd := { (cmdOf m f).rd with actual := 0 } },
      ops := [o] } := by
  have hp := plain_cfg idle (m.addr.setWidth 8) (m.flags &&& mIgnoreNak = 0#16)
  unfold begun Master.rw
  dsimp only
  rw [cmdOf_cmd, if_neg (by simp [hf]), if_neg (not_not.mpr hl)]
  exact ⟨_, hp.rx _ _ _, rfl⟩

theorem cmdOf_write (f : CmdCode) (hr : m.isRead = false) :
    cmdOf m f = ⟨⟨m.buf, m.buf.length, 0⟩, ⟨[], 0, 0⟩, f, 0#32⟩ := by
  simp [cmdOf, hr]

theorem cmdOf_read (f : CmdCode) (hr : m.isRead = true) :
    cmdOf m f = ⟨⟨[], 0, 0⟩, ⟨m.buf, m.buf.length, 0⟩, f, 0#32⟩ := by
  simp [cmdOf, hr]

/-- The outcome of an empty message: one operation, whose answer does not count. -/
theorem empty_judged {f : CmdCode} (he : m.buf = []) (hs : f.hasStart = st) :
    ∃ d, ssli2cDo m f bus = some d ∧ Judged m st bus d := by
  have hw : (cmdOf m f).wr.len = 0 := by
    unfold cmdOf
    dsimp only
    split_ifs <;> simp [he]
  have hheed : m.isRead = false → m.heeded st = 0 := fun hr => by simp [Msg.heeded, hr, he]
  -- the message ends with its only operation
  have hone {o : Op} {wa ra : Int} (hb : begun m f = { idle.cfg (m.addr.setWidth 8) (m.flags &&& mIgnoreNak = 0#16) with
      cmd := { cmdOf m f with wr := { (cmdOf m f).wr with actual := wa }, rd := { (cmdOf m f).rd with actual := ra } },
      ops := [o] }) :
      ssli2cDo m f bus = some ⟨if (if m.isRead then ra else wa) ≠ 0 then -eremoteio else 0, [], [o]⟩ := by
    have hwl : (begun m f).cmd.wr.len = 0 := by rw [hb]; exact hw
    have hrl : (begun m f).cmd.rd.len = 0 := by
      rw [hb]
      unfold cmdOf
      dsimp only
      split_ifs <;> simp [he]
    obtain ⟨sta, hs⟩ := wait_over bus (t := begun m f) (by rw [hb]; rfl) (by simp [hwl]) (by simp [hrl]) (m.buf.length + 1)
    show (Master.wait bus (m.buf.length + 2) (begun m f)).bind _ = _
    rw [hs, hb]
    cases hr : m.isRead with
    | true => simp [Master.done, cmdOf, hr, he]
    | false => simp [Master.done, cmdOf, hr, he]
  cases st with
  | true =>
    obtain ⟨o, ho, hb⟩ := begun_start (m := m) hs
    refine ⟨_, hone hb, ?_⟩
    cases hr : m.isRead with
    | true =>
      have hn : m.Noticed true bus := Or.inl ⟨hr, rfl, he⟩
      exact ⟨iff_of_true failed_neg hn, Or.inl failed_neg, fun h => absurd hn h⟩
    | false =>
      have hn : ¬ m.Noticed true bus := by simp [Msg.Noticed, hr, hheed hr]
      refine ⟨iff_of_false (by simp) hn, Or.inr rfl, fun _ => ?_⟩
      unfold Msg.Honest
      rw [if_pos he]
      constructor
      · intro hf
        have hacc := hf.accepted 0 o rfl
        exact ⟨hr, hacc.1, fun _ => hacc.2 (Op.of_addr ho).1⟩
      · rintro ⟨-, herr, hnak⟩
        refine ⟨fun j p hp => ?_, fun _ => ?_, fun h => by simp [hr] at h⟩
        · obtain ⟨hj, hp⟩ := List.getElem?_eq_some_iff.mp hp
          obtain rfl : j = 0 := by simpa using hj
          exact ⟨herr, fun _ => hnak rfl⟩
        · simp [txBytes, (Op.of_addr ho).2, he]
  | false =>
    obtain ⟨o, ho, hb⟩ := begun_read (m := m) hs hw
    refine ⟨_, hone hb, ?_⟩
    rw [ite_self, if_neg (by simp)]
    have hn : ¬ m.Noticed false bus := by simp [Msg.Noticed, Msg.heeded, he]
    refine ⟨iff_of_false (by simp) hn, Or.inr rfl, fun _ => ?_⟩
    unfold Msg.Honest
    rw [if_pos he]
    constructor
    · intro hf
      refine ⟨?_, (hf.accepted 0 o rfl).1, fun h => by cases h⟩
      by_contra hr
      rw [Bool.not_eq_false] at hr
      have hbuf := hf.read hr
      simp [rxBytes, ho] at hbuf
    · rintro ⟨hr, herr, -⟩
      refine ⟨fun j p hp => ?_, fun _ => ?_, fun h => by simp [hr] at h⟩
      · obtain ⟨hj, hp⟩ := List.getElem?_eq_some_iff.mp hp
        obtain rfl : j = 0 := by simpa using hj
        refine ⟨herr, fun hx => ?_⟩
        have hpo : p = o := hp.symm
        rw [hpo, ho] at hx
        cases hx
      · simp [txBytes, Op.isTx_eq_false_of_rx ho, he]

/-- The outcome of a message. -/
theorem do_judged (m : Msg) (f : CmdCode) (bus : Nat → Reply) :
    ∃ d, ssli2cDo m f bus = some d ∧ Judged m f.hasStart bus d := by
  by_cases he : m.buf = []
  · exact empty_judged he rfl
  have hpos : 0 < m.buf.length := List.length_pos_iff.mpr he
  have hplain := begun_plain (m := m) f
  cases hr : m.isRead with
  | false =>
    cases hf : f.hasStart with
    | true =>
      obtain ⟨o, ho, hb⟩ := begun_start (m := m) hf
      rw [cmdOf_write f hr] at hb
      refine write_judged (f := f) (o := o) (k := 0) hr he (by simp [Msg.heeded, hr]) ?_ (by rw [hb]) (Op.of_addr ho).1 ?_
      · exact ⟨by rw [hb]; rfl, by rw [hb], by rw [hb], by rw [hb]; rfl, by rw [hb], hplain, by rw [hb]; simp, by omega⟩
      · simp [txBytes, (Op.of_addr ho).2]
    | false =>
      obtain ⟨o, ho, hd, hb⟩ := begun_write (m := m) hf (by rw [cmdOf_write f hr]; exact hpos.ne')
      rw [cmdOf_write f hr] at hb hd
      refine write_judged (f := f) (o := o) (k := 1) hr he (by simp [Msg.heeded, hr]) ?_ (by rw [hb])
        (Op.isRx_eq_false_of_tx ho) ?_
      · exact ⟨by rw [hb]; rfl, by rw [hb], by rw [hb], by rw [hb]; rfl, by rw [hb], hplain, by rw [hb]; simp, hpos⟩
      · rw [txBytes_of_tx (by simpa using ho)]
        obtain ⟨b, l, hbl⟩ := List.exists_cons_of_ne_nil he
        simp [hd, hbl]
  | true =>
    cases hf : f.hasStart with
    | true =>
      obtain ⟨o, ho, hb⟩ := begun_start (m := m) hf
      rw [cmdOf_read f hr] at hb
      have hk : m.heeded true = m.buf.length + 1 := by simp [Msg.heeded, hr]
      have hcomp : (begun m f).comp = false := by rw [hb]; rfl
      have hlen : (begun m f).ops.length - 1 = 0 := by rw [hb]; rfl
      cases hq : (bus 0).quiet with
      | false =>
        -- the address is refused
        have hw := wait_bad bus hcomp (by rw [hlen]; exact hq) (m.buf.length + 1)
        have hn : m.Noticed true bus := Or.inr ⟨0, by omega, hq⟩
        refine ⟨⟨-eremoteio, m.buf, [o]⟩, ?_, iff_of_true failed_neg hn, Or.inl failed_neg, fun h => absurd hn h⟩
        show (Master.wait bus (m.buf.length + 2) (begun m f)).bind _ = _
        rw [hw, hb]
        simp [hr, Master.done]
      | true =>
        have hwl : ¬ ((begun m f).cmd.wr.len ≠ 0 ∧ (begun m f).cmd.wr.actual < (begun m f).cmd.wr.len) := by simp [hb]
        have hrl : (begun m f).cmd.rd.len ≠ 0 ∧ (begun m f).cmd.rd.actual < (begun m f).cmd.rd.len := by
          rw [hb]
          dsimp only
          omega
        have hstep : (begun m f).wait bus (m.buf.length + 2) =
            ((begun m f).isrRead (bus 0).dat).wait bus (m.buf.length + 1) := by
          rw [wait_succ hcomp, hlen, isr_quiet hq, if_neg hwl, if_pos hrl]
        have hmore : ¬ (((begun m f).cmd.rd.len : Int) - (begun m f).cmd.rd.actual ≤ 1) := by
          rw [hb]
          dsimp only
          omega
        -- the address is accepted, and the first byte asked for
        have hnext : Reading ((begun m f).isrRead (bus 0).dat) m.buf.length 0 ∧
            ∃ o', ((begun m f).isrRead (bus 0).dat).ops = [o, o'] ∧ o'.isRx = true := by
          unfold Master.isrRead
          dsimp only
          rw [if_neg hmore]
          refine ⟨⟨by rw [hb]; rfl, by rw [hb]; rfl, by rw [hb]; rfl, by rw [hb]; rfl, by rw [hb]; rfl, hplain, ?_, hpos⟩, ?_⟩
          · simp [Master.opr]
          · exact ⟨_, by rw [hb]; rfl, hplain.rx _ _ _⟩
        obtain ⟨ht, o', hops, hrx⟩ := hnext
        refine read_judged (f := f) (c := 1) hr he hk (fun i hi => ?_) ht le_self_add hstep hops rfl ?_
        · obtain rfl : i = 0 := by omega
          exact hq
        · simp [rxBytes, (Op.of_addr ho).1, hrx]
    | false =>
      obtain ⟨o, ho, hb⟩ := begun_read (m := m) hf (by rw [cmdOf_read f hr])
      rw [cmdOf_read f hr] at hb
      refine read_judged (f := f) (c := 0) hr he (by simp [Msg.heeded, hr]) (by omega) ?_ (by omega) rfl
        (by rw [hb]) rfl (by simp [rxBytes, ho])
      exact ⟨by rw [hb]; rfl, by rw [hb], by rw [hb], by rw [hb], by rw [hb]; rfl, hplain, by rw [hb]; simp, hpos⟩

/-! ## The transfer -/

/-- The condition on the messages and the answers of the bus: the driver sees some message fail, or what it does not
look at is in order for every message. -/
def Heeded (msgs : List Msg) (bus : Nat → Nat → Reply) : Prop :=
  (∃ i, ∃ m : Msg, msgs[i]? = some m ∧ m.Noticed (codeOf msgs.length i m).hasStart (bus i)) ∨
    ∀ i, ∀ m : Msg, msgs[i]? = some m → m.Honest (codeOf msgs.length i m).hasStart (bus i)

/-- The messages from `i` on: the transfer fails when one of them is seen to fail, and otherwise they are all done and
judged. -/
theorem xferFrom_judged (n : Nat) (bus : Nat → Nat → Reply) (ms : List Msg) : ∀ i, ∃ rc ds,
    xferFrom n bus i ms = some (rc, ds) ∧
      (rc < 0 ∧ (∃ k, ∃ m : Msg, ms[k]? = some m ∧ m.Noticed (codeOf n (i + k) m).hasStart (bus (i + k))) ∨
        rc = n ∧ ds.length = ms.length ∧ ∀ k, ∀ (m : Msg) (d : Result), ms[k]? = some m → ds[k]? = some d →
          ¬ m.Noticed (codeOf n (i + k) m).hasStart (bus (i + k)) ∧
            (Faithful m (bus (i + k)) d ↔ m.Honest (codeOf n (i + k) m).hasStart (bus (i + k)))) := by
  induction ms with
  | nil => exact fun i => ⟨n, [], rfl, Or.inr ⟨rfl, rfl, by simp⟩⟩
  | cons m ms ih =>
    intro i
    obtain ⟨d, hd, hj⟩ := do_judged m (codeOf n i m) (bus i)
    by_cases hn : m.Noticed (codeOf n i m).hasStart (bus i)
    · have hrc := hj.noticed.mpr hn
      refine ⟨d.rc, [d], ?_, Or.inl ⟨hrc, 0, m, rfl, hn⟩⟩
      simp [xferFrom, hd, hrc]
    · have hrc : ¬ d.rc < 0 := fun h => hn (hj.noticed.mp h)
      obtain ⟨rc, ds, hx, hor⟩ := ih (i + 1)
      have hidx (k : Nat) : i + 1 + k = i + (k + 1) := by omega
      refine ⟨rc, d :: ds, by simp [xferFrom, hd, hrc, hx], ?_⟩
      rcases hor with ⟨hneg, k, m', hm', hn'⟩ | ⟨hn', hlen, hall⟩
      · exact Or.inl ⟨hneg, k + 1, m', hm', by rw [← hidx]; exact hn'⟩
      · refine Or.inr ⟨hn', by simp [hlen], fun k m' d' hm' hd' => ?_⟩
        cases k with
        | zero =>
          rw [List.getElem?_cons_zero, Option.some.injEq] at hm' hd'
          subst hm' hd'
          exact ⟨hn, hj.honest hn⟩
        | succ k =>
          rw [← hidx]
          exact hall k m' d' hm' hd'

/-- A transfer is sound exactly when the driver sees a message fail, or what it does not look at is in order. -/
theorem transfer_sound_iff (msgs : List Msg) (bus : Nat → Nat → Reply) : Sound msgs bus ↔ Heeded msgs bus := by
  obtain ⟨rc, ds, hx, hor⟩ := xferFrom_judged msgs.length bus msgs 0
  simp only [Nat.zero_add] at hor
  rcases hor with ⟨hneg, k, m, hm, hn⟩ | ⟨hrc, hlen, hall⟩
  · exact iff_of_true ⟨rc, ds, hx, Or.inl hneg⟩ (Or.inl ⟨k, m, hm, hn⟩)
  · constructor
    · rintro ⟨rc', ds', hx', hs⟩
      obtain ⟨rfl, rfl⟩ : rc = rc' ∧ ds = ds' := by
        rw [show ssli2cXfer msgs bus = some (rc, ds) from hx] at hx'
        simpa using hx'
      rcases hs with hneg | ⟨-, -, hfaith⟩
      · omega
      · refine Or.inr fun i m hm => ?_
        have hi : i < ds.length := hlen ▸ (List.getElem?_eq_some_iff.mp hm).1
        have hd := List.getElem?_eq_getElem hi
        exact (hall i m _ hm hd).2.mp (hfaith i m _ hm hd)
    · rintro (⟨i, m, hm, hn⟩ | hh)
      · have hi : i < ds.length := hlen ▸ (List.getElem?_eq_some_iff.mp hm).1
        exact absurd hn (hall i m _ hm (List.getElem?_eq_getElem hi)).1
      · exact ⟨rc, ds, hx, Or.inr ⟨hrc, hlen, fun i m d hm hd => (hall i m d hm hd).2.mpr (hh i m hm)⟩⟩

/-- The bus accepts everything and reads the number of the operation. -/
def goodReply (j : Nat) : Reply := ⟨intRdy, BitVec.ofNat 8 j, by decide⟩

/-- The answer to a refused byte. -/
def nakReply : Reply := ⟨intRdy ||| staNak, 0#8, by decide⟩

/-- The last byte of a write is refused, and `ssli2c_xfer` returns one message done. -/
theorem last_byte_refused :
    ¬ Sound [⟨0x50#16, 0#16, [1#8, 2#8]⟩] (fun _ j => if j = 2 then nakReply else goodReply j) := by
  rintro ⟨rc, ds, hx, hs⟩
  have hrun : ssli2cXfer [⟨0x50#16, 0#16, [1#8, 2#8]⟩] (fun _ j => if j = 2 then nakReply else goodReply j) =
      some (1, [⟨0, [1#8, 2#8], [⟨0x15#32, 0x50#8, 0#8⟩, ⟨0x12#32, 0x50#8, 1#8⟩, ⟨0x13#32, 0x50#8, 2#8⟩]⟩]) := by
    decide +kernel
  rw [hrun, Option.some.injEq, Prod.mk.injEq] at hx
  obtain ⟨rfl, rfl⟩ := hx
  rcases hs with hneg | ⟨-, -, hf⟩
  · exact absurd hneg (by decide)
  · have hacc := (hf 0 _ _ rfl rfl).accepted 2 _ rfl
    exact absurd (hacc.2 (by decide +kernel)) (by decide +kernel)

end Emlinux.I2c
