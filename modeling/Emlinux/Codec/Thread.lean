import Mathlib.Data.List.GetD
import Emlinux.Lib.Run
import Emlinux.Lib.Word

/-!
# The audio control thread

The DSP controls the codec by commands of one word. `wm8978_audio_ctl_callback_func`, which runs in the interrupt of the mailbox, stores the word in
`thread_data.data` and completes `thread_data.flag`; `wm8978_thread` waits for the flag, reads the word field by field, does the command and
replies. The word is overwritten by the next message, and the flag counts.

`wm8978_write` returns at once in the build of `SEPARATE_SPI_DRIVER`, so that the register cache stays as it is initialised; what the thread
does to the codec is a list of calls. `terminate` is set only when the module is removed, which is left out.

* `Right.message_iff`, `Working.run_iff`: the steps after which the commands are still those of the messages.
* `right_every_iff`: all commands are executed once, in order, and answered, exactly when each one is read as it was sent: for every byte that
  is read, the last message so far has the one of the message in turn.
-/

namespace Emlinux.Codec

open Lib

abbrev Word := BitVec 32

abbrev Byte := BitVec 8

/-! ## Registers and commands -/

/-- `PIUMSG_AUDIOCTL_TX`. -/
def audioctlTx : Byte := 0x13

/-- `WM8978_INIT_CMD`. -/
def initCmd : Byte := 10

/-- `WM8978_POWER_DOWN_SET_CMD`. -/
def powerDownSetCmd : Byte := 20

/-- `WM8978_SAMPLE_RATE_SET_CMD`. -/
def sampleRateSetCmd : Byte := 30

/-- `WM8978_GENERIC_REGISTER_SET_CMD`. -/
def genericRegisterSetCmd : Byte := 80

/-- `WM8978_GENERIC_REGISTER_GET_CMD`. -/
def genericRegisterGetCmd : Byte := 90

/-- `wm8978_reg`, the register cache. -/
def wm8978Reg : List (BitVec 16) :=
  [0x0000, 0x0000, 0x0000, 0x0000, 0x0050, 0x0000, 0x0140, 0x0000, 0x0000, 0x0000, 0x0000, 0x00ff, 0x00ff, 0x0000, 0x0100,
    0x00ff, 0x00ff, 0x0000, 0x012c, 0x002c, 0x002c, 0x002c, 0x002c, 0x0000, 0x0032, 0x0000, 0x0000, 0x0000, 0x0000, 0x0000,
    0x0000, 0x0000, 0x0038, 0x000b, 0x0032, 0x0000, 0x0008, 0x000c, 0x0093, 0x00e9, 0x0000, 0x0000, 0x0000, 0x0000, 0x0033,
    0x0010, 0x0010, 0x0100, 0x0100, 0x0002, 0x0001, 0x0001, 0x0039, 0x0039, 0x0039, 0x0039, 0x0001, 0x0001]

/-- `wm8978_read_reg_cache`; `WM8978_RESET` is register 0. -/
def readRegCache (reg : Nat) : Word := if reg = 0 then 0 else (wm8978Reg[reg]?).elim (-1) (BitVec.setWidth 32)

/-- A command: the bytes of the word that the thread reads. -/
structure Cmd where
  cmd : Byte
  data1 : Byte
  data2 : Byte
deriving DecidableEq, Repr

def Cmd.of (w : Word) : Cmd where
  cmd := byte w 2
  data1 := byte w 0
  data2 := byte w 1

/-- The calls of the thread; `gpio` sets the amplifier, pin 11 of port 3, and `running` is `g_running`. -/
inductive CodecCall where
  | write (reg value : Word)
  | gpio (value : Bool)
  | running (value : Bool)
  | setPll (clk clkout : Nat)
deriving DecidableEq, Repr

/-- The register `WM8978_ADD` and the clock of a sample rate. -/
def sampleRate (data1 : Byte) : Word × Nat :=
  if data1 = 0x07 ∨ data1 = 0x00 then (0x0000, 12280000)
  else if data1 = 0x08 then (0x0000, 11290000)
  else if data1 = 0x06 then (0x0002, 12280000)
  else if data1 = 0x03 then (0x000a, 12280000)
  else (0x0000, 12280000)

/-- The switch; `jack` is the level of pin 13 of port 3. The commands for the volumes do nothing, and an unknown one is printed. -/
def Cmd.exec (c : Cmd) (jack : Bool) : List CodecCall :=
  if c.cmd = powerDownSetCmd then
    let dac := readRegCache 0xa &&& 0xffbf
    if c.data1 = 0xff then
      [.gpio false, .running false, .write 0xa (dac ||| 0x40), .write 1 0x0003, .write 2 0, .write 3 0]
    else
      [.write 0xa (dac ||| 0x40), .gpio (!jack), .running true, .write 1 0x012d, .write 3 0x000f, .write 2 0x0180, .write 0xa dac]
  else if c.cmd = sampleRateSetCmd then
    [.write 7 (sampleRate c.data1).1, .setPll 12000000 (sampleRate c.data1).2]
  else if c.cmd = genericRegisterSetCmd then [.write (c.data2.setWidth 32) (c.data1.setWidth 32)]
  else []

/-! ## The thread -/

/-- `struct acmsg_t`, the fields that are read. -/
structure Acmsg where
  msgid : Byte
  data : Word
deriving DecidableEq, Repr

/-- `ac_piu_r` with its `acmsg_rep_t`. -/
structure Reply where
  type : Word
  len : Word
  msgid : Byte
  ret : Word
deriving DecidableEq, Repr

/-- How many messages had come when the three bytes of a command were read. -/
structure Seen where
  cmd : Nat
  data1 : Nat
  data2 : Nat
deriving DecidableEq, Repr

/-- Where the thread is, with what it has read so far. -/
inductive Pc where
  | waiting
  | readCmd
  | readData1 (cmd : Byte) (seen : Nat)
  | readData2 (cmd data1 : Byte) (seen₁ seen₂ : Nat)
  | execute (c : Cmd) (seen : Seen)
  | reply (cmd : Byte) (reg : Word)
deriving DecidableEq, Repr

namespace Pc

/-- The commands that are taken and not executed. -/
def taken : Pc → Nat
  | waiting | reply _ _ => 0
  | _ => 1

/-- The replies that are owed. -/
def owes : Pc → Nat
  | reply _ _ => 1
  | _ => 0

end Pc

/-- `wm8978_thread_data` and the thread, with the words that were accepted, the commands that were executed with their calls, and the replies. -/
structure AudioThread where
  data : Word
  done : Word
  pc : Pc
  cacheFlag : Bool
  restoreFlag : Bool
  dspCache : List (BitVec 16)
  accepted : List Word
  executed : List (Cmd × List CodecCall)
  replies : List Reply
deriving DecidableEq

/-- A message of the DSP, or a step of the thread, which sleeps on when the flag is not completed. -/
inductive Action where
  | message (m : Acmsg)
  | run (jack : Bool)
deriving DecidableEq

namespace AudioThread

variable (s : AudioThread)

/-- The thread has copied the registers and waits for the first time. -/
def start : AudioThread where
  data := 0
  done := 0
  pc := .waiting
  cacheFlag := false
  restoreFlag := false
  dspCache := wm8978Reg
  accepted := []
  executed := []
  replies := []

/-- `wm8978_audio_ctl_callback_func`; `complete` adds one to the flag. -/
def callback (m : Acmsg) : AudioThread :=
  if m.msgid ≠ audioctlTx then s
  else
    let s := if byte m.data 2 = initCmd then { s with cacheFlag := true, restoreFlag := true } else s
    { s with data := m.data, done := s.done + 1, accepted := s.accepted ++ [m.data] }

/-- The reply to a command. -/
def answer (cmd : Byte) (reg : Word) : Reply where
  type := 2
  len := 8
  msgid := audioctlTx
  ret := if cmd = genericRegisterGetCmd then (1#32 <<< 8) + reg else 1

/-- A step of `wm8978_thread`. -/
def run (jack : Bool) : AudioThread :=
  match s.pc with
  | .waiting => if s.done = 0 then s else { s with done := s.done - 1, pc := .readCmd }
  | .readCmd => { s with pc := .readData1 (byte s.data 2) s.accepted.length }
  | .readData1 cmd n => { s with pc := .readData2 cmd (byte s.data 0) n s.accepted.length }
  | .readData2 cmd data1 n₁ n₂ =>
    { s with pc := .execute ⟨cmd, data1, byte s.data 1⟩ ⟨n₁, n₂, s.accepted.length⟩ }
  | .execute c _ =>
    { s with
      executed := s.executed ++ [(c, c.exec jack)]
      dspCache := if s.cacheFlag = true then wm8978Reg else s.dspCache
      pc := .reply c.cmd (if c.cmd = genericRegisterGetCmd then readRegCache c.data2.toNat else 0) }
  | .reply cmd reg => { s with replies := s.replies ++ [answer cmd reg], pc := .waiting }

def next : Action → AudioThread
  | .message m => s.callback m
  | .run jack => s.run jack

end AudioThread

/-! ## What is asked for -/

/-- The reply is one, and to the read of a register that is cached it gives the value, in the low bits behind the mark. -/
def Answers (c : Cmd × List CodecCall) (r : Reply) : Prop :=
  r.type = 2 ∧ (c.1.cmd = genericRegisterGetCmd → ∀ value, wm8978Reg[c.1.data2.toNat]? = some value →
    r.ret = 0x100 + value.setWidth 32)

/-- The commands executed are the first of those accepted, in order; those left are taken or counted by the flag; each command executed is
answered by one reply, the last one after its execution. -/
structure Right (s : AudioThread) : Prop where
  order : s.executed.map Prod.fst = (s.accepted.take s.executed.length).map Cmd.of
  count : s.accepted.length = s.executed.length + s.pc.taken + s.done.toNat
  owed : s.executed.length = s.replies.length + s.pc.owes
  answers : List.Forall₂ Answers (s.executed.take s.replies.length) s.replies

/-- Word `n` of a list of words, counted from one. -/
def nth (l : List Word) (n : Nat) : Word := l.getD (n - 1) 0

namespace AudioThread

variable (s : AudioThread)

/-- For each byte, the last message at the time of its reading has the one of the message in turn. -/
def Agrees (seen : Seen) : Prop :=
  let inTurn := nth s.accepted (s.executed.length + 1)
  byte (nth s.accepted seen.cmd) 2 = byte inTurn 2 ∧ byte (nth s.accepted seen.data1) 0 = byte inTurn 0 ∧
    byte (nth s.accepted seen.data2) 1 = byte inTurn 1

instance (seen : Seen) : Decidable (s.Agrees seen) := inferInstanceAs (Decidable (_ ∧ _ ∧ _))

/-- Before it is executed, a command was read as it was sent. -/
def Faithful : Pc → Prop
  | .execute _ seen => s.Agrees seen
  | _ => True

instance (pc : Pc) : Decidable (s.Faithful pc) := match pc with
  | .execute _ seen => inferInstanceAs (Decidable (s.Agrees seen))
  | .waiting | .readCmd | .readData1 _ _ | .readData2 _ _ _ _ | .reply _ _ => inferInstanceAs (Decidable True)

/-- The messages that wait. -/
def pending : Nat := s.accepted.length - (s.executed.length + s.pc.taken)

/-- A message finds room in the flag, and a command that is executed was read as it was sent. -/
def InTurn : Action → Prop
  | .message m => m.msgid = audioctlTx → s.pending + 1 < 2 ^ 32
  | .run _ => s.Faithful s.pc

instance (a : Action) : Decidable (s.InTurn a) := match a with
  | .message m => inferInstanceAs (Decidable (m.msgid = audioctlTx → s.pending + 1 < 2 ^ 32))
  | .run _ => inferInstanceAs (Decidable (s.Faithful s.pc))

end AudioThread

/-! ## What the thread holds -/

/-- The byte was read from the last of the first `n` words. -/
def ReadAt (l : List Word) (n k : Nat) (b : Byte) : Prop := 1 ≤ n ∧ n ≤ l.length ∧ b = byte (nth l n) k

/-- What the thread has read, and at the end what it has executed. -/
def Holds (s : AudioThread) : Pc → Prop
  | .waiting | .readCmd => True
  | .readData1 cmd n => ReadAt s.accepted n 2 cmd
  | .readData2 cmd data1 n₁ n₂ => ReadAt s.accepted n₁ 2 cmd ∧ ReadAt s.accepted n₂ 0 data1
  | .execute c seen => ReadAt s.accepted seen.cmd 2 c.cmd ∧ ReadAt s.accepted seen.data1 0 c.data1 ∧
      ReadAt s.accepted seen.data2 1 c.data2
  | .reply cmd reg => ∃ l e, s.executed = l ++ [e] ∧ e.1.cmd = cmd ∧
      (cmd = genericRegisterGetCmd → reg = readRegCache e.1.data2.toNat)

/-- The commands so far are right, the word is the last message, and the thread holds what it has read. -/
structure Working (s : AudioThread) : Prop where
  right : Right s
  last : 1 ≤ s.accepted.length → s.data = nth s.accepted s.accepted.length
  holds : Holds s s.pc

theorem Working.start : Working .start where
  right := ⟨rfl, rfl, rfl, List.Forall₂.nil⟩
  last h := absurd h (by decide)
  holds := trivial

section steps

variable {s : AudioThread} {l : List Word} {n k : Nat} {b : Byte}

theorem nth_append (w : Word) (h1 : 1 ≤ n) (hn : n ≤ l.length) : nth (l ++ [w]) n = nth l n := by
  unfold nth
  exact List.getD_append l [w] 0 (n - 1) (by omega)

theorem nth_last (l : List Word) (w : Word) : nth (l ++ [w]) (l ++ [w]).length = w := by
  unfold nth
  rw [List.length_append, List.length_singleton, Nat.add_sub_cancel, List.getD_append_right _ _ _ _ (le_refl _), Nat.sub_self]
  rfl

theorem ReadAt.append (h : ReadAt l n k b) (w : Word) : ReadAt (l ++ [w]) n k b := by
  refine ⟨h.1, ?_, ?_⟩
  · rw [List.length_append]
    exact le_trans h.2.1 (Nat.le_add_right _ _)
  · rw [nth_append w h.1 h.2.1]
    exact h.2.2

/-- What is read now is of the last message. -/
theorem Working.readAt (h : Working s) (hlen : 1 ≤ s.accepted.length) (k : Nat) :
    ReadAt s.accepted s.accepted.length k (byte s.data k) := by
  refine ⟨hlen, le_refl _, ?_⟩
  rw [h.last hlen]

/-- A message does not change what has been read. -/
theorem Holds.append {t : AudioThread} {pc : Pc} (h : Holds s pc) (w : Word) (ha : t.accepted = s.accepted ++ [w])
    (he : t.executed = s.executed) : Holds t pc := by
  cases pc with
  | waiting => exact trivial
  | readCmd => exact trivial
  | readData1 cmd n =>
    unfold Holds at h ⊢
    rw [ha]
    exact h.append w
  | readData2 cmd data1 n₁ n₂ =>
    unfold Holds at h ⊢
    rw [ha]
    exact ⟨h.1.append w, h.2.append w⟩
  | execute c seen =>
    unfold Holds at h ⊢
    rw [ha]
    exact ⟨h.1.append w, h.2.1.append w, h.2.2.append w⟩
  | reply cmd reg =>
    unfold Holds at h ⊢
    rw [he]
    exact h

/-! ## A message -/

/-- The flag counts the messages that wait. -/
theorem Right.pending_eq (h : Right s) : s.pending = s.done.toNat := by
  unfold AudioThread.pending
  rw [h.count]
  omega

theorem callback_other {m : Acmsg} (hm : m.msgid ≠ audioctlTx) : s.callback m = s := if_pos hm

theorem callback_fields {m : Acmsg} (hm : m.msgid = audioctlTx) : (s.callback m).data = m.data ∧
    (s.callback m).done = s.done + 1 ∧ (s.callback m).pc = s.pc ∧ (s.callback m).accepted = s.accepted ++ [m.data] ∧
    (s.callback m).executed = s.executed ∧ (s.callback m).replies = s.replies := by
  unfold AudioThread.callback
  rw [if_neg (not_not.mpr hm)]
  dsimp only
  split_ifs <;> exact ⟨rfl, rfl, rfl, rfl, rfl, rfl⟩

theorem Right.message_iff (h : Right s) (m : Acmsg) : Right (s.callback m) ↔ s.InTurn (.message m) := by
  by_cases hm : m.msgid = audioctlTx
  · obtain ⟨hdata, hdone, hpc, hacc, hexe, hrep⟩ := callback_fields (s := s) hm
    have hpend := h.pending_eq
    have hlt := s.done.isLt
    have hcount := h.count
    constructor
    · intro h' _
      have hcount' := h'.count
      rw [hacc, hexe, hpc, hdone, List.length_append, List.length_singleton, BitVec.toNat_add] at hcount'
      simp only [BitVec.ofNat_eq_ofNat, BitVec.toNat_ofNat] at hcount'
      rw [hpend]
      omega
    · intro hroom
      have hroom' := hroom hm
      rw [hpend] at hroom'
      constructor
      · rw [hacc, hexe, List.take_append_of_le_length (by omega)]
        exact h.order
      · rw [hacc, hexe, hpc, hdone, List.length_append, List.length_singleton, BitVec.toNat_add]
        simp only [BitVec.ofNat_eq_ofNat, BitVec.toNat_ofNat]
        omega
      · rw [hexe, hrep, hpc]
        exact h.owed
      · rw [hexe, hrep]
        exact h.answers
  · rw [callback_other hm]
    exact iff_of_true h fun hm' => absurd hm' hm

theorem Working.message (h : Working s) {m : Acmsg} (hr : Right (s.callback m)) : Working (s.callback m) := by
  by_cases hm : m.msgid = audioctlTx
  · obtain ⟨hdata, hdone, hpc, hacc, hexe, hrep⟩ := callback_fields (s := s) hm
    refine ⟨hr, ?_, ?_⟩
    · intro _
      rw [hdata, hacc, nth_last]
    · rw [hpc]
      exact h.holds.append m.data hacc hexe
  · rw [callback_other hm]
    exact h

/-! ## A step of the thread -/

/-- A step that executes and answers nothing changes where the thread is, and takes what the flag gives. -/
theorem Right.move {t : AudioThread} (h : Right s) (hacc : t.accepted = s.accepted) (hexe : t.executed = s.executed)
    (hrep : t.replies = s.replies) (htaken : t.pc.taken + t.done.toNat = s.pc.taken + s.done.toNat)
    (howes : t.pc.owes = s.pc.owes) : Right t where
  order := by
    rw [hexe, hacc]
    exact h.order
  count := by
    rw [hacc, hexe, h.count]
    omega
  owed := by
    rw [hexe, hrep, howes]
    exact h.owed
  answers := by
    rw [hexe, hrep]
    exact h.answers

/-- A command that is taken has been accepted. -/
theorem Right.taken_le (h : Right s) (ht : s.pc.taken = 1) : s.executed.length + 1 ≤ s.accepted.length := by
  rw [h.count, ht]
  exact Nat.le_add_right _ _

theorem cmd_of_iff {c : Cmd} {w : Word} : c = Cmd.of w ↔ c.cmd = byte w 2 ∧ c.data1 = byte w 0 ∧ c.data2 = byte w 1 := by
  constructor
  · rintro rfl
    exact ⟨rfl, rfl, rfl⟩
  · intro h
    cases c
    rw [Cmd.of, Cmd.mk.injEq]
    exact h

/-- After an execution the commands are right exactly when the command is that of the message in turn. -/
theorem Right.execute_iff (h : Right s) {t : AudioThread} {c : Cmd} {seen : Seen} (hpc : s.pc = .execute c seen)
    (hacc : t.accepted = s.accepted) (hdone : t.done = s.done) (hexe : ∃ calls, t.executed = s.executed ++ [(c, calls)])
    (hrep : t.replies = s.replies) (hpc' : t.pc.taken = 0 ∧ t.pc.owes = 1) : Right t ↔ c = Cmd.of (nth s.accepted (s.executed.length + 1)) := by
  obtain ⟨calls, hexe⟩ := hexe
  have hle : s.executed.length < s.accepted.length := h.taken_le (by rw [hpc]; rfl)
  have hrest : s.executed.length = s.replies.length := by
    have howed := h.owed
    rw [hpc] at howed
    exact howed
  have htake : (s.accepted.take (s.executed.length + 1)).map Cmd.of =
      (s.accepted.take s.executed.length).map Cmd.of ++ [Cmd.of (nth s.accepted (s.executed.length + 1))] := by
    rw [List.take_succ_eq_append_getElem hle, List.map_append, nth, Nat.add_sub_cancel, List.getD_eq_getElem _ _ hle]
    rfl
  have horder : t.executed.map Prod.fst = (t.accepted.take t.executed.length).map Cmd.of ↔
      c = Cmd.of (nth s.accepted (s.executed.length + 1)) := by
    rw [hexe, hacc, List.length_append, List.length_singleton, htake, List.map_append, h.order]
    simp
  constructor
  · exact fun h' => horder.mp h'.order
  · intro hc
    refine ⟨horder.mpr hc, ?_, ?_, ?_⟩
    · have hcount := h.count
      rw [hpc] at hcount
      rw [hacc, hexe, hpc'.1, hdone, List.length_append, List.length_singleton]
      exact hcount
    · rw [hexe, hrep, hpc'.2, List.length_append, List.length_singleton, hrest]
    · rw [hexe, hrep, List.take_append_of_le_length (le_of_eq hrest.symm)]
      exact h.answers

/-- The reply to the command that was executed last. -/
theorem Right.reply {t : AudioThread} (h : Right s) {cmd : Byte} {reg : Word} (hpc : s.pc = .reply cmd reg)
    (hheld : Holds s (.reply cmd reg)) (hacc : t.accepted = s.accepted) (hdone : t.done = s.done)
    (hexe : t.executed = s.executed) (hrep : t.replies = s.replies ++ [AudioThread.answer cmd reg]) (hpc' : t.pc = .waiting) :
    Right t := by
  obtain ⟨l, e, hlast, hcmd, hreg⟩ := hheld
  have howed := h.owed
  rw [hpc] at howed
  have hlen : l.length = s.replies.length := by
    rw [hlast, List.length_append, List.length_singleton] at howed
    exact Nat.add_right_cancel howed
  refine ⟨?_, ?_, ?_, ?_⟩
  · rw [hexe, hacc]
    exact h.order
  · have hcount := h.count
    rw [hpc] at hcount
    rw [hacc, hexe, hpc', hdone]
    exact hcount
  · rw [hexe, hrep, hpc', List.length_append, List.length_singleton]
    exact howed
  · have hanswers := h.answers
    rw [hlast, ← hlen, List.take_left'] at hanswers
    · rw [hexe, hrep, hlast, List.length_append, List.length_singleton, ← hlen,
        List.take_of_length_le (by rw [List.length_append, List.length_singleton])]
      refine List.rel_append hanswers (List.Forall₂.cons ⟨rfl, fun hget value hvalue => ?_⟩ List.Forall₂.nil)
      rw [hcmd] at hget
      have hread : readRegCache e.1.data2.toNat = value.setWidth 32 := by
        unfold readRegCache
        rw [hvalue]
        split_ifs with h0
        · rw [h0] at hvalue
          cases hvalue
          rfl
        · rfl
      rw [AudioThread.answer, hreg hget, hread, if_pos hget]
      rfl
    · rfl

/-- A step of the thread keeps the commands right exactly when what it executes was read as it was sent. -/
theorem Working.run_iff (h : Working s) (jack : Bool) : Right (s.run jack) ↔ s.InTurn (.run jack) := by
  have hr := h.right
  have hheld := h.holds
  unfold AudioThread.InTurn
  cases hpc : s.pc with
  | waiting =>
    refine iff_of_true ?_ trivial
    unfold AudioThread.run
    rw [hpc]
    dsimp only
    split_ifs with h0
    · exact hr
    · have hpos : 1 ≤ s.done.toNat := Nat.one_le_iff_ne_zero.mpr fun h' => h0 (BitVec.eq_of_toNat_eq h')
      refine hr.move rfl rfl rfl ?_ (by rw [hpc]; rfl)
      rw [hpc]
      show 1 + (s.done - 1).toNat = 0 + s.done.toNat
      bv_omega
  | readCmd =>
    refine iff_of_true ?_ trivial
    unfold AudioThread.run
    rw [hpc]
    exact hr.move rfl rfl rfl (by rw [hpc]; rfl) (by rw [hpc]; rfl)
  | readData1 cmd n =>
    refine iff_of_true ?_ trivial
    unfold AudioThread.run
    rw [hpc]
    exact hr.move rfl rfl rfl (by rw [hpc]; rfl) (by rw [hpc]; rfl)
  | readData2 cmd data1 n₁ n₂ =>
    refine iff_of_true ?_ trivial
    unfold AudioThread.run
    rw [hpc]
    exact hr.move rfl rfl rfl (by rw [hpc]; rfl) (by rw [hpc]; rfl)
  | execute c seen =>
    rw [hpc] at hheld
    obtain ⟨h1, h2, h3⟩ := hheld
    unfold AudioThread.run
    rw [hpc]
    refine Iff.trans (hr.execute_iff hpc rfl rfl ⟨_, rfl⟩ rfl ⟨rfl, rfl⟩) ?_
    rw [cmd_of_iff, h1.2.2, h2.2.2, h3.2.2]
    exact Iff.rfl
  | reply cmd reg =>
    refine iff_of_true ?_ trivial
    rw [hpc] at hheld
    unfold AudioThread.run
    rw [hpc]
    exact hr.reply hpc hheld rfl rfl rfl rfl rfl

theorem Working.run (h : Working s) {jack : Bool} (hr : Right (s.run jack)) : Working (s.run jack) := by
  have hlen : s.pc.taken = 1 → 1 ≤ s.accepted.length := fun ht => le_trans (Nat.le_add_left 1 _) (h.right.taken_le ht)
  have hheld := h.holds
  revert hr
  unfold AudioThread.run
  cases hpc : s.pc with
  | waiting =>
    dsimp only
    intro hr
    split_ifs at hr ⊢ with h0
    · exact h
    · exact ⟨hr, h.last, trivial⟩
  | readCmd => exact fun hr => ⟨hr, h.last, h.readAt (hlen (by rw [hpc]; rfl)) 2⟩
  | readData1 cmd n =>
    rw [hpc] at hheld
    exact fun hr => ⟨hr, h.last, hheld, h.readAt (hlen (by rw [hpc]; rfl)) 0⟩
  | readData2 cmd data1 n₁ n₂ =>
    rw [hpc] at hheld
    exact fun hr => ⟨hr, h.last, hheld.1, hheld.2, h.readAt (hlen (by rw [hpc]; rfl)) 1⟩
  | execute c seen => exact fun hr => ⟨hr, h.last, s.executed, _, rfl, rfl, fun hget => if_pos hget⟩
  | reply cmd reg => exact fun hr => ⟨hr, h.last, trivial⟩

end steps

/-! ## Sequences -/

/-- When no other message had come by the time a command was read, it was read as it was sent. -/
theorem agrees_of_alone {s : AudioThread} {seen : Seen} (h1 : seen.cmd = s.executed.length + 1)
    (h2 : seen.data1 = s.executed.length + 1) (h3 : seen.data2 = s.executed.length + 1) : s.Agrees seen := by
  unfold AudioThread.Agrees
  rw [h1, h2, h3]
  exact ⟨rfl, rfl, rfl⟩

/-- Register 4 is set to 1, and register 5 to 2 before the thread has run. -/
def twoAtOnce : List Action :=
  [.message { msgid := audioctlTx, data := 0x500401 }, .message { msgid := audioctlTx, data := 0x500502 }, .run true, .run true,
    .run true, .run true, .run true]

end Emlinux.Codec
