import Emlinux.Lib.Prog
import Emlinux.Lib.Run

/-!
# Commands of the SD host controller

`sdhc.c` keeps the command it works on in one of two slots: `t->cmd` until its response, `t->dat` while it transfers
data. The interrupt routine moves it from the first to the second or takes it out and passes it to the client's event
function, which may issue the next command at once.

A client is any function of the history to the commands it tries to issue from inside the event; it keeps to the
rule of the interface, that a command is issued only while none is outstanding. Every acceptance has a serial number, which the
command carries as long as it is outstanding. The reads of the hardware (status words, response, progress of the
transfer) are inputs of the routine.

The invariant is that at most one command is outstanding and that it stands in exactly one slot (`Slots`); inside the
routine it may be in the hand of the routine instead (`Holding`), and then the next thing that happens to it is the event.
-/

namespace Emlinux.Sdhc

open Lib

/-- `SDHC_RET_XXX`. -/
inductive Ret where
  | none
  | parm
  | busy
  | tout
  | cmdTout
  | cmdLine
  | datTout
  | datLine
  | rem
  | abort
  | datOvr
deriving DecidableEq, Repr

/-- `sd_cmd_t` with its `sd_dat_t`, and the number of its last acceptance. -/
structure Cmd where
  cmd : BitVec 8
  arg : BitVec 32
  flag : BitVec 8
  count : Nat
  blk : Nat
  rsp : BitVec 32
  rt : Ret
  actual : Nat
  serial : Nat

/-- `SDCMD_F_XXX`. -/
def fDma : BitVec 8 := 0x80#8
def fMulti : BitVec 8 := 0x40#8
def fDat : BitVec 8 := 0x20#8
def fWr : BitVec 8 := 0x10#8
def fRmask : BitVec 8 := 0x07#8
def fR2 : BitVec 8 := 0x02#8

/-- A flag of the command is set. -/
def Cmd.has (c : Cmd) (f : BitVec 8) : Bool := c.flag &&& f != 0

/-- What the client sees. -/
inductive Evt where
  | accepted (n : Nat)
  | passed (n : Nat)
  | rem
  | ins
  | io
deriving DecidableEq, Repr

/-- An attempt to issue the command `id`: its fields, and for which inhibit masks the lines stay busy. -/
structure Request where
  id : Nat
  cmd : BitVec 8
  arg : BitVec 32
  flag : BitVec 8
  count : Nat
  blk : Nat
  busy : BitVec 16 → Bool

/-- What the client tries to issue from inside the event that ends the history. -/
abbrev Client := List Evt → List Request

/-- `sdhc_t`. The history is in `log`; `next` is the number of the next acceptance, `pending` the numbers accepted and not
yet passed to the event function; `clash` says that an event found one command in both slots. -/
structure Host where
  fins : Bool
  fwp : Bool
  cmd : Option Nat
  dat : Option Nat
  cmds : Nat → Cmd
  log : List Evt
  next : Nat
  pending : List Nat
  clash : Bool

/-- The command register value of `sdhc_cmd`. -/
def cmdWord (q : Request) : BitVec 16 :=
  let cmd : BitVec 16 := q.cmd.zeroExtend 16 <<< 8
  let cmd := cmd ||| (match (q.flag &&& fRmask).toNat with
    | 1 => 0x1A#16
    | 5 => 0x3B#16
    | 2 => 0x09#16
    | 3 => 0x02#16
    | _ => 0)
  if q.cmd = 12#8 then cmd ||| 0xC0#16
  else if q.cmd = 52#8 ∧ q.arg &&& 0xF0000000#32 = 0x80000000#32 then
    -- a write to the card's common control registers: abort, suspend, resume
    let reg := (q.arg &&& (0x1FFFF#32 <<< 9)) >>> 9
    if reg = 6#32 ∧ q.arg &&& 7#32 ≠ 0 then cmd ||| 0xC0#16
    else if reg = 12#32 ∧ q.arg &&& 2#32 ≠ 0 then cmd ||| 0x40#16
    else if reg = 13#32 ∧ q.arg &&& 7#32 ≠ 0 then cmd ||| 0x80#16
    else cmd
  else cmd

/-- The lines `sdhc_cmd` waits for. -/
def inhibitMask (q : Request) : BitVec 16 :=
  if cmdWord q &&& 0xC0#16 ≠ 0xC0#16 ∧ (cmdWord q &&& 3#16 = 3#16 ∨ q.flag &&& fDat ≠ 0) then 3#16 else 1#16

namespace Host

variable (s : Host)

def setCmd (id : Nat) (f : Cmd → Cmd) : Host := { s with cmds := Function.update s.cmds id (f (s.cmds id)) }

/-- `sdhc_cmd`. -/
def sdhcCmd (q : Request) : Ret × Host :=
  let c := s.cmds q.id
  let c := { c with cmd := q.cmd, arg := q.arg, flag := q.flag, count := q.count, blk := q.blk }
  if !s.fins then (.rem, s.setCmd q.id fun _ => { c with rt := .rem })
  else if q.busy (inhibitMask q) then (.busy, s.setCmd q.id fun _ => { c with rt := .busy })
  else if q.flag &&& fDat ≠ 0 ∧ (q.count = 0 ∨ q.blk = 0) then
    (.parm, s.setCmd q.id fun _ => { c with rt := .parm, actual := 0 })
  else
    let act := if q.flag &&& fDat ≠ 0 then 0 else c.actual
    (.none, { s.setCmd q.id fun _ => { c with rt := .none, actual := act, serial := s.next } with
      cmd := some q.id, log := s.log ++ [.accepted s.next], next := s.next + 1, pending := s.pending ++ [s.next] })

/-- The client's attempts, as far as the rule of the interface admits them. -/
def issue : List Request → Host → Host
  | [], s => s
  | q :: l, s => issue l (if s.pending = [] then (s.sdhcCmd q).2 else s)

/-- The event function: the event is noted, and the client may issue commands. -/
def evt (cl : Client) (e : Evt) : Host :=
  let s := { s with log := s.log ++ [e], clash := s.clash || (s.cmd.isSome && s.cmd == s.dat) }
  issue (cl s.log) s

/-- `t->evt(t->ctx, c)` for a command. -/
def pass (cl : Client) (id : Nat) : Host :=
  let n := (s.cmds id).serial
  { s with pending := s.pending.erase n }.evt cl (.passed n)

/-- The command fails with `rt` and leaves its slot for the event. -/
def fail (cl : Client) (id : Nat) (rt : Ret) : Host := (s.setCmd id fun c => { c with rt := rt }).pass cl id

/-- The two halves of `sdhc_flush`. -/
def flushDat (cl : Client) : Host :=
  match s.dat with
  | some c => { s with dat := none }.fail cl c .rem
  | none => s

def flushCmd (cl : Client) : Host :=
  match s.cmd with
  | some c => { s with cmd := none }.fail cl c .rem
  | none => s

/-- `sdhc_flush`. -/
def flush (cl : Client) : Host := (s.flushDat cl).flushCmd cl

end Host

/-- What `sdhc_isr` reads: the interrupt and error status, the auto-CMD12 status, card detection and write protection, the response, the
blocks remaining, the blocks moved by the FIFO and where the DMA stands. -/
structure IsrIn where
  ista : BitVec 16
  esta : BitVec 16
  a12err : BitVec 8
  inserted : Bool
  wp : Bool
  rsp : BitVec 32
  remaining : Nat
  pio : Nat
  dmawait : Nat → Nat

/-- `SDHC_IRQ_XXX` and `SDHC_ERR_XXX`. -/
def irqErr : BitVec 16 := 0x8000#16
def irqIo : BitVec 16 := 0x100#16
def irqInsRem : BitVec 16 := 0xC0#16
def irqRdWr : BitVec 16 := 0x30#16
def irqWr : BitVec 16 := 0x10#16
def irqDat : BitVec 16 := 0x02#16
def irqCmd : BitVec 16 := 0x01#16
def errA12 : BitVec 16 := 0x100#16
def errDatMask : BitVec 16 := 0x70#16
def errRspMask : BitVec 16 := 0x0F#16

/-- The result for a response error: a timeout leaves the card's state unchanged. -/
def rspRet (err : BitVec 16) : Ret := if err &&& errRspMask = 1#16 then .cmdTout else .cmdLine

/-- The result for a data error. -/
def datRet (err : BitVec 16) : Ret :=
  if err &&& errDatMask = 0x10#16 then .datTout else if err &&& errDatMask = 0x30#16 then .datOvr else .datLine

/-- The blocks transferred when a data error ends the command. -/
def Cmd.progress (c : Cmd) (i : IsrIn) : Nat :=
  let act := if c.has fMulti then c.count - i.remaining else 0
  if c.has fDma then i.dmawait act else act

namespace Host

variable (s : Host)

/-- A command taken out of its slot by a card change, with the result for it. -/
def removeDat : Option Nat × Host :=
  match s.dat with
  | some x => (some x, { s with dat := none }.setCmd x fun c => { c with rt := .rem })
  | none => (none, s)

def removeCmd : Option Nat × Host :=
  match s.cmd with
  | some x => (some x, { s with cmd := none }.setCmd x fun c => { c with rt := .rem })
  | none => (none, s)

/-- The card detection, and its event. -/
def detect (cl : Client) (i : IsrIn) : Host :=
  if i.inserted then { s with fins := true, fwp := i.wp }.evt cl .ins else { s with fins := false }.evt cl .rem

/-- `if (c) t->evt(t->ctx, c)`. -/
def passOpt (cl : Client) : Option Nat → Host
  | some x => s.pass cl x
  | none => s

/-- The part of `sdhc_isr` for insertion and removal. -/
def isrRemoval (cl : Client) (i : IsrIn) : Host :=
  let (d, s) := s.removeDat
  let (c, s) := s.removeCmd
  ((s.detect cl i).passOpt cl d).passOpt cl c

/-- Response errors. -/
def isrErrRsp (cl : Client) (i : IsrIn) (sta : BitVec 16) : LoopFlow Host (Host × BitVec 16) :=
  if i.esta &&& errRspMask ≠ 0 then
    let sta := sta &&& ~~~irqCmd
    match s.cmd with
    | some c =>
      let s := { s with cmd := none }
      if (s.cmds c).rt = .none then
        let s := s.setCmd c fun x => { x with rt := rspRet i.esta }
        -- with data, the abort command comes first and the command stays in its slot
        if (s.cmds c).has fDat then .brk { s with cmd := some c } else .next (s.pass cl c, sta)
      else .next (s.pass cl c, sta)
    | none => match s.dat with
      | some c => if (s.cmds c).rt ≠ .none then .next ({ s with dat := none }.pass cl c, sta) else .next (s, sta)
      | none => .next (s, sta)
  else .next (s, sta)

/-- Data errors. -/
def isrErrDat (cl : Client) (i : IsrIn) (sta : BitVec 16) : Host × BitVec 16 :=
  if i.esta &&& errDatMask ≠ 0 then
    match s.dat with
    | some c =>
      let s := s.setCmd c fun x => { x with rt := datRet i.esta, actual := x.progress i }
      ({ s with dat := none }.pass cl c, sta &&& ~~~(irqDat ||| irqRdWr))
    | none => match s.cmd with
      | some c => if (s.cmds c).rt ≠ .none then ({ s with cmd := none }.pass cl c, sta) else (s, sta)
      | none => (s, sta)
  else (s, sta)

/-- An error of the automatic stop command: the abort is sent by hand. -/
def isrErrA12 (i : IsrIn) : LoopFlow Host Host :=
  if i.esta &&& errA12 ≠ 0 ∧ i.a12err ≠ 0 then
    match s.dat with
    | some c => if (s.cmds c).rt = .none then .brk (s.setCmd c fun x => { x with rt := .abort }) else .next s
    | none => .next s
  else .next s

/-- `SDHC_IRQ_ERR`. -/
def isrErr (cl : Client) (i : IsrIn) (sta : BitVec 16) : LoopFlow Host (Host × BitVec 16) :=
  if sta &&& irqErr ≠ 0 then
    match s.isrErrRsp cl i sta with
    | .brk s => .brk s
    | .next (s, sta) =>
      let (s, sta) := s.isrErrDat cl i sta
      match s.isrErrA12 i with
      | .brk s => .brk s
      | .next s => .next (s, sta)
  else .next (s, sta)

/-- `sdhc_pio`: the FIFO takes or gives some of the remaining blocks. -/
def pio (c : Nat) (i : IsrIn) : Host := s.setCmd c fun x => { x with actual := x.actual + min i.pio (x.count - x.actual) }

/-- `SDHC_IRQ_CMD`. -/
def isrCmd (cl : Client) (i : IsrIn) (sta : BitVec 16) : Host × BitVec 16 :=
  if sta &&& irqCmd ≠ 0 then
    match s.cmd with
    | none => match s.dat with
      | some c => if (s.cmds c).rt ≠ .none then ({ s with dat := none }.pass cl c, sta) else (s, sta)
      | none => (s, sta)
    | some c =>
      let s := { s with cmd := none }
      if (s.cmds c).rt ≠ .none then (s.pass cl c, sta)
      else if (s.cmds c).flag &&& fRmask = fR2 then (s.pass cl c, sta)
      else
        let s := s.setCmd c fun x => { x with rsp := i.rsp }
        if (s.cmds c).has fDat then
          let s := { s with dat := some c }
          if (s.cmds c).flag &&& (fWr ||| fDma) = fWr then (s.pio c i, sta &&& ~~~irqWr) else (s, sta)
        else (s.pass cl c, sta)
  else (s, sta)

/-- The buffer and completion interrupts of the data phase. -/
def isrDat (cl : Client) (i : IsrIn) (sta : BitVec 16) : Host :=
  match s.dat with
  | none => s
  | some c =>
    let s := if sta &&& irqRdWr ≠ 0 ∧ (s.cmds c).has fDma = false then s.pio c i else s
    if sta &&& irqDat ≠ 0 then
      let s := s.setCmd c fun x => if x.has fDma then { x with actual := i.dmawait x.count } else x
      { s with dat := none }.pass cl c
    else s

/-- `sdhc_isr`. -/
def isr (cl : Client) (i : IsrIn) : Int × Host :=
  if i.ista = 0 then (0, s)
  else if i.ista &&& irqInsRem ≠ 0 then (1, s.isrRemoval cl i)
  else if !s.fins then (1, s)
  else match s.isrErr cl i i.ista with
    | .brk s => (1, s)
    | .next (s, sta) =>
      let (s, sta) := s.isrCmd cl i sta
      let s := s.isrDat cl i sta
      (1, if sta &&& irqIo ≠ 0 then s.evt cl .io else s)

end Host

inductive HostAction where
  | cmd (q : Request)
  | isr (i : IsrIn)
  | flush

/-- `sdhc_cmd` from outside an event needs, like from inside, that no command is outstanding. -/
def Host.step (cl : Client) (s : Host) : HostAction → Option Host
  | .cmd q => if s.pending = [] then some (s.sdhcCmd q).2 else none
  | .isr i => some (s.isr cl i).2
  | .flush => some (s.flush cl)

def Host.init (fins : Bool) (cmds : Nat → Cmd) : Host := ⟨fins, false, none, none, cmds, [], 0, [], false⟩

/-! ## The invariant -/

/-- Where the outstanding command is. -/
inductive Slots (s : Host) : Prop
  | empty (hp : s.pending = []) (hc : s.cmd = none) (hd : s.dat = none)
  | inCmd (c : Nat) (hp : s.pending = [(s.cmds c).serial]) (hc : s.cmd = some c) (hd : s.dat = none)
  | inDat (c : Nat) (hp : s.pending = [(s.cmds c).serial]) (hc : s.cmd = none) (hd : s.dat = some c)

/-- The routine holds the outstanding command. -/
structure Holding (s : Host) (c : Nat) : Prop where
  pending : s.pending = [(s.cmds c).serial]
  cmd : s.cmd = none
  dat : s.dat = none

/-- The history: every acceptance is passed at most once, and those pending are the ones accepted and not passed. -/
structure Logged (s : Host) : Prop where
  once : ∀ n, s.log.count (.passed n) ≤ 1
  fresh : ∀ n, s.next ≤ n → Evt.accepted n ∉ s.log ∧ Evt.passed n ∉ s.log
  pending : ∀ n ∈ s.pending, Evt.accepted n ∈ s.log ∧ Evt.passed n ∉ s.log
  done : ∀ n, Evt.accepted n ∈ s.log → n ∈ s.pending ∨ Evt.passed n ∈ s.log
  first : ∀ n, Evt.passed n ∈ s.log → Evt.accepted n ∈ s.log
  clash : s.clash = false

/-- What is pending was accepted from number `k` on. -/
structure New (k : Nat) (l : List Evt) (s : Host) : Prop where
  next : k ≤ s.next
  pending : ∀ n ∈ s.pending, k ≤ n
  log : ∀ e ∈ l, e ∈ s.log

variable {s : Host} {k : Nat} {l : List Evt}

theorem serial_setCmd {c d : Nat} {f : Cmd → Cmd} (hf : (f (s.cmds c)).serial = (s.cmds c).serial) :
    ((s.setCmd c f).cmds d).serial = (s.cmds d).serial := by
  unfold Host.setCmd
  by_cases h : d = c
  · subst h
    simpa using hf
  · simp [h]

theorem Slots.setCmd {c : Nat} {f : Cmd → Cmd} (h : Slots s) (hf : (f (s.cmds c)).serial = (s.cmds c).serial) :
    Slots (s.setCmd c f) := by
  cases h with
  | empty hp hc hd => exact .empty hp hc hd
  | inCmd d hp hc hd => exact .inCmd d (by rw [serial_setCmd hf]; exact hp) hc hd
  | inDat d hp hc hd => exact .inDat d (by rw [serial_setCmd hf]; exact hp) hc hd

theorem Holding.setCmd {c d : Nat} {f : Cmd → Cmd} (h : Holding s d) (hf : (f (s.cmds c)).serial = (s.cmds c).serial) :
    Holding (s.setCmd c f) d :=
  ⟨by rw [serial_setCmd hf]; exact h.pending, h.cmd, h.dat⟩

theorem Logged.setCmd {c : Nat} {f : Cmd → Cmd} (h : Logged s) : Logged (s.setCmd c f) :=
  ⟨h.once, h.fresh, h.pending, h.done, h.first, h.clash⟩

/-- Taking the command out of its slot. -/
theorem Slots.takeCmd (h : Slots s) {c : Nat} (hc : s.cmd = some c) : Holding { s with cmd := none } c := by
  cases h with
  | empty _ hc' _ => rw [hc'] at hc; cases hc
  | inCmd d hp hc' hd =>
    rw [hc'] at hc
    cases hc
    exact ⟨hp, rfl, hd⟩
  | inDat d _ hc' _ => rw [hc'] at hc; cases hc

theorem Slots.takeDat (h : Slots s) {c : Nat} (hd : s.dat = some c) : Holding { s with dat := none } c := by
  cases h with
  | empty _ _ hd' => rw [hd'] at hd; cases hd
  | inCmd d _ _ hd' => rw [hd'] at hd; cases hd
  | inDat d hp hc hd' =>
    rw [hd'] at hd
    cases hd
    exact ⟨hp, hc, rfl⟩

/-! ## Issuing and passing -/

/-- The three together. -/
structure Good (k : Nat) (l : List Evt) (s : Host) : Prop where
  slots : Slots s
  logged : Logged s
  new : New k l s

theorem Good.setCmd {c : Nat} {f : Cmd → Cmd} (h : Good k l s) (hf : (f (s.cmds c)).serial = (s.cmds c).serial) :
    Good k l (s.setCmd c f) :=
  ⟨h.slots.setCmd hf, h.logged.setCmd, ⟨h.new.next, h.new.pending, h.new.log⟩⟩

theorem Logged.accept (h : Logged s) (hp : s.pending = []) (cmd : Option Nat) (cmds : Nat → Cmd) :
    Logged { s with
      cmd := cmd, cmds := cmds, log := s.log ++ [.accepted s.next], next := s.next + 1, pending := s.pending ++ [s.next] } := by
  obtain ⟨f1, f2⟩ := h.fresh s.next (le_refl _)
  refine ⟨fun n => ?_, fun n hn => ?_, fun n hn => ?_, fun n hn => ?_, fun n hn => ?_, h.clash⟩
  · simpa [List.count_append, List.count_singleton] using h.once n
  · obtain ⟨g1, g2⟩ := h.fresh n (by dsimp only at hn; omega)
    dsimp only at hn ⊢
    simp only [List.mem_append, List.mem_singleton, Evt.accepted.injEq, reduceCtorEq, or_false]
    exact ⟨fun hx => hx.elim g1 (fun he => by omega), g2⟩
  · simp only [hp, List.nil_append, List.mem_singleton] at hn
    subst hn
    simpa using f2
  · simp only [List.mem_append, List.mem_singleton, Evt.accepted.injEq] at hn
    rcases hn with hn | rfl
    · rcases h.done n hn with hx | hx
      · rw [hp] at hx
        cases hx
      · exact Or.inr (by simp [hx])
    · exact Or.inl (by simp)
  · simp only [List.mem_append, List.mem_singleton, reduceCtorEq, or_false] at hn
    simp [h.first n hn]

theorem Good.sdhcCmd (h : Good k l s) (hp : s.pending = []) (q : Request) : Good k l (s.sdhcCmd q).2 := by
  have hd : s.dat = none := by
    cases h.slots with
    | empty _ _ hd => exact hd
    | inCmd _ hp' _ _ => rw [hp] at hp'; cases hp'
    | inDat _ hp' _ _ => rw [hp] at hp'; cases hp'
  unfold Host.sdhcCmd
  dsimp only
  split_ifs <;> dsimp only
  · exact h.setCmd rfl
  · exact h.setCmd rfl
  · exact h.setCmd rfl
  all_goals
    refine ⟨.inCmd q.id (by simp [Host.setCmd, hp]) rfl hd, h.logged.accept hp _ _, Nat.le_succ_of_le h.new.next, ?_, ?_⟩
    · intro n hn
      rcases List.mem_append.mp hn with hn | hn
      · exact h.new.pending n hn
      · rw [List.mem_singleton.mp hn]
        exact h.new.next
    · intro e he
      exact List.mem_append_left _ (h.new.log e he)

theorem Good.issue (l' : List Request) : ∀ {s : Host}, Good k l s → Good k l (Host.issue l' s) := by
  induction l' with
  | nil => exact fun h => h
  | cons q l' ih =>
    intro s h
    unfold Host.issue
    apply ih
    split_ifs with hp
    · exact h.sdhcCmd hp q
    · exact h

/-- While a command is pending the client cannot issue anything. -/
theorem issue_of_pending (l' : List Request) (hp : s.pending ≠ []) : Host.issue l' s = s := by
  induction l' with
  | nil => rfl
  | cons q l' ih =>
    unfold Host.issue
    rw [if_neg hp]
    exact ih

/-- An event that is no completion. -/
def Evt.plain : Evt → Bool
  | .accepted _ => false
  | .passed _ => false
  | _ => true

theorem Slots.no_clash (h : Slots s) : (s.cmd.isSome && s.cmd == s.dat) = false := by
  cases h with
  | empty _ hc _ => simp [hc]
  | inCmd c _ hc hd => simp [hc, hd]
  | inDat c _ hc _ => simp [hc]

theorem Logged.plain (h : Logged s) {e : Evt} (he : e.plain = true) {b : Bool} (hb : b = false) (fins fwp : Bool) :
    Logged { s with fins := fins, fwp := fwp, log := s.log ++ [e], clash := b } := by
  have ha : ∀ n, e ≠ .accepted n ∧ e ≠ .passed n := by
    intro n
    constructor
    · rintro rfl
      cases he
    · rintro rfl
      cases he
  have hmem : ∀ n, (Evt.accepted n ∈ s.log ++ [e] ↔ Evt.accepted n ∈ s.log) ∧ (Evt.passed n ∈ s.log ++ [e] ↔ Evt.passed n ∈ s.log) := by
    intro n
    simp [(ha n).1.symm, (ha n).2.symm]
  refine ⟨fun n => ?_, fun n hn => ?_, fun n hn => ?_, fun n hn => ?_, fun n hn => ?_, hb⟩
  · simpa [List.count_append, List.count_singleton, (ha n).2] using h.once n
  · rw [(hmem n).1, (hmem n).2]
    exact h.fresh n hn
  · rw [(hmem n).1, (hmem n).2]
    exact h.pending n hn
  · rw [(hmem n).1] at hn
    rw [(hmem n).2]
    exact h.done n hn
  · rw [(hmem n).2] at hn
    rw [(hmem n).1]
    exact h.first n hn

theorem Good.evt (h : Good k l s) (cl : Client) {e : Evt} (he : e.plain = true) (fins fwp : Bool) :
    Good k l ({ s with fins := fins, fwp := fwp }.evt cl e) := by
  unfold Host.evt
  apply Good.issue
  refine ⟨?_, h.logged.plain he (by simp [h.logged.clash, h.slots.no_clash]) fins fwp, h.new.next, h.new.pending,
    fun x hx => List.mem_append_left _ (h.new.log x hx)⟩
  cases h.slots with
  | empty hp hc hd => exact .empty hp hc hd
  | inCmd c hp hc hd => exact .inCmd c hp hc hd
  | inDat c hp hc hd => exact .inDat c hp hc hd

/-- The routine holds command `c`, and all is in order. -/
structure Held (k : Nat) (l : List Evt) (s : Host) (c : Nat) : Prop where
  holding : Holding s c
  logged : Logged s
  new : New k l s

theorem Held.setCmd {c d : Nat} {f : Cmd → Cmd} (h : Held k l s d) (hf : (f (s.cmds c)).serial = (s.cmds c).serial) :
    Held k l (s.setCmd c f) d :=
  ⟨h.holding.setCmd hf, h.logged.setCmd, ⟨h.new.next, h.new.pending, h.new.log⟩⟩

theorem Good.takeCmd (h : Good k l s) {c : Nat} (hc : s.cmd = some c) : Held k l { s with cmd := none } c :=
  ⟨h.slots.takeCmd hc, ⟨h.logged.once, h.logged.fresh, h.logged.pending, h.logged.done, h.logged.first, h.logged.clash⟩,
    ⟨h.new.next, h.new.pending, h.new.log⟩⟩

theorem Good.takeDat (h : Good k l s) {c : Nat} (hd : s.dat = some c) : Held k l { s with dat := none } c :=
  ⟨h.slots.takeDat hd, ⟨h.logged.once, h.logged.fresh, h.logged.pending, h.logged.done, h.logged.first, h.logged.clash⟩,
    ⟨h.new.next, h.new.pending, h.new.log⟩⟩

theorem Held.putCmd {c : Nat} (h : Held k l s c) : Good k l { s with cmd := some c } :=
  ⟨.inCmd c h.holding.pending rfl h.holding.dat,
    ⟨h.logged.once, h.logged.fresh, h.logged.pending, h.logged.done, h.logged.first, h.logged.clash⟩,
    ⟨h.new.next, h.new.pending, h.new.log⟩⟩

theorem Held.putDat {c : Nat} (h : Held k l s c) : Good k l { s with dat := some c } :=
  ⟨.inDat c h.holding.pending h.holding.cmd rfl,
    ⟨h.logged.once, h.logged.fresh, h.logged.pending, h.logged.done, h.logged.first, h.logged.clash⟩,
    ⟨h.new.next, h.new.pending, h.new.log⟩⟩

theorem Held.evt {c : Nat} (h : Held k l s c) (cl : Client) {e : Evt} (he : e.plain = true) (fins fwp : Bool) :
    Held k l ({ s with fins := fins, fwp := fwp }.evt cl e) c ∧ ({ s with fins := fins, fwp := fwp }.evt cl e).next = s.next := by
  unfold Host.evt
  dsimp only
  rw [issue_of_pending _ (by simp [h.holding.pending])]
  refine ⟨⟨⟨h.holding.pending, h.holding.cmd, h.holding.dat⟩, h.logged.plain he ?_ fins fwp, h.new.next, h.new.pending,
    fun x hx => List.mem_append_left _ (h.new.log x hx)⟩, rfl⟩
  simp [h.logged.clash, h.holding.cmd]

/-- Passing the command it holds, the routine has completed it, and only new commands can be pending. -/
theorem Held.pass_new {c : Nat} (h : Held k l s c) (cl : Client) : Good s.next l (s.pass cl c) := by
  obtain ⟨hp, hc, hd⟩ := h.holding
  obtain ⟨g1, g2⟩ := h.logged.pending (s.cmds c).serial (by simp [hp])
  unfold Host.pass Host.evt
  dsimp only
  apply Good.issue
  refine ⟨.empty (by simp [hp]) hc hd, ⟨fun n => ?_, fun n hn => ?_, ?_, fun n hn => ?_, fun n hn => ?_, ?_⟩, le_refl _, ?_,
    fun x hx => List.mem_append_left _ (h.new.log x hx)⟩
  · rw [List.count_append, List.count_singleton]
    split_ifs with he
    · have hn : (s.cmds c).serial = n := by simpa using he
      rw [← hn, List.count_eq_zero_of_not_mem g2]
    · simpa using h.logged.once n
  · obtain ⟨f1, f2⟩ := h.logged.fresh n hn
    have hne : n ≠ (s.cmds c).serial := by
      rintro rfl
      exact f1 g1
    simp [f1, f2, hne]
  · simp [hp]
  · simp only [List.mem_append, List.mem_singleton, reduceCtorEq, or_false] at hn
    rcases h.logged.done n hn with hx | hx
    · rw [hp, List.mem_singleton] at hx
      exact Or.inr (by simp [hx])
    · exact Or.inr (by simp [hx])
  · simp only [List.mem_append, List.mem_singleton, Evt.passed.injEq] at hn ⊢
    rcases hn with hn | rfl
    · exact Or.inl (h.logged.first n hn)
    · exact Or.inl g1
  · simp [h.logged.clash, hc]
  · simp [hp]

theorem Good.mono {k' : Nat} (h : Good k' l s) (hk : k ≤ k') : Good k l s :=
  ⟨h.slots, h.logged, Nat.le_trans hk h.new.next, fun n hn => Nat.le_trans hk (h.new.pending n hn), h.new.log⟩

theorem Held.pass {c : Nat} (h : Held k l s c) (cl : Client) : Good k l (s.pass cl c) :=
  (h.pass_new cl).mono h.new.next

/-! ## The interrupt routine -/

variable (cl : Client) (i : IsrIn)

/-- Both ways out of a part of the routine. -/
def LoopFlow.Good {β : Type} (k : Nat) (l : List Evt) (f : β → Host) : LoopFlow Host β → Prop
  | .brk s => Sdhc.Good k l s
  | .next b => Sdhc.Good k l (f b)

theorem Good.isrErrRsp (h : Good k l s) (sta : BitVec 16) : LoopFlow.Good k l Prod.fst (s.isrErrRsp cl i sta) := by
  unfold Host.isrErrRsp
  split
  · dsimp only
    split
    next c hc =>
      have hf : Held k l (Host.setCmd { s with cmd := none } c fun x => { x with rt := rspRet i.esta }) c :=
        (h.takeCmd hc).setCmd rfl
      split
      · split
        · exact hf.putCmd
        · exact hf.pass cl
      · exact (h.takeCmd hc).pass cl
    next hc =>
      split
      next c hd =>
        split
        · exact (h.takeDat hd).pass cl
        · exact h
      next hd => exact h
  · exact h

theorem Good.isrErrDat (h : Good k l s) (sta : BitVec 16) : Good k l (s.isrErrDat cl i sta).1 := by
  unfold Host.isrErrDat
  split
  · split
    next c hd =>
      apply Held.pass
      apply Good.takeDat
      · exact h.setCmd rfl
      · exact hd
    next hd =>
      split
      next c hc =>
        split
        · exact (h.takeCmd hc).pass cl
        · exact h
      next hc => exact h
  · exact h

theorem Good.isrErrA12 (h : Good k l s) : LoopFlow.Good k l id (s.isrErrA12 i) := by
  unfold Host.isrErrA12
  split
  · split
    next c hd =>
      split
      · exact h.setCmd rfl
      · exact h
    next hd => exact h
  · exact h

theorem Good.isrErr (h : Good k l s) (sta : BitVec 16) : LoopFlow.Good k l Prod.fst (s.isrErr cl i sta) := by
  unfold Host.isrErr
  split
  · have h1 := h.isrErrRsp cl i sta
    split
    next s' hr =>
      rw [hr] at h1
      exact h1
    next s' sta' hr =>
      rw [hr] at h1
      have h2 : Good k l (s'.isrErrDat cl i sta').1 := Good.isrErrDat cl i h1 sta'
      have h3 := h2.isrErrA12 i
      dsimp only
      split
      next s'' ha =>
        rw [ha] at h3
        exact h3
      next s'' ha =>
        rw [ha] at h3
        exact h3
  · exact h

theorem Good.pio (h : Good k l s) (c : Nat) : Good k l (s.pio c i) :=
  h.setCmd rfl

theorem Good.isrCmd (h : Good k l s) (sta : BitVec 16) : Good k l (s.isrCmd cl i sta).1 := by
  unfold Host.isrCmd
  split
  · split
    next hc =>
      split
      next c hd =>
        split
        · exact (h.takeDat hd).pass cl
        · exact h
      next hd => exact h
    next c hc =>
      have hh := h.takeCmd hc
      have hr : Held k l (Host.setCmd { s with cmd := none } c fun x => { x with rsp := i.rsp }) c := hh.setCmd rfl
      dsimp only
      split
      · exact hh.pass cl
      · split
        · exact hh.pass cl
        · split
          · split
            · exact hr.putDat.pio i c
            · exact hr.putDat
          · exact hr.pass cl
  · exact h

theorem Good.isrDat (h : Good k l s) (sta : BitVec 16) : Good k l (s.isrDat cl i sta) := by
  unfold Host.isrDat
  split
  next hd => exact h
  next c hd =>
    have key : ∀ s' : Host, Good k l s' → s'.dat = some c →
        Good k l (if sta &&& irqDat ≠ 0 then
          Host.pass { s'.setCmd c fun x => if x.has fDma then { x with actual := i.dmawait x.count } else x with dat := none } cl c
          else s') := by
      intro s' h' hd'
      split
      · apply Held.pass
        apply Good.takeDat
        · apply h'.setCmd
          split <;> rfl
        · exact hd'
      · exact h'
    refine key (if sta &&& irqRdWr ≠ 0 ∧ (s.cmds c).has fDma = false then s.pio c i else s) ?_ ?_
    · split
      · exact h.pio i c
      · exact h
    · split
      · exact hd
      · exact hd

theorem Good.detect (h : Good k l s) : Good k l (s.detect cl i) := by
  unfold Host.detect
  split
  · exact Good.evt h cl (e := .ins) rfl true i.wp
  · exact Good.evt h cl (e := .rem) rfl false s.fwp

theorem Held.detect {c : Nat} (h : Held k l s c) : Held k l (s.detect cl i) c ∧ (s.detect cl i).next = s.next := by
  unfold Host.detect
  split
  · exact Held.evt h cl (e := .ins) rfl true i.wp
  · exact Held.evt h cl (e := .rem) rfl false s.fwp

/-- Insertion and removal take the outstanding command out of its slot, detect the card, and pass the command. -/
theorem Good.isrRemoval_cases (h : Good k l s) : s.pending = [] ∧ s.isrRemoval cl i = s.detect cl i ∨
    ∃ s' c, Held k l s' c ∧ s'.next = s.next ∧ s.isrRemoval cl i = (s'.detect cl i).pass cl c := by
  unfold Host.isrRemoval
  cases h.slots with
  | empty hp hc hd =>
    have e1 : s.removeDat = (none, s) := by simp [Host.removeDat, hd]
    have e2 : s.removeCmd = (none, s) := by simp [Host.removeCmd, hc]
    rw [e1]
    dsimp only
    rw [e2]
    exact Or.inl ⟨hp, rfl⟩
  | inCmd c hp hc hd =>
    have e1 : s.removeDat = (none, s) := by simp [Host.removeDat, hd]
    have e2 : s.removeCmd = (some c, Host.setCmd { s with cmd := none } c fun x => { x with rt := .rem }) := by
      simp [Host.removeCmd, hc]
    rw [e1]
    dsimp only
    rw [e2]
    exact Or.inr ⟨_, c, (h.takeCmd hc).setCmd rfl, rfl, rfl⟩
  | inDat c hp hc hd =>
    have e1 : s.removeDat = (some c, Host.setCmd { s with dat := none } c fun x => { x with rt := .rem }) := by
      simp [Host.removeDat, hd]
    have e2 : Host.removeCmd (Host.setCmd { s with dat := none } c fun x => { x with rt := .rem }) =
        (none, Host.setCmd { s with dat := none } c fun x => { x with rt := .rem }) := by
      simp [Host.removeCmd, Host.setCmd, hc]
    rw [e1]
    dsimp only
    rw [e2]
    exact Or.inr ⟨_, c, (h.takeDat hd).setCmd rfl, rfl, rfl⟩

/-- Insertion and removal complete the outstanding command, and leave in the slots only what the events put there. -/
theorem Good.isrRemoval (h : Good k l s) : Good s.next l (s.isrRemoval cl i) := by
  rcases h.isrRemoval_cases cl i with ⟨hp, he⟩ | ⟨s', c, hh, hnext, he⟩
  · have h' : Good s.next l s := ⟨h.slots, h.logged, le_refl _, by simp [hp], h.new.log⟩
    rw [he]
    exact h'.detect cl i
  · obtain ⟨h1, h2⟩ := hh.detect cl i
    have h3 := h1.pass_new cl
    rw [h2, hnext] at h3
    rw [he]
    exact h3

/-- The second half of the flush also completes what the event of the first half issued. -/
theorem Good.flushCmd (h : Good k l s) : Good k l (s.flushCmd cl) := by
  unfold Host.flushCmd
  split
  next c hc => exact Held.pass ((h.takeCmd hc).setCmd rfl) cl
  next hc => exact h

theorem Good.flush (h : Good k l s) : Good s.next l (s.flush cl) := by
  unfold Host.flush
  cases h.slots with
  | empty hp hc hd =>
    have h' : Good s.next l s := ⟨h.slots, h.logged, le_refl _, by simp [hp], h.new.log⟩
    have e : s.flushDat cl = s := by simp [Host.flushDat, hd]
    rw [e]
    exact h'.flushCmd cl
  | inCmd c hp hc hd =>
    have e : s.flushDat cl = s := by simp [Host.flushDat, hd]
    rw [e]
    unfold Host.flushCmd
    split
    next c' hc' =>
      have hh : Held k l (Host.setCmd { s with cmd := none } c' fun x => { x with rt := .rem }) c' := (h.takeCmd hc').setCmd rfl
      exact hh.pass_new cl
    next hc' =>
      rw [hc] at hc'
      cases hc'
  | inDat c hp hc hd =>
    apply Good.flushCmd
    unfold Host.flushDat
    split
    next c' hd' =>
      have hh : Held k l (Host.setCmd { s with dat := none } c' fun x => { x with rt := .rem }) c' := (h.takeDat hd').setCmd rfl
      exact hh.pass_new cl
    next hd' =>
      rw [hd] at hd'
      cases hd'

theorem Good.isr (h : Good k l s) : Good k l (s.isr cl i).2 := by
  unfold Host.isr
  split
  · exact h
  split
  · exact (h.isrRemoval cl i).mono h.new.next
  split
  · exact h
  have h1 := h.isrErr cl i i.ista
  split
  next s' hr =>
    rw [hr] at h1
    exact h1
  next s' sta hr =>
    rw [hr] at h1
    have h2 : Good k l (s'.isrCmd cl i sta).1 := Good.isrCmd cl i h1 sta
    have h3 := h2.isrDat cl i (s'.isrCmd cl i sta).2
    dsimp only
    split
    · exact Good.evt h3 cl (e := .io) rfl _ _
    · exact h3

/-! ## Runs -/

/-- Every command accepted before has been passed to the event function exactly once, and a slot holds only a command that the
events issued. -/
structure Completed (s s' : Host) : Prop where
  passed : ∀ n, Evt.accepted n ∈ s.log → s'.log.count (.passed n) = 1
  slots : ∀ c, s'.cmd = some c ∨ s'.dat = some c → s.next ≤ (s'.cmds c).serial

theorem Good.completed {s' : Host} (hs : Logged s) (h : Good s.next s.log s') : Completed s s' := by
  refine ⟨fun n hn => ?_, fun c hc => ?_⟩
  · have hlt : n < s.next := by
      by_contra hx
      exact (hs.fresh n (by omega)).1 hn
    rcases h.logged.done n (h.new.log _ hn) with hx | hx
    · have := h.new.pending n hx
      omega
    · have h1 := h.logged.once n
      have h2 : 0 < s'.log.count (.passed n) := List.count_pos_iff.mpr hx
      omega
  · apply h.new.pending
    cases h.slots with
    | empty _ hc' hd' => simp [hc', hd'] at hc
    | inCmd d hp hc' hd' =>
      have : d = c := by simpa [hc', hd'] using hc
      simp [hp, this]
    | inDat d hp hc' hd' =>
      have : d = c := by simpa [hc', hd'] using hc
      simp [hp, this]

theorem Good.init (fins : Bool) (cmds : Nat → Cmd) : Good 0 [] (.init fins cmds) :=
  ⟨.empty rfl rfl rfl, ⟨by simp [Host.init], by simp [Host.init], by simp [Host.init], by simp [Host.init], by simp [Host.init], rfl⟩,
    ⟨le_refl _, by simp [Host.init], by simp⟩⟩

theorem Good.step {s' : Host} {a : HostAction} (h : Good 0 [] s) (hs : s.step cl a = some s') : Good 0 [] s' := by
  unfold Host.step at hs
  cases a with
  | cmd q =>
    dsimp only at hs
    split_ifs at hs with hp
    cases hs
    exact h.sdhcCmd hp q
  | isr i =>
    cases hs
    exact h.isr cl i
  | flush =>
    cases hs
    exact (h.flush cl).mono (Nat.zero_le _)

/-- For every client and every run: an acceptance is passed to the event function at most once, no command is in both slots, neither between
the calls nor at an event, and a flush or a card change completes what was outstanding. -/
theorem commands_complete_once (fins : Bool) (cmds : Nat → Cmd) (s : Host)
    (h : Run (Host.step cl) free (.init fins cmds) s) :
    (∀ n, s.log.count (.passed n) ≤ 1 ∧ (Evt.passed n ∈ s.log → Evt.accepted n ∈ s.log)) ∧
      (∀ c, ¬ (s.cmd = some c ∧ s.dat = some c)) ∧ s.clash = false ∧ Completed s (s.flush cl) ∧
      ∀ i : IsrIn, i.ista &&& irqInsRem ≠ 0 → Completed s (s.isr cl i).2 := by
  have hg : Good 0 [] s := h.invariant (Good.init fins cmds) (fun t a u ht _ hu => ht.step cl hu)
  have hl : Good 0 s.log s := ⟨hg.slots, hg.logged, hg.new.next, hg.new.pending, fun e he => he⟩
  refine ⟨fun n => ⟨hg.logged.once n, hg.logged.first n⟩, fun c hc => ?_, hg.logged.clash,
    (hl.flush cl).completed hg.logged, fun i hi => ?_⟩
  · have := hg.slots.no_clash
    simp [hc.1, hc.2] at this
  · have hne : i.ista ≠ 0 := by
      intro h0
      simp [h0] at hi
    unfold Host.isr
    rw [if_neg hne, if_pos hi]
    exact (hl.isrRemoval cl i).completed hg.logged

/-- A client that reads one block with command 17 again each time it is done. -/
def readAgain : Client := fun log => match log.getLast? with
  | some (.passed _) => [⟨0, 17#8, 0, 0x21#8, 1, 512, fun _ => false⟩]
  | _ => []

/-- A command that is nowhere. -/
def noCmd : Cmd := ⟨0, 0, 0, 0, 0, 0, .none, 0, 0⟩

/-- An interrupt with the given status word. -/
def plainIsr (sta err : BitVec 16) : IsrIn := ⟨sta, err, 0, true, false, 0x900#32, 0, 1, id⟩

/-- The first read completes, the second fails in its response with data bits in the same status word and is aborted. -/
theorem commands_complete_once_reads :
    ∃ s, Run (Host.step readAgain) free (.init true fun _ => noCmd) s ∧
      (s.log = [.accepted 0, .passed 0, .accepted 1, .passed 1, .accepted 2] ∧ s.log.count (.passed 1) ≤ 1) := by
  have h : Run (Host.step readAgain) free (.init true fun _ => noCmd) _ :=
    .of_isSome [.cmd ⟨0, 17#8, 0, 0x21#8, 1, 512, fun _ => false⟩, .isr (plainIsr 0x1#16 0), .isr (plainIsr 0x22#16 0),
      .isr (plainIsr 0x8003#16 0x32#16), .isr (plainIsr 0x3#16 0)] (by decide +kernel)
  exact ⟨_, h, by decide +kernel, ((commands_complete_once readAgain true _ _ h).1 1).1⟩

end Emlinux.Sdhc
