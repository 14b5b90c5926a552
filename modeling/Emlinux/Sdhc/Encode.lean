import Emlinux.Lib.Field
import Emlinux.Sdhc.Command

/-!
# The registers of a command

`sdhc_cmd` gathers the transfer mode in the variable `v`, which still holds the busy mask when it gets there, and the command in `cmd`. The
driver is built with 32-bit accesses (`SDHC_IO == 32`), where both registers are one word, or with narrow ones, where the mode is
written only for a command with data.

`wantedMode` and `wantedCommand` say what the two registers are to hold for a request, `decodeMode` and `decodeCommand` read the layout of
`sdhcr.h`.

* `command_encodes_iff`: when an accepted command leaves the registers so.
-/

namespace Emlinux.Sdhc

open Lib

/-- `SDCMD_F_STOP`. -/
def fStop : BitVec 8 := 0x08#8

/-- `SDHC_MODE_XXX`. -/
def modeDma : BitVec 16 := 0x01#16
def modeCount : BitVec 16 := 0x02#16
def modeAutostop : BitVec 16 := 0x04#16
def modeRd : BitVec 16 := 0x10#16
def modeMulti : BitVec 16 := 0x20#16

/-- `SDHC_CMD_DAT`. -/
def cmdDat : BitVec 16 := 0x20#16

/-- A flag of the request is set. -/
def Request.has (q : Request) (f : BitVec 8) : Bool := q.flag &&& f != 0

/-- The transfer mode of `sdhc_cmd`. -/
def modeWord (q : Request) : BitVec 16 :=
  let v := inhibitMask q
  -- assigned for a read only
  let v := if q.has fWr then v else modeRd
  let v := if q.has fMulti then
      let v := v ||| (modeMulti ||| modeCount)
      if q.has fStop then v ||| modeAutostop else v
    else v
  if q.has fDma then v ||| modeDma else v

/-- The command of `sdhc_cmd`. -/
def commandWord (q : Request) : BitVec 16 := if q.has fDat then cmdWord q ||| cmdDat else cmdWord q

/-- The mode and the command register. -/
structure Regs where
  mode : BitVec 16
  cmd : BitVec 16
deriving DecidableEq, Repr

/-- The two registers after a command that is executed; `wide` is the build with 32-bit accesses. -/
def Regs.execute (wide : Bool) (r : Regs) (q : Request) : Regs where
  mode := if q.has fDat then modeWord q else if wide then 0 else r.mode
  cmd := commandWord q

/-- `sdhc_cmd`: its result, and the registers. -/
def Host.command (wide : Bool) (s : Host) (r : Regs) (q : Request) : Ret × Regs :=
  match (s.sdhcCmd q).1 with
  | .none => (.none, r.execute wide q)
  | rt => (rt, r)

/-! ## The layout -/

/-- The transfer mode register. -/
structure Mode where
  dma : Bool
  count : Bool
  autostop : Bool
  rd : Bool
  multi : Bool
deriving DecidableEq, Repr

/-- A mode without a bit that the layout does not have. -/
def decodeMode (v : BitVec 16) : Option Mode :=
  if field v 3 1 = 0 ∧ field v 6 10 = 0 then
    some ⟨v.getLsbD 0, v.getLsbD 1, v.getLsbD 2, v.getLsbD 4, v.getLsbD 5⟩
  else none

/-- `SDHC_CMD_RSP_XXX`. -/
inductive Format where
  | none
  | long
  | short
  | busy
deriving DecidableEq, Repr

/-- `SDHC_CMD_TYP_XXX`. -/
inductive CmdType where
  | normal
  | suspend
  | resume
  | abort
deriving DecidableEq, Repr

def Format.ofCode : Nat → Format
  | 0 => .none
  | 1 => .long
  | 2 => .short
  | _ => .busy

def CmdType.ofCode : Nat → CmdType
  | 0 => .normal
  | 1 => .suspend
  | 2 => .resume
  | _ => .abort

/-- The command register. -/
structure Command where
  index : Nat
  type : CmdType
  dat : Bool
  idx : Bool
  crc : Bool
  rsp : Format
deriving DecidableEq, Repr

/-- A command without a bit that the layout does not have. -/
def decodeCommand (v : BitVec 16) : Option Command :=
  if field v 2 1 = 0 ∧ field v 14 2 = 0 then
    some ⟨field v 8 6, .ofCode (field v 6 2), v.getLsbD 5, v.getLsbD 4, v.getLsbD 3, .ofCode (field v 0 2)⟩
  else none

/-! ## What a request asks for -/

/-- Without data the mode is zero. -/
def Request.wantedMode (q : Request) : Mode :=
  if q.has fDat then ⟨q.has fDma, q.has fMulti, q.has fMulti && q.has fStop, !q.has fWr, q.has fMulti⟩
  else ⟨false, false, false, false, false⟩

/-- The response type `SDCMD_F_RXXX`: the format, and whether index and CRC are checked. -/
def Request.response (q : Request) : Format × Bool × Bool :=
  match field q.flag 0 3 with
  | 1 => (.short, true, true)
  | 5 => (.busy, true, true)
  | 2 => (.long, false, true)
  | 3 => (.short, false, false)
  | _ => (.none, false, false)

/-- A write of CMD52 to register `reg` of the card's common control registers: write flag, function 0, register address. -/
def Request.writesCccr (q : Request) (reg : Nat) : Bool :=
  q.cmd == 52#8 && q.arg.getLsbD 31 && field q.arg 28 3 == 0 && field q.arg 9 17 == reg

/-- CMD12 aborts, and so does the selection of a function to abort; functions are suspended by the release of the bus and resumed by
their selection. -/
def Request.wantedType (q : Request) : CmdType :=
  if q.cmd = 12#8 then .abort
  else if q.writesCccr 6 ∧ field q.arg 0 3 ≠ 0 then .abort
  else if q.writesCccr 12 ∧ q.arg.getLsbD 1 then .suspend
  else if q.writesCccr 13 ∧ field q.arg 0 3 ≠ 0 then .resume
  else .normal

def Request.wantedCommand (q : Request) : Command where
  index := q.cmd.toNat
  type := q.wantedType
  -- a busy response keeps the data line
  dat := q.has fDat || q.response.1 == .busy
  idx := q.response.2.1
  crc := q.response.2.2
  rsp := q.response.1

/-- The registers hold what the request asks for. -/
def Encodes (q : Request) (r : Regs) : Prop := decodeMode r.mode = some q.wantedMode ∧ decodeCommand r.cmd = some q.wantedCommand

/-! ## The command register -/

variable {q : Request} {r : Regs} {wide : Bool}

def CmdType.bits : CmdType → BitVec 16
  | .normal => 0
  | .suspend => 0x40#16
  | .resume => 0x80#16
  | .abort => 0xC0#16

/-- The bits of a response type. -/
def rspBits (q : Request) : BitVec 16 :=
  match (q.flag &&& fRmask).toNat with
  | 1 => 0x1A#16
  | 5 => 0x3B#16
  | 2 => 0x09#16
  | 3 => 0x02#16
  | _ => 0

theorem arg_write_iff (arg : BitVec 32) : arg &&& 0xF0000000#32 = 0x80000000#32 ↔ field arg 28 4 = 8 :=
  and_mask_eq_iff arg rfl rfl (by decide) (by decide)

theorem arg_reg_iff (arg : BitVec 32) {c : Nat} (hc : c < 2 ^ 17) :
    (arg &&& (0x1FFFF#32 <<< 9)) >>> 9 = BitVec.ofNat 32 c ↔ field arg 9 17 = c := by
  have hshr : ((arg &&& (0x1FFFF#32 <<< 9)) >>> 9).toNat = field arg 9 17 := toNat_and_mask_shr arg rfl (by decide)
  rw [← BitVec.toNat_inj, hshr, BitVec.toNat_ofNat, Nat.mod_eq_of_lt (by omega)]

theorem arg_low_iff (arg : BitVec 32) : arg &&& 7#32 = 0#32 ↔ field arg 0 3 = 0 :=
  and_mask_eq_iff arg rfl rfl (by decide) (by decide)

theorem arg_bus_iff (arg : BitVec 32) : arg &&& 2#32 = 0#32 ↔ arg.getLsbD 1 = false := by
  rw [getLsbD_eq_field, decide_eq_false_iff_not]
  have hlt := field_lt arg 1 1
  have hmask : arg &&& 2#32 = 0#32 ↔ field arg 1 1 = 0 := and_mask_eq_iff arg rfl rfl (by decide) (by decide)
  rw [hmask]
  omega

/-- A write to function 0, by its two fields. -/
theorem field_write_iff (arg : BitVec 32) : field arg 28 4 = 8 ↔ arg.getLsbD 31 = true ∧ field arg 28 3 = 0 := by
  rw [getLsbD_eq_field, decide_eq_true_iff, field_eq, field_eq, field_eq]
  omega

/-- The tests of the source on the masked argument, and those on its fields. -/
theorem writesCccr_iff (q : Request) (reg : Nat) :
    q.writesCccr reg = true ↔ (q.cmd = 52#8 ∧ q.arg &&& 0xF0000000#32 = 0x80000000#32) ∧ field q.arg 9 17 = reg := by
  rw [arg_write_iff, field_write_iff]
  simp only [Request.writesCccr, Bool.and_eq_true, beq_iff_eq, and_assoc]

/-- The type that `sdhc_cmd` adds to the other bits. -/
theorem type_bits (q : Request) (base : BitVec 16) :
    (if q.cmd = 12#8 then base ||| 0xC0#16
      else if q.cmd = 52#8 ∧ q.arg &&& 0xF0000000#32 = 0x80000000#32 then
        let reg := (q.arg &&& (0x1FFFF#32 <<< 9)) >>> 9
        if reg = 6#32 ∧ q.arg &&& 7#32 ≠ 0 then base ||| 0xC0#16
        else if reg = 12#32 ∧ q.arg &&& 2#32 ≠ 0 then base ||| 0x40#16
        else if reg = 13#32 ∧ q.arg &&& 7#32 ≠ 0 then base ||| 0x80#16
        else base
      else base) = base ||| q.wantedType.bits := by
  have h6 := arg_reg_iff q.arg (show 6 < 2 ^ 17 by decide)
  have h12 := arg_reg_iff q.arg (show 12 < 2 ^ 17 by decide)
  have h13 := arg_reg_iff q.arg (show 13 < 2 ^ 17 by decide)
  have hlow : q.arg &&& 7#32 ≠ 0 ↔ field q.arg 0 3 ≠ 0 := not_congr (arg_low_iff q.arg)
  have hbus : q.arg &&& 2#32 ≠ 0 ↔ q.arg.getLsbD 1 = true := (not_congr (arg_bus_iff q.arg)).trans (by simp)
  unfold Request.wantedType
  simp only [writesCccr_iff, h6, h12, h13, hlow, hbus]
  by_cases habort : q.cmd = 12#8
  · rw [if_pos habort, if_pos habort]
    rfl
  · rw [if_neg habort, if_neg habort]
    by_cases hw : q.cmd = 52#8 ∧ q.arg &&& 0xF0000000#32 = 0x80000000#32
    · rw [if_pos hw]
      simp only [hw, true_and]
      split_ifs
      · rfl
      · rfl
      · rfl
      · exact (BitVec.or_zero).symm
    · rw [if_neg hw]
      simp only [hw, false_and, if_false]
      exact (BitVec.or_zero).symm

/-- The command is its index, the bits of its response and those of its type. -/
theorem cmdWord_eq (q : Request) : cmdWord q = q.cmd.setWidth 16 <<< 8 ||| rspBits q ||| q.wantedType.bits := type_bits q _

/-! ## Its fields -/

/-- The bits of the command below its index. -/
def lowBits (q : Request) : BitVec 16 := rspBits q ||| q.wantedType.bits ||| if q.has fDat then cmdDat else 0#16

theorem commandWord_eq (q : Request) : commandWord q = q.cmd.setWidth 16 <<< 8 ||| lowBits q := by
  unfold commandWord lowBits
  rw [cmdWord_eq]
  split_ifs
  · rw [BitVec.or_assoc, BitVec.or_assoc, BitVec.or_assoc]
  · rw [BitVec.or_zero, BitVec.or_assoc]

theorem fRmask_toNat (q : Request) : (q.flag &&& fRmask).toNat = field q.flag 0 3 := by
  have h : ((q.flag &&& fRmask) >>> 0).toNat = field q.flag 0 3 := toNat_and_mask_shr q.flag rfl (by decide)
  simpa using h

theorem lowBits_decode (q : Request) : (lowBits q).toNat < 2 ^ 8 ∧ field (lowBits q) 2 1 = 0 ∧
    CmdType.ofCode (field (lowBits q) 6 2) = q.wantedType ∧
    field (lowBits q) 5 1 = (q.has fDat || q.response.1 == .busy).toNat ∧ field (lowBits q) 4 1 = q.response.2.1.toNat ∧
    field (lowBits q) 3 1 = q.response.2.2.toNat ∧ Format.ofCode (field (lowBits q) 0 2) = q.response.1 := by
  unfold lowBits rspBits Request.response
  rw [fRmask_toNat]
  have hlt := field_lt q.flag 0 3
  generalize field q.flag 0 3 = code at hlt ⊢
  generalize q.wantedType = type
  generalize q.has fDat = dat
  interval_cases code <;> cases type <;> cases dat <;> decide

/-- The index reads back when it fits its field. -/
theorem commandWord_index (q : Request) :
    field (commandWord q) 14 2 = 0 ∧ field (commandWord q) 8 6 = q.cmd.toNat ↔ q.cmd.toNat < 64 := by
  have hlow := (lowBits_decode q).1
  have hlt := q.cmd.isLt
  have hval : (q.cmd.setWidth 16 <<< 8).toNat = q.cmd.toNat * 256 := by
    rw [BitVec.toNat_shiftLeft, BitVec.toNat_setWidth, Nat.shiftLeft_eq]
    omega
  rw [commandWord_eq, field_or, field_or, field_above (hlow.trans_le (by decide)), field_above hlow, Nat.or_zero, Nat.or_zero, field_eq,
    field_eq, hval]
  omega

theorem commandWord_low (q : Request) {pos len : Nat} (h : pos + len ≤ 8) : field (commandWord q) pos len = field (lowBits q) pos len := by
  rw [commandWord_eq, field_or, field_shl_below h, Nat.zero_or]

theorem ofNat_one (b : Bool) : decide (b.toNat = 1) = b := by cases b <;> rfl

theorem commandWord_decode (q : Request) : decodeCommand (commandWord q) = some q.wantedCommand ↔ q.cmd.toNat < 64 := by
  obtain ⟨-, hrsv, htype, hdat, hidx, hcrc, hrsp⟩ := lowBits_decode q
  unfold decodeCommand Request.wantedCommand
  rw [getLsbD_eq_field, getLsbD_eq_field, getLsbD_eq_field, commandWord_low q (show 2 + 1 ≤ 8 by decide), hrsv,
    commandWord_low q (show 6 + 2 ≤ 8 by decide), htype, commandWord_low q (show 5 + 1 ≤ 8 by decide), hdat,
    commandWord_low q (show 4 + 1 ≤ 8 by decide), hidx, commandWord_low q (show 3 + 1 ≤ 8 by decide), hcrc,
    commandWord_low q (show 0 + 2 ≤ 8 by decide), hrsp, ofNat_one, ofNat_one, ofNat_one, ← commandWord_index]
  by_cases hres : field (commandWord q) 14 2 = 0
  · simp [hres]
  · simp [hres]

/-! ## The mode register -/

/-- The lines that are waited for leave both bits in the mode, or one for a command that aborts. -/
theorem inhibitMask_dat (h : q.has fDat = true) : inhibitMask q = if q.wantedType = .abort then 1#16 else 3#16 := by
  have hfield : field (cmdWord q) 6 2 = field (lowBits q) 6 2 := by
    rw [← commandWord_low q (by decide), commandWord, if_pos h, field_or]
    exact (Nat.or_zero _).symm
  have hmask : cmdWord q &&& 0xC0#16 = 0xC0#16 ↔ field (cmdWord q) 6 2 = 3 := and_mask_eq_iff _ rfl rfl (by decide) (by decide)
  have habort : cmdWord q &&& 0xC0#16 = 0xC0#16 ↔ q.wantedType = .abort := by
    rw [hmask, hfield, ← (lowBits_decode q).2.2.1]
    have hlt := field_lt (lowBits q) 6 2
    generalize field (lowBits q) 6 2 = code at hlt ⊢
    interval_cases code <;> decide
  have hdat : q.flag &&& fDat ≠ 0 := by simpa [Request.has] using h
  unfold inhibitMask
  by_cases hx : q.wantedType = .abort
  · rw [if_neg (fun hc => hc.1 (habort.mpr hx)), if_pos hx]
  · rw [if_pos ⟨fun hc => hx (habort.mp hc), Or.inr hdat⟩, if_neg hx]

theorem modeWord_decode (h : q.has fDat = true) : decodeMode (modeWord q) = some q.wantedMode ↔
    (q.has fWr = true → q.has fDma = true ∧ (q.has fMulti = true ∨ q.wantedType = .abort)) := by
  unfold modeWord Request.wantedMode
  rw [inhibitMask_dat h, if_pos h]
  generalize q.has fWr = wr
  generalize q.has fMulti = multi
  generalize q.has fStop = stop
  generalize q.has fDma = dma
  by_cases habort : q.wantedType = .abort
  · rw [if_pos habort]
    simp only [habort, or_true, and_true]
    cases wr <;> cases multi <;> cases stop <;> cases dma <;> decide
  · rw [if_neg habort]
    simp only [habort, or_false]
    cases wr <;> cases multi <;> cases stop <;> cases dma <;> decide

/-- The only mode without a flag is zero. -/
theorem decodeMode_zero (v : BitVec 16) : decodeMode v = some ⟨false, false, false, false, false⟩ ↔ v = 0#16 := by
  constructor
  · intro h
    unfold decodeMode at h
    split_ifs at h with hrsv
    simp only [Option.some.injEq, Mode.mk.injEq, getLsbD_eq_field, decide_eq_false_iff_not] at h
    have hlt := v.isLt
    simp only [field_eq] at h hrsv
    apply BitVec.eq_of_toNat_eq
    rw [BitVec.toNat_ofNat]
    omega
  · rintro rfl
    decide

/-- An accepted command is encoded in its registers exactly when its index has six bits, a write of data goes by DMA and in several
blocks or aborts, and without data the mode register is written or was zero. -/
theorem command_encodes_iff (wide : Bool) (s : Host) (r : Regs) (q : Request) (h : (s.command wide r q).1 = .none) :
    Encodes q (s.command wide r q).2 ↔ q.cmd.toNat < 64 ∧
      (q.has fDat = true ∧ q.has fWr = true → q.has fDma = true ∧ (q.has fMulti = true ∨ q.wantedType = .abort)) ∧
      (q.has fDat = false → wide = true ∨ r.mode = 0) := by
  have hexec : (s.command wide r q).2 = r.execute wide q := by
    unfold Host.command at h ⊢
    cases hrt : (s.sdhcCmd q).1 with
    | none => rfl
    | _ => rw [hrt] at h; cases h
  rw [hexec, Encodes, Regs.execute, commandWord_decode, and_comm]
  refine and_congr_right fun _ => ?_
  cases hdat : q.has fDat with
  | true =>
    simp only [if_true, true_and, Bool.true_eq_false, false_implies, and_true]
    exact modeWord_decode hdat
  | false =>
    have hwant : q.wantedMode = ⟨false, false, false, false, false⟩ := if_neg (by simp [hdat])
    rw [hwant]
    simp only [Bool.false_eq_true, if_false, false_and, false_implies, true_and, forall_const, decodeMode_zero]
    cases wide <;> simp

/-- A controller with a card and no command. -/
def idleHost : Host where
  fins := true
  fwp := false
  cmd := none
  dat := none
  cmds _ := ⟨0#8, 0#32, 0#8, 0, 0, 0#32, .none, 0, 0⟩
  log := []
  next := 0
  pending := []
  clash := false

/-- A command with an R1 response and data on free lines. -/
def dataRequest (cmd : BitVec 8) (flag : BitVec 8) (count : Nat) : Request :=
  ⟨0, cmd, 0x100#32, fDat ||| 1#8 ||| flag, count, 512, fun _ => false⟩

/-- CMD18 by DMA, with the stop command after it. -/
theorem command_encodes_iff_read :
    Encodes (dataRequest 18 (fMulti ||| fStop ||| fDma) 8)
      (idleHost.command false ⟨0, 0⟩ (dataRequest 18 (fMulti ||| fStop ||| fDma) 8)).2 :=
  (command_encodes_iff false idleHost ⟨0, 0⟩ _ (by decide)).mpr (by decide)

/-- CMD24 without DMA: the mode has the bits of the DMA and of the block count. -/
theorem pio_write_misencoded :
    (idleHost.command false ⟨0, 0⟩ (dataRequest 24 fWr 1)).1 = .none ∧
    decodeMode (idleHost.command false ⟨0, 0⟩ (dataRequest 24 fWr 1)).2.mode = some ⟨true, true, false, false, false⟩ ∧
    ¬ Encodes (dataRequest 24 fWr 1) (idleHost.command false ⟨0, 0⟩ (dataRequest 24 fWr 1)).2 := by
  unfold Encodes
  decide

end Emlinux.Sdhc
