import Emlinux.Lib.Ring
import Mathlib.Data.BitVec

/-!
# The position of the PCM stream

The DSP reports where it is in the buffer. `magus_pcm_callback` takes the distance from the last report, around the end of the buffer, and
adds it to a position that is kept modulo the buffer and to one that is kept modulo the period.

* `callback`: what a message does, and whether it ends a period.
* `Tracked`: the two positions by the way that the reports made.
* `positions_tracked`: they are so after any messages, and a period ends when the way crosses a multiple of its length.
-/

namespace Emlinux.Pcm

open Lib

abbrev Word := BitVec 32

/-- `CAL_MSG_MEDIA_COMP_STATUS_OK`. -/
def statusOk : Int := 0

/-- `CAL_MSG_APB_INIT`. -/
def msgInit : BitVec 8 := 6#8

/-- `CAL_MSG_APB_EXIT`. -/
def msgExit : BitVec 8 := 8#8

/-- `CAL_MSG_APB_CURRSTATE`. -/
def msgCurrstate : BitVec 8 := 9#8

/-- `cal_dspmsg_apb_currstate`, of which the other messages are a part. -/
structure Msg where
  msgId : BitVec 8
  status : Int
  buffPosn : Word
  buffSizeConsumed : Word
deriving DecidableEq, Repr

/-- `struct magus_runtime_data`, `magus_pcm_apb_state` and the enable register of the TDM. -/
structure Stream where
  pcmSize : Word
  pcmCount : Word
  pcmIrqPos : Word
  pcmBufPos : Word
  apbState : Int
  tdmEn : Word
deriving DecidableEq, Repr

/-- What `magus_pcm_prepare` does beside the runtime data. -/
inductive Effect where
  | clearDmaArea
  | cbRegister
  | tdmConfig
deriving DecidableEq, Repr

/-- The lengths in bytes of a buffer and of its periods. `magus_pcm_hardware` allows buffers up to 256 KB and periods up to 8 KB; the counters
hold more. -/
structure Lengths where
  buffer : Word
  period : Word
  period_pos : 0#32 < period
  buffer_le : buffer ≤ 0x80000000#32
  period_le : period ≤ 0x80000000#32

/-- `magus_pcm_prepare`. -/
def prepare (len : Lengths) (s : Stream) : List Effect × Stream :=
  let s := { s with pcmSize := len.buffer, pcmCount := len.period, pcmIrqPos := 0#32, pcmBufPos := 0#32 }
  (if s.tdmEn = 0#32 then [.clearDmaArea, .cbRegister, .tdmConfig] else [], s)

/-- `magus_pcm_callback`, and whether it calls `snd_pcm_period_elapsed`. -/
def callback (m : Msg) (s : Stream) : Bool × Stream :=
  if m.status ≠ statusOk then (false, { s with apbState := 0 })
  else if m.msgId = msgCurrstate then
    let position := m.buffPosn
    -- `buff_size_consumed` is not used: the size comes from the position
    let size := if position ≥ s.pcmBufPos then position - s.pcmBufPos else s.pcmSize - (s.pcmBufPos - position)
    let s := { s with pcmIrqPos := s.pcmIrqPos + size, pcmBufPos := (s.pcmBufPos + size) % s.pcmSize }
    if s.pcmIrqPos ≥ s.pcmCount then (true, { s with pcmIrqPos := s.pcmIrqPos % s.pcmCount, apbState := 1 })
    else (false, s)
  else if m.msgId = msgInit then (false, { s with apbState := 0 })
  else if m.msgId = msgExit then (false, { s with tdmEn := 0#32, apbState := 0 })
  else (false, s)

/-- A message that reports progress. -/
def Msg.Progress (m : Msg) : Prop := m.status = statusOk ∧ m.msgId = msgCurrstate

instance (m : Msg) : Decidable m.Progress := inferInstanceAs (Decidable (_ ∧ _))

/-- The stream after messages. -/
def messages (s : Stream) (msgs : List Msg) : Stream := msgs.foldl (fun s m => (callback m s).2) s

/-- The positions that messages report. -/
def positions (msgs : List Msg) : List Nat := (msgs.filter (·.Progress)).map (·.buffPosn.toNat)

/-- Every reported position is within the buffer. -/
def Inside (len : Lengths) (msgs : List Msg) : Prop := ∀ m ∈ msgs, m.Progress → m.buffPosn < len.buffer

/-- The last reported position, at first the start of the buffer. -/
def lastPosition (msgs : List Msg) : Nat := (positions msgs).getLastD 0

/-- The way since the stream was prepared. -/
def way (len : Lengths) (msgs : List Msg) : Nat := travelled len.buffer.toNat 0 (positions msgs)

/-- The stream after the messages: the position in the buffer is the last one, and that in the period is what is left of the way. -/
structure Tracked (len : Lengths) (msgs : List Msg) (s : Stream) : Prop where
  size : s.pcmSize = len.buffer
  count : s.pcmCount = len.period
  buf : s.pcmBufPos.toNat = lastPosition msgs
  irq : s.pcmIrqPos.toNat = way len msgs % len.period.toNat

/-! ## One message -/

section Step

variable {len : Lengths} {msgs : List Msg} {m : Msg} {s : Stream}

theorem positions_append (msgs : List Msg) (m : Msg) :
    positions (msgs ++ [m]) = if m.Progress then positions msgs ++ [m.buffPosn.toNat] else positions msgs := by
  unfold positions
  rw [List.filter_append, List.map_append]
  by_cases h : m.Progress
  · rw [if_pos h, List.filter_cons_of_pos (by simpa using h)]
    rfl
  · rw [if_neg h, List.filter_cons_of_neg (by simpa using h), List.filter_nil, List.map_nil, List.append_nil]

theorem lastPosition_append (h : m.Progress) : lastPosition (msgs ++ [m]) = m.buffPosn.toNat := by
  unfold lastPosition
  rw [positions_append, if_pos h, List.getLastD_concat]

theorem way_append (h : m.Progress) :
    way len (msgs ++ [m]) = way len msgs + forward len.buffer.toNat (lastPosition msgs) m.buffPosn.toNat := by
  unfold way lastPosition
  rw [positions_append, if_pos h, travelled_append]

theorem lastPosition_lt (hin : Inside len msgs) (hb : 0 < len.buffer.toNat) : lastPosition msgs < len.buffer.toNat := by
  have hall : ∀ p ∈ positions msgs, p < len.buffer.toNat := by
    intro p hp
    unfold positions at hp
    obtain ⟨m, hm, rfl⟩ := List.mem_map.mp hp
    obtain ⟨hm, hprog⟩ := List.mem_filter.mp hm
    exact hin m hm (by simpa using hprog)
  unfold lastPosition
  rcases List.eq_nil_or_concat (positions msgs) with hnil | ⟨l, p, hl⟩
  · rw [hnil]
    exact hb
  · rw [hl, List.concat_eq_append, List.getLastD_concat]
    exact hall p (by rw [hl]; simp)

/-- Any other message leaves the positions, and ends no period. -/
theorem callback_other (h : ¬ m.Progress) : (callback m s).1 = false ∧ (callback m s).2.pcmSize = s.pcmSize ∧
    (callback m s).2.pcmCount = s.pcmCount ∧ (callback m s).2.pcmIrqPos = s.pcmIrqPos ∧ (callback m s).2.pcmBufPos = s.pcmBufPos := by
  unfold callback
  by_cases hst : m.status = statusOk
  · have hid : m.msgId ≠ msgCurrstate := fun hid => h ⟨hst, hid⟩
    rw [if_neg (not_not.mpr hst), if_neg hid]
    split_ifs <;> exact ⟨rfl, rfl, rfl, rfl, rfl⟩
  · rw [if_pos hst]
    exact ⟨rfl, rfl, rfl, rfl, rfl⟩

/-- The size that is computed is the forward distance. -/
theorem toNat_size (position buf size : Word) (hb : buf < size) (hp : position < size) :
    (if position ≥ buf then position - buf else size - (buf - position)).toNat = forward size.toNat buf.toNat position.toNat := by
  rw [BitVec.lt_def] at hb hp
  split_ifs with hge
  · rw [ge_iff_le, BitVec.le_def] at hge
    rw [BitVec.toNat_sub_of_le hge, forward_of_le hge hp]
  · rw [ge_iff_le, BitVec.le_def, Nat.not_le] at hge
    have hinner : (buf - position).toNat = buf.toNat - position.toNat := BitVec.toNat_sub_of_le (BitVec.le_def.mpr hge.le)
    rw [BitVec.toNat_sub_of_le (by rw [BitVec.le_def, hinner]; omega), hinner, forward_of_lt hge hb]

/-- A report of a position within the buffer. -/
theorem callback_progress (h : Tracked len msgs s) (hin : Inside len msgs) (hm : m.Progress) (hpos : m.buffPosn < len.buffer) :
    ((callback m s).1 = true ↔ Crosses len.period.toNat (way len msgs) (forward len.buffer.toNat (lastPosition msgs) m.buffPosn.toNat)) ∧
      Tracked len (msgs ++ [m]) (callback m s).2 := by
  have hb : 0 < len.buffer.toNat := Nat.lt_of_le_of_lt (Nat.zero_le _) hpos
  have hlast := lastPosition_lt hin hb
  have hbuf : s.pcmBufPos < s.pcmSize := by
    rw [BitVec.lt_def, h.buf, h.size]
    exact hlast
  have hsize := toNat_size m.buffPosn s.pcmBufPos s.pcmSize hbuf (by rw [h.size]; exact hpos)
  rw [h.buf, h.size] at hsize
  generalize hsz : (if m.buffPosn ≥ s.pcmBufPos then m.buffPosn - s.pcmBufPos else len.buffer - (s.pcmBufPos - m.buffPosn)) = size at hsize
  have hfwd := forward_lt (lastPosition msgs) m.buffPosn.toNat hb
  have hble : len.buffer.toNat ≤ 0x80000000 := len.buffer_le
  have hple : len.period.toNat ≤ 0x80000000 := len.period_le
  have hpp : 0 < len.period.toNat := len.period_pos
  have hleft := Nat.mod_lt (way len msgs) hpp
  have hirq : (s.pcmIrqPos + size).toNat =
      way len msgs % len.period.toNat + forward len.buffer.toNat (lastPosition msgs) m.buffPosn.toNat := by
    rw [BitVec.toNat_add, h.irq, hsize, Nat.mod_eq_of_lt (by omega)]
  have hnew : ((s.pcmBufPos + size) % s.pcmSize).toNat = lastPosition (msgs ++ [m]) := by
    rw [BitVec.toNat_umod, BitVec.toNat_add, h.buf, h.size, hsize, Nat.mod_eq_of_lt (show lastPosition msgs + _ < 2 ^ 32 by omega),
      add_forward_mod hlast hpos, lastPosition_append hm]
  have hway : (way len msgs % len.period.toNat + forward len.buffer.toNat (lastPosition msgs) m.buffPosn.toNat) % len.period.toNat =
      way len (msgs ++ [m]) % len.period.toNat := by
    rw [way_append hm, Nat.mod_add_mod]
  rw [crosses_iff hpp, ← hirq]
  unfold callback
  rw [if_neg (not_not.mpr hm.1), if_pos hm.2]
  dsimp only
  rw [h.size, hsz, h.count]
  rw [h.size] at hnew
  split_ifs with hge
  · rw [ge_iff_le, BitVec.le_def] at hge
    refine ⟨iff_of_true rfl hge, rfl, rfl, hnew, ?_⟩
    dsimp only
    rw [BitVec.toNat_umod, hirq, hway]
  · rw [ge_iff_le, BitVec.le_def] at hge
    have hlt : way len msgs % len.period.toNat + forward len.buffer.toNat (lastPosition msgs) m.buffPosn.toNat < len.period.toNat := by
      rw [← hirq]
      exact Nat.not_le.mp hge
    refine ⟨iff_of_false (by simp) hge, rfl, rfl, hnew, ?_⟩
    dsimp only
    rw [hirq, ← hway, Nat.mod_eq_of_lt hlt]

theorem Tracked.step (h : Tracked len msgs s) (hin : Inside len (msgs ++ [m])) : Tracked len (msgs ++ [m]) (callback m s).2 := by
  have hin' : Inside len msgs := fun m' hm' => hin m' (List.mem_append_left _ hm')
  by_cases hm : m.Progress
  · exact (callback_progress h hin' hm (hin m (by simp) hm)).2
  · obtain ⟨-, h1, h2, h3, h4⟩ := callback_other (s := s) hm
    have hp : positions (msgs ++ [m]) = positions msgs := by rw [positions_append, if_neg hm]
    refine ⟨h1.trans h.size, h2.trans h.count, ?_, ?_⟩
    · rw [h4, h.buf, lastPosition, lastPosition, hp]
    · rw [h3, h.irq, way, way, hp]

end Step

/-! ## Any messages -/

theorem tracked_messages (len : Lengths) (s : Stream) (msgs : List Msg) (hin : Inside len msgs) :
    Tracked len msgs (messages (prepare len s).2 msgs) := by
  induction msgs using List.reverseRecOn with
  | nil => exact ⟨rfl, rfl, rfl, (Nat.zero_mod _).symm⟩
  | append_singleton msgs m ih =>
    have hstep := (ih fun m' hm' => hin m' (List.mem_append_left _ hm')).step hin
    unfold messages at *
    rwa [List.foldl_append]

/-- After any messages since the stream was prepared its positions are those of the way, and the next message ends a period exactly when its
distance crosses a multiple of the length of a period. -/
theorem positions_tracked (len : Lengths) (s : Stream) (msgs : List Msg) (hin : Inside len msgs) :
    (messages (prepare len s).2 msgs).pcmBufPos.toNat = lastPosition msgs ∧
      (messages (prepare len s).2 msgs).pcmIrqPos.toNat = way len msgs % len.period.toNat ∧
      ∀ m : Msg, (m.Progress → m.buffPosn < len.buffer) →
        ((callback m (messages (prepare len s).2 msgs)).1 = true ↔ m.Progress ∧
          Crosses len.period.toNat (way len msgs) (forward len.buffer.toNat (lastPosition msgs) m.buffPosn.toNat)) := by
  have h := tracked_messages len s msgs hin
  refine ⟨h.buf, h.irq, fun m hpos => ?_⟩
  by_cases hm : m.Progress
  · rw [(callback_progress h hin hm (hpos hm)).1]
    exact ⟨fun hc => ⟨hm, hc⟩, And.right⟩
  · refine iff_of_false ?_ fun hc => hm hc.1
    rw [(callback_other hm).1]
    exact Bool.false_ne_true

/-- A buffer of 1000 bytes with periods of 300. -/
def short : Lengths := ⟨1000#32, 300#32, by decide, by decide, by decide⟩

/-- A way over the end of the buffer, from 900 on to 50. -/
theorem positions_tracked_short :
    (messages (prepare short ⟨0#32, 0#32, 0#32, 0#32, 0, 0#32⟩).2 [⟨9#8, 0, 900#32, 0#32⟩, ⟨9#8, 0, 50#32, 0#32⟩]).pcmIrqPos.toNat =
      1050 % 300 :=
  (positions_tracked short ⟨0#32, 0#32, 0#32, 0#32, 0, 0#32⟩ [⟨9#8, 0, 900#32, 0#32⟩, ⟨9#8, 0, 50#32, 0#32⟩] (by
    unfold Inside
    decide)).2.1

end Emlinux.Pcm
