import Emlinux.Scrm.Pll

/-!
# The announced frequency

`magus_set_target` looks a target up in a table of PLL outputs. The clock that it announces is the target, and the clock that runs is what
a prescaler of three bits makes of the PLL output. The two agree for a target of the table. For another target the PLL is left as it is, and
they agree only when one of the eight dividers happens to give the target.

* `Announced`: the announced clock is the one that runs.
* `Faithful`: when it is, by the target and the clocks before.
-/

namespace Emlinux.Scrm

open Lib

/-! ## The table -/

/-- `INVALID`, which fills the rows with two frequencies. -/
def invalid : BitVec 32 := 0xffffffff#32

/-- A row of `magus_freq_table`, in kHz. -/
structure PllTable where
  pllOut : BitVec 32
  validFreqs : List (BitVec 32)
  low : 50000#32 ≤ pllOut
  high : pllOut ≤ 400000#32

/-- `magus_freq_table` up to its end mark. -/
def magusFreqTable : List PllTable :=
  [⟨240000#32, [240000#32, 120000#32, 60000#32], by decide, by decide⟩,
    ⟨220000#32, [220000#32, 110000#32, 55000#32], by decide, by decide⟩,
    ⟨210000#32, [210000#32, 105000#32, invalid], by decide, by decide⟩,
    ⟨200000#32, [200000#32, 100000#32, 50000#32], by decide, by decide⟩,
    ⟨190000#32, [190000#32, 95000#32, invalid], by decide, by decide⟩,
    ⟨180000#32, [180000#32, 90000#32, invalid], by decide, by decide⟩,
    ⟨170000#32, [170000#32, 85000#32, invalid], by decide, by decide⟩,
    ⟨160000#32, [160000#32, 80000#32, invalid], by decide, by decide⟩,
    ⟨150000#32, [150000#32, 75000#32, invalid], by decide, by decide⟩,
    ⟨130000#32, [130000#32, 65000#32, invalid], by decide, by decide⟩]

/-- `cpufreq_table_lookup_pllout`: the row. -/
def cpufreqTableLookupPllout (pllOut : BitVec 32) : Option PllTable := magusFreqTable.find? fun e => e.pllOut = pllOut

/-- `cpufreq_table_lookup_freq`: the row. -/
def cpufreqTableLookupFreq (targetFreq : BitVec 32) : Option PllTable := magusFreqTable.find? fun e => targetFreq ∈ e.validFreqs

/-! ## The board -/

structure Board where
  regs : Regs
  /-- The two bytes of the divisor latch of the UART. -/
  uartLsb : BitVec 32
  uartMsb : BitVec 32
  sdrCs0Cfgr : BitVec 32
deriving DecidableEq

/-- The two bodies of `scrm_set_system_clk`: for the boards that its `#if` lists, and for the others. -/
inductive BoardKind where
  | listed
  | other
deriving DecidableEq, Repr

def Regs.setPsclr (r : Regs) (psclr : BitVec 32) : Regs :=
  { r with csdr := r.csdr &&& ~~~(0x7#32 <<< 12) ||| (psclr &&& 0x7#32) <<< 12 }

def Regs.setHclkdiv (r : Regs) (hclkdiv : BitVec 32) : Regs :=
  { r with csdr := r.csdr &&& ~~~(0xf#32 <<< 8) ||| (hclkdiv &&& 0xf#32) <<< 8 }

namespace Board

def sdrEcas (b : Board) : BitVec 32 := (b.sdrCs0Cfgr >>> 12) &&& 1#32

def ecasOff (b : Board) : Board :=
  if b.sdrEcas = 1#32 then { b with sdrCs0Cfgr := b.sdrCs0Cfgr &&& ~~~(1#32 <<< 12) } else b

def ecasOn (b : Board) : Board :=
  if b.sdrEcas = 0#32 then { b with sdrCs0Cfgr := b.sdrCs0Cfgr ||| 1#32 <<< 12 } else b

end Board

/-- `psclr` for a request. The library division by zero returns 0, as that of `BitVec`. -/
def prescaler (pllOut freq : BitVec 32) : BitVec 32 :=
  let armclk := if freq > pllOut then pllOut else freq
  divOf pllOut armclk 7#32

/-- `scrm_set_system_clk` on the boards that are listed. -/
def setSystemClkListed (b : Board) (freq : BitVec 32) : Board :=
  let pllOut := scrmGetPllOut b.regs
  let hclkdiv := csdrHclkdiv b.regs.csdr
  let curSysClk := scrmGetSystemClk b.regs
  let armclk := if freq > pllOut then pllOut else freq
  let psclr := prescaler pllOut freq
  let b := if psclr = 0#32 ∧ hclkdiv = 0#32 then { b with regs := b.regs.setHclkdiv (hclkdiv + 1#32) } else b
  if curSysClk > armclk then
    let b := if armclk / 1000#32 ≤ 150000#32 then b.ecasOff else if armclk / 1000#32 ≥ 180000#32 then b.ecasOn else b
    { b with regs := b.regs.setPsclr psclr }
  else if armclk / 1000#32 ≤ 150000#32 then
    let b := b.ecasOff
    { b with regs := b.regs.setPsclr psclr }
  else if armclk / 1000#32 ≥ 180000#32 then
    -- `except`: the prescaler comes first
    let b := { b with regs := b.regs.setPsclr psclr }
    b.ecasOn
  else { b with regs := b.regs.setPsclr psclr }

/-- The divider of HCLK on the other boards, where it should be 120 MHz. -/
def hclkdivOther (pllOut psclr hclkdiv : BitVec 32) : BitVec 32 :=
  let hclk := 120000000#32
  if psclr = 0#32 ∧ hclkdiv = 0#32 then hclkdiv + 1#32
  else
    let hclkdiv := pllOut / (psclr + 1#32) / hclk - 1#32
    if hclkdiv = -1#32 then 1#32 else hclkdiv

/-- `scrm_set_system_clk` on the other boards. -/
def setSystemClkOther (b : Board) (freq : BitVec 32) : Board :=
  let pllOut := scrmGetPllOut b.regs
  let hclkdiv := csdrHclkdiv b.regs.csdr
  if scrmGetSystemClk b.regs = freq then b
  else
    let psclr := prescaler pllOut freq
    let hclkdiv := hclkdivOther pllOut psclr hclkdiv
    { b with regs := (b.regs.setHclkdiv hclkdiv).setPsclr psclr }

/-- `scrm_set_system_clk`. -/
def scrmSetSystemClk (kind : BoardKind) (b : Board) (freq : BitVec 32) : BitVec 32 × Board :=
  let b := match kind with
    | .listed => setSystemClkListed b freq
    | .other => setSystemClkOther b freq
  (scrmGetSystemClk b.regs, b)

/-- The restart bit is set, and the PLL clears it when it runs again. -/
def restarted (pllr : BitVec 32) : BitVec 32 := setField (pllr ||| 1#32 <<< 1) 1 1 0#32

theorem field_restarted (p : BitVec 32) {pos len : Nat} (h : 2 ≤ pos) (hn : pos + len ≤ 32) : field (restarted p) pos len = field p pos len := by
  unfold restarted
  rw [field_setField_of_disjoint _ _ hn (Or.inr h), field_or, field_shl_above (m := 1) (by decide) h, Nat.or_zero]

theorem ne_zero_iff_toNat {v w : BitVec 32} (h : v.toNat = w.toNat) : v ≠ 0#32 ↔ w ≠ 0#32 := by
  rw [BitVec.eq_of_toNat_eq h]

def Pllr.restart (p : Pllr) : Pllr where
  val := restarted p.val
  refdiv_ne := by
    rw [ne_zero_iff_toNat (w := pllrRefdiv p.val)]
    · exact p.refdiv_ne
    · rw [toNat_pllrRefdiv, toNat_pllrRefdiv, field_restarted _ (by decide) (by decide)]
  opdiv_ne := by
    rw [ne_zero_iff_toNat (w := pllrOpdiv p.val)]
    · exact p.opdiv_ne
    · rw [toNat_pllrOpdiv, toNat_pllrOpdiv, field_restarted _ (by decide) (by decide)]

/-- `scrm_set_new_freq`; the value 0 for no change of the PLL is `none`. -/
def scrmSetNewFreq (kind : BoardKind) (b : Board) (pllr : Option Pllr) (freq : BitVec 32) : Board :=
  let b := match pllr with
    | none => b
    | some p =>
      let b := { b with regs := { b.regs with pllr := p } }
      let perclk1 := scrmGetPerclk1 b.regs
      let uartDivLatch := perclk1 / (16#32 * 115200#32)
      let b :=
        if uartDivLatch > 0xff#32 then { b with uartLsb := uartDivLatch &&& 0xff#32, uartMsb := (uartDivLatch >>> 8) &&& 0xff#32 }
        else { b with uartLsb := uartDivLatch }
      { b with regs := { b.regs with pllr := b.regs.pllr.restart } }
  (scrmSetSystemClk kind b freq).2

/-! ## The target -/

/-- The limits of a policy that are read, in kHz. -/
structure Policy where
  cpuinfoMin : BitVec 32
  cpuinfoMax : BitVec 32
  min : BitVec 32

def Policy.clamp (p : Policy) (targetFreq : BitVec 32) : BitVec 32 :=
  let targetFreq := if targetFreq < p.cpuinfoMin then p.cpuinfoMin else targetFreq
  let targetFreq := if targetFreq > p.cpuinfoMax then p.cpuinfoMax else targetFreq
  if targetFreq < p.min then p.min else targetFreq

/-- `struct cpufreq_freqs`. -/
structure Freqs where
  old : BitVec 32
  new : BitVec 32
deriving DecidableEq, Repr

inductive Phase where
  | prechange
  | postchange
deriving DecidableEq, Repr

structure TargetResult where
  ret : Int
  board : Board
  /-- The calls of `cpufreq_notify_transition`. -/
  notes : List (Phase × Freqs)

namespace PllTable

variable (e : PllTable)

/-- The PLL output of a row in Hz. -/
def pllOutHz : BitVec 32 := e.pllOut * 1000#32

theorem toNat_pllOutHz : e.pllOutHz.toNat = e.pllOut.toNat * 1000 := by
  have hhigh : e.pllOut.toNat ≤ 400000 := e.high
  unfold pllOutHz
  rw [BitVec.toNat_mul]
  exact Nat.mod_eq_of_lt (show e.pllOut.toNat * 1000 < 2 ^ 32 by omega)

theorem low_pllOutHz : 50000000#32 ≤ e.pllOutHz := by
  have hlow : 50000 ≤ e.pllOut.toNat := e.low
  rw [BitVec.le_def, toNat_pllOutHz]
  exact Nat.mul_le_mul_right 1000 hlow

theorem high_pllOutHz : e.pllOutHz ≤ 400000000#32 := by
  have hhigh : e.pllOut.toNat ≤ 400000 := e.high
  rw [BitVec.le_def, toNat_pllOutHz]
  exact Nat.mul_le_mul_right 1000 hhigh

/-- The value that `magus_compute_pllr` gives for the row. -/
def newPllr (cur : Pllr) (junk : BitVec 32) : Pllr where
  val := (magusComputePllr cur.val e.pllOutHz xtalIn junk).1
  refdiv_ne := by
    obtain ⟨r, q, -, hr2, -, -, -, hch⟩ := chosen_magusComputePllr e.low_pllOutHz e.high_pllOutHz cur.val junk
    intro hz
    have hval := congrArg BitVec.toNat hz
    rw [toNat_pllrRefdiv, hch.refdiv] at hval
    have hzero : r = 0 := hval
    omega
  opdiv_ne := by
    obtain ⟨r, q, -, -, -, -, -, hch⟩ := chosen_magusComputePllr e.low_pllOutHz e.high_pllOutHz cur.val junk
    have hpos := (within_opdivNew junk e.low_pllOutHz e.high_pllOutHz).pos
    intro hz
    have hval := congrArg BitVec.toNat hz
    rw [toNat_pllrOpdiv, hch.opdiv] at hval
    have hzero : (opdivNew junk e.pllOutHz).toNat = 0 := hval
    omega

end PllTable

/-- `magus_set_target`; `junk` is what `opdiv_new` holds before it is set. -/
def magusSetTarget (kind : BoardKind) (b : Board) (policy : Policy) (targetFreq junk : BitVec 32) : TargetResult :=
  let targetFreq := policy.clamp targetFreq
  let freq := targetFreq * 1000#32
  let curPllOut := scrmGetPllOut b.regs
  let curArmFreq := scrmGetSystemClk b.regs
  if targetFreq > 150000#32 ∧ targetFreq < 180000#32 then ⟨0, b, []⟩
  else if freq = curArmFreq then ⟨0, b, []⟩
  else
    let pllr := match cpufreqTableLookupPllout (curPllOut / 1000#32) with
      -- "warning: unstable cur_pll_out..": `pll_change_flag` stays 0
      | none => (cpufreqTableLookupFreq targetFreq).map fun e => e.newPllr b.regs.pllr junk
      | some e =>
        if targetFreq ∈ e.validFreqs then none
        else (cpufreqTableLookupFreq targetFreq).map fun e => e.newPllr b.regs.pllr junk
    let freqs := ⟨curArmFreq / 1000#32, freq / 1000#32⟩
    ⟨0, scrmSetNewFreq kind b pllr freq, [(.prechange, freqs), (.postchange, freqs)]⟩

/-- A call that returns 0 announced the clock that runs, or it announced nothing and the clock is as before. -/
def Announced (b : Board) (res : TargetResult) : Prop :=
  res.ret = 0 → (∃ n ∈ res.notes, n.1 = .postchange ∧ scrmGetSystemClk res.board.regs / 1000#32 = n.2.new) ∨
    res.notes = [] ∧ scrmGetSystemClk res.board.regs = scrmGetSystemClk b.regs

/-- A row lists the target. -/
def Listed (t : BitVec 32) : Prop := t ≠ invalid ∧ ∃ e ∈ magusFreqTable, t ∈ e.validFreqs

/-- A divider of the prescaler leaves the PLL output `d` at the frequency, in kHz. -/
def Divides (d freq : Nat) : Prop := ∃ k, 0 < k ∧ k ≤ 8 ∧ (k = 1 ∨ k * freq ≤ d) ∧ d / k / 1000 = freq / 1000

/-- The condition on the clamped target: it is refused, it is the clock that runs, a row lists it, or the PLL output can be divided to it. -/
def Faithful (r : Regs) (t : BitVec 32) : Prop :=
  150000#32 < t ∧ t < 180000#32 ∨ t * 1000#32 = scrmGetSystemClk r ∨ Listed t ∨
    t ≠ invalid ∧ Divides (scrmGetPllOut r).toNat (t * 1000#32).toNat

/-! ## The prescaler -/

/-- The clock that the prescaler leaves of the PLL output. -/
def reached (pllOut freq : BitVec 32) : BitVec 32 := pllOut / (prescaler pllOut freq + 1#32)

theorem prescaler_le (d f : BitVec 32) : (prescaler d f).toNat ≤ 7 := divOf_le d _ 7#32

theorem toNat_reached (d f : BitVec 32) : (reached d f).toNat = d.toNat / ((prescaler d f).toNat + 1) := by
  have hle := prescaler_le d f
  unfold reached
  rw [BitVec.toNat_udiv, BitVec.toNat_add, Nat.mod_eq_of_lt (show (prescaler d f).toNat + (1#32).toNat < 2 ^ 32 by simp; omega)]
  rfl

theorem reached_le (d f : BitVec 32) : (reached d f).toNat ≤ d.toNat := by
  rw [toNat_reached]
  exact Nat.div_le_self _ _

/-- A request up to the PLL output. -/
theorem toNat_reached_le {d f : BitVec 32} (h0 : 0 < f.toNat) (h : f.toNat ≤ d.toNat) : (reached d f).toNat = divided d.toNat 7 f.toNat := by
  have hn : ¬ f > d := BitVec.not_lt.mpr h
  rw [toNat_reached]
  unfold prescaler
  dsimp only
  rw [if_neg hn, toNat_divOf h0 h]
  rfl

/-- A request of nothing gets the largest divider. -/
theorem toNat_reached_zero (d : BitVec 32) : (reached d 0#32).toNat = d.toNat / 8 := by
  have hn : ¬ (0#32 : BitVec 32) > d := BitVec.not_lt_zero
  rw [toNat_reached]
  unfold prescaler
  dsimp only
  rw [if_neg hn, divOf_of_quot BitVec.udiv_zero]
  rfl

/-- A request above the PLL output gets it as it is. -/
theorem toNat_reached_above {d f : BitVec 32} (h : d.toNat < f.toNat) : (reached d f).toNat = d.toNat := by
  have hn : f > d := h
  rw [toNat_reached]
  rcases Nat.eq_zero_or_pos d.toNat with hz | hp
  · rw [hz]
    exact Nat.zero_div _
  · unfold prescaler
    dsimp only
    rw [if_pos hn, toNat_divOf hp le_rfl, Nat.div_self hp]
    exact Nat.div_one _

/-- The clock agrees with the request, in kHz, when some divider makes it so. -/
theorem reached_div_iff (d f : BitVec 32) : (reached d f).toNat / 1000 = f.toNat / 1000 ↔ Divides d.toNat f.toNat := by
  unfold Divides
  rcases Nat.lt_or_ge d.toNat f.toNat with hlt | hge
  · rw [toNat_reached_above hlt]
    constructor
    · intro h
      exact ⟨1, by decide, by decide, Or.inl rfl, by rwa [Nat.div_one]⟩
    · rintro ⟨k, hk, -, hor, h⟩
      rcases hor with rfl | hle
      · rwa [Nat.div_one] at h
      · have hmul := Nat.le_mul_of_pos_left f.toNat hk
        omega
  · rcases Nat.eq_zero_or_pos f.toNat with hz | hp
    · obtain rfl : f = 0#32 := BitVec.eq_of_toNat_eq hz
      rw [toNat_reached_zero]
      constructor
      · intro h
        exact ⟨8, by decide, le_rfl, Or.inr (by simp), h⟩
      · rintro ⟨k, hk, hk8, -, h⟩
        have hdiv : d.toNat / 8 ≤ d.toNat / k := Nat.div_le_div_left hk8 hk
        have hle : d.toNat / 8 / 1000 ≤ d.toNat / k / 1000 := Nat.div_le_div_right hdiv
        have hzero : (0#32).toNat / 1000 = 0 := rfl
        omega
    · rw [toNat_reached_le hp hge, divided_div_eq_iff hp hge]
      constructor
      · rintro ⟨k, hk, hk8, hkf, h⟩
        exact ⟨k, hk, hk8, Or.inr hkf, h⟩
      · rintro ⟨k, hk, hk8, hor, h⟩
        refine ⟨k, hk, hk8, ?_, h⟩
        rcases hor with rfl | hkf
        · rwa [Nat.one_mul]
        · exact hkf

/-! ## Setting the clock -/

section Setting

variable {b : Board} {freq : BitVec 32}

/-- The registers after the prescaler is written. -/
structure Prescaled (r : Regs) (freq : BitVec 32) (u : Regs) : Prop where
  pllr : u.pllr = r.pllr
  psclr : field u.csdr 12 3 = (prescaler (scrmGetPllOut r) freq).toNat

theorem Prescaled.clock {r u : Regs} (h : Prescaled r freq u) : scrmGetSystemClk u = reached (scrmGetPllOut r) freq := by
  apply BitVec.eq_of_toNat_eq
  unfold scrmGetSystemClk
  rw [toNat_div_field _ _ (toNat_csdrPsclr _) (by decide), toNat_reached, h.psclr, h.pllr]
  rfl

theorem prescaled_setPsclr {r u : Regs} (hp : u.pllr = r.pllr) : Prescaled r freq (u.setPsclr (prescaler (scrmGetPllOut r) freq)) where
  pllr := hp
  psclr := by
    have hle := prescaler_le (scrmGetPllOut r) freq
    show field (setField u.csdr 12 3 (prescaler (scrmGetPllOut r) freq)) 12 3 = _
    rw [field_setField _ _ (by decide)]
    exact Nat.mod_eq_of_lt (Nat.lt_succ_of_le hle)

@[simp] theorem ecasOff_regs (b : Board) : b.ecasOff.regs = b.regs := by
  unfold Board.ecasOff
  split <;> rfl

@[simp] theorem ecasOn_regs (b : Board) : b.ecasOn.regs = b.regs := by
  unfold Board.ecasOn
  split <;> rfl

theorem prescaled_listed (b : Board) (freq : BitVec 32) : Prescaled b.regs freq (setSystemClkListed b freq).regs := by
  unfold setSystemClkListed
  dsimp only
  have hfirst : (if prescaler (scrmGetPllOut b.regs) freq = 0#32 ∧ csdrHclkdiv b.regs.csdr = 0#32 then
      { b with regs := b.regs.setHclkdiv (csdrHclkdiv b.regs.csdr + 1#32) } else b).regs.pllr = b.regs.pllr := by
    split <;> rfl
  generalize (if prescaler (scrmGetPllOut b.regs) freq = 0#32 ∧ csdrHclkdiv b.regs.csdr = 0#32 then
    { b with regs := b.regs.setHclkdiv (csdrHclkdiv b.regs.csdr + 1#32) } else b) = b' at hfirst
  generalize (if freq > scrmGetPllOut b.regs then scrmGetPllOut b.regs else freq) = armclk
  split_ifs with h1 h2 h3 h4 h5
  · exact prescaled_setPsclr (by rw [ecasOff_regs, hfirst])
  · exact prescaled_setPsclr (by rw [ecasOn_regs, hfirst])
  · exact prescaled_setPsclr hfirst
  · exact prescaled_setPsclr (by rw [ecasOff_regs, hfirst])
  · rw [ecasOn_regs]
    exact prescaled_setPsclr hfirst
  · exact prescaled_setPsclr hfirst

/-- A clock that is the request already is the one that the prescaler would leave. -/
theorem reached_of_eq {r : Regs} (h : scrmGetSystemClk r = freq) : reached (scrmGetPllOut r) freq = freq := by
  have hval := congrArg BitVec.toNat h
  have hps := field_lt r.csdr 12 3
  unfold scrmGetSystemClk at hval
  rw [toNat_div_field _ _ (toNat_csdrPsclr _) (by decide)] at hval
  have hval' : (scrmGetPllOut r).toNat / (field r.csdr 12 3 + 1) = freq.toNat := hval
  apply BitVec.eq_of_toNat_eq
  rcases Nat.eq_zero_or_pos freq.toNat with hz | hp
  · obtain rfl : freq = 0#32 := BitVec.eq_of_toNat_eq hz
    have hdiv : (scrmGetPllOut r).toNat / 8 ≤ (scrmGetPllOut r).toNat / (field r.csdr 12 3 + 1) :=
      Nat.div_le_div_left (by omega) (Nat.succ_pos _)
    rw [toNat_reached_zero]
    omega
  · have hmul : (field r.csdr 12 3 + 1) * freq.toNat ≤ (scrmGetPllOut r).toNat := by
      rw [← hval']
      exact Nat.mul_div_le _ _
    have hle : freq.toNat ≤ (scrmGetPllOut r).toNat := by
      rw [← hval']
      exact Nat.div_le_self _ _
    rw [toNat_reached_le hp hle]
    refine Nat.le_antisymm ?_ (le_divided 7 hp hle)
    have hlow := divided_le_div (m := 7) hp (Nat.succ_pos _) (by omega) hmul
    rwa [Nat.succ_eq_add_one, hval'] at hlow

/-- Either body leaves the clock that the prescaler makes of the PLL output. -/
theorem systemClk_set (kind : BoardKind) (b : Board) (freq : BitVec 32) :
    scrmGetSystemClk (scrmSetSystemClk kind b freq).2.regs = reached (scrmGetPllOut b.regs) freq := by
  cases kind with
  | listed => exact (prescaled_listed b freq).clock
  | other =>
    show scrmGetSystemClk (setSystemClkOther b freq).regs = _
    unfold setSystemClkOther
    dsimp only
    by_cases hcur : scrmGetSystemClk b.regs = freq
    · rw [if_pos hcur, reached_of_eq hcur, hcur]
    · rw [if_neg hcur]
      exact (prescaled_setPsclr (r := b.regs) (u := b.regs.setHclkdiv _) rfl).clock

theorem scrmDecodePll_restart (p : Pllr) : scrmDecodePll p.restart.val xtalIn = scrmDecodePll p.val xtalIn := by
  have href : pllrRefdiv p.restart.val = pllrRefdiv p.val := by
    apply BitVec.eq_of_toNat_eq
    rw [toNat_pllrRefdiv, toNat_pllrRefdiv]
    exact field_restarted _ (by decide) (by decide)
  have hop : pllrOpdiv p.restart.val = pllrOpdiv p.val := by
    apply BitVec.eq_of_toNat_eq
    rw [toNat_pllrOpdiv, toNat_pllrOpdiv]
    exact field_restarted _ (by decide) (by decide)
  have hfb : pllrFbdiv p.restart.val = pllrFbdiv p.val := by
    apply BitVec.eq_of_toNat_eq
    rw [toNat_pllrFbdiv, toNat_pllrFbdiv]
    exact field_restarted _ (by decide) (by decide)
  unfold scrmDecodePll
  rw [href, hop, hfb]

/-- The PLL output behind a change. -/
def outAfter (r : Regs) : Option Pllr → BitVec 32
  | none => scrmGetPllOut r
  | some p => scrmDecodePll p.val xtalIn

theorem systemClk_setNewFreq (kind : BoardKind) (b : Board) (pllr : Option Pllr) (freq : BitVec 32) :
    scrmGetSystemClk (scrmSetNewFreq kind b pllr freq).regs = reached (outAfter b.regs pllr) freq := by
  unfold scrmSetNewFreq
  rw [systemClk_set]
  cases pllr with
  | none => rfl
  | some p =>
    show reached _ freq = reached (scrmDecodePll p.val xtalIn) freq
    rw [← scrmDecodePll_restart p]
    dsimp only
    split <;> rfl

end Setting

/-! ## The table, row by row -/

/-- Every row is one that the PLL can be set to: with some reference divider the feedback divider is exact, even and in range. -/
theorem table_realised : ∀ e ∈ magusFreqTable, ∃ r ∈ [4, 6],
    Fits e.pllOutHz.toNat (opdivNew 0#32 e.pllOutHz).toNat r ∧ ¬ OddFirst e.pllOutHz.toNat (opdivNew 0#32 e.pllOutHz).toNat := by
  decide

/-- The frequencies of a row are its PLL output by 1, 2 or 4. -/
theorem table_divides : ∀ e ∈ magusFreqTable, ∀ t ∈ e.validFreqs, t = invalid ∨ ∃ k ∈ [1, 2, 4], k * t.toNat = e.pllOut.toNat := by
  have h : ∀ e ∈ magusFreqTable, e.validFreqs.all fun t => decide (t = invalid ∨ ∃ k ∈ ([1, 2, 4] : List Nat), k * t.toNat = e.pllOut.toNat) := by
    decide
  intro e he t ht
  simpa only [decide_eq_true_eq] using List.all_eq_true.mp (h e he) t ht

/-- `opdiv_new` is set for a frequency within the limits. -/
theorem opdivNew_congr {f : BitVec 32} (junk junk' : BitVec 32) (hl : 50000000#32 ≤ f) (hu : f ≤ 400000000#32) :
    opdivNew junk f = opdivNew junk' f := by
  unfold opdivNew
  simp only [BitVec.le_def, BitVec.lt_def] at hl hu ⊢
  split_ifs with h1 h2 h3
  · rfl
  · rfl
  · rfl
  · have e1 : (50000000#32).toNat = 50000000 := rfl
    have e2 : (100000000#32).toNat = 100000000 := rfl
    have e3 : (200000000#32).toNat = 200000000 := rfl
    have e4 : (400000000#32).toNat = 400000000 := rfl
    omega

theorem decode_newPllr {e : PllTable} (he : e ∈ magusFreqTable) (cur : Pllr) (junk : BitVec 32) :
    scrmDecodePll (e.newPllr cur junk).val xtalIn = e.pllOutHz := by
  obtain ⟨r, hr, hf, hno⟩ := table_realised e he
  have hop := opdivNew_congr junk 0#32 e.low_pllOutHz e.high_pllOutHz
  have hr26 : 2 ≤ r ∧ r ≤ 6 := by
    simp only [List.mem_cons, List.not_mem_nil, or_false] at hr
    omega
  rw [← hop] at hf hno
  exact decode_of_found e.low_pllOutHz e.high_pllOutHz cur.val junk ⟨⟨r, hr26.1, hr26.2, hf⟩, hno⟩

/-! ## The target -/

/-- The register value for a target. -/
def pllrFor (r : Regs) (t junk : BitVec 32) : Option Pllr :=
  match cpufreqTableLookupPllout (scrmGetPllOut r / 1000#32) with
  | none => (cpufreqTableLookupFreq t).map fun e => e.newPllr r.pllr junk
  | some e => if t ∈ e.validFreqs then none else (cpufreqTableLookupFreq t).map fun e => e.newPllr r.pllr junk

section Target

variable {r : Regs} {t junk : BitVec 32}

theorem lookupFreq_mem {e : PllTable} (h : cpufreqTableLookupFreq t = some e) : e ∈ magusFreqTable ∧ t ∈ e.validFreqs :=
  ⟨List.mem_of_find?_eq_some h, by simpa using List.find?_some h⟩

/-- No row lists the target: the PLL stays. -/
theorem outAfter_unlisted (h : ∀ e ∈ magusFreqTable, t ∉ e.validFreqs) : outAfter r (pllrFor r t junk) = scrmGetPllOut r := by
  have hnone : cpufreqTableLookupFreq t = none := by
    rw [cpufreqTableLookupFreq, List.find?_eq_none]
    exact fun e he => by simpa using h e he
  have hfor : pllrFor r t junk = none := by
    unfold pllrFor
    rw [hnone]
    split
    · rfl
    · split <;> rfl
  rw [hfor]
  rfl

/-- Some row lists it: behind the change the PLL output is that of such a row. -/
theorem outAfter_listed (h : ∃ e ∈ magusFreqTable, t ∈ e.validFreqs) (junk : BitVec 32) :
    ∃ e ∈ magusFreqTable, t ∈ e.validFreqs ∧ (outAfter r (pllrFor r t junk)).toNat / 1000 = e.pllOut.toNat := by
  have hfreq : ∃ e ∈ magusFreqTable, t ∈ e.validFreqs ∧
      (outAfter r ((cpufreqTableLookupFreq t).map fun e => e.newPllr r.pllr junk)).toNat / 1000 = e.pllOut.toNat := by
    cases hl : cpufreqTableLookupFreq t with
    | none =>
      obtain ⟨e, he, ht⟩ := h
      rw [cpufreqTableLookupFreq, List.find?_eq_none] at hl
      exact absurd ht (by simpa using hl e he)
    | some e =>
      obtain ⟨he, ht⟩ := lookupFreq_mem hl
      refine ⟨e, he, ht, ?_⟩
      show (scrmDecodePll (e.newPllr r.pllr junk).val xtalIn).toNat / 1000 = _
      rw [decode_newPllr he, e.toNat_pllOutHz, Nat.mul_div_cancel _ (by decide)]
  unfold pllrFor
  cases hp : cpufreqTableLookupPllout (scrmGetPllOut r / 1000#32) with
  | none => exact hfreq
  | some e =>
    dsimp only
    by_cases ht : t ∈ e.validFreqs
    · rw [if_pos ht]
      refine ⟨e, List.mem_of_find?_eq_some hp, ht, ?_⟩
      have heq : e.pllOut = scrmGetPllOut r / 1000#32 := by simpa using List.find?_some hp
      rw [heq, BitVec.toNat_udiv]
      rfl
    · rw [if_neg ht]
      exact hfreq

end Target

/-- Behind a notified change the clock agrees with the target as the condition says. -/
theorem reached_iff_listed (r : Regs) (t junk : BitVec 32) :
    (reached (outAfter r (pllrFor r t junk)) (t * 1000#32)).toNat / 1000 = (t * 1000#32).toNat / 1000 ↔
      Listed t ∨ t ≠ invalid ∧ Divides (scrmGetPllOut r).toNat (t * 1000#32).toNat := by
  by_cases hmem : ∃ e ∈ magusFreqTable, t ∈ e.validFreqs
  · obtain ⟨e, he, ht, hout⟩ := outAfter_listed (r := r) hmem junk
    have hhigh : e.pllOut.toNat ≤ 400000 := e.high
    rcases table_divides e he t ht with rfl | ⟨k, hk, hkt⟩
    · -- the filler as a target: announced is 4294966 kHz
      have hle := reached_le (outAfter r (pllrFor r invalid junk)) (invalid * 1000#32)
      have hfreq : (invalid * 1000#32).toNat = 4294966296 := rfl
      refine iff_of_false (by omega) ?_
      rintro (h | h)
      · exact h.1 rfl
      · exact h.1 rfl
    · have hk14 : 1 ≤ k ∧ k ≤ 4 := by
        simp only [List.mem_cons, List.not_mem_nil, or_false] at hk
        omega
      have hle : t.toNat ≤ k * t.toNat := Nat.le_mul_of_pos_left _ hk14.1
      have hfreq : (t * 1000#32).toNat = t.toNat * 1000 := by
        rw [BitVec.toNat_mul]
        exact Nat.mod_eq_of_lt (show t.toNat * 1000 < 2 ^ 32 by omega)
      have hne : t ≠ invalid := by
        rintro rfl
        have hval : invalid.toNat = 4294967295 := rfl
        omega
      refine iff_of_true ?_ (Or.inl ⟨hne, hmem⟩)
      rw [reached_div_iff]
      refine ⟨k, hk14.1, by omega, Or.inr ?_, ?_⟩
      · rw [hfreq, ← Nat.mul_assoc, hkt]
        omega
      · rw [Nat.div_right_comm, hout, hfreq, Nat.mul_div_cancel _ (by decide), ← hkt, Nat.mul_div_cancel_left _ hk14.1]
  · have hnone : ∀ e ∈ magusFreqTable, t ∉ e.validFreqs := fun e he ht => hmem ⟨e, he, ht⟩
    have hne : t ≠ invalid := by
      rintro rfl
      exact hmem (by decide)
    rw [outAfter_unlisted hnone, reached_div_iff]
    constructor
    · exact fun h => Or.inr ⟨hne, h⟩
    · rintro (h | h)
      · exact absurd h.2 hmem
      · exact h.2

section Announced

variable (kind : BoardKind) (b : Board) (policy : Policy) (targetFreq junk : BitVec 32)

/-- A target in the gap, or the clock that runs: nothing is done. -/
theorem magusSetTarget_kept (h : policy.clamp targetFreq > 150000#32 ∧ policy.clamp targetFreq < 180000#32 ∨
    policy.clamp targetFreq * 1000#32 = scrmGetSystemClk b.regs) : magusSetTarget kind b policy targetFreq junk = ⟨0, b, []⟩ := by
  unfold magusSetTarget
  dsimp only
  split_ifs with h1 h2
  · rfl
  · rfl
  · exact absurd h (not_or.mpr ⟨h1, h2⟩)

/-- Any other target is announced, and the clock is set for it. -/
theorem announced_changed (h1 : ¬ (policy.clamp targetFreq > 150000#32 ∧ policy.clamp targetFreq < 180000#32))
    (h2 : ¬ policy.clamp targetFreq * 1000#32 = scrmGetSystemClk b.regs) :
    Announced b (magusSetTarget kind b policy targetFreq junk) ↔
      (reached (outAfter b.regs (pllrFor b.regs (policy.clamp targetFreq) junk)) (policy.clamp targetFreq * 1000#32)).toNat / 1000 =
        (policy.clamp targetFreq * 1000#32).toNat / 1000 := by
  generalize ht : policy.clamp targetFreq = t at h1 h2 ⊢
  have hset : magusSetTarget kind b policy targetFreq junk =
      ⟨0, scrmSetNewFreq kind b (pllrFor b.regs t junk) (t * 1000#32),
        [(.prechange, ⟨scrmGetSystemClk b.regs / 1000#32, t * 1000#32 / 1000#32⟩),
          (.postchange, ⟨scrmGetSystemClk b.regs / 1000#32, t * 1000#32 / 1000#32⟩)]⟩ := by
    unfold magusSetTarget
    dsimp only
    rw [ht, if_neg h1, if_neg h2]
    rfl
  rw [hset, ← systemClk_setNewFreq kind b]
  unfold Announced
  constructor
  · intro h
    rcases h rfl with ⟨n, hn, hphase, hclk⟩ | ⟨hnil, -⟩
    · obtain rfl | rfl : n = _ ∨ n = _ := by simpa using hn
      · exact absurd hphase Phase.noConfusion
      · have hval := congrArg BitVec.toNat hclk
        rwa [BitVec.toNat_udiv, BitVec.toNat_udiv] at hval
    · exact absurd hnil (by simp)
  · intro h _
    refine Or.inl ⟨_, List.mem_cons_of_mem _ (List.mem_singleton.mpr rfl), rfl, ?_⟩
    apply BitVec.eq_of_toNat_eq
    rw [BitVec.toNat_udiv, BitVec.toNat_udiv]
    exact h

end Announced

/-- On either kind of board the announced clock is the one that runs exactly when the clamped target meets the condition. -/
theorem announced_iff (kind : BoardKind) (b : Board) (policy : Policy) (targetFreq junk : BitVec 32) :
    Announced b (magusSetTarget kind b policy targetFreq junk) ↔ Faithful b.regs (policy.clamp targetFreq) := by
  by_cases h1 : policy.clamp targetFreq > 150000#32 ∧ policy.clamp targetFreq < 180000#32
  · rw [magusSetTarget_kept kind b policy targetFreq junk (Or.inl h1)]
    exact iff_of_true (fun _ => Or.inr ⟨rfl, rfl⟩) (Or.inl h1)
  by_cases h2 : policy.clamp targetFreq * 1000#32 = scrmGetSystemClk b.regs
  · rw [magusSetTarget_kept kind b policy targetFreq junk (Or.inr h2)]
    exact iff_of_true (fun _ => Or.inr ⟨rfl, rfl⟩) (Or.inr (Or.inl h2))
  · rw [announced_changed kind b policy targetFreq junk h1 h2, reached_iff_listed]
    unfold Faithful
    constructor
    · exact fun h => Or.inr (Or.inr h)
    · rintro (h | h | h)
      · exact absurd h h1
      · exact absurd h h2
      · exact h

def board240 : Board := ⟨⟨at240, 0#32, 0#32⟩, 0#32, 0#32, 0#32⟩

/-- At 240 MHz a target of 230 MHz is announced as such, and the clock stays at 240 MHz. -/
theorem announced_not_reached :
    ¬ Announced board240 (magusSetTarget .listed board240 ⟨50000#32, 240000#32, 50000#32⟩ 230000#32 0#32) ∧
      ¬ Announced board240 (magusSetTarget .other board240 ⟨50000#32, 240000#32, 50000#32⟩ 230000#32 0#32) := by
  constructor
  · intro h
    exact absurd (h (by decide)) (by decide)
  · intro h
    exact absurd (h (by decide)) (by decide)

end Emlinux.Scrm
