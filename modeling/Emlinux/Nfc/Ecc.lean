import Emlinux.Lib.Field

/-!
# The ECC results of a page read

The interrupt routine packs what the status register and the count registers of the controller say about the sub-pages of a page into an
event, and `sslnfc_cmd` unpacks the event into the statistics that the MTD layer looks at. An uncorrectable sub-page gets lost on the way,
and of a count of eight the mask leaves nothing.

* `nfcIsr`, `sslnfcCmd`: the two layers.
* `Reported`: what the statistics should say.
* `reported_iff`: the register values for which they do.
-/

namespace Emlinux.Nfc

open Lib

abbrev Word := BitVec 32

/-- `NFC_ISR_ERR`. -/
def isrErr : Word := 0x80#32

/-- `NFC_ISR_ECCERR`. -/
def isrEccerr : Word := 0x10#32

/-- `NFC_ISR_CMP`. -/
def isrCmp : Word := 1#32

/-- `NFC_EVT_ECC`. -/
def evtEcc : Word := 0x80000000#32

/-- `NFC_EVT_ERR`. -/
def evtErr : Word := 2#32

/-- `NFC_EVT_CMP`. -/
def evtCmp : Word := 0#32

/-- `NFC_EVT_ECC_CORRECTED`. -/
def evtEccCorrected : Word := 4#32

/-- `NFC_ECC_MODE_TECC4`. -/
def tecc4 : BitVec 8 := 2#8

/-- `NFC_ECC_MODE_TECC8`. -/
def tecc8 : BitVec 8 := 3#8

/-- The ECC mode and the page size that `sslnfc_cfg` chooses by the sizes of a page and of its spare area. -/
def sslnfcCfg (writesize oobsize : Nat) : Option (BitVec 8 × BitVec 8) :=
  if writesize = 2048 then some (tecc4, 2#8)
  else if writesize = 4096 then
    if oobsize = 128 then some (tecc4, 3#8) else some (tecc8, 3#8)
  else none

/-- A configured controller and its registers when the interrupt comes. -/
structure Hw where
  eccmode : BitVec 8
  pgsz : BitVec 8
  isr : Word
  tecc4r : Word
  tecc8r : Word
  cfg : ∃ writesize oobsize, sslnfcCfg writesize oobsize = some (eccmode, pgsz)

/-- `fix` and `err`: the loop over the status fields. -/
def eccScan : Nat → Word → Nat × Nat → Nat × Nat
  | 0, _, acc => acc
  | n + 1, ecc, (fix, err) =>
    if ecc = 0#32 then (fix, err)
    else
      let acc := match (ecc &&& 3#32).toNat with
        | 1 => (fix + 1, err)
        | 2 => (fix, err + 1)
        | 3 => (fix, err + 1)
        | _ => (fix, err)
      eccScan n (ecc >>> 2) acc

/-- The loop over the counts in 8-bit mode. -/
def maxLoop8 : Nat → Word → Word → Word
  | 0, _, maxErrcnt => maxErrcnt
  | n + 1, errcnt, maxErrcnt =>
    let maxErrcnt := if errcnt &&& 0x07#32 > maxErrcnt then errcnt &&& 0x07#32 else maxErrcnt
    maxLoop8 n (errcnt >>> 4) maxErrcnt

/-- The loop over the counts in 4-bit mode, which looks at the status fields too. -/
def maxLoop4 : Nat → Word → Word → Word → Word
  | 0, _, _, maxErrcnt => maxErrcnt
  | n + 1, ecc, errcnt, maxErrcnt =>
    let maxErrcnt :=
      if ecc &&& 0x3#32 ≠ 0#32 then
        if errcnt &&& 0x03#32 > maxErrcnt then errcnt &&& 0x03#32 else maxErrcnt
      else maxErrcnt
    maxLoop4 n (ecc >>> 2) (errcnt >>> 4) maxErrcnt

/-- `max_errcnt` behind the loops. -/
def maxErrcnt (t : Hw) : Word :=
  if t.eccmode = tecc8 then maxLoop8 8 t.tecc8r 0#32
  else
    let loop := if t.pgsz = 3#8 then 8 else 4
    maxLoop4 loop (t.isr >>> 8) t.tecc4r 0#32 + 1#32

/-- `fix` for the event: the corrected sub-pages, the mark and the largest count. Of the twelve fields from bit 8 on `err` is counted and
not used. -/
def fixOf (t : Hw) : Word :=
  let fix := BitVec.ofNat 32 (eccScan 12 (t.isr >>> 8) (0, 0)).1
  if fix ≠ 0#32 then
    let fix := fix <<< 8
    let fix := fix ||| evtEccCorrected
    fix ||| maxErrcnt t <<< 16
  else fix

/-- What `nfc_isr` writes back to the status register, and the event. -/
structure Served where
  clear : Word
  evt : Word
deriving DecidableEq

/-- `nfc_isr`; `none` when it returns 0. -/
def nfcIsr (t : Hw) : Option Served :=
  let st := t.isr
  if st &&& (isrErr ||| isrCmp) = 0#32 then none
  else
    let clear := st &&& 0xff#32
    if st &&& isrErr ≠ 0#32 then some ⟨clear, evtErr⟩
    else if st &&& isrEccerr ≠ 0#32 then some ⟨clear, evtEcc⟩
    else if st &&& isrCmp ≠ 0#32 then some ⟨clear, evtCmp ||| fixOf t⟩
    else some ⟨clear, st⟩

/-- The fields of `mtd_info` that a read looks at or sets. -/
structure Mtd where
  writesize : Word
  corrected : Word
  failed : Word
deriving DecidableEq

/-- `ssl_t`. -/
structure Ssl where
  status : Word
  wptr : Word
  rptr : Word
deriving DecidableEq

/-- The two commands that read a page. -/
inductive ReadCmd where
  | read0
  | readoob
deriving DecidableEq, Repr

def sslnfcEvent (s : Ssl) (e : Word) : Ssl := { s with status := e }

/-- The statistics after a page read that ended with the event `status`. -/
def Mtd.settle (mtd : Mtd) (status : Word) : Mtd :=
  if status &&& evtEccCorrected ≠ 0#32 then { mtd with corrected := (status >>> 16) &&& 0x07#32 }
  else { mtd with corrected := 0#32 }

/-- `sslnfc_cmd` for a page read; `none` while it waits. -/
def sslnfcCmd (mtd : Mtd) (s : Ssl) (command : ReadCmd) (column : Word) (hw : Hw) : Option (Mtd × Ssl) :=
  let s := { s with wptr := 0#32, rptr := 0#32, status := 0#32 }
  match nfcIsr hw with
  | none => none
  | some served =>
    let s := sslnfcEvent s served.evt
    some (mtd.settle s.status, { s with rptr := match command with
      | .readoob => mtd.writesize + column
      | .read0 => column })

/-! ## What the registers say -/

namespace Hw

variable (t : Hw)

/-- The sub-pages of 512 bytes. -/
def subPages : Nat := if t.pgsz = 3#8 then 8 else 4

/-- The status of sub-page `i`: 1 for corrected, 2 and 3 for uncorrectable. -/
def status (i : Nat) : Nat := field t.isr (8 + 2 * i) 2

/-- The bits that were corrected in sub-page `i`; the 4-bit register has one less. -/
def count (i : Nat) : Nat := if t.eccmode = tecc8 then field t.tecc8r (4 * i) 4 else field t.tecc4r (4 * i) 2 + 1

def Uncorrectable : Prop := t.isr &&& isrEccerr ≠ 0#32 ∨ ∃ i < t.subPages, 2 ≤ t.status i

/-- The largest count of a corrected sub-page, 0 when there is none. -/
def worst : Nat := ((Finset.range t.subPages).filter fun i => t.status i = 1).sup t.count

/-- Some status field, of the page or beyond it, says corrected. -/
def AnyField : Prop := ∃ i < 12, t.status i = 1

instance : Decidable t.AnyField := inferInstanceAs (Decidable (∃ i < 12, t.status i = 1))

/-- The condition in 8-bit mode: the counts keep what they say without their highest bit, and no other sub-page has a larger one. -/
def Faithful8 : Prop :=
  (∀ i < t.subPages, t.status i = 1 → t.count i < 8) ∧
    ∀ i < t.subPages, t.count i % 8 = 0 ∨ ∃ j < t.subPages, t.status j = 1 ∧ t.count i % 8 ≤ t.count j

/-- The condition on the registers. -/
def Faithful : Prop :=
  ¬ t.Uncorrectable ∧
    if t.isr &&& isrErr ≠ 0#32 then ∀ i < t.subPages, t.status i = 1 → t.count i = 0
    else if t.eccmode = tecc8 then t.AnyField → t.Faithful8
    else t.AnyField → ∃ i < t.subPages, t.status i = 1

end Hw

/-- What the statistics should say after a read. -/
def Reported (t : Hw) (mtd mtd' : Mtd) : Prop :=
  (t.Uncorrectable → mtd.failed < mtd'.failed) ∧ (¬ t.Uncorrectable → mtd'.corrected.toNat = t.worst)

/-! ## The loops -/

/-- How many fields say corrected, and whether any does. -/
theorem eccScan_fix (n : Nat) : ∀ (ecc : Word) (fix err : Nat),
    (fix < (eccScan n ecc (fix, err)).1 ↔ ∃ i < n, field ecc (2 * i) 2 = 1) ∧ fix ≤ (eccScan n ecc (fix, err)).1 ∧
      (eccScan n ecc (fix, err)).1 ≤ fix + n := by
  induction n with
  | zero =>
    intro ecc fix err
    refine ⟨?_, le_rfl, le_rfl⟩
    simp [eccScan]
  | succ n ih =>
    intro ecc fix err
    have hlow : (ecc &&& 3#32).toNat = field ecc 0 2 := toNat_and_low ecc 2 (by decide)
    have hlt := field_lt ecc 0 2
    have hsplit : (∃ i < n + 1, field ecc (2 * i) 2 = 1) ↔ field ecc 0 2 = 1 ∨ ∃ i < n, field (ecc >>> 2) (2 * i) 2 = 1 := by
      rw [Nat.exists_lt_succ_left]
      simp only [field_shr, Nat.mul_zero, Nat.mul_add, Nat.mul_one, Nat.add_comm 2]
    unfold eccScan
    by_cases hz : ecc = 0#32
    · rw [if_pos hz, hz]
      simp
    rw [if_neg hz, hlow, hsplit]
    interval_cases hf : field ecc 0 2
    · obtain ⟨h1, h2, h3⟩ := ih (ecc >>> 2) fix err
      refine ⟨?_, h2, h3.trans (Nat.add_le_add_left (Nat.le_succ n) fix)⟩
      simpa using h1
    · obtain ⟨-, h2, h3⟩ := ih (ecc >>> 2) (fix + 1) err
      exact ⟨iff_of_true h2 (Or.inl rfl), (Nat.le_succ fix).trans h2, h3.trans (Nat.le_of_eq (Nat.add_right_comm fix 1 n))⟩
    · obtain ⟨h1, h2, h3⟩ := ih (ecc >>> 2) fix (err + 1)
      refine ⟨?_, h2, h3.trans (Nat.add_le_add_left (Nat.le_succ n) fix)⟩
      simpa using h1
    · obtain ⟨h1, h2, h3⟩ := ih (ecc >>> 2) fix (err + 1)
      refine ⟨?_, h2, h3.trans (Nat.add_le_add_left (Nat.le_succ n) fix)⟩
      simpa using h1

theorem maxLoop8_le (n b : Nat) : ∀ (errcnt m : Word),
    (maxLoop8 n errcnt m).toNat ≤ b ↔ m.toNat ≤ b ∧ ∀ i < n, field errcnt (4 * i) 3 ≤ b := by
  induction n with
  | zero =>
    intro errcnt m
    simp [maxLoop8]
  | succ n ih =>
    intro errcnt m
    have hlow : (errcnt &&& 0x07#32).toNat = field errcnt 0 3 := toNat_and_low errcnt 3 (by decide)
    have hshift : ∀ i, field (errcnt >>> 4) (4 * i) 3 = field errcnt (4 * (i + 1)) 3 := fun i => by
      rw [field_shr, Nat.mul_add, Nat.add_comm]
    have hmax : (if errcnt &&& 0x07#32 > m then errcnt &&& 0x07#32 else m).toNat ≤ b ↔ m.toNat ≤ b ∧ field errcnt 0 3 ≤ b := by
      rw [← hlow]
      split_ifs with hgt
      · rw [gt_iff_lt, BitVec.lt_def] at hgt
        omega
      · rw [gt_iff_lt, BitVec.lt_def] at hgt
        omega
    unfold maxLoop8
    dsimp only
    rw [ih, hmax, Nat.forall_lt_succ_left, and_assoc]
    simp only [hshift, Nat.mul_zero]

theorem maxLoop4_le (n b : Nat) : ∀ (ecc errcnt m : Word), (maxLoop4 n ecc errcnt m).toNat ≤ b ↔
    m.toNat ≤ b ∧ ∀ i < n, field ecc (2 * i) 2 ≠ 0 → field errcnt (4 * i) 2 ≤ b := by
  induction n with
  | zero =>
    intro ecc errcnt m
    simp [maxLoop4]
  | succ n ih =>
    intro ecc errcnt m
    have hlow : (errcnt &&& 0x03#32).toNat = field errcnt 0 2 := toNat_and_low errcnt 2 (by decide)
    have hstat : ecc &&& 0x3#32 ≠ 0#32 ↔ field ecc 0 2 ≠ 0 := by
      have hval : (ecc &&& 0x3#32).toNat = field ecc 0 2 := toNat_and_low ecc 2 (by decide)
      rw [← hval, ne_eq, ne_eq, ← BitVec.toNat_inj]
      rfl
    have hshift : ∀ i, field (errcnt >>> 4) (4 * i) 2 = field errcnt (4 * (i + 1)) 2 := fun i => by
      rw [field_shr, Nat.mul_add, Nat.add_comm]
    have hshift' : ∀ i, field (ecc >>> 2) (2 * i) 2 = field ecc (2 * (i + 1)) 2 := fun i => by
      rw [field_shr, Nat.mul_add, Nat.add_comm]
    have hmax : (if ecc &&& 0x3#32 ≠ 0#32 then if errcnt &&& 0x03#32 > m then errcnt &&& 0x03#32 else m else m).toNat ≤ b ↔
        m.toNat ≤ b ∧ (field ecc 0 2 ≠ 0 → field errcnt 0 2 ≤ b) := by
      rw [← hlow]
      by_cases hs : ecc &&& 0x3#32 ≠ 0#32
      · rw [if_pos hs]
        simp only [hstat.mp hs, ne_eq, not_false_eq_true, true_implies]
        split_ifs with hgt
        · rw [gt_iff_lt, BitVec.lt_def] at hgt
          omega
        · rw [gt_iff_lt, BitVec.lt_def] at hgt
          omega
      · rw [if_neg hs]
        have hz := mt hstat.mpr hs
        simp [hz]
    unfold maxLoop4
    dsimp only
    rw [ih, hmax, Nat.forall_lt_succ_left, and_assoc]
    simp only [hshift, hshift', Nat.mul_zero]

/-! ## The statistics -/

namespace Hw

variable {t : Hw}

theorem anyField_iff : t.AnyField ↔ ∃ i < 12, field (t.isr >>> 8) (2 * i) 2 = 1 := by
  unfold AnyField status
  simp only [field_shr]

theorem worst_le_iff {b : Nat} : t.worst ≤ b ↔ ∀ i < t.subPages, t.status i = 1 → t.count i ≤ b := by
  unfold worst
  rw [Finset.sup_le_iff]
  simp only [Finset.mem_filter, Finset.mem_range, and_imp]

theorem count_le_worst {i : Nat} (hi : i < t.subPages) (hs : t.status i = 1) : t.count i ≤ t.worst := worst_le_iff.mp le_rfl i hi hs

/-- Without a corrected sub-page there is no worst one. -/
theorem worst_uncorrected (h : ¬ ∃ i < t.subPages, t.status i = 1) : t.worst = 0 := by
  apply Nat.eq_zero_of_le_zero
  rw [worst_le_iff]
  exact fun i hi hs => absurd ⟨i, hi, hs⟩ h

theorem subPages_le : t.subPages ≤ 12 := by
  unfold subPages
  split <;> decide

/-- A page with 8-bit ECC has eight sub-pages. -/
theorem subPages_tecc8 (h : t.eccmode = tecc8) : t.subPages = 8 := by
  obtain ⟨writesize, oobsize, hcfg⟩ := t.cfg
  have hne : tecc8 ≠ tecc4 := by decide
  unfold sslnfcCfg at hcfg
  rw [h] at hcfg
  unfold subPages
  split_ifs at hcfg with h1 h2 h3
  · exact absurd (congrArg Prod.fst (Option.some.inj hcfg)).symm hne
  · exact absurd (congrArg Prod.fst (Option.some.inj hcfg)).symm hne
  · rw [if_pos (congrArg Prod.snd (Option.some.inj hcfg)).symm]

theorem maxErrcnt_tecc8 (h : t.eccmode = tecc8) (b : Nat) : (maxErrcnt t).toNat ≤ b ↔ ∀ i < t.subPages, t.count i % 8 ≤ b := by
  have hmod : ∀ i, t.count i % 8 = field t.tecc8r (4 * i) 3 := fun i => by
    unfold count
    rw [if_pos h, field_eq, field_eq]
    omega
  unfold maxErrcnt
  rw [if_pos h, maxLoop8_le, subPages_tecc8 h]
  simp only [hmod, BitVec.toNat_zero, Nat.zero_le, true_and]

theorem maxErrcnt_tecc4 (h : t.eccmode ≠ tecc8) : ∃ m, (maxErrcnt t).toNat = m + 1 ∧ m ≤ 3 ∧
    ∀ b, m ≤ b ↔ ∀ i < t.subPages, t.status i ≠ 0 → t.count i ≤ b + 1 := by
  have hle : ∀ b, (maxLoop4 t.subPages (t.isr >>> 8) t.tecc4r 0#32).toNat ≤ b ↔
      ∀ i < t.subPages, t.status i ≠ 0 → t.count i ≤ b + 1 := fun b => by
    rw [maxLoop4_le]
    unfold status count
    simp only [field_shr, if_neg h, BitVec.toNat_zero, Nat.zero_le, true_and, Nat.add_le_add_iff_right]
  have h3 : (maxLoop4 t.subPages (t.isr >>> 8) t.tecc4r 0#32).toNat ≤ 3 := by
    rw [maxLoop4_le]
    exact ⟨by decide, fun i _ _ => Nat.le_of_lt_succ (field_lt _ _ _)⟩
  refine ⟨_, ?_, h3, hle⟩
  unfold maxErrcnt
  rw [if_neg h, BitVec.toNat_add]
  exact Nat.mod_eq_of_lt (show (maxLoop4 t.subPages (t.isr >>> 8) t.tecc4r 0#32).toNat + 1 < 2 ^ 32 by omega)

theorem maxErrcnt_lt (t : Hw) : (maxErrcnt t).toNat < 8 := by
  by_cases h : t.eccmode = tecc8
  · exact Nat.lt_succ_of_le ((maxErrcnt_tecc8 h 7).mpr fun i _ => by omega)
  · obtain ⟨m, hm, hm3, -⟩ := maxErrcnt_tecc4 h
    omega

/-- The event without a corrected field. -/
theorem fixOf_none (h : ¬ t.AnyField) : fixOf t = 0#32 := by
  obtain ⟨h1, -, -⟩ := eccScan_fix 12 (t.isr >>> 8) 0 0
  have hz : (eccScan 12 (t.isr >>> 8) (0, 0)).1 = 0 := Nat.eq_zero_of_not_pos (mt h1.mp (mt anyField_iff.mpr h))
  unfold fixOf
  rw [hz]
  rfl

/-- The event with one: the mark, and the largest count in its field. -/
theorem fixOf_some (h : t.AnyField) :
    fixOf t &&& evtEccCorrected ≠ 0#32 ∧ ((fixOf t >>> 16) &&& 0x07#32).toNat = (maxErrcnt t).toNat := by
  obtain ⟨h1, -, h3⟩ := eccScan_fix 12 (t.isr >>> 8) 0 0
  have hpos := h1.mpr (anyField_iff.mp h)
  have hmax := maxErrcnt_lt t
  have hval : (BitVec.ofNat 32 (eccScan 12 (t.isr >>> 8) (0, 0)).1).toNat = (eccScan 12 (t.isr >>> 8) (0, 0)).1 := by
    rw [BitVec.toNat_ofNat, Nat.mod_eq_of_lt (by omega)]
  have hne : BitVec.ofNat 32 (eccScan 12 (t.isr >>> 8) (0, 0)).1 ≠ 0#32 := by
    rw [ne_eq, ← BitVec.toNat_inj, hval]
    exact Nat.ne_of_gt hpos
  have heq : fixOf t = BitVec.ofNat 32 (eccScan 12 (t.isr >>> 8) (0, 0)).1 <<< 8 ||| evtEccCorrected ||| maxErrcnt t <<< 16 := by
    unfold fixOf
    rw [if_pos hne]
  constructor
  · intro hz
    have hbit := congrArg (fun w : Word => w.getLsbD 2) hz
    rw [heq] at hbit
    simp [evtEccCorrected] at hbit
  · have hread : ((fixOf t >>> 16) &&& 0x07#32).toNat = field (fixOf t) 16 3 := toNat_shr_and_mask _ 16 3 (by decide)
    rw [hread, heq, field_or, field_or, field_shl_above (m := 8) (by rw [hval]; omega) (by decide),
      field_above (by decide), field_shl hmax (by decide), Nat.zero_or, Nat.zero_or]

end Hw

/-- The count that the statistics show after a read. -/
def shown (t : Hw) : Nat :=
  if t.isr &&& isrErr ≠ 0#32 ∨ t.isr &&& isrEccerr ≠ 0#32 then 0
  else if t.AnyField then (maxErrcnt t).toNat
  else 0

/-- An interrupt that says neither error nor completion ends no command. -/
theorem served_cases {t : Hw} {served : Served} (h : nfcIsr t = some served) :
    t.isr &&& isrErr ≠ 0#32 ∧ served.evt = evtErr ∨
      t.isr &&& isrErr = 0#32 ∧ t.isr &&& isrEccerr ≠ 0#32 ∧ served.evt = evtEcc ∨
      t.isr &&& isrErr = 0#32 ∧ t.isr &&& isrEccerr = 0#32 ∧ served.evt = fixOf t := by
  unfold nfcIsr at h
  dsimp only at h
  split_ifs at h with h1 h2 h3 h4
  · cases h
    exact Or.inl ⟨h2, rfl⟩
  · cases h
    exact Or.inr (Or.inl ⟨not_not.mp h2, h3, rfl⟩)
  · cases h
    refine Or.inr (Or.inr ⟨not_not.mp h2, not_not.mp h3, ?_⟩)
    exact BitVec.zero_or
  · rw [BitVec.and_or_distrib_left, not_not.mp h2, not_not.mp h4] at h1
    exact absurd rfl h1

/-- After a read the corrected count is what is shown, and the failures are as before. -/
theorem sslnfcCmd_shown {mtd mtd' : Mtd} {s s' : Ssl} {command : ReadCmd} {column : Word} {t : Hw}
    (h : sslnfcCmd mtd s command column t = some (mtd', s')) : mtd'.failed = mtd.failed ∧ mtd'.corrected.toNat = shown t := by
  unfold sslnfcCmd at h
  cases hi : nfcIsr t with
  | none =>
    rw [hi] at h
    cases h
  | some served =>
    rw [hi] at h
    have hm : mtd.settle served.evt = mtd' := congrArg Prod.fst (Option.some.inj h)
    unfold Mtd.settle at hm
    have hshown : shown t = if t.isr &&& isrErr ≠ 0#32 ∨ t.isr &&& isrEccerr ≠ 0#32 then 0
        else if t.AnyField then (maxErrcnt t).toNat else 0 := rfl
    rcases served_cases hi with ⟨herr, he⟩ | ⟨-, hecc, he⟩ | ⟨herr, hecc, he⟩
    · rw [he, if_neg (show ¬ evtErr &&& evtEccCorrected ≠ 0#32 by decide)] at hm
      rw [← hm, hshown, if_pos (Or.inl herr)]
      exact ⟨rfl, rfl⟩
    · rw [he, if_neg (show ¬ evtEcc &&& evtEccCorrected ≠ 0#32 by decide)] at hm
      rw [← hm, hshown, if_pos (Or.inr hecc)]
      exact ⟨rfl, rfl⟩
    · have hno : ¬ (t.isr &&& isrErr ≠ 0#32 ∨ t.isr &&& isrEccerr ≠ 0#32) := by
        rw [herr, hecc]
        simp
      rw [hshown, if_neg hno]
      by_cases hany : t.AnyField
      · obtain ⟨hmark, hcount⟩ := Hw.fixOf_some hany
        rw [he, if_pos hmark] at hm
        rw [← hm, if_pos hany]
        exact ⟨rfl, hcount⟩
      · rw [he, Hw.fixOf_none hany, if_neg (show ¬ 0#32 &&& evtEccCorrected ≠ 0#32 by decide)] at hm
        rw [← hm, if_neg hany]
        exact ⟨rfl, rfl⟩

section Shown

variable {t : Hw}

/-- In 8-bit mode the largest count is read as it is when it keeps its value without the highest bit, and no other sub-page has more. -/
theorem maxErrcnt_eq_worst_tecc8 (h : t.eccmode = tecc8) : (maxErrcnt t).toNat = t.worst ↔ t.Faithful8 := by
  unfold Hw.Faithful8
  constructor
  · intro heq
    have hmax := Hw.maxErrcnt_lt t
    have hcount := (Hw.maxErrcnt_tecc8 h (maxErrcnt t).toNat).mp le_rfl
    rw [heq] at hmax hcount
    refine ⟨fun i hi hs => (Hw.count_le_worst hi hs).trans_lt hmax, fun i hi => ?_⟩
    by_contra hn
    rw [not_or] at hn
    -- all corrected sub-pages have less than this one
    have hlt : t.worst ≤ t.count i % 8 - 1 := by
      rw [Hw.worst_le_iff]
      intro j hj hs
      by_contra hj'
      exact hn.2 ⟨j, hj, hs, by omega⟩
    have hle := hcount i hi
    omega
  · rintro ⟨hlow, hother⟩
    apply Nat.le_antisymm
    · rw [Hw.maxErrcnt_tecc8 h]
      intro i hi
      rcases hother i hi with hz | ⟨j, hj, hs, hle⟩
      · omega
      · exact hle.trans (Hw.count_le_worst hj hs)
    · rw [Hw.worst_le_iff]
      intro i hi hs
      have hle := (Hw.maxErrcnt_tecc8 h _).mp le_rfl i hi
      rwa [Nat.mod_eq_of_lt (hlow i hi hs)] at hle

/-- In 4-bit mode it is right as soon as some sub-page of the page is corrected. -/
theorem maxErrcnt_eq_worst_tecc4 (h : t.eccmode ≠ tecc8) (hu : ∀ i < t.subPages, t.status i < 2) :
    (maxErrcnt t).toNat = t.worst ↔ ∃ i < t.subPages, t.status i = 1 := by
  obtain ⟨m, hm, -, hle⟩ := Hw.maxErrcnt_tecc4 h
  rw [hm]
  constructor
  · intro heq
    by_contra hn
    have hz := Hw.worst_uncorrected hn
    omega
  · rintro ⟨i, hi, hs⟩
    have hstep : ∀ b, m ≤ b ↔ t.worst ≤ b + 1 := fun b => by
      rw [hle, Hw.worst_le_iff]
      constructor
      · exact fun hall j hj hs => hall j hj (by omega)
      · intro hall j hj hs
        have hlt := hu j hj
        exact hall j hj (by omega)
    have hpos : 0 < t.worst := by
      have hcount : 0 < t.count i := by
        unfold Hw.count
        rw [if_neg h]
        exact Nat.succ_pos _
      exact Nat.lt_of_lt_of_le hcount (Hw.count_le_worst hi hs)
    have h1 := (hstep m).mp le_rfl
    have h2 := (hstep (t.worst - 1)).mpr (by omega)
    omega

/-- Without a field that says corrected there is no corrected sub-page. -/
theorem worst_none (h : ¬ t.AnyField) : t.worst = 0 :=
  Hw.worst_uncorrected fun ⟨i, hi, hs⟩ => h ⟨i, Nat.lt_of_lt_of_le hi Hw.subPages_le, hs⟩

end Shown

/-- The statistics after a page read say what the registers said exactly when these meet the condition. -/
theorem reported_iff (mtd mtd' : Mtd) (s s' : Ssl) (command : ReadCmd) (column : Word) (t : Hw)
    (h : sslnfcCmd mtd s command column t = some (mtd', s')) : Reported t mtd mtd' ↔ t.Faithful := by
  obtain ⟨hfailed, hshown⟩ := sslnfcCmd_shown h
  unfold Reported Hw.Faithful
  rw [hfailed, hshown]
  by_cases hu : t.Uncorrectable
  · exact iff_of_false (fun hr => BitVec.lt_irrefl _ (hr.1 hu)) fun hf => hf.1 hu
  have hecc : ¬ t.isr &&& isrEccerr ≠ 0#32 := fun he => hu (Or.inl he)
  have hstat : ∀ i < t.subPages, t.status i < 2 := fun i hi => by
    by_contra hn
    exact hu (Or.inr ⟨i, hi, Nat.not_lt.mp hn⟩)
  simp only [hu, not_false_eq_true, true_implies, false_implies, true_and]
  unfold shown
  by_cases herr : t.isr &&& isrErr ≠ 0#32
  · rw [if_pos (Or.inl herr), if_pos herr, eq_comm, ← Nat.le_zero, Hw.worst_le_iff]
    simp only [Nat.le_zero]
  rw [if_neg (not_or.mpr ⟨herr, hecc⟩), if_neg herr]
  by_cases hany : t.AnyField
  · rw [if_pos hany]
    simp only [hany, true_implies]
    by_cases hmode : t.eccmode = tecc8
    · rw [if_pos hmode, maxErrcnt_eq_worst_tecc8 hmode]
    · rw [if_neg hmode, maxErrcnt_eq_worst_tecc4 hmode hstat]
  · rw [if_neg hany, worst_none hany]
    split_ifs
    · exact iff_of_true rfl fun hf => absurd hf hany
    · exact iff_of_true rfl fun hf => absurd hf hany

/-- A page with 8-bit ECC, read with these registers. -/
def page8 (isr tecc8r : Word) : Hw := ⟨tecc8, 3#8, isr, 0#32, tecc8r, 4096, 218, by decide⟩

/-- Three bits in the second sub-page. -/
theorem reported_iff_three : Reported (page8 0x401#32 0x30#32) ⟨4096#32, 0#32, 0#32⟩ ⟨4096#32, 3#32, 0#32⟩ :=
  (reported_iff _ _ ⟨0#32, 0#32, 0#32⟩ ⟨0x30104#32, 0#32, 0#32⟩ .read0 0#32 (page8 0x401#32 0x30#32) (by decide)).mpr (by
    refine ⟨?_, ?_⟩
    · rintro (h | h)
      · exact absurd h (by decide)
      · exact absurd h (by decide)
    · rw [if_neg (by decide), if_pos (show (page8 0x401#32 0x30#32).eccmode = tecc8 from rfl)]
      exact fun _ => ⟨by decide, by decide⟩)

/-- A sub-page with eight corrected bits is shown as one without, and an uncorrectable one too. -/
theorem eight_bits_lost :
    ((sslnfcCmd ⟨4096#32, 0#32, 0#32⟩ ⟨0#32, 0#32, 0#32⟩ .read0 0#32 (page8 0x101#32 0x8#32)).map Prod.fst = some ⟨4096#32, 0#32, 0#32⟩ ∧
      ¬ Reported (page8 0x101#32 0x8#32) ⟨4096#32, 0#32, 0#32⟩ ⟨4096#32, 0#32, 0#32⟩) ∧
    ((sslnfcCmd ⟨4096#32, 0#32, 0#32⟩ ⟨0#32, 0#32, 0#32⟩ .read0 0#32 (page8 0x201#32 0#32)).map Prod.fst = some ⟨4096#32, 0#32, 0#32⟩ ∧
      ¬ Reported (page8 0x201#32 0#32) ⟨4096#32, 0#32, 0#32⟩ ⟨4096#32, 0#32, 0#32⟩) := by
  refine ⟨⟨by decide, fun h => ?_⟩, by decide, fun h => ?_⟩
  · have hu : ¬ (page8 0x101#32 0x8#32).Uncorrectable := by
      unfold Hw.Uncorrectable
      decide
    exact absurd (h.2 hu) (by decide)
  · exact absurd (h.1 (Or.inr ⟨0, by decide, by decide⟩)) (by decide)

end Emlinux.Nfc
