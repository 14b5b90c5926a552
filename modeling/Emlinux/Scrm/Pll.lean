import Emlinux.Scrm.Clock

/-!
# The dividers of the PLL

`magus_compute_pllr` looks for a reference divider from 2 to 6 with which the feedback divider is exact and even. When there is none the
loop ends with 7, and when the first candidate is exact it is taken without a look at whether it is even.

* `Fits`: the reference divider is one that the search is for.
* `Outcome`: what is found.
* `realised_iff`: the frequencies that the register value realises.
-/

namespace Emlinux.Scrm

open Lib

/-- `f_out * refdiv_new * opdiv_new`. -/
def product (fOut opdiv : BitVec 32) (refdiv : Nat) : BitVec 32 := fOut * BitVec.ofNat 32 refdiv * opdiv

/-- `fbdiv_new` for a reference divider. -/
def feedback (fOut fIn opdiv : BitVec 32) (refdiv : Nat) : Int := (product fOut opdiv refdiv / fIn).toInt

/-- The loops over `refdiv_new`, with `n` values left. -/
def search (inRange : Int → Bool) (fOut fIn opdiv : BitVec 32) : Nat → Nat → Int → Nat × Int
  | 0, refdiv, fbdiv => (refdiv, fbdiv)
  | n + 1, refdiv, _ =>
    let fbdiv := feedback fOut fIn opdiv refdiv
    if inRange fbdiv ∧ ¬(product fOut opdiv refdiv % fIn ≠ 0#32 ∨ fbdiv.tmod 2 ≠ 0) then (refdiv, fbdiv)
    else search inRange fOut fIn opdiv n (refdiv + 1) fbdiv

/-- `opdiv_new`, which is not set for a frequency out of the limits. -/
def opdivNew (junk fOut : BitVec 32) : BitVec 32 :=
  if 50000000#32 ≤ fOut ∧ fOut < 100000000#32 then 3#32
  else if 100000000#32 ≤ fOut ∧ fOut < 200000000#32 then 2#32
  else if 200000000#32 ≤ fOut ∧ fOut ≤ 400000000#32 then 1#32
  else junk

/-- `refdiv_new` and `fbdiv_new` behind the three searches. -/
def dividers (fOut fIn opdiv : BitVec 32) : Nat × Int :=
  let fbdiv := feedback fOut fIn opdiv 2
  if fbdiv < 52 then search (fun q => 52 ≤ q) fOut fIn opdiv 5 2 fbdiv
  else if fbdiv > 400 then
    -- `for(refdiv_new=6; refdiv_new <=2; refdiv_new--)` does not run once
    (6, fbdiv)
  else if product fOut opdiv 2 % fIn ≠ 0#32 then search (fun q => 52 ≤ q ∧ q ≤ 400) fOut fIn opdiv 5 2 fbdiv
  else (2, fbdiv)

/-- `magus_compute_pllr` with the current register value: the new one, and the frequency that is returned. -/
def magusComputePllr (curPllr fOut fIn junk : BitVec 32) : BitVec 32 × BitVec 32 :=
  let opdiv := opdivNew junk fOut
  let (refdiv, fbdiv) := dividers fOut fIn opdiv
  let fbdiv := fbdiv.tdiv 2
  let pllr := curPllr &&& ~~~(0xff#32 <<< 24)
  let pllr := pllr ||| BitVec.ofInt 32 fbdiv <<< 24
  let pllr := pllr &&& ~~~(0x3#32 <<< 16)
  let pllr := pllr ||| opdiv <<< 16
  let pllr := pllr &&& ~~~(0x1f#32 <<< 8)
  let pllr := pllr ||| BitVec.ofNat 32 refdiv <<< 8
  (pllr, scrmDecodePll pllr fIn)

/-! ## What it promises -/

/-- Bit `i` is of one of the three divider fields. -/
def InDivider (i : Nat) : Prop := 8 ≤ i ∧ i < 13 ∨ 16 ≤ i ∧ i < 18 ∨ 24 ≤ i ∧ i < 32

/-- The register value and the returned frequency, for a request of `fOut`. -/
structure Realised (curPllr fOut opdiv : BitVec 32) (res : BitVec 32 × BitVec 32) : Prop where
  exact : (∃ r m, 2 ≤ r ∧ r ≤ 6 ∧ fOut.toNat * r * opdiv.toNat = m * xtalIn.toNat ∧ Even m ∧ 52 ≤ m ∧ m ≤ 400) →
    scrmDecodePll res.1 xtalIn = fOut
  fbdiv : 26 ≤ (pllrFbdiv res.1).toNat ∧ (pllrFbdiv res.1).toNat ≤ 200
  refdiv : 2 ≤ (pllrRefdiv res.1).toNat ∧ (pllrRefdiv res.1).toNat ≤ 6
  others : ∀ i < 32, ¬ InDivider i → res.1.getLsbD i = curPllr.getLsbD i
  freq : res.2 = scrmDecodePll res.1 xtalIn

/-- With the reference divider `r` the feedback divider is exact, even and not too small. -/
def Fits (f op r : Nat) : Prop := 24000000 ∣ f * r * op ∧ 624000000 ≤ f * r * op

instance (f op r : Nat) : Decidable (Fits f op r) := inferInstanceAs (Decidable (_ ∧ _))

/-- The first candidate is an exact, odd feedback divider in range. -/
def OddFirst (f op : Nat) : Prop := f * 2 * op % 24000000 = 12000000 ∧ 624000000 ≤ f * 2 * op

/-- The condition on the frequency: some reference divider fits, and no odd feedback divider comes first. -/
def Found (f op : Nat) : Prop := (∃ r, 2 ≤ r ∧ r ≤ 6 ∧ Fits f op r) ∧ ¬ OddFirst f op

instance (f op : Nat) : Decidable (OddFirst f op) := inferInstanceAs (Decidable (_ ∧ _))

/-! ## The search -/

/-- A request within the limits. -/
structure Within (fOut opdiv : BitVec 32) : Prop where
  pos : 1 ≤ opdiv.toNat
  le : opdiv.toNat ≤ 3
  low : 150000000 ≤ fOut.toNat * opdiv.toNat
  high : fOut.toNat * opdiv.toNat ≤ 400000000

section Search

variable {fOut opdiv : BitVec 32}

theorem within_opdivNew (junk : BitVec 32) (hl : 50000000#32 ≤ fOut) (hu : fOut ≤ 400000000#32) : Within fOut (opdivNew junk fOut) := by
  have hl' : 50000000 ≤ fOut.toNat := hl
  have hu' : fOut.toNat ≤ 400000000 := hu
  unfold opdivNew
  simp only [BitVec.le_def, BitVec.lt_def]
  split_ifs with h1 h2 h3
  · have hlt : fOut.toNat < 100000000 := h1.2
    exact ⟨by decide, by decide, show 150000000 ≤ fOut.toNat * 3 by omega, show fOut.toNat * 3 ≤ 400000000 by omega⟩
  · have hge : 100000000 ≤ fOut.toNat := h2.1
    have hlt : fOut.toNat < 200000000 := h2.2
    exact ⟨by decide, by decide, show 150000000 ≤ fOut.toNat * 2 by omega, show fOut.toNat * 2 ≤ 400000000 by omega⟩
  · have hge : 200000000 ≤ fOut.toNat := h3.1
    exact ⟨by decide, by decide, show 150000000 ≤ fOut.toNat * 1 by omega, show fOut.toNat * 1 ≤ 400000000 by omega⟩
  · have e1 : (50000000#32).toNat = 50000000 := rfl
    have e2 : (100000000#32).toNat = 100000000 := rfl
    have e3 : (200000000#32).toNat = 200000000 := rfl
    have e4 : (400000000#32).toNat = 400000000 := rfl
    omega

variable (h : Within fOut opdiv) {r : Nat} (hr : r ≤ 7)

include h hr

theorem Within.toNat_product : (product fOut opdiv r).toNat = fOut.toNat * r * opdiv.toNat := by
  have hle : fOut.toNat * opdiv.toNat * r ≤ 400000000 * 7 := Nat.mul_le_mul h.high hr
  have hr' : (BitVec.ofNat 32 r).toNat = r := by rw [BitVec.toNat_ofNat, Nat.mod_eq_of_lt (by omega)]
  have hfull : fOut.toNat * r * opdiv.toNat < 2 ^ 32 := by
    rw [Nat.mul_right_comm]
    omega
  have hpart : fOut.toNat * r < 2 ^ 32 := (Nat.le_mul_of_pos_right _ h.pos).trans_lt hfull
  unfold product
  rw [BitVec.toNat_mul, BitVec.toNat_mul, hr', Nat.mod_eq_of_lt hpart, Nat.mod_eq_of_lt hfull]

theorem Within.feedback_eq : feedback fOut xtalIn opdiv r = (fOut.toNat * r * opdiv.toNat / 12000000 : Nat) := by
  have hle : fOut.toNat * opdiv.toNat * r ≤ 400000000 * 7 := Nat.mul_le_mul h.high hr
  have hq : (product fOut opdiv r / xtalIn).toNat = fOut.toNat * r * opdiv.toNat / 12000000 := by
    rw [BitVec.toNat_udiv, h.toNat_product hr]
    rfl
  unfold feedback
  rw [BitVec.toInt_eq_toNat_of_lt (by rw [hq, Nat.mul_right_comm]; omega), hq]

/-- The test in the loops. -/
theorem Within.test_iff {inRange : Int → Bool} (hin : ∀ q : Nat, q ≤ 233 → (inRange q = true ↔ 52 ≤ q)) :
    (inRange (feedback fOut xtalIn opdiv r) = true ∧
      ¬(product fOut opdiv r % xtalIn ≠ 0#32 ∨ (feedback fOut xtalIn opdiv r).tmod 2 ≠ 0)) ↔ Fits fOut.toNat opdiv.toNat r := by
  have hle : fOut.toNat * opdiv.toNat * r ≤ 400000000 * 7 := Nat.mul_le_mul h.high hr
  rw [Nat.mul_right_comm] at hle
  have hmod : product fOut opdiv r % xtalIn = 0#32 ↔ fOut.toNat * r * opdiv.toNat % 12000000 = 0 := by
    rw [← BitVec.toNat_inj, BitVec.toNat_umod, h.toNat_product hr]
    rfl
  rw [h.feedback_eq hr, hin _ (by omega), ne_eq, hmod, Int.tmod_eq_emod_of_nonneg (Int.natCast_nonneg _)]
  unfold Fits
  omega

omit hr

/-- The loop ends at the first divider that fits, or behind the last one with the feedback divider of that. -/
theorem Within.search_spec {inRange : Int → Bool} (hin : ∀ q : Nat, q ≤ 233 → (inRange q = true ↔ 52 ≤ q)) (n : Nat) :
    ∀ (r : Nat) (fb : Int), r + n = 7 → 0 < n →
      ((∃ k, r ≤ k ∧ k < 7 ∧ Fits fOut.toNat opdiv.toNat k) →
        ∃ k, r ≤ k ∧ k < 7 ∧ Fits fOut.toNat opdiv.toNat k ∧
          search inRange fOut xtalIn opdiv n r fb = (k, feedback fOut xtalIn opdiv k)) ∧
      (¬(∃ k, r ≤ k ∧ k < 7 ∧ Fits fOut.toNat opdiv.toNat k) →
        search inRange fOut xtalIn opdiv n r fb = (7, feedback fOut xtalIn opdiv 6)) := by
  induction n with
  | zero => exact fun r fb _ hn => absurd hn (Nat.lt_irrefl 0)
  | succ n ih =>
    intro r fb hrn _
    have ht := h.test_iff (r := r) (by omega) hin
    unfold search
    dsimp only
    by_cases hf : Fits fOut.toNat opdiv.toNat r
    · rw [if_pos (ht.mpr hf)]
      exact ⟨fun _ => ⟨r, le_rfl, by omega, hf, rfl⟩, fun hn => absurd ⟨r, le_rfl, by omega, hf⟩ hn⟩
    · rw [if_neg (mt ht.mp hf)]
      rcases Nat.eq_zero_or_pos n with rfl | hn
      · obtain rfl : r = 6 := by omega
        refine ⟨?_, fun _ => rfl⟩
        rintro ⟨k, hk, hk7, hfk⟩
        obtain rfl : k = 6 := by omega
        exact absurd hfk hf
      · obtain ⟨h1, h2⟩ := ih (r + 1) (feedback fOut xtalIn opdiv r) (by omega) hn
        constructor
        · rintro ⟨k, hk, hk7, hfk⟩
          have hne : k ≠ r := by
            rintro rfl
            exact hf hfk
          obtain ⟨k', hk', hrest⟩ := h1 ⟨k, by omega, hk7, hfk⟩
          exact ⟨k', by omega, hrest⟩
        · intro hnone
          refine h2 ?_
          rintro ⟨k, hk, hrest⟩
          exact hnone ⟨k, by omega, hrest⟩

/-- What the searches find: a divider that fits; or, with none, 7; or the first candidate, exact and odd. -/
inductive Outcome (f op : Nat) : Nat × Int → Prop
  | fits (r : Nat) : 2 ≤ r → r ≤ 6 → Fits f op r → ¬ OddFirst f op → Outcome f op (r, (f * r * op / 12000000 : Nat))
  | none : (∀ r, 2 ≤ r → r ≤ 6 → ¬ Fits f op r) → Outcome f op (7, (f * 6 * op / 12000000 : Nat))
  | odd : OddFirst f op → Outcome f op (2, (f * 2 * op / 12000000 : Nat))

theorem Within.search_outcome {inRange : Int → Bool} (hin : ∀ q : Nat, q ≤ 233 → (inRange q = true ↔ 52 ≤ q))
    (hno : ¬ OddFirst fOut.toNat opdiv.toNat) (fb : Int) :
    Outcome fOut.toNat opdiv.toNat (search inRange fOut xtalIn opdiv 5 2 fb) := by
  obtain ⟨h1, h2⟩ := h.search_spec hin 5 2 fb rfl (by decide)
  by_cases hex : ∃ k, 2 ≤ k ∧ k < 7 ∧ Fits fOut.toNat opdiv.toNat k
  · obtain ⟨k, hk, hk7, hf, heq⟩ := h1 hex
    rw [heq, h.feedback_eq (by omega)]
    exact .fits k hk (by omega) hf hno
  · rw [h2 hex, h.feedback_eq (by decide)]
    exact .none fun r hr hr6 hf => hex ⟨r, hr, by omega, hf⟩

theorem Within.dividers_outcome : Outcome fOut.toNat opdiv.toNat (dividers fOut xtalIn opdiv) := by
  have hfb := h.feedback_eq (r := 2) (by decide)
  have hmod : product fOut opdiv 2 % xtalIn = 0#32 ↔ fOut.toNat * 2 * opdiv.toNat % 12000000 = 0 := by
    rw [← BitVec.toNat_inj, BitVec.toNat_umod, h.toNat_product (by decide)]
    rfl
  have hhigh := h.high
  unfold dividers
  dsimp only
  split_ifs with h1 h2 h3
  · refine h.search_outcome (fun q _ => by simp) ?_ _
    rintro ⟨-, hge⟩
    rw [hfb] at h1
    omega
  · rw [hfb, Nat.mul_right_comm] at h2
    omega
  · refine h.search_outcome (fun q hq => by simp; omega) ?_ _
    rintro ⟨hodd, -⟩
    rw [ne_eq, hmod] at h3
    omega
  · rw [not_not, hmod] at h3
    rw [hfb] at h1 ⊢
    by_cases hodd : OddFirst fOut.toNat opdiv.toNat
    · exact .odd hodd
    · refine .fits 2 le_rfl (by decide) ?_ hodd
      unfold OddFirst at hodd
      exact ⟨by omega, by omega⟩

end Search

/-! ## The register value -/

/-- The register value, field by field. -/
theorem magusComputePllr_eq {curPllr fOut junk : BitVec 32} {r q : Nat} (hd : dividers fOut xtalIn (opdivNew junk fOut) = (r, (q : Int)))
    (ho : (opdivNew junk fOut).toNat < 4) (hr : r < 32) (hq : q / 2 < 256) :
    (magusComputePllr curPllr fOut xtalIn junk).1 =
      setField (setField (setField curPllr 24 8 (BitVec.ofNat 32 (q / 2))) 16 2 (opdivNew junk fOut)) 8 5 (BitVec.ofNat 32 r) := by
  have hfb : BitVec.ofInt 32 ((q : Int).tdiv 2) = BitVec.ofNat 32 (q / 2) := by
    rw [show (q : Int).tdiv 2 = ((q / 2 : Nat) : Int) from rfl, BitVec.ofInt_natCast]
  unfold magusComputePllr
  dsimp only
  rw [hd]
  dsimp only
  rw [hfb, setField_of_lt _ _ 8 (by rw [BitVec.toNat_ofNat, Nat.mod_eq_of_lt (by omega)]; exact hr) (by decide),
    setField_of_lt _ _ 16 ho (by decide),
    setField_of_lt _ _ 24 (by rw [BitVec.toNat_ofNat, Nat.mod_eq_of_lt (by omega)]; exact hq) (by decide)]
  rfl

/-- What a register value decodes to, when the product does not wrap. -/
theorem toNat_scrmDecodePll (p : BitVec 32) (h : 12000000 / field p 8 5 * (2 * field p 24 8) < 2 ^ 32) :
    (scrmDecodePll p xtalIn).toNat = 12000000 / field p 8 5 * (2 * field p 24 8) / field p 16 2 := by
  have hfb := field_lt p 24 8
  have hmul : (2#32 * pllrFbdiv p).toNat = 2 * field p 24 8 := by
    rw [BitVec.toNat_mul, toNat_pllrFbdiv]
    exact Nat.mod_eq_of_lt (show 2 * field p 24 8 < 2 ^ 32 by omega)
  unfold scrmDecodePll
  dsimp only
  rw [BitVec.toNat_udiv, BitVec.toNat_mul, BitVec.toNat_udiv, hmul, toNat_pllrRefdiv, toNat_pllrOpdiv, Nat.mod_eq_of_lt]
  · rfl
  · exact h

/-- The dividers that `magus_compute_pllr` chose. -/
structure Chosen (curPllr fOut opdiv : BitVec 32) (r q : Nat) (pllr : BitVec 32) : Prop where
  refdiv : field pllr 8 5 = r
  opdiv : field pllr 16 2 = opdiv.toNat
  fbdiv : field pllr 24 8 = q / 2
  others : ∀ i < 32, ¬ InDivider i → pllr.getLsbD i = curPllr.getLsbD i

theorem chosen_setField (curPllr fOut opdiv : BitVec 32) {r q : Nat} (ho : opdiv.toNat < 4) (hr : r < 32) (hq : q / 2 < 256) :
    Chosen curPllr fOut opdiv r q
      (setField (setField (setField curPllr 24 8 (BitVec.ofNat 32 (q / 2))) 16 2 opdiv) 8 5 (BitVec.ofNat 32 r)) where
  refdiv := by
    rw [field_setField _ _ (by decide), BitVec.toNat_ofNat]
    omega
  opdiv := by
    rw [field_setField_of_disjoint _ _ (by decide) (by decide), field_setField _ _ (by decide)]
    exact Nat.mod_eq_of_lt ho
  fbdiv := by
    rw [field_setField_of_disjoint _ _ (by decide) (by decide), field_setField_of_disjoint _ _ (by decide) (by decide),
      field_setField _ _ (by decide), BitVec.toNat_ofNat]
    omega
  others := by
    intro i hi hn
    unfold InDivider at hn
    rw [getLsbD_setField _ _ _ _ hi, if_neg (by omega), getLsbD_setField _ _ _ _ hi, if_neg (by omega), getLsbD_setField _ _ _ _ hi,
      if_neg (by omega)]

/-- A divider that fits realises the frequency. -/
theorem Chosen.decode_fits {curPllr fOut opdiv pllr : BitVec 32} {r : Nat} (hw : Within fOut opdiv) (h2 : 2 ≤ r) (h6 : r ≤ 6)
    (hf : Fits fOut.toNat opdiv.toNat r) (h : Chosen curPllr fOut opdiv r (fOut.toNat * r * opdiv.toNat / 12000000) pllr) :
    scrmDecodePll pllr xtalIn = fOut := by
  obtain ⟨c, hc⟩ := hf.1
  have hpos := hw.pos
  have heven : 2 * (fOut.toNat * r * opdiv.toNat / 12000000 / 2) = 2 * c := by omega
  have href : 12000000 / r * r = 12000000 := by interval_cases r <;> rfl
  have hmul : 12000000 / r * (2 * c) = fOut.toNat * opdiv.toNat := by
    have hscaled : 12000000 / r * (2 * c) * r = fOut.toNat * opdiv.toNat * r := by
      calc 12000000 / r * (2 * c) * r = 12000000 / r * r * (2 * c) := by ring
        _ = 24000000 * c := by rw [href]; ring
        _ = fOut.toNat * opdiv.toNat * r := by rw [← hc]; ring
    exact Nat.eq_of_mul_eq_mul_right (by omega) hscaled
  have hhigh := hw.high
  apply BitVec.eq_of_toNat_eq
  rw [toNat_scrmDecodePll _ (by rw [h.refdiv, h.fbdiv, heven, hmul]; omega), h.refdiv, h.fbdiv, h.opdiv, heven, hmul]
  exact Nat.mul_div_cancel _ hpos

/-- An odd first candidate, cut to an even one, does not. -/
theorem Chosen.decode_odd {curPllr fOut opdiv pllr : BitVec 32} (hw : Within fOut opdiv) (hodd : OddFirst fOut.toNat opdiv.toNat)
    (h : Chosen curPllr fOut opdiv 2 (fOut.toNat * 2 * opdiv.toNat / 12000000) pllr) : scrmDecodePll pllr xtalIn ≠ fOut := by
  obtain ⟨hmod, hge⟩ := hodd
  have hhigh := hw.high
  have hlow := hw.low
  have hcomm := Nat.mul_right_comm fOut.toNat 2 opdiv.toNat
  have hcut : 12000000 / 2 * (2 * (fOut.toNat * 2 * opdiv.toNat / 12000000 / 2)) + 6000000 = fOut.toNat * opdiv.toNat := by omega
  intro heq
  have hval := congrArg BitVec.toNat heq
  rw [toNat_scrmDecodePll _ (by rw [h.refdiv, h.fbdiv]; omega), h.refdiv, h.fbdiv, h.opdiv] at hval
  have hlt : 12000000 / 2 * (2 * (fOut.toNat * 2 * opdiv.toNat / 12000000 / 2)) / opdiv.toNat < fOut.toNat := by
    rw [Nat.div_lt_iff_lt_mul hw.pos]
    omega
  omega

section Choice

variable {fOut : BitVec 32} (hl : 50000000#32 ≤ fOut) (hu : fOut ≤ 400000000#32)

include hl hu

/-- The dividers are those of the search, and the feedback divider is in range. -/
theorem chosen_magusComputePllr (curPllr : BitVec 32) (junk : BitVec 32) :
    ∃ r q : Nat, Outcome fOut.toNat (opdivNew junk fOut).toNat (r, (q : Int)) ∧ 2 ≤ r ∧ r ≤ 7 ∧ 52 ≤ q ∧ q ≤ 200 ∧
      Chosen curPllr fOut (opdivNew junk fOut) r q (magusComputePllr curPllr fOut xtalIn junk).1 := by
  have hw := within_opdivNew junk hl hu
  have hlow := hw.low
  have hhigh := hw.high
  have hop := hw.le
  have hout := hw.dividers_outcome
  obtain ⟨r, q, hd, hr2, hr7, hq52, hq200⟩ : ∃ r q : Nat, dividers fOut xtalIn (opdivNew junk fOut) = (r, (q : Int)) ∧
      2 ≤ r ∧ r ≤ 7 ∧ 52 ≤ q ∧ q ≤ 200 := by
    generalize dividers fOut xtalIn (opdivNew junk fOut) = res at hout
    cases hout with
    | fits r h2 h6 hf hno =>
      have hmul : fOut.toNat * (opdivNew junk fOut).toNat * r ≤ 400000000 * 6 := Nat.mul_le_mul hhigh h6
      rw [Nat.mul_right_comm] at hmul
      have hge := hf.2
      exact ⟨r, fOut.toNat * r * (opdivNew junk fOut).toNat / 12000000, rfl, h2, by omega, by omega, by omega⟩
    | none hn =>
      have hcomm := Nat.mul_right_comm fOut.toNat 6 (opdivNew junk fOut).toNat
      exact ⟨7, fOut.toNat * 6 * (opdivNew junk fOut).toNat / 12000000, rfl, by decide, le_rfl, by omega, by omega⟩
    | odd hodd =>
      have hge := hodd.2
      have hcomm := Nat.mul_right_comm fOut.toNat 2 (opdivNew junk fOut).toNat
      exact ⟨2, fOut.toNat * 2 * (opdivNew junk fOut).toNat / 12000000, rfl, le_rfl, by decide, by omega, by omega⟩
  refine ⟨r, q, hd ▸ hout, hr2, hr7, hq52, hq200, ?_⟩
  rw [magusComputePllr_eq hd (by omega) (by omega) (by omega)]
  exact chosen_setField curPllr fOut _ (by omega) (by omega) (by omega)

/-- A divider that fits is found, and the new value decodes to the request. -/
theorem decode_of_found (curPllr : BitVec 32) (junk : BitVec 32) (h : Found fOut.toNat (opdivNew junk fOut).toNat) :
    scrmDecodePll (magusComputePllr curPllr fOut xtalIn junk).1 xtalIn = fOut := by
  obtain ⟨⟨k, hk2, hk6, hk⟩, hno⟩ := h
  obtain ⟨r, q, hout, -, -, -, -, hch⟩ := chosen_magusComputePllr hl hu curPllr junk
  cases hout with
  | fits r h2 h6 hf _ => exact hch.decode_fits (within_opdivNew junk hl hu) h2 h6 hf
  | none hn => exact absurd hk (hn k hk2 hk6)
  | odd hodd => exact absurd hodd hno

end Choice

/-- The new register value realises the frequency as promised exactly when some reference divider fits and no odd feedback divider comes
first. -/
theorem realised_iff (curPllr : Pllr) (junk fOut : BitVec 32) (hl : 50000000#32 ≤ fOut) (hu : fOut ≤ 400000000#32) :
    Realised curPllr.val fOut (opdivNew junk fOut) (magusComputePllr curPllr.val fOut xtalIn junk) ↔
      Found fOut.toNat (opdivNew junk fOut).toNat := by
  have hw := within_opdivNew junk hl hu
  obtain ⟨r, q, hout, hr2, hr7, hq52, hq200, hch⟩ := chosen_magusComputePllr hl hu curPllr.val junk
  constructor
  · intro h
    have href := h.refdiv.2
    rw [toNat_pllrRefdiv, hch.refdiv] at href
    cases hout with
    | fits r h2 h6 hf hno => exact ⟨⟨r, h2, h6, hf⟩, hno⟩
    | none hn => omega
    | odd hodd =>
      refine absurd (h.exact ⟨4, 2 * (fOut.toNat * 2 * (opdivNew junk fOut).toNat / 12000000), by decide, by decide, ?_, ?_, ?_, ?_⟩)
        (hch.decode_odd hw hodd)
      · have hmod := hodd.1
        have hx : xtalIn.toNat = 12000000 := rfl
        have hfour : fOut.toNat * 4 * (opdivNew junk fOut).toNat = 2 * (fOut.toNat * 2 * (opdivNew junk fOut).toNat) := by ring
        rw [hx, hfour]
        omega
      · exact ⟨_, two_mul _⟩
      · omega
      · omega
  · intro hfound
    have ⟨⟨k, hk2, hk6, hk⟩, hno⟩ := hfound
    refine ⟨fun _ => decode_of_found hl hu curPllr.val junk hfound, ?_, ?_, hch.others, rfl⟩
    · rw [toNat_pllrFbdiv, hch.fbdiv]
      omega
    · rw [toNat_pllrRefdiv, hch.refdiv]
      refine ⟨hr2, ?_⟩
      cases hout with
      | fits r h2 h6 hf _ => exact h6
      | none hn => exact absurd hk (hn k hk2 hk6)
      | odd hodd => decide

/-- 240 MHz. -/
theorem realised_iff_240 : Realised at240.val 240000000#32 (opdivNew 0#32 240000000#32) (magusComputePllr at240.val 240000000#32 xtalIn 0#32) :=
  (realised_iff at240 0#32 240000000#32 (by decide) (by decide)).mpr ⟨⟨3, by decide, by decide, by decide⟩, by decide⟩

/-- For 159 MHz the first candidate is 53, which is cut to 52: 156 MHz, and 106 with the reference divider 4 is exact. -/
theorem odd_feedback_taken : ¬ Realised at240.val 159000000#32 (opdivNew 0#32 159000000#32)
    (magusComputePllr at240.val 159000000#32 xtalIn 0#32) := by
  intro h
  have hexact := h.exact ⟨4, 106, by decide, by decide, by decide, by decide, by decide, by decide⟩
  exact absurd hexact (by decide)

end Emlinux.Scrm
