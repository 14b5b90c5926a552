import Emlinux.Nftl.Runs

/-!
# Overrunning the DataLog tables

The merges at the head of a write merge DataLog blocks of logical blocks that have a Data block, and give up when
there is none. After a page of 128 logical blocks was written, each for the first time, `dl_blocktab` is full and
nothing can be merged: the write to one more logical block goes behind the array.
-/

namespace Emlinux.Nftl

open Lib

/-- No program and no erase operation fails. -/
structure Device.Flawless (d : Device) : Prop where
  prog : ∀ t, d.progFail t = false
  erase : ∀ t, d.eraseFail t = false

variable {d : Device} {n : Nand} {own : Own} {map : Nat → Nat} {ml L : List Log} {s : St} {k : Nat}

theorem Device.Flawless.not_excused (h : d.Flawless) (e : Event) : ¬ e.Excused d False := by
  cases e with
  | progFail b p =>
    rintro ⟨t, ht⟩
    simp [h.prog t] at ht
  | eraseFail b =>
    rintro ⟨t, ht⟩
    simp [h.erase t] at ht
  | noFree left => exact fun hx => hx.1
  | program | erase | tables => exact id

theorem Event.Lawful.ok {e : Event} (h : e.Lawful) : e.ok = true := by
  cases e with
  | progFail | eraseFail | noFree => exact absurd h id
  | program | erase | tables => rfl

theorem Step.ok {l : List Event} {s' : St} (h : Step d s l s') : l.all Event.ok = true :=
  List.all_eq_true.mpr fun e he => (h.lawful e he).ok

/-! ## Writing the first page of each logical block -/

/-- A chip without failures and corrections, whose blocks outnumber the entries of `dl_blocktab`. -/
structure Device.Ample (d : Device) : Prop where
  fits : d.Fits
  flawless : d.Flawless
  noEcc : d.NoEcc
  pgs : 2 ≤ d.pgs
  one : d.mtBlkcnt = 1
  blks : 257 ≤ d.blks

/-- The first `k` logical blocks have a DataLog block with one page each; no logical block has a Data block. -/
structure Piled (d : Device) (k : Nat) (own : Own) (map : Nat → Nat) (ml L : List Log) (s : St) : Prop where
  ftl : Ftl d (fun _ => false) own map ml L s
  unmapped : ∀ j, map j = noBlock
  count : L.length = k
  single : ∀ lg ∈ L, lg.key < k ∧ lg.seq.length = 1
  calm : Calm d s
  free : d.blks ≤ k + s.al.freeBlkcnt + 1

theorem Piled.budget (h : Piled d k own map ml L s) (ha : d.Ample) (hk : k ≤ 128) :
    Solvent d False 129 (fun _ => false) map L s.al := by
  refine Or.inr ⟨rfl, ⟨ha.pgs, ha.one, ha.blks, fun j _ hj => absurd (h.unmapped j) hj, fun lg hlg => ?_, ?_⟩,
    Or.inr fun lg _ => h.unmapped lg.key⟩
  · have := (h.single lg hlg).1
    omega
  · have : mappedLogs map L = [] := by
      rw [mappedLogs, List.filter_eq_nil_iff]
      intro lg _
      simp [h.unmapped lg.key]
    simp [this]

/-- The merges at the head of the write find nothing to merge. -/
theorem sat_pileHead (ha : d.Ample) (h : Piled d k own map ml L s) (hk : k ≤ 128) :
    Sat (contract d False) (mergeHead d) s (fun r s' => r = .next () ∧ ∃ own' map' ml', Piled d k own' map' ml' L s') := by
  refine (sat_mergeHead ha.fits h.ftl (Or.inr fun lg _ => h.unmapped lg.key) (Or.inr h.calm) (h.budget ha hk)).mono ?_
  rintro r s' ⟨rfl, -, own', map', ml', L', hred, hblk, -, hst, -⟩
  have hL : L' = L := by
    refine hred.sub.eq_of_length ?_
    have := congrArg List.length hblk
    rwa [survivors_unmapped, List.length_map, List.length_map] at this
    intro b _
    exact (isMapped_false_iff _ _).mpr (h.unmapped b.key)
  obtain ⟨hcalm, hal⟩ := hst hL h.calm
  subst hL
  exact ⟨rfl, own', map', ml', hred.ftl, fun j => (hred.mapped j).mpr (h.unmapped j), h.count, h.single, hcalm,
    by rw [hal]; exact h.free⟩

/-- The write of page 0 of logical block `k` opens another DataLog block. -/
theorem sat_pile (dat : PageData) (ha : d.Ample) (h : Piled d k own map ml L s) (hk : k < 128) :
    Sat (contract d False) (nftlWriteLogicpage d (k * d.pgs) dat) s (fun r s' => r = 0 ∧
      ∃ own' map' ml' L', Piled d (k + 1) own' map' ml' L' s') := by
  have h128 : dlMaxBlocks = 128 := rfl
  have h20 : miniFreeBlock = 20 := rfl
  have hlba : k * d.pgs / d.pgs = k := Nat.mul_div_cancel _ d.pgs_pos
  have hblks := ha.blks
  refine Sat.bind (sat_pileHead ha h (by omega)) ?_
  rintro _ s₁ ⟨rfl, own₁, map₁, ml₁, h₁⟩
  have hfree := h₁.free
  have hkey : ∀ x ∈ L, x.key ≠ k * d.pgs / d.pgs := fun x hx => by
    have := (h₁.single x hx).1
    omega
  have hflat : (flat L).length ≤ L.length * 1 := length_flat_le fun x hx => (h₁.single x hx).2.le
  have hcount := h₁.count
  refine Sat.bind ((sat_writeTarget_new ha.fits h₁.ftl hkey (Or.inr (by omega))).with_inv (fun _ _ _ hst => calm_step hst) h₁.calm) ?_
  rintro _ _ ⟨⟨b, hb, rfl, rfl⟩, hc₂⟩
  have htake := h₁.ftl.core.alloc.pool.free_take hb
  refine Sat.bind ((sat_appendDl dat h₁.ftl hb hkey (by omega) (by omega)
    (show _ < 4096 by omega)).with_inv (fun _ _ _ hst => calm_step hst) hc₂) ?_
  rintro _ s₃ ⟨⟨rfl, hal₃, hst₃⟩, hc₃⟩
  rw [if_pos rfl]
  refine Sat.bind (Q := fun r s' => r = 0 ∧ s' = s₃) ?_ ?_
  · refine Sat.get_bind (Sat.lift_bind (LogTab.blockAt_ok (show L.length < dlMaxBlocks by omega)) ?_)
    have hused : (s₃.dl.blocktab L.length).used ≠ d.pgs := by
      rw [Rep.block_mid (c := dlCap) (show Rep dlCap s₃.dl (L ++ _ :: []) from hst₃.ftl.rep)]
      show 1 ≠ d.pgs
      have := ha.pgs
      omega
    rw [if_neg hused]
    exact Sat.pure ⟨rfl, rfl⟩
  rintro _ _ ⟨rfl, rfl⟩
  rw [if_neg (by decide)]
  refine Sat.get_bind ?_
  rw [if_neg (by rw [hal₃]; omega)]
  refine Sat.pure ⟨rfl, _, _, _, _, hst₃.ftl, h₁.unmapped, by simp [hcount], fun x hx => ?_, hc₃, by rw [hal₃]; omega⟩
  rcases List.mem_append.mp hx with hx | hx
  · have := h₁.single x hx
    exact ⟨by omega, this.2⟩
  · rw [List.mem_singleton.mp hx]
    exact ⟨show k * d.pgs / d.pgs < _ by omega, rfl⟩

theorem append_full {c : LogCap} {t : LogTab} (h : Rep c t L) (hfull : L.length = c.maxBlocks) (key page pba : Nat) :
    t.append c key page pba = .error (.bounds c.blockArr c.maxBlocks) := by
  rw [LogTab.append, LogTab.setBlock, if_neg (by rw [h.blkcnt]; omega), h.blkcnt, hfull]
  rfl

/-- Block `b` was taken from the pool, and is in none of the tables. -/
structure Stranded (d : Device) (own : Own) (map : Nat → Nat) (ml L : List Log) (b : Nat) (s : St) : Prop where
  core : Core d own map ml s
  logs : Logs d .dl DlTag own s.nand.flash L
  rep : Rep dlCap s.dl L
  data : DataInv d own map s.nand.flash
  lt : b < d.blks
  temp : own b = .temp

/-- The block of a write that was programmed, but has not reached the tables yet. -/
theorem Ftl.stranded (h : Ftl d bd own map ml L s) {b : Nat} (hb : s.al.blockstatus b = true) {p : Nat} {pg : Page} {s' : St}
    (hr : Reflash { s with al := s.al.take b } (setPage s.nand.flash b p pg) s') :
    Stranded d (Function.update own b .temp) map ml L b s' := by
  have hpool := h.core.alloc.pool.own_free hb
  have hdl : s'.dl = s.dl := hr.dl
  have hfl : ∀ x, x ≠ b → s'.nand.flash x = s.nand.flash x := fun x hx => by rw [hr.flash, setPage_block_ne _ _ _ hx]
  have hother : ∀ r : Role, r ≠ .pool → r ≠ .temp → ∀ x, Function.update own b .temp x = r ↔ own x = r := by
    intro r h1 h2 x
    by_cases hx : x = b
    · subst hx; simp [hpool, h1.symm, h2.symm]
    · rw [Function.update_of_ne hx]
  have hne : ∀ x r, r ≠ .pool → own x = r → x ≠ b := fun x r hr hx e => hr (by rw [← hx, e, hpool])
  refine ⟨(h.core.take hb).keeps hr.al hr.mt ?_ ?_, ?_, by rw [hdl]; exact h.rep, ?_, h.core.alloc.pool.free_lt b hb, by simp⟩
  · rw [hr.mt, hdl]
    exact h.core.tab
  · exact Keeps.content (b := b) (by simp [Role.user]) hfl
  · exact h.logs.congr (fun x k => hother _ (by simp) (by simp) x) fun x k hx => hfl x (hne x _ (by simp) hx)
  · exact h.data.congr (fun x k => hother _ (by simp) (by simp) x) fun x k hx => hfl x (hne x _ (by simp) hx)

/-- When the table is full, the write goes behind it: its block is taken, and stays outside the tables. -/
theorem fails_pile (dat : PageData) (ha : d.Ample) (h : Piled d 128 own map ml L s) :
    FailsWith (contract d False) (nftlWriteLogicpage d (128 * d.pgs) dat) s dlOverrun
      (fun s' => ∃ own' map' ml' b, Stranded d own' map' ml' L b s') := by
  have hlba : 128 * d.pgs / d.pgs = 128 := Nat.mul_div_cancel _ d.pgs_pos
  have hblks := ha.blks
  refine FailsWith.after (sat_pileHead ha h (le_refl _)) ?_
  rintro _ s₁ ⟨rfl, own₁, map₁, ml₁, h₁⟩
  have hfree := h₁.free
  have hkey : ∀ x ∈ L, x.key ≠ 128 * d.pgs / d.pgs := fun x hx => by
    have := (h₁.single x hx).1
    omega
  refine FailsWith.after (sat_writeTarget_new ha.fits h₁.ftl hkey (Or.inr (by omega))) ?_
  rintro _ _ ⟨b, hb, rfl, rfl⟩
  refine FailsWith.bind (FailsWith.after (sat_writeDlPage (h₁.ftl.core.alloc.pool.free_lt b hb) d.pgs_pos
    fun q _ hq => h₁.ftl.core.alloc.pool.erased b hb q hq) ?_)
  rintro tb s₂ ⟨rfl, h₂⟩
  refine FailsWith.after (Q := fun c s' => c = 0 ∧ s' = s₂) (Sat.pure ⟨rfl, rfl⟩) ?_
  rintro _ _ ⟨rfl, rfl⟩
  rw [if_neg (by decide)]
  exact FailsWith.bind (FailsWith.get_bind (FailsWith.bind (FailsWith.lift (append_full (c := dlCap)
    (by rw [h₂.dl]; exact h₁.ftl.rep) h₁.count _ _ _) ⟨_, _, _, _, h₁.ftl.stranded hb h₂⟩)))

/-! ## The run -/

/-- Page 0 of `m` logical blocks from `k` on, each written once. -/
def pile (d : Device) (dat : PageData) (k m : Nat) : List StoreOp :=
  (List.range' k m).map fun j => .write (j * d.pgs) dat

/-- The operation succeeds: it returns 0, no program or erase operation fails, and free blocks are found. -/
def StoreOp.Succeeds (d : Device) (s : St) (op : StoreOp) : Prop :=
  (∃ x, (op.run d s).res = .ok (0, x)) ∧ (op.run d s).log.all Event.ok = true

theorem Piled.run (dat : PageData) (ha : d.Ample) (m : Nat) (h : Piled d k own map ml L s) (hm : k + m ≤ 128) :
    Along (StoreOp.run d) (StoreOp.Succeeds d) (pile d dat k m) s ∧
      ∃ own' map' ml' L', Piled d (k + m) own' map' ml' L' (after (StoreOp.run d) (pile d dat k m) s) := by
  induction m generalizing k own map ml L s with
  | zero => exact ⟨trivial, _, _, _, _, h⟩
  | succ m ih =>
    have hsat : Sat (contract d False) ((StoreOp.write (k * d.pgs) dat).run d) s (fun r s' => r = (0, none) ∧
        ∃ own' map' ml' L', Piled d (k + 1) own' map' ml' L' s') := by
      refine Sat.bind (sat_pile dat ha h (by omega)) ?_
      rintro _ s' ⟨rfl, h'⟩
      exact Sat.pure ⟨rfl, h'⟩
    obtain ⟨r, hres, hst, rfl, own', map', ml', L', h'⟩ := hsat.of_clean_step fun e _ => ha.flawless.not_excused e
    obtain ⟨hal, hend⟩ := ih h' (by omega)
    rw [show k + 1 + m = k + (m + 1) by omega] at hend
    exact ⟨⟨⟨⟨none, hres⟩, Step.ok hst⟩, hal⟩, hend⟩

/-- An erased chip without bad blocks is formatted. -/
theorem Device.Ample.formatted (ha : d.Ample) (hsize : 500 ≤ storagesize d 0)
    (he : ∀ b p, b < d.blks → p < d.pgs → n.flash b p = none) (hbad : n.bad = fun _ => false) (hecc : n.ecc ≤ eccErrLimit) :
    Formatted d n ∧ ∃ own map ml L, Piled d 0 own map ml L (formatted d n) := by
  have hcnt : badCount n.bad d.blks = 0 := by simp [badCount, hbad]
  have hfree : (freshAlloc d n.bad).freeBlkcnt = d.blks := by
    simp only [freshAlloc, freeCount, hbad, Bool.not_false, Bool.and_true, decide_eq_true_eq]
    rw [Finset.filter_true_of_mem fun b hb => Finset.mem_range.mp hb, Finset.card_range]
  have hone := ha.one
  have hblks := ha.blks
  obtain ⟨r, hres, hst, rfl, own, h, hclean⟩ := (sat_format (E := False) ha.fits he (by rw [hcnt]; exact hsize)
    (Or.inr (by rw [hfree]; omega))).of_clean_step fun e _ => ha.flawless.not_excused e
  refine ⟨⟨he, hres, Step.ok hst⟩, own, _, _, _, hbad ▸ h, fun _ => rfl, rfl, by simp, calm_step hst ⟨ha.noEcc, hecc⟩, ?_⟩
  have h1 := (hbad ▸ h : Ftl d (fun _ => false) own _ [] [] (Nftl.formatted d n)).pool_ge (U := 0) (by simp) (by simp)
  have h2 : (Nftl.formatted d n).al.poolSize = (Nftl.formatted d n).al.freeBlkcnt := by
    have hc : (Nftl.formatted d n).al.Clean := hclean
    simp [Alloc.poolSize, hc.1, hc.2.2]
  simp only [mappedLogs, List.filter_nil, List.length_nil] at h1
  omega

/-- On every ample chip, 128 first writes fill `dl_blocktab`, and the next one goes behind it; its block is lost. -/
theorem pile_overruns (dat : PageData) (ha : d.Ample) (hsize : 500 ≤ storagesize d 0)
    (he : ∀ b p, b < d.blks → p < d.pgs → n.flash b p = none) (hbad : n.bad = fun _ => false) (hecc : n.ecc ≤ eccErrLimit) :
    Formatted d n ∧ Along (StoreOp.run d) (StoreOp.Succeeds d) (pile d dat 0 128) (formatted d n) ∧
      ∃ s, s = after (StoreOp.run d) (pile d dat 0 128) (formatted d n) ∧
        ((StoreOp.write (128 * d.pgs) dat).run d s).res = .error dlOverrun ∧
        ((StoreOp.write (128 * d.pgs) dat).run d s).log.all Event.ok = true ∧
        ∃ own map ml L b, Stranded d own map ml L b ((StoreOp.write (128 * d.pgs) dat).run d s).st := by
  obtain ⟨hform, own, map, ml, L, h⟩ := ha.formatted hsize he hbad hecc
  obtain ⟨hal, own', map', ml', L', h'⟩ := h.run dat ha 128 (le_refl _)
  rw [Nat.zero_add] at h'
  have hfail : FailsWith (contract d False) ((StoreOp.write (128 * d.pgs) dat).run d) _ dlOverrun _ :=
    FailsWith.bind (fails_pile dat ha h')
  obtain ⟨hres, hst, own₂, map₂, ml₂, b, hlost⟩ := hfail.of_clean_step fun e _ => ha.flawless.not_excused e
  exact ⟨hform, hal, _, rfl, hres, Step.ok hst, own₂, map₂, ml₂, L', b, hlost⟩

/-- 300 blocks of two pages, without failures and corrections. -/
def tallChip : Device where
  writesize := 512
  pgs := 2
  blks := 300
  pgs_pos := Nat.zero_lt_two
  pgs_le := pgs_le_two
  blks_pos := blks_pos_300
  blks_le := blks_le_300
  ws_ge := ws_ge_512
  ws_le := ws_le_512
  ws_even := ws_even_512
  progFail _ := false
  torn _ := none
  eraseFail _ := false
  corrected _ := 0
  junk _ _ := 0
  junkInfo _ := 0

theorem tallChip_ample : tallChip.Ample where
  fits := ⟨by decide, by decide⟩
  flawless := ⟨fun _ => rfl, fun _ => rfl⟩
  noEcc _ := Nat.zero_le _
  pgs := by decide
  one := by decide
  blks := by decide

end Emlinux.Nftl
