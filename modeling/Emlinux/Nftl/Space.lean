import Emlinux.Nftl.Overrun

/-!
# The advertised space

`NFTL_mount` advertises seven eighths of the blocks. On a chip of at least 1024 large blocks the rest covers the tables of
the map, the garbage and the blocks a write needs for its merges, as long as the DataLog tables have room and the free list
can supply the blocks a write takes before it records any garbage.
-/

namespace Emlinux.Nftl

open Lib

variable {d : Device} {n : Nand} {own : Own} {map : Nat → Nat} {ml L : List Log} {s : St} {lpa : Nat}

/-- A chip of at least 1024 blocks of 128 pages of 4096 bytes, without failures and corrections. -/
structure Device.Large (d : Device) : Prop where
  writesize : d.writesize = 4096
  pgs : d.pgs = 128
  blks : 1024 ≤ d.blks
  blks_lt : d.blks < 4096
  flawless : d.Flawless
  noEcc : d.NoEcc

theorem Device.Large.erasesize (h : d.Large) : d.erasesize = 524288 := by
  rw [Device.erasesize, h.pgs, h.writesize]

theorem Device.Large.one (h : d.Large) : d.mtBlkcnt = 1 := by
  have := h.blks_lt
  rw [Device.mtBlkcnt, h.erasesize, Nat.div_eq_of_lt (by omega)]

theorem Device.Large.ample (h : d.Large) : d.Ample where
  fits := ⟨h.blks_lt, by rw [h.one]; decide⟩
  flawless := h.flawless
  noEcc := h.noEcc
  pgs := by rw [h.pgs]; decide
  one := h.one
  blks := le_trans (by decide) h.blks

/-- The number of advertised logical blocks. -/
def Device.advertised (d : Device) : Nat := d.blks - d.blks / 8

theorem Device.Large.storagesize (h : d.Large) : storagesize d 0 = d.advertised * 524288 := by
  have h1 := h.blks_lt
  have h2 : (2 ^ 32 + d.blks - 0 % 2 ^ 32 - d.blks / 8) * 524288 = d.advertised * 524288 + 2 ^ 32 * 524288 := by
    unfold Device.advertised
    omega
  rw [Nftl.storagesize, h.erasesize, h2, Nat.add_mul_mod_self_left, Nat.mod_eq_of_lt]
  unfold Device.advertised
  omega

/-- A page below `g_storagesize / writesize` is one of an advertised logical block. -/
theorem Device.Large.lba_lt (h : d.Large) (hlpa : lpa < Nftl.storagesize d 0 / d.writesize) : lpa / d.pgs < d.advertised := by
  rw [h.storagesize, h.writesize, show 524288 = 128 * 4096 from rfl, ← Nat.mul_assoc,
    Nat.mul_div_cancel _ (by decide)] at hlpa
  rw [h.pgs]
  exact Nat.div_lt_of_lt_mul (by rwa [Nat.mul_comm] at hlpa)

/-! ## Runs of writes -/

/-- The operation writes an advertised page, the tables have room for it, and the blocks that it takes before it gives any
back are free. -/
def StoreOp.Fair (d : Device) (s : St) : StoreOp → Prop
  | .write lpa _ => lpa < storagesize d 0 / d.writesize ∧ HasRoom d (fun _ => false) s lpa ∧
      (miniFreeBlock ≤ s.al.freeBlkcnt ∨ ∀ own map ml L, Ftl d (fun _ => false) own map ml L s →
        need d (isMapped map) (L.map Log.block) (lpa / d.pgs) ≤ s.al.freeBlkcnt)
  | .read _ => False
  | .remount => False

/-- The write returns 0, and every request for a free block was met. -/
def StoreOp.Met (d : Device) (s : St) (op : StoreOp) : Prop :=
  (op.run d s).res = .ok (0, none) ∧ ∀ left, .noFree left ∉ (op.run d s).log

/-- A state between two writes to advertised pages. -/
structure Supplied (d : Device) (own : Own) (map : Nat → Nat) (ml L : List Log) (s : St) : Prop where
  ftl : Ftl d (fun _ => false) own map ml L s
  short : ∀ lg ∈ L, lg.seq.length < d.pgs
  calm : Calm d s
  solvent : Solvent d False d.advertised (fun _ => false) map L s.al

theorem Supplied.write (hd : d.Large) (h : Supplied d own map ml L s) {op : StoreOp} (hop : op.Fair d s) :
    op.Met d s ∧ ∃ own' map' ml' L', Supplied d own' map' ml' L' (op.run d s).st := by
  cases op with
  | read | remount => exact absurd hop id
  | write lpa dat =>
    obtain ⟨hlt, hroom, hfree⟩ := hop
    have hlba := hd.lba_lt hlt
    have hblks : lpa / d.pgs < d.blks := lt_of_lt_of_le hlba (Nat.sub_le _ _)
    have hneed := hfree.imp id fun hfree => hfree _ _ _ _ h.ftl
    have hsat : Sat (contract d False) ((StoreOp.write lpa dat).run d) s (fun r s' => r = (0, none) ∧
        ∃ own' map' ml' L', Ftl d (fun _ => false) own' map' ml' L' s' ∧ (∀ lg ∈ L', lg.seq.length < d.pgs) ∧
          Solvent d False d.advertised (fun _ => false) map' L' s'.al) := by
      refine Sat.bind (sat_nftlWriteLogicpage dat hd.ample.fits h.ftl h.short hblks (hroom _ _ _ _ h.ftl) (Or.inr h.calm)
        h.solvent (Or.inr hlba) (Or.inr hneed)) ?_
      rintro _ s' ⟨rfl, own', map', ml', L', hftl, hshort, hsolvent, -⟩
      exact Sat.pure ⟨rfl, own', map', ml', L', hftl, hshort, hsolvent⟩
    obtain ⟨r, hres, hst, rfl, own', map', ml', L', hftl, hshort, hsolvent⟩ :=
      hsat.of_clean_step fun e _ => hd.flawless.not_excused e
    exact ⟨⟨hres, fun left hmem => hst.lawful _ hmem⟩, own', map', ml', L', hftl, hshort, calm_step hst h.calm, hsolvent⟩

/-- The first mount of a large erased chip leaves all advertised pages to be written. -/
theorem Device.Large.formatted (hd : d.Large) (he : ∀ b p, b < d.blks → p < d.pgs → n.flash b p = none)
    (hbad : n.bad = fun _ => false) (hecc : n.ecc ≤ eccErrLimit) :
    ∃ own map ml, Supplied d own map ml [] (Nftl.formatted d n) ∧ d.blks ≤ (Nftl.formatted d n).al.freeBlkcnt + 1 := by
  have hblks := hd.blks
  have hsize : 500 ≤ Nftl.storagesize d 0 := by
    rw [hd.storagesize, Device.advertised]
    omega
  obtain ⟨-, own, map, ml, L, hp⟩ := hd.ample.formatted hsize he hbad hecc
  obtain rfl : L = [] := List.eq_nil_of_length_eq_zero hp.count
  have hroom : d.advertised + 128 ≤ d.blks := by
    rw [Device.advertised]
    omega
  have hbudget : Budget d d.advertised map [] :=
    ⟨hd.ample.pgs, hd.one, hroom, fun lba _ hm => absurd (hp.unmapped lba) hm, by simp, by simp [mappedLogs]⟩
  have hfree := hp.free
  exact ⟨own, map, ml, ⟨hp.ftl, by simp, hp.calm, Or.inr ⟨rfl, hbudget, Or.inr (by simp)⟩⟩, by omega⟩

/-- From the first mount on, every write to an advertised page returns 0 and finds its free blocks. -/
theorem space_suffices (hd : d.Large) (he : ∀ b p, b < d.blks → p < d.pgs → n.flash b p = none) (hbad : n.bad = fun _ => false)
    (hecc : n.ecc ≤ eccErrLimit) {ops : List StoreOp}
    (hal : Along (StoreOp.run d) (StoreOp.Fair d) ops (Nftl.formatted d n)) :
    Along (StoreOp.run d) (StoreOp.Met d) ops (Nftl.formatted d n) := by
  obtain ⟨own, map, ml, h, -⟩ := hd.formatted he hbad hecc
  refine (Along.keeps (J := fun s => ∃ own map ml L, Supplied d own map ml L s) ?_ ⟨own, map, ml, [], h⟩ hal).1
  rintro s op ⟨own, map, ml, L, h⟩ hop
  exact h.write hd hop

/-- 1024 blocks of 128 pages of 4096 bytes. -/
def largeChip : Device where
  writesize := 4096
  pgs := 128
  blks := 1024
  pgs_pos := by decide
  pgs_le := by decide
  blks_pos := by decide
  blks_le := by decide
  ws_ge := ws_le_512
  ws_le := ws_le_4096
  ws_even := by decide
  progFail _ := false
  torn _ := none
  eraseFail _ := false
  corrected _ := 0
  junk _ _ := 0
  junkInfo _ := 0

theorem largeChip_large : largeChip.Large where
  writesize := rfl
  pgs := rfl
  blks := by decide
  blks_lt := by decide
  flawless := ⟨fun _ => rfl, fun _ => rfl⟩
  noEcc _ := Nat.zero_le _

/-- The first write to the chip. -/
theorem space_suffices_first : Along (StoreOp.run largeChip) (StoreOp.Met largeChip) [.write 0 ffData]
    (formatted largeChip erasedNand) := by
  obtain ⟨own, map, ml, h, hfree⟩ := largeChip_large.formatted (n := erasedNand) (fun _ _ _ _ => rfl) rfl (by decide)
  have hroom : HasRoom largeChip (fun _ => false) (formatted largeChip erasedNand) 0 := (first_write h.ftl.rep.blkcnt).1
  have hblks : 1024 ≤ (formatted largeChip erasedNand).al.freeBlkcnt + 1 := hfree
  refine space_suffices largeChip_large (fun _ _ _ _ => rfl) rfl (by decide) ⟨⟨by decide, hroom, Or.inl ?_⟩, trivial⟩
  show 20 ≤ _
  omega

/-- A page of each of 129 logical blocks. -/
def largeOps : List StoreOp := pile largeChip ffData 0 128 ++ [.write (128 * largeChip.pgs) ffData]

/-- The write to the 129th logical block finds `dl_blocktab` full. -/
theorem space_overruns :
    (∀ op ∈ largeOps, ∃ lpa dat, op = .write lpa dat ∧ lpa < storagesize largeChip 0 / largeChip.writesize) ∧
    ¬ Along (StoreOp.run largeChip) (StoreOp.Met largeChip) largeOps (formatted largeChip erasedNand) := by
  obtain ⟨-, -, s, hs, hres, -⟩ := pile_overruns ffData largeChip_large.ample (n := erasedNand) (by decide)
    (fun _ _ _ _ => rfl) rfl (by decide)
  refine ⟨fun op hop => ?_, fun hal => ?_⟩
  · rcases List.mem_append.mp hop with hop | hop
    · obtain ⟨j, hj, rfl⟩ := List.mem_map.mp hop
      obtain ⟨-, hj⟩ := List.mem_range'_1.mp hj
      refine ⟨_, _, rfl, ?_⟩
      show j * 128 < 114688
      omega
    · exact ⟨_, _, List.mem_singleton.mp hop, by decide⟩
  · have hlast := (along_append.mp hal).2.1.1
    rw [← hs, hres] at hlast
    simp at hlast

end Emlinux.Nftl
