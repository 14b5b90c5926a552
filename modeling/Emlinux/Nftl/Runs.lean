import Emlinux.Lib.Calls
import Emlinux.Nftl.Preserve
import Emlinux.Nftl.Remount

/-!
# Runs of the store

A formatted device is used by any sequence of writes, reads and clean remounts. `sat_storeOp` says what one of them
does; the results about runs follow from it by induction.
-/

namespace Emlinux.Nftl

open Lib

variable {d : Device} {bd : Nat → Bool} {own : Own} {map : Nat → Nat} {ml L : List Log} {s : St} {lpa : Nat} {n : Nand}

inductive StoreOp where
  | write (lpa : Nat) (dat : PageData)
  | read (lpa : Nat)
  | remount

/-- `NFTL_mount` with zero-initialised RAM on the chip as it is. -/
def nftlRemount (d : Device) : M Int := fun s => nftlMount d (St.boot s.nand)

/-- The return code, and the bytes a read stores. -/
def StoreOp.run (d : Device) : StoreOp → M (Int × Option PageData)
  | .write lpa dat => do
    let ret ← nftlWriteLogicpage d lpa dat
    pure (ret, none)
  | .read lpa => nftlReadLogicpage d lpa
  | .remount => do
    let ret ← nftlRemount d
    pure (ret, none)

/-- The operation on what the pages hold. -/
def StoreOp.apply (f : Nat → PageData) : StoreOp → Nat → PageData
  | .write lpa dat => Function.update f lpa dat
  | .read _ => f
  | .remount => f

def StoreOp.answer (f : Nat → PageData) : StoreOp → Int × Option PageData
  | .write _ _ => (0, none)
  | .read lpa => (0, some (f lpa))
  | .remount => (0, none)

/-- The tables have room for a write to `lpa`: the merges at its head and its conversion do not find `dl_blocktab`
full, nor `dl_transtab` when it needs another entry. -/
def HasRoom (d : Device) (bd : Nat → Bool) (s : St) (lpa : Nat) : Prop :=
  ∀ own map ml L, Ftl d bd own map ml L s → Room d map L lpa s

/-- A write that takes the last page of a DataLog block is right to convert it, and right to merge it: converted in
order, it is the last page of the logical block; merged, page 0 was written before, or has a Data block. -/
def EndsRight (d : Device) (bd : Nat → Bool) (s : St) (lpa : Nat) : Prop :=
  ∀ own map ml L, Ftl d bd own map ml L s → ∀ lg ∈ L, lg.block ∈ survivors (isMapped map) (L.map Log.block) →
    Safe d map lpa lg

/-- The page is one of the device, and its write finds room. -/
def StoreOp.InRange (d : Device) (bd : Nat → Bool) (s : St) : StoreOp → Prop
  | .write lpa _ => lpa < d.maxlp ∧ HasRoom d bd s lpa
  | .read lpa => lpa < d.maxlp
  | .remount => True

/-- No program and no erase operation fails, and every request for a free block is met. -/
def StoreOp.Roomy (d : Device) (bd : Nat → Bool) (s : St) (op : StoreOp) : Prop :=
  (op.run d s).log.all Event.ok = true ∧ op.InRange d bd s

/-- A state between two calls, whose pages hold `f`. -/
structure Between (d : Device) (bd : Nat → Bool) (own : Own) (map : Nat → Nat) (ml L : List Log) (s : St) : Prop where
  ftl : Ftl d bd own map ml L s
  short : ∀ lg ∈ L, lg.seq.length < d.pgs
  quiet : Quiet d True s
  bad : s.nand.bad = bd
  size : 500 ≤ storagesize d (badCount bd d.blks)

/-- A mount changes the chip like an operation that starts with the RAM there is. -/
theorem sat_of_boot {E : Prop} {α : Type} {m : M α} {Q : α → St → Prop} (h : Sat (contract d E) m (St.boot s.nand) Q) :
    Sat (contract d E) (fun s => m (St.boot s.nand)) s Q := by
  rcases h with ⟨l₁, e, l₂, s₁, hlog, he, hst⟩ | ⟨a, hr, hst, hq⟩
  · exact Or.inl ⟨l₁, e, l₂, s₁, hlog, he, ⟨hst.flash, hst.bad, hst.ecc, hst.disc, hst.lawful⟩⟩
  · exact Or.inr ⟨a, hr, ⟨hst.flash, hst.bad, hst.ecc, hst.disc, hst.lawful⟩, hq⟩

/-- What one operation does: it answers 0, and leaves a state between two calls; a read answers the content of its
page, and, unless a write ends a DataLog block wrong, the pages change as they should. -/
theorem sat_storeOp (hf : d.Fits) (h : Between d bd own map ml L s) {op : StoreOp} (hop : op.InRange d bd s) :
    Sat (contract d True) (op.run d) s (fun r s' => r = op.answer (content d s.nand.flash map L) ∧
      ∃ own' map' ml' L', (Ftl d bd own' map' ml' L' s' ∧ ∀ lg ∈ L', lg.seq.length < d.pgs) ∧
        ((∀ lpa dat, op = .write lpa dat → EndsRight d bd s lpa) → ∀ q, q / d.pgs < d.blks →
          content d s'.nand.flash map' L' q = op.apply (content d s.nand.flash map L) q)) := by
  cases op with
  | write lpa dat =>
    obtain ⟨hlpa, hroom⟩ := hop
    refine Sat.bind (sat_nftlWriteLogicpage (U := 0) dat hf h.ftl h.short (d.lba_lt hlpa) (hroom _ _ _ _ h.ftl) h.quiet
      (Or.inl trivial) (Or.inl trivial) (Or.inl trivial)) ?_
    rintro _ s' ⟨rfl, own', map', ml', L', h', hshort', -, hcont⟩
    refine Sat.pure ⟨rfl, own', map', ml', L', ⟨h', hshort'⟩, fun hright q hq => ?_⟩
    rw [hcont (hright lpa dat rfl _ _ _ _ h.ftl) q hq]
    show _ = Function.update (content d s.nand.flash map L) lpa dat q
    by_cases hql : q = lpa
    · subst hql
      rw [if_pos rfl, Function.update_self]
    · rw [if_neg hql, Function.update_of_ne hql]
  | read lpa =>
    refine (sat_nftlReadLogicpage hf h.ftl hop h.quiet).mono ?_
    rintro _ s' ⟨rfl, own', map', ml', L', hp⟩
    refine ⟨rfl, own', map', ml', L', ⟨hp.ftl, fun lg hlg => ?_⟩, fun _ q hq => hp.content q hq⟩
    obtain ⟨x, hx, he⟩ := List.mem_map.mp (hp.seqs ▸ List.mem_map_of_mem hlg : lg.seq ∈ L.map Log.seq)
    rw [← he]
    exact h.short x hx
  | remount =>
    have hftl : Ftl d s.nand.bad own map ml L s := by rw [h.bad]; exact h.ftl
    refine Sat.bind (sat_of_boot (sat_remount hf hftl h.short (by rw [h.bad]; exact h.size))) ?_
    rintro _ s' ⟨rfl, hs, h'⟩
    have hperm := h.ftl.logs.scanned_perm dl_injective
    refine Sat.pure ⟨rfl, own, map, _, _, ⟨h.bad ▸ h', fun lg hlg => h.short lg (hperm.mem_iff.mp hlg)⟩, fun _ q _ => ?_⟩
    show content d s'.nand.flash map _ q = content d s.nand.flash map L q
    have hnd : ((scanned L d.blks).map Log.key).Nodup := (h.ftl.logs.perm hperm.symm).nodup
    unfold content
    rw [hs.flash, lookupIn_congr hnd h.ftl.logs.nodup (fun x _ => hperm.mem_iff) q]

/-- The operation returns what it should, lawfully, into a state between two calls. -/
theorem Between.step (hf : d.Fits) (h : Between d bd own map ml L s) {op : StoreOp} (hop : op.Roomy d bd s) :
    (op.run d s).res = .ok (op.answer (content d s.nand.flash map L)) ∧ Step d s (op.run d s).log (op.run d s).st ∧
      ∃ own' map' ml' L', Between d bd own' map' ml' L' (op.run d s).st ∧
        ((∀ lpa dat, op = .write lpa dat → EndsRight d bd s lpa) → ∀ q, q / d.pgs < d.blks →
          content d (op.run d s).st.nand.flash map' L' q = op.apply (content d s.nand.flash map L) q) := by
  obtain ⟨r, hres, hst, rfl, own', map', ml', L', ⟨h', hshort'⟩, hcont⟩ :=
    (sat_storeOp hf h hop.2).of_clean_step (not_excused_of_ok hop.1)
  have hst : Step d s (op.run d s).log (op.run d s).st := hst
  exact ⟨hres, hst, own', map', ml', L', ⟨h', hshort', quiet_step _ _ _ hst h.quiet, hst.bad.trans h.bad, h.size⟩, hcont⟩

/-! ## The first mount -/

/-- The chip is erased, and its first mount returns 0 with no failed operation. -/
structure Formatted (d : Device) (n : Nand) : Prop where
  erased : ∀ b p, b < d.blks → p < d.pgs → n.flash b p = none
  res : (nftlMount d (St.boot n)).res = .ok 0
  ok : (nftlMount d (St.boot n)).log.all Event.ok = true

/-- The state after the first mount. -/
def formatted (d : Device) (n : Nand) : St := (nftlMount d (St.boot n)).st

/-- A chip of less than 500 bytes is refused. -/
theorem sat_mountSmall {E : Prop} (hf : d.Fits) (he : ∀ b p, b < d.blks → p < d.pgs → n.flash b p = none)
    (hsize : storagesize d (badCount n.bad d.blks) < 500) :
    Sat (contract d E) (nftlMount d) (St.boot n) (fun r _ => r = -1) := by
  refine sat_mountScan hf (fresh_image n.bad he) fun s₁ hs₁ => ?_
  refine Sat.modify_bind (step_ram d E rfl) (Sat.get_bind ?_)
  rw [if_pos (by show storagesize d s₁.gBadblkcnt < 500; rw [hs₁.badcnt]; exact hsize)]
  exact Sat.pure rfl

theorem Formatted.size (hf : d.Fits) (h : Formatted d n) : 500 ≤ storagesize d (badCount n.bad d.blks) := by
  by_contra hsize
  obtain ⟨r, hr, rfl⟩ := (sat_mountSmall (E := True) hf h.erased (not_le.mp hsize)).of_clean (not_excused_of_ok h.ok)
  rw [h.res] at hr
  simp at hr

/-- The first mount is lawful, and leaves an empty store. -/
theorem Formatted.mounted (hf : d.Fits) (h : Formatted d n) : Step d (St.boot n) (nftlMount d (St.boot n)).log (formatted d n) ∧
    ∃ own, Ftl d n.bad own (fun _ => noBlock) [] [] (formatted d n) := by
  obtain ⟨r, -, hst, -, own, hftl, -⟩ :=
    (sat_format (E := True) hf h.erased (h.size hf) (Or.inl trivial)).of_clean_step (not_excused_of_ok h.ok)
  exact ⟨hst, own, hftl⟩

theorem Formatted.between (hf : d.Fits) (h : Formatted d n) (hq : Quiet d True (St.boot n)) :
    ∃ own, Between d n.bad own (fun _ => noBlock) [] [] (formatted d n) := by
  obtain ⟨hst, own, hftl⟩ := h.mounted hf
  exact ⟨own, hftl, by simp, quiet_step _ _ _ hst hq, hst.bad, h.size hf⟩

theorem content_formatted (fl : Flash) (q : Nat) : content d fl (fun _ => noBlock) [] q = ffData := by
  simp [content, lookupIn]

/-! ## Runs -/

/-- A state of a run, whose pages hold `f`. -/
def Stores (d : Device) (bd : Nat → Bool) (f : Nat → PageData) (s : St) : Prop :=
  ∃ own map ml L, Between d bd own map ml L s ∧ ∀ q, q / d.pgs < d.blks → content d s.nand.flash map L q = f q

/-- A write ends no DataLog block wrong. -/
def StoreOp.Right (d : Device) (bd : Nat → Bool) (s : St) : StoreOp → Prop
  | .write lpa _ => EndsRight d bd s lpa
  | _ => True

theorem Formatted.stores (hf : d.Fits) (h : Formatted d n) (hq : Quiet d True (St.boot n)) :
    Stores d n.bad (fun _ => ffData) (formatted d n) := by
  obtain ⟨own, hb⟩ := h.between hf hq
  exact ⟨own, _, _, _, hb, fun q _ => content_formatted _ q⟩

theorem Stores.step (hf : d.Fits) {f : Nat → PageData} (h : Stores d bd f s) {op : StoreOp} (hop : op.Roomy d bd s)
    (hright : op.Right d bd s) : (op.run d s).res = .ok (op.answer f) ∧ Stores d bd (op.apply f) (op.run d s).st := by
  obtain ⟨own, map, ml, L, hb, hcont⟩ := h
  obtain ⟨hres, -, own', map', ml', L', hb', hcont'⟩ := hb.step hf hop
  have hcont' := hcont' fun lpa dat e => by subst e; exact hright
  refine ⟨?_, own', map', ml', L', hb', fun q hq => ?_⟩
  · cases op with
    | write lpa dat => exact hres
    | read lpa => rw [hres, StoreOp.answer, StoreOp.answer, hcont lpa (d.lba_lt hop.2)]
    | remount => exact hres
  · rw [hcont' q hq]
    cases op with
    | write lpa dat =>
      show Function.update (content d s.nand.flash map L) lpa dat q = Function.update f lpa dat q
      by_cases hql : q = lpa
      · rw [hql, Function.update_self, Function.update_self]
      · rw [Function.update_of_ne hql, Function.update_of_ne hql, hcont q hq]
    | read lpa => exact hcont q hq
    | remount => exact hcont q hq

/-- A store from its first mount: in a run that always finds room and ends no DataLog block wrong, every write and
remount returns 0, and every read returns the data of the latest write to its page, or `0xff`. -/
theorem store_refines (hf : d.Fits) (h : Formatted d n) (hq : Quiet d True (St.boot n)) {ops : List StoreOp}
    (hal : Along (StoreOp.run d) (fun s op => op.Roomy d n.bad s ∧ op.Right d n.bad s) ops (formatted d n)) :
    results (StoreOp.run d) ops (formatted d n) = answers StoreOp.answer StoreOp.apply ops (fun _ => ffData) :=
  (simulates (fun _ _ _ hs hop => hs.step hf hop.1 hop.2) (h.stores hf hq) hal).1

/-! ## Runs of the small chip -/

theorem formatted_small : Formatted smallChip erasedNand := ⟨fun _ _ _ _ => rfl, by decide +kernel, by decide +kernel⟩

/-- Without DataLog blocks there is room, and nothing to end. -/
theorem first_write (h : s.dl.blkcnt = 0) : HasRoom d bd s lpa ∧ EndsRight d bd s lpa := by
  have hnil : ∀ {own map ml L}, Ftl d bd own map ml L s → L = [] := fun hL =>
    List.eq_nil_of_length_eq_zero (hL.rep.blkcnt.symm.trans h)
  constructor
  · intro own map ml L hL
    obtain rfl := hnil hL
    exact ⟨by simp, by simp, by simp [flat]⟩
  · intro own map ml L hL
    obtain rfl := hnil hL
    simp

/-- A write, a remount, and reads of a written and of an unwritten page. -/
theorem store_refines_small :
    results (StoreOp.run smallChip) [.write 0 (fun _ => 1), .remount, .read 0, .read 2] (formatted smallChip erasedNand)
      = [.ok (0, none), .ok (0, none), .ok (0, some fun _ => 1), .ok (0, some ffData)] := by
  have hfirst : HasRoom smallChip erasedNand.bad (formatted smallChip erasedNand) 0 ∧
      EndsRight smallChip erasedNand.bad (formatted smallChip erasedNand) 0 := first_write (by decide +kernel)
  obtain ⟨hroom, hright⟩ := hfirst
  refine (store_refines (d := smallChip) (n := erasedNand) smallChip_fits formatted_small (smallChip_quiet _) ?_).trans ?_
  · refine ⟨⟨⟨by decide +kernel, by decide, hroom⟩, hright⟩, ⟨⟨by decide +kernel, trivial⟩, trivial⟩, ?_⟩
    have hrange : (0 : Nat) < smallChip.maxlp ∧ (2 : Nat) < smallChip.maxlp := by decide
    exact ⟨⟨⟨by decide +kernel, hrange.1⟩, trivial⟩, ⟨⟨by decide +kernel, hrange.2⟩, trivial⟩, trivial⟩
  · simp only [answers, StoreOp.answer, StoreOp.apply, Function.update_self]
    rw [Function.update_of_ne (by decide)]

/-- The second write to page 0 fills the DataLog block, which is converted: page 0 still reads the first data. -/
theorem store_loses_write : Formatted smallChip erasedNand ∧
    Along (StoreOp.run smallChip) (fun s op => (op.run smallChip s).log.all Event.ok = true)
      [.write 0 (fun _ => 1), .write 0 (fun _ => 2), .read 0] (formatted smallChip erasedNand) ∧
    results (StoreOp.run smallChip) [.write 0 (fun _ => 1), .write 0 (fun _ => 2), .read 0] (formatted smallChip erasedNand)
      ≠ [.ok (0, none), .ok (0, none), .ok (0, some fun _ => 2)] := by
  refine ⟨formatted_small, ⟨by decide +kernel, by decide +kernel, by decide +kernel, trivial⟩, fun h => ?_⟩
  have := congrArg (fun rs => match rs with
    | [_, _, .ok (_, some dat)] => dat 0
    | _ => 2) h
  exact absurd this (by decide +kernel)

end Emlinux.Nftl
