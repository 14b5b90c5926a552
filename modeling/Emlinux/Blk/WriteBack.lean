import Emlinux.Lib.Calls
import Emlinux.Blk.Cache

/-!
# Writing back when `nftl_write` can fail

The entry points of `nftlcore.c` over pages whose reads and writes can fail, with a log of the writes. The page to be
written back is written at six places: `nftl_writesect` returns when the write failed; `nftl_writesects`,
`nftl_readsects` and `nftl_flush` forget the page all the same.
-/

namespace Emlinux.Blk

open Lib

/-- What the pages below answer, by call counter: the return codes of `nftl_write_logicpage` and
`nftl_read_logicpage`, and what a read (also one that fails) leaves in the buffer. -/
structure Media where
  writeRet : Nat → Int
  readRet : Nat → Int
  readData : Nat → Bytes → Bytes

/-- The two cached pages, and the call counter of `Media`. -/
structure Caches where
  lWriteblock : Nat
  lWritepage : Nat
  writeBuffer : Bytes
  lReadblock : Nat
  lReadpage : Nat
  readBuffer : Bytes
  tick : Nat

/-- Nothing cached. -/
def Caches.init : Caches := ⟨0xffff, 0xff, fun _ => 0, 0xffff, 0xff, fun _ => 0, 0⟩

/-- A call of `nftl_write`. -/
structure Wrote where
  block : Nat
  page : Nat
  buffer : Bytes
  ret : Nat

abbrev B (α : Type) : Type := Prog Empty Caches Wrote α

/-- A result stored in a `uint8_t`. -/
def byte (r : Int) : Nat := (r % 256).toNat

namespace Caches

variable (g : Geom) (m : Media) (s : Caches)

/-- There is a page to be written back. -/
def Valid : Prop := s.lWriteblock ≠ 0xffff ∧ s.lWritepage ≠ 0xff

instance : Decidable s.Valid := inferInstanceAs (Decidable (_ ∧ _))

/-- `l_writepage = 0xff; l_writeblock = 0xffff`. -/
def forget : Caches := { s with lWriteblock := 0xffff, lWritepage := 0xff }

/-- The key that the page loops leave: the block only when it was the last page of it. -/
def passed (block page : Nat) : Caches :=
  { s with
    lWritepage := page
    lWriteblock := if (page + 1) % 2 ^ 8 ≥ g.nrPgsinblk then block else s.lWriteblock }

end Caches

section calls

variable (g : Geom) (m : Media)

/-- `nftl_write_logicpage`. -/
def nftlWriteLogicpage (_lpa : Nat) (_buffer : Bytes) : B Int := fun s => ⟨.ok (m.writeRet s.tick), { s with tick := s.tick + 1 }, []⟩

/-- `nftl_read_logicpage`: the return code and the buffer. -/
def nftlReadLogicpage (_lpa : Nat) (buffer : Bytes) : B (Int × Bytes) := fun s =>
  ⟨.ok (m.readRet s.tick, copy buffer 0 (m.readData s.tick buffer) g.writesize), { s with tick := s.tick + 1 }, []⟩

/-- `nftl_write`. -/
def nftlWrite (block page : Nat) (buffer : Bytes) : B Nat := do
  let ret ← nftlWriteLogicpage m (block * g.nrPgsinblk + page) buffer
  Prog.emit ⟨block, page, buffer, byte ret⟩
  pure (byte ret)

/-- `nftl_read`. -/
def nftlRead (block page : Nat) (buffer : Bytes) : B (Nat × Bytes) := do
  let r ← nftlReadLogicpage g m (block * g.nrPgsinblk + page) buffer
  pure (byte r.1, r.2)

/-! ## `nftl_writesect` -/

/-- The end of `nftl_writesect`: the rest of the data goes into the page that follows, to be written next time. -/
def writeRest (block page pos leftsize : Nat) (buffer : Bytes) : B Int := do
  let s ← Prog.get
  let r ← nftlRead g m block page s.writeBuffer
  Prog.modify fun s => { s with writeBuffer := r.2 }
  if r.1 ≠ 0 then pure (-1)
  else
    Prog.modify fun s => { s with
      writeBuffer := copy s.writeBuffer 0 (fun i => buffer (pos + i)) leftsize
      lWritepage := page, lWriteblock := block }
    pure 0

/-- `while(leftsize >= mtd->writesize)`. -/
def writePages : (fuel : Nat) → (block page pos leftsize : Nat) → (buffer : Bytes) → B Int
  | 0, block, page, pos, leftsize, buffer => writeRest g m block page pos leftsize buffer
  | fuel + 1, block, page, pos, leftsize, buffer => do
    if leftsize ≥ g.writesize then
      Prog.modify fun s => { s with writeBuffer := copy s.writeBuffer 0 (fun i => buffer (pos + i)) g.writesize }
      let s ← Prog.get
      let ret ← nftlWrite g m block page s.writeBuffer
      if ret ≠ 0 then pure (-1)
      else
        Prog.modify fun s => s.passed g block page
        match Sectors.nextPage g block page with
        | none => pure (-1)
        | some next => writePages fuel next.1 next.2 (pos + g.writesize) (leftsize - g.writesize) buffer
    else writeRest g m block page pos leftsize buffer

/-- A sector that does not start at a page: its page is read into the write buffer. -/
def writeOffset (block page pageOffset pos leftsize : Nat) (buffer : Bytes) : B Int := do
  let count := min leftsize (g.writesize - pageOffset)
  let s ← Prog.get
  let r ← nftlRead g m block page s.writeBuffer
  Prog.modify fun s => { s with writeBuffer := r.2 }
  if r.1 ≠ 0 then pure (-1)
  else
    Prog.modify fun s => { s with writeBuffer := copy s.writeBuffer pageOffset (fun i => buffer (pos + i)) count }
    if leftsize - count = 0 then
      Prog.modify fun s => { s with lWritepage := page, lWriteblock := block }
      pure 0
    else
      let s ← Prog.get
      let ret ← nftlWrite g m block page s.writeBuffer
      if ret ≠ 0 then pure (-1)
      else
        Prog.modify Caches.forget
        match Sectors.nextPage g block page with
        | none => pure (-1)
        | some next => writePages g m sectorSize next.1 next.2 (pos + count) (leftsize - count) buffer

/-- The page to be written back is written; `false` when that failed. -/
def writeBack : B Bool := do
  let s ← Prog.get
  if s.Valid then
    let ret ← nftlWrite g m s.lWriteblock s.lWritepage s.writeBuffer
    pure (decide (ret = 0))
  else pure true

/-- `nftl_writesect` once the write-back page does not take (all of) the data. -/
def writeMiss (block page pageOffset pos leftsize : Nat) (buffer : Bytes) : B Int := do
  let ok ← writeBack g m
  if ok = false then pure (-1)
  else if pageOffset ≠ 0 then writeOffset g m block page pageOffset pos leftsize buffer
  else writePages g m sectorSize block page pos leftsize buffer

/-- The sector is in the write-back page. -/
def Caches.Hit (s : Caches) (sect : Nat) : Prop := Sectors.blockNum g sect = s.lWriteblock ∧ Sectors.pageNum g sect = s.lWritepage

instance (s : Caches) (sect : Nat) : Decidable (s.Hit g sect) := inferInstanceAs (Decidable (_ ∧ _))

/-- The write-back page takes the data that is for it. -/
def Caches.take (s : Caches) (sect : Nat) (buffer : Bytes) : Caches :=
  { s with writeBuffer := copy s.writeBuffer (Sectors.pageOffset g sect) buffer (min (g.writesize - Sectors.pageOffset g sect) sectorSize) }

def nftlWritesect (sect : Nat) (buffer : Bytes) : B Int := do
  let block := Sectors.blockNum g sect
  let page := Sectors.pageNum g sect
  let ofs := Sectors.pageOffset g sect
  let s ← Prog.get
  if s.Hit g sect then
    let count := min (g.writesize - ofs) sectorSize
    Prog.modify fun s => s.take g sect buffer
    if sectorSize - count = 0 then pure 0
    else
      Prog.modify fun s => s.passed g block page
      match Sectors.nextPage g block page with
      | none => pure (-1)
      | some next => writeMiss g m next.1 next.2 0 count (sectorSize - count) buffer
  else writeMiss g m block page ofs 0 sectorSize buffer

/-! ## The other entry points -/

/-- The page is brought into the read buffer; `false` when it cannot be read. -/
def fetch (block page : Nat) : B Bool := do
  let s ← Prog.get
  let ok ← (if block = s.lWriteblock ∧ page = s.lWritepage then do
      Prog.modify fun s => { s with readBuffer := copy s.readBuffer 0 s.writeBuffer g.writesize }
      pure true
    else if block ≠ s.lReadblock ∨ page ≠ s.lReadpage then do
      let r ← nftlRead g m block page s.readBuffer
      Prog.modify fun s => { s with readBuffer := r.2 }
      pure (decide (r.1 = 0))
    else pure true)
  if ok then Prog.modify fun s => { s with lReadblock := block, lReadpage := page }
  pure ok

/-- `EIO`. -/
abbrev eio : Int := 5

/-- `while(count < SECTORSIZE)`; the count is the position in `buffer`. -/
def readPages : (fuel : Nat) → (block page pos : Nat) → (buffer : Bytes) → B (Int × Bytes)
  | 0, _, _, _, buffer => pure (0, buffer)
  | fuel + 1, block, page, pos, buffer => do
    if pos < sectorSize then
      let ok ← fetch g m block page
      if ok then
        let s ← Prog.get
        let n := if sectorSize - pos < g.writesize then sectorSize - pos else g.writesize
        match Sectors.nextPage g block page with
        | none => pure (-1, copy buffer pos s.readBuffer n)
        | some next => readPages fuel next.1 next.2 (pos + n) (copy buffer pos s.readBuffer n)
      else pure (-eio, buffer)
    else pure (0, buffer)

def nftlReadsect (sect : Nat) (buffer : Bytes) : B (Int × Bytes) := do
  let block := Sectors.blockNum g sect
  let page := Sectors.pageNum g sect
  let ofs := Sectors.pageOffset g sect
  if ofs ≠ 0 then
    let count := min (g.writesize - ofs) sectorSize
    let ok ← fetch g m block page
    if ok then
      let s ← Prog.get
      let buffer := copy buffer 0 (fun i => s.readBuffer (ofs + i)) count
      match Sectors.nextPage g block page with
      | none => pure (-1, buffer)
      | some next => readPages g m sectorSize next.1 next.2 count buffer
    else pure (-eio, buffer)
  else readPages g m sectorSize block page 0 buffer

/-- `nftl_flush`, which also stands at the head of the multi-sector functions. The result of `nftl_write` is not
looked at. It is declared `int`, and has no `return`. -/
def nftlFlush : B Unit := do
  let s ← Prog.get
  if s.Valid then
    let _ ← nftlWrite g m s.lWriteblock s.lWritepage s.writeBuffer
    Prog.modify Caches.forget
  else pure ()

/-- `nftl_writesects`: `sect` is a logical page. -/
def nftlWritesects (sect : Nat) (buffer : Bytes) (count : Nat) : B Int := do
  nftlFlush g m
  if Sectors.pageCount g count then nftlWriteLogicpage m sect buffer else pure 1

def nftlReadsects (sect : Nat) (buffer : Bytes) (count : Nat) : B (Int × Bytes) := do
  nftlFlush g m
  if Sectors.pageCount g count then nftlReadLogicpage g m sect buffer else pure (1, buffer)

/-- `nftl_remove_dev`: the page is written and not forgotten. -/
def nftlRemoveDev : B Unit := do
  let s ← Prog.get
  if s.Valid then
    let _ ← nftlWrite g m s.lWriteblock s.lWritepage s.writeBuffer
  else pure ()

end calls

/-! ## Operations -/

inductive CacheOp where
  | writesect (sect : Nat) (buffer : Bytes)
  | readsect (sect : Nat) (buffer : Bytes)
  | writesects (sect : Nat) (buffer : Bytes) (count : Nat)
  | readsects (sect : Nat) (buffer : Bytes) (count : Nat)
  | flush
  | removeDev

/-- The return code, if there is one. -/
def CacheOp.run (g : Geom) (m : Media) : CacheOp → B (Option Int)
  | .writesect sect buffer => do
    let ret ← nftlWritesect g m sect buffer
    pure (some ret)
  | .readsect sect buffer => do
    let r ← nftlReadsect g m sect buffer
    pure (some r.1)
  | .writesects sect buffer count => do
    let ret ← nftlWritesects g m sect buffer count
    pure (some ret)
  | .readsects sect buffer count => do
    let r ← nftlReadsects g m sect buffer count
    pure (some r.1)
  | .flush => do
    nftlFlush g m
    pure none
  | .removeDev => do
    nftlRemoveDev g m
    pure none

/-- The write-back page that the call has to keep: `nftl_writesect` adds the data that is for it. -/
def CacheOp.held (g : Geom) (s : Caches) : CacheOp → Caches
  | .writesect sect buffer => if s.Hit g sect then s.take g sect buffer else s
  | _ => s

/-- The page is still there, or it was written with success, or the caller is told of an error. -/
def CacheOp.Keeps (g : Geom) (m : Media) (s : Caches) (op : CacheOp) : Prop :=
  s.Valid → let out := op.run g m s
    (out.st.lWriteblock = s.lWriteblock ∧ out.st.lWritepage = s.lWritepage ∧ out.st.writeBuffer = (op.held g s).writeBuffer) ∨
    (⟨s.lWriteblock, s.lWritepage, (op.held g s).writeBuffer, 0⟩ : Wrote) ∈ out.log ∨
    ∃ ret, out.res = .ok (some ret) ∧ ret ≠ 0

/-- A page that a multi-sector call or a flush finds is written with success, or the call fails for another reason:
it is not for a page, or its own page is not written (read). -/
def CacheOp.Stored (g : Geom) (m : Media) (s : Caches) : CacheOp → Prop
  | .writesects _ _ count => s.Valid → byte (m.writeRet s.tick) = 0 ∨ ¬ Sectors.pageCount g count ∨ m.writeRet (s.tick + 1) ≠ 0
  | .readsects _ _ count => s.Valid → byte (m.writeRet s.tick) = 0 ∨ ¬ Sectors.pageCount g count ∨ m.readRet (s.tick + 1) ≠ 0
  | .flush => s.Valid → byte (m.writeRet s.tick) = 0
  | _ => True

/-! ## What each call keeps -/

section keeps

variable {g : Geom} {m : Media} {s : Caches}

theorem nftlWrite_eq (block page : Nat) (buffer : Bytes) (s : Caches) : nftlWrite g m block page buffer s =
    ⟨.ok (byte (m.writeRet s.tick)), { s with tick := s.tick + 1 }, [⟨block, page, buffer, byte (m.writeRet s.tick)⟩]⟩ := rfl

/-- The write-back page is as before. -/
def SameBack (s s' : Caches) : Prop :=
  s'.lWriteblock = s.lWriteblock ∧ s'.lWritepage = s.lWritepage ∧ s'.writeBuffer = s.writeBuffer

theorem SameBack.refl (s : Caches) : SameBack s s := ⟨rfl, rfl, rfl⟩

theorem SameBack.trans {s s' s'' : Caches} (h : SameBack s s') (h' : SameBack s' s'') : SameBack s s'' :=
  ⟨h'.1.trans h.1, h'.2.1.trans h.2.1, h'.2.2.trans h.2.2⟩

theorem SameBack.bind {α β : Type} {p : B α} {f : α → B β} (h : Prog.Moves SameBack p) (hf : ∀ a, Prog.Moves SameBack (f a)) :
    Prog.Moves SameBack (p >>= f) := Prog.Moves.bind (R := SameBack) SameBack.trans h hf

theorem SameBack.pure {α : Type} (a : α) : Prog.Moves SameBack (Pure.pure a : B α) := Prog.Moves.pure SameBack.refl a

theorem SameBack.get : Prog.Moves SameBack (Prog.get : B Caches) := Prog.Moves.get (R := SameBack) SameBack.refl

theorem SameBack.modify {f : Caches → Caches} (h : ∀ s, SameBack s (f s)) : Prog.Moves SameBack (Prog.modify f : B Unit) :=
  Prog.Moves.modify (R := SameBack) h

theorem nftlRead_moves (block page : Nat) (buffer : Bytes) : Prog.Moves SameBack (nftlRead g m block page buffer) :=
  fun _ => ⟨rfl, rfl, rfl⟩

theorem fetch_moves (block page : Nat) : Prog.Moves SameBack (fetch g m block page) := by
  refine SameBack.bind SameBack.get fun s => ?_
  refine SameBack.bind ?_ fun ok => ?_
  · split
    · exact SameBack.bind (SameBack.modify fun _ => ⟨rfl, rfl, rfl⟩) fun _ =>
        SameBack.pure _
    · split
      · refine SameBack.bind (nftlRead_moves _ _ _) fun _ => ?_
        exact SameBack.bind (SameBack.modify fun _ => ⟨rfl, rfl, rfl⟩) fun _ =>
          SameBack.pure _
      · exact SameBack.pure _
  · cases ok with
    | false => exact SameBack.pure false
    | true =>
      exact SameBack.bind (SameBack.modify fun _ => ⟨rfl, rfl, rfl⟩) fun _ =>
        SameBack.pure _

theorem readPages_moves (fuel block page pos : Nat) (buffer : Bytes) :
    Prog.Moves SameBack (readPages g m fuel block page pos buffer) := by
  induction fuel generalizing block page pos buffer with
  | zero => exact SameBack.pure _
  | succ fuel ih =>
    unfold readPages
    split
    · refine SameBack.bind (fetch_moves _ _) fun ok => ?_
      split
      · refine SameBack.bind SameBack.get fun s => ?_
        dsimp only
        cases Sectors.nextPage g block page with
        | none => exact SameBack.pure _
        | some next => exact ih _ _ _ _
      · exact SameBack.pure _
    · exact SameBack.pure _

theorem nftlReadsect_moves (sect : Nat) (buffer : Bytes) : Prog.Moves SameBack (nftlReadsect g m sect buffer) := by
  unfold nftlReadsect
  dsimp only
  split
  · refine SameBack.bind (fetch_moves _ _) fun ok => ?_
    split
    · refine SameBack.bind SameBack.get fun s => ?_
      cases Sectors.nextPage g _ _ with
      | none => exact SameBack.pure _
      | some next => exact readPages_moves _ _ _ _ _
    · exact SameBack.pure _
  · exact readPages_moves _ _ _ _ _

/-- Past the write-back page nothing is written before the page was, with success. -/
theorem writeMiss_keeps (hv : s.Valid) (block page ofs pos leftsize : Nat) (buffer : Bytes) :
    (⟨s.lWriteblock, s.lWritepage, s.writeBuffer, 0⟩ : Wrote) ∈ (writeMiss g m block page ofs pos leftsize buffer s).log ∨
      (writeMiss g m block page ofs pos leftsize buffer s).res = .ok (-1) := by
  have hback : writeBack g m s = ⟨.ok (decide (byte (m.writeRet s.tick) = 0)), { s with tick := s.tick + 1 },
      [⟨s.lWriteblock, s.lWritepage, s.writeBuffer, byte (m.writeRet s.tick)⟩]⟩ := by
    unfold writeBack
    rw [Prog.get_bind, if_pos hv, Prog.bind_ok _ _ (nftlWrite_eq _ _ _ s)]
    rfl
  unfold writeMiss
  rw [Prog.bind_ok _ _ hback]
  by_cases hret : byte (m.writeRet s.tick) = 0
  · left
    rw [hret]
    exact List.mem_append_left _ (List.mem_singleton.mpr rfl)
  · right
    rw [if_pos (by simp [hret])]
    rfl

/-- `nftl_writesect` keeps the page, whatever fails. -/
theorem writesect_keeps (g : Geom) (m : Media) (s : Caches) (sect : Nat) (buffer : Bytes) :
    (CacheOp.writesect sect buffer).Keeps g m s := by
  intro hv
  have hrun : (CacheOp.writesect sect buffer).run g m s = ⟨(nftlWritesect g m sect buffer s).res.map some,
      (nftlWritesect g m sect buffer s).st, (nftlWritesect g m sect buffer s).log⟩ := by
    rcases ho : nftlWritesect g m sect buffer s with ⟨res, s', l⟩
    cases res with
    | ok r =>
      show (nftlWritesect g m sect buffer >>= fun ret => pure (some ret)) s = _
      rw [Prog.bind_ok _ _ ho]
      simp only [Except.map]
      rw [show (pure (some r) : B (Option Int)) s' = ⟨.ok (some r), s', []⟩ from rfl]
      simp
    | error e => exact e.elim
  dsimp only
  rw [hrun]
  unfold nftlWritesect CacheOp.held
  dsimp only
  rw [Prog.get_bind]
  by_cases hh : s.Hit g sect
  · rw [if_pos hh, if_pos hh, Prog.modify_bind]
    by_cases hall : sectorSize - min (g.writesize - Sectors.pageOffset g sect) sectorSize = 0
    · rw [if_pos hall]
      exact Or.inl ⟨rfl, rfl, rfl⟩
    · rw [if_neg hall, Prog.modify_bind]
      cases Sectors.nextPage g (Sectors.blockNum g sect) (Sectors.pageNum g sect) with
      | none => exact Or.inr (Or.inr ⟨-1, rfl, by decide⟩)
      | some next =>
        have hpassed : ((s.take g sect buffer).passed g (Sectors.blockNum g sect) (Sectors.pageNum g sect)) = s.take g sect buffer := by
          obtain ⟨hb, hp⟩ := hh
          unfold Caches.passed
          rw [hb, hp, show (s.take g sect buffer).lWriteblock = s.lWriteblock from rfl, ite_self]
          rfl
        rw [hpassed]
        rcases writeMiss_keeps (g := g) (m := m) (s := s.take g sect buffer) hv next.1 next.2 0 _ _ buffer with hk | hk
        · exact Or.inr (Or.inl hk)
        · exact Or.inr (Or.inr ⟨-1, by rw [hk]; rfl, by decide⟩)
  · rw [if_neg hh, if_neg hh]
    rcases writeMiss_keeps (g := g) (m := m) hv (Sectors.blockNum g sect) (Sectors.pageNum g sect)
      (Sectors.pageOffset g sect) 0 sectorSize buffer with hk | hk
    · exact Or.inr (Or.inl hk)
    · exact Or.inr (Or.inr ⟨-1, by rw [hk]; rfl, by decide⟩)

/-! ## The calls that forget -/

theorem nftlFlush_eq (hv : s.Valid) : nftlFlush g m s = ⟨.ok (), ({ s with tick := s.tick + 1 } : Caches).forget,
    [⟨s.lWriteblock, s.lWritepage, s.writeBuffer, byte (m.writeRet s.tick)⟩]⟩ := by
  unfold nftlFlush
  rw [Prog.get_bind, if_pos hv, Prog.bind_ok _ _ (nftlWrite_eq _ _ _ s)]
  rfl

/-- A page that was flushed and forgotten is kept exactly when its write succeeded or the call returns an error. -/
theorem forgotten_iff (hv : s.Valid) {out : Out Empty Caches Wrote (Option Int)} {ret : Nat} {r : Option Int}
    (hst : out.st.lWriteblock = 0xffff) (hlog : out.log = [⟨s.lWriteblock, s.lWritepage, s.writeBuffer, ret⟩])
    (hres : out.res = .ok r) :
    ((out.st.lWriteblock = s.lWriteblock ∧ out.st.lWritepage = s.lWritepage ∧ out.st.writeBuffer = s.writeBuffer) ∨
      (⟨s.lWriteblock, s.lWritepage, s.writeBuffer, 0⟩ : Wrote) ∈ out.log ∨ ∃ ret, out.res = .ok (some ret) ∧ ret ≠ 0) ↔
    ret = 0 ∨ ∃ ret, r = some ret ∧ ret ≠ 0 := by
  rw [hlog, hres, List.mem_singleton]
  simp only [Wrote.mk.injEq, true_and, Except.ok.injEq]
  constructor
  · rintro (⟨hb, -⟩ | hret | hx)
    · exact absurd (hb.symm.trans hst) hv.1
    · exact Or.inl hret.symm
    · exact Or.inr hx
  · rintro (hret | hx)
    · exact Or.inr (Or.inl hret.symm)
    · exact Or.inr (Or.inr hx)

theorem some_ne_zero_iff (r : Int) : (∃ ret, some r = some ret ∧ ret ≠ 0) ↔ r ≠ 0 := by
  constructor
  · rintro ⟨ret, h, hne⟩
    rw [Option.some.inj h]
    exact hne
  · exact fun hne => ⟨r, rfl, hne⟩

/-- A multi-sector call flushes, and is for a page or returns 1. -/
theorem multi_keeps_iff (hv : s.Valid) {op : CacheOp} (hheld : op.held g s = s) {α : Type} {count : Nat} {r : Int} {body : B α}
    {fail : α} {f : α → Int}
    (hrun : op.run g m = (nftlFlush g m >>= fun _ => if Sectors.pageCount g count then body else pure fail) >>= fun a => pure (some (f a)))
    (hbody : ∃ a s', body ({ s with tick := s.tick + 1 } : Caches).forget = ⟨.ok a, s', []⟩ ∧ s'.lWriteblock = 0xffff ∧ f a = r)
    (hfail : f fail = 1) :
    (((op.run g m s).st.lWriteblock = s.lWriteblock ∧ (op.run g m s).st.lWritepage = s.lWritepage ∧
        (op.run g m s).st.writeBuffer = (op.held g s).writeBuffer) ∨
      (⟨s.lWriteblock, s.lWritepage, (op.held g s).writeBuffer, 0⟩ : Wrote) ∈ (op.run g m s).log ∨
      ∃ ret, (op.run g m s).res = .ok (some ret) ∧ ret ≠ 0) ↔
      byte (m.writeRet s.tick) = 0 ∨ ¬ Sectors.pageCount g count ∨ r ≠ 0 := by
  rw [hheld, hrun, Prog.bind_assoc, Prog.bind_ok _ _ (nftlFlush_eq hv)]
  by_cases hc : Sectors.pageCount g count
  · obtain ⟨a, s', hb, hs', rfl⟩ := hbody
    rw [if_pos hc, Prog.bind_ok _ _ hb]
    refine (forgotten_iff hv hs' rfl rfl).trans ?_
    rw [some_ne_zero_iff]
    simp only [hc, not_true, false_or]
  · rw [if_neg hc, Prog.pure_bind]
    refine (forgotten_iff hv rfl rfl rfl).trans ?_
    rw [hfail, some_ne_zero_iff]
    exact iff_of_true (Or.inr one_ne_zero) (Or.inr (Or.inl hc))

theorem writesects_keeps_iff (sect : Nat) (buffer : Bytes) (count : Nat) :
    (CacheOp.writesects sect buffer count).Keeps g m s ↔ (CacheOp.writesects sect buffer count).Stored g m s :=
  forall_congr' fun hv => multi_keeps_iff hv rfl (f := id) rfl ⟨_, _, rfl, rfl, rfl⟩ rfl

theorem readsects_keeps_iff (sect : Nat) (buffer : Bytes) (count : Nat) :
    (CacheOp.readsects sect buffer count).Keeps g m s ↔ (CacheOp.readsects sect buffer count).Stored g m s :=
  forall_congr' fun hv => multi_keeps_iff hv rfl (f := Prod.fst) rfl ⟨_, _, rfl, rfl, rfl⟩ rfl

theorem flush_keeps_iff : CacheOp.flush.Keeps g m s ↔ CacheOp.flush.Stored g m s := by
  refine forall_congr' fun hv => ?_
  have hrun : CacheOp.flush.run g m s = ⟨.ok none, ({ s with tick := s.tick + 1 } : Caches).forget,
      [⟨s.lWriteblock, s.lWritepage, s.writeBuffer, byte (m.writeRet s.tick)⟩]⟩ := by
    show (nftlFlush g m >>= fun _ => _) s = _
    rw [Prog.bind_ok _ _ (nftlFlush_eq hv)]
    rfl
  dsimp only
  rw [hrun]
  refine (forgotten_iff hv rfl rfl rfl).trans ?_
  simp

theorem readsect_keeps (sect : Nat) (buffer : Bytes) : (CacheOp.readsect sect buffer).Keeps g m s := fun _ =>
  Or.inl (SameBack.bind (nftlReadsect_moves sect buffer) (fun _ => SameBack.pure _) s)

theorem removeDev_keeps : CacheOp.removeDev.Keeps g m s := by
  intro hv
  refine Or.inl ?_
  have hmoves : Prog.Moves SameBack (nftlRemoveDev g m) := by
    refine SameBack.bind SameBack.get fun s => ?_
    split
    · exact SameBack.bind (fun _ => ⟨rfl, rfl, rfl⟩) fun _ => SameBack.pure _
    · exact SameBack.pure _
  exact SameBack.bind hmoves (fun _ => SameBack.pure _) s

/-- In every run each call keeps the page to be written back, or writes it with success, or returns an error, exactly
when no multi-sector call and no flush finds a page that it fails to write. -/
theorem cache_kept_iff (g : Geom) (m : Media) (ops : List CacheOp) (s : Caches) :
    Along (CacheOp.run g m) (CacheOp.Keeps g m) ops s ↔ Along (CacheOp.run g m) (CacheOp.Stored g m) ops s := by
  refine Along.congr (fun s op => ?_) ops s
  cases op with
  | writesect sect buffer => exact iff_of_true (writesect_keeps g m s sect buffer) trivial
  | readsect sect buffer => exact iff_of_true (readsect_keeps sect buffer) trivial
  | writesects sect buffer count => exact writesects_keeps_iff sect buffer count
  | readsects sect buffer count => exact readsects_keeps_iff sect buffer count
  | flush => exact flush_keeps_iff
  | removeDev => exact iff_of_true removeDev_keeps trivial

end keeps

/-! ## A page that is dropped -/

/-- The third call of `nftl_write_logicpage` or `nftl_read_logicpage` fails. -/
def thirdFails : Media := ⟨fun t => if t = 2 then -1 else 0, fun _ => 0, fun _ buffer => buffer⟩

/-- Pages 4 and 5 are written, page 5 to the write-back page; its write, at the head of a multi-sector write of page 0,
fails, and that call returns 0. -/
theorem dirty_page_dropped :
    results (CacheOp.run eightPages thirdFails)
      [.writesect 4 fun _ => 7, .writesect 5 fun _ => 8, .writesects 0 (fun _ => 9) 8] .init
      = [.ok (some 0), .ok (some 0), .ok (some 0)] ∧
    ¬ Along (CacheOp.run eightPages thirdFails) (CacheOp.Keeps eightPages thirdFails)
      [.writesect 4 fun _ => 7, .writesect 5 fun _ => 8, .writesects 0 (fun _ => 9) 8] .init := by
  refine ⟨by rfl, fun h => ?_⟩
  have hstored := (writesects_keeps_iff 0 (fun _ => 9) 8).mp h.2.2.1
  exact absurd (hstored (by decide +kernel)) (by decide +kernel)

end Emlinux.Blk
