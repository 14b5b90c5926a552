import Emlinux.Nftl.DataLog

/-!
# Mounting

`NFTL_mount` rebuilds the RAM tables from the spare areas: it finds the GarbageTab block and its list, then
decides the role of every block from page 0 (and, for a DataLog block, from the last page), and formats the
MapTab blocks when there are none.
-/

namespace Emlinux.Nftl

open Lib

variable (d : Device)

/-- The entries `k < n` of one GarbageTab page, up to the first `0xffff`. -/
def readGarPage (dat : PageData) (n : Nat) : M Unit := do
  let _ ← Prog.loop (fun k (_ : Unit) => do
    if word dat k = noBlock then pure (LoopFlow.brk ())
    else do
      pushGar (word dat k)
      pure (LoopFlow.next ())) n 0 ()

/-- `nftl_get_gar_blks`, for the one GarbageTab block there is. -/
def nftlGetGarBlks (gtblock : Nat) : M Int := do
  Prog.modify fun s => { s with al := { s.al with gar := [], gtPgcnt := 0 } }
  if gtblock = noBlock then pure 0
  else
    let r ← Prog.loop (fun i (_ : Unit) => do
      match ← mtdRead d gtblock i with
      | none => pure (LoopFlow.brk (-22 : Int))
      | some pg =>
        if pg.spare.thiscount = 0xff then pure (LoopFlow.brk 0)
        else do
          readGarPage pg.data pg.spare.thiscount
          Prog.modify fun s => { s with al := { s.al with gtPgcnt := (s.al.gtPgcnt + 1) % 256 } }
          pure (LoopFlow.next ())) d.pgs 0 ()
    pure (match r with
      | .brk ret => ret
      | .next _ => 0)

/-- Step 1 for block `i`: its type byte, and whether it is the GarbageTab block. -/
def scanType (i : Nat) (types : Nat → BlockState) : M (LoopFlow Int (Nat → BlockState)) := do
  match ← mtdRead d i 0 with
  | none => pure (.brk (-1))
  | some pg => do
    let s ← Prog.get
    Prog.modify fun s' => if pg.spare.blocktype = .garbageTab ∧ s.nand.bad i = false ∧
        pg.spare.tabindx < gtMaxBlocks then { s' with al := { s'.al with gtPba := i } } else s'
    pure (.next (Function.update types i pg.spare.blocktype))

/-- Step 2.4: a MapTab block. -/
def scanMapTab (i : Nat) : M (LoopFlow Int Unit) := do
  match ← mtdRead d i 0 with
  | none => pure (.brk (-22))
  | some pg =>
    if pg.spare.tabindx < d.mtBlkcnt then do
      setMtPba pg.spare.tabindx i
      Prog.modify fun s => if pg.spare.tabindx = 0 then
        { s with al := { s.al with lastfree := pg.spare.pageofs } } else s
      pure (.next ())
    else pure (.brk 1)

/-- The `while (1)` scan of a log block: each programmed page (by `isFree` of its spare area) is added to the
entry `ptab` of the table, read and stored by `tab` and `put`. -/
def scanLog (c : LogCap) (tab : St → LogTab) (put : LogTab → M Unit) (isFree : Spare → Bool)
    (page : Spare → Nat) (keyOf : Spare → LogBlock → Nat) (i : Nat) : M (LoopFlow Int Unit) := do
  let r ← Prog.loop (fun used (_ : Unit) => do
    match ← mtdRead d i used with
    | none => pure (LoopFlow.brk (-22 : Int))
    | some pg =>
      if isFree pg.spare then pure (LoopFlow.brk 0)
      else do
        let s ← Prog.get
        let t ← Prog.lift ((tab s).scanPage c (keyOf pg.spare) (page pg.spare))
        put t
        pure (LoopFlow.next ())) d.pgs 0 ()
  let ret := match r with
    | .brk ret => ret
    | .next _ => 0
  if ret ≠ 0 then pure (.brk ret)
  else do
    let s ← Prog.get
    put { tab s with blkcnt := (tab s).blkcnt + 1 }
    pure (.next ())

/-- Step 2.5: an MTLog block. -/
def scanMtLog (i : Nat) : M (LoopFlow Int Unit) := do
  match ← mtdRead d i 0 with
  | none => pure (.brk (-22))
  | some pg =>
    if pg.spare.tabindx < d.mtBlkcnt then do
      let s ← Prog.get
      let t ← Prog.lift (s.mt.mtl.setBlock mtlCap s.mt.mtl.blkcnt ⟨pg.spare.tabindx, i, 0, 0⟩)
      setMtl t
      scanLog d mtlCap (fun s => s.mt.mtl) setMtl (fun sp => sp.tabindx = 0xff) Spare.pageofs
        (fun _ b => b.key) i
    else pure (.brk 1)

/-- Step 2.6: a DataLog block, unless its last page says that it was converted. -/
def scanDataLog (i : Nat) : M (LoopFlow Int Unit) := do
  match ← mtdRead d i (d.pgs - 1) with
  | none => pure (.brk (-22))
  | some pg =>
    if pg.spare.blocktype = .data then pure (.next ())
    else do
      let s ← Prog.get
      let b ← Prog.lift (s.dl.blockAt dlCap s.dl.blkcnt)
      let t ← Prog.lift (s.dl.setBlock dlCap s.dl.blkcnt ⟨b.key, i, 0, 0⟩)
      setDl t
      scanLog d dlCap (fun s => s.dl) setDl (fun sp => sp.lpa = 0xffffffff) Spare.lpa
        (fun sp b => if b.used + 1 < 2 then sp.lpa / d.pgs else b.key) i

/-- Step 2 for block `i`. -/
def scanBlock (types : Nat → BlockState) (i : Nat) (_ : Unit) : M (LoopFlow Int Unit) := do
  let s ← Prog.get
  if s.nand.bad i = true ∨ types i = .bbt then do
    Prog.modify fun s => { s with gBadblkcnt := s.gBadblkcnt + 1 }
    pure (.next ())
  else match types i with
    | .garbageTab => pure (.next ())
    | .free => do
      let _ ← nftlSetBlockFree d i
      pure (.next ())
    | .data => pure (.next ())
    | ty =>
      if i ∈ s.al.gar then pure (.next ())
      else match ty with
        | .mapTab => scanMapTab d i
        | .mtLog => scanMtLog d i
        | .dataLog => scanDataLog d i
        | _ => pure (.next ())

/-- A new MapTab block is taken for its first page. -/
def openMapTab (i : Nat) : M Bool := do
  if i % d.pgs = 0 then do
    Prog.modify fun s => { s with al := { s.al with lastfree := 0 } }
    let b ← nftlGetFreeBlock d
    setMtPba (i / d.pgs) b
    pure (decide (b ≠ noBlock))
  else pure true

def writeMapTab (i : Nat) (pg : Page) : M Unit := do
  let b ← mtPbaAt (i / d.pgs)
  let ret ← mtdWrite d b (i % d.pgs) pg
  if ret ≠ 0 then do
    let nb ← nftlWriteError d b (i % d.pgs) pg
    setMtPba (i / d.pgs) nb
  else pure ()

/-- Page `i` of the first MapTab; `info` is the spare area carried from page to page. -/
def formatPage (i info : Nat) : M (LoopFlow Int Nat) := do
  let ok ← openMapTab d i
  if ok then do
    let s ← Prog.get
    let info := Spare.setTab info (i / d.pgs) (if i = 0 then s.al.lastfree else info / 256)
    writeMapTab d i ⟨ffData, ⟨.mapTab, info⟩⟩
    pure (.next info)
  else pure (.brk (-1))

/-- Step 3: the MapTab blocks are created in the first mount. -/
def formatMapTab : M Int := do
  let first ← mtPbaAt 0
  let last ← mtPbaAt (d.mtBlkcnt - 1)
  let s ← Prog.get
  if (first = noBlock ∨ last = noBlock) ∧ s.mt.mtl.blkcnt = 0 then do
    let info ← stackInfo d
    let r ← Prog.loop (formatPage d) d.nrMtpage 0 info
    pure (match r with
      | .brk ret => ret
      | .next _ => 0)
  else pure 0

/-- `g_storagesize`, in 32-bit arithmetic. -/
def storagesize (badblkcnt : Nat) : Nat :=
  (2 ^ 32 + d.blks - badblkcnt % 2 ^ 32 - d.blks / 8) * d.erasesize % 2 ^ 32

/-- The RAM initialisation at the head of `NFTL_mount`. -/
def mountInit : M Unit := do
  if mtMaxBlocks < d.mtBlkcnt then Prog.fault (.bounds .mtPbas (d.mtBlkcnt - 1))
  else
    Prog.modify fun s => { s with
      al := { s.al with blockstatus := fun _ => false, gtPba := noBlock }
      mt := { s.mt with
        mtPbas := fun i => if i < d.mtBlkcnt then noBlock else s.mt.mtPbas i
        mtl := { s.mt.mtl with transtab := fun _ => ⟨0, 0⟩ }
        cacheblock := 0xffff, cachepage := 0xff, readcache := ffData } }

/-- The usable size is computed, and the MapTab blocks are created in the first mount. -/
def mountEnd : M Int := do
  Prog.modify fun s => { s with gStoragesize := storagesize d s.gBadblkcnt }
  let s ← Prog.get
  if s.gStoragesize < 500 then pure (-1) else formatMapTab d

def nftlMount : M Int := do
  mountInit d
  match ← Prog.loop (scanType d) d.blks 0 (fun _ => .badBlock) with
  | .brk ret => pure ret
  | .next types => do
    let s ← Prog.get
    let ret ← (if s.al.gtPba ≠ noBlock then nftlGetGarBlks d s.al.gtPba else pure 0)
    if ret ≠ 0 then pure ret
    else
      match ← Prog.loop (scanBlock d types) d.blks 0 () with
      | .brk ret => pure ret
      | .next _ => mountEnd d

end Emlinux.Nftl
