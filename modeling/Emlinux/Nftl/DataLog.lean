import Emlinux.Nftl.Map

/-!
# DataLog blocks, and reading and writing logical pages

A written page goes to the DataLog block of its logical block; a full DataLog block is merged with the Data
block of the map into a new Data block, or becomes the Data block itself when it was filled in order.
-/

namespace Emlinux.Nftl

open Lib

variable (d : Device)

def setDl (t : LogTab) : M Unit := do
  Prog.modify fun s => { s with dl := t }
  noteTables

def nftlFindLpaInDl (lpa : Nat) : M (Option (Nat × Nat)) := do
  let s ← Prog.get
  Prog.lift (s.dl.findPage dlCap (lpa / d.pgs) lpa s.dl.blkcnt 0 0)

def nftlUpdateDlRam (operation : RamOp) (index lpa pba : Nat) : M Int := do
  let s ← Prog.get
  let lba := lpa / d.pgs
  match operation with
  | .append => do
    let t ← Prog.lift (s.dl.append dlCap lba lpa pba)
    setDl t
    pure 0
  | .insert => do
    let t ← Prog.lift (s.dl.insert dlCap index lpa)
    setDl t
    pure 0
  | .delete => do
    let t ← Prog.lift (s.dl.delete dlCap index)
    setDl t
    pure 0
  | .update => do
    let r ← Prog.lift (s.dl.update dlCap (fun b => b.key = lba) pba)
    setDl r.2
    pure (match r.1 with
      | some used => used
      | none => -1)

/-- `nftl_find_lba_in_dl`: the index found, or `dl_blkcnt` (`FIND_FAIL`). -/
def nftlFindLbaInDl (lba : Nat) : M Nat := do
  let s ← Prog.get
  Prog.lift (s.dl.findBlock dlCap (fun b => b.key = lba) s.dl.blkcnt 0)

/-- Page 0 of a logical block without Data block: `tempbuf` as `kmalloc` returned it, so that the spare area
marks the block. -/
def markDataBlock (temp i : Nat) (tempbuf : PageData) : M (LoopFlow Int Nat) := do
  let info ← stackInfo d
  let pg : Page := ⟨tempbuf, ⟨.data, info⟩⟩
  let ret ← mtdWrite d temp i pg
  if ret ≠ 0 then do
    let temp ← nftlWriteError d temp i pg
    pure (LoopFlow.next temp)
  else pure (LoopFlow.next temp)

/-- Page `i` of the new Data block of a merge: from the DataLog block, or from the old Data block. -/
def mergeDlPage (dlPba : Nat) (factppa : List Nat) (pba : Nat) (tempbuf : PageData) (i temp : Nat) :
    M (LoopFlow Int Nat) := do
  let fact := factppa.getD i 0xff
  let r ← (if fact ≠ 0xff then mergePage d dlPba fact temp i .data
    else if pba ≠ noBlock then mergePage d pba i temp i .data
    else if i = 0 then markDataBlock d temp i tempbuf
    else pure (LoopFlow.next temp))
  match r with
  | .brk ret => pure (.brk ret)
  | .next temp => if temp = noBlock then pure (.brk (-1)) else pure (.next temp)

def nftlMergeDlblk (index : Nat) : M Int := do
  let tempbuf ← kmalloc d
  let s ← Prog.get
  let b ← Prog.lift (s.dl.blockAt dlCap index)
  let lba := b.key
  let factppa ← Prog.lift (s.dl.factPpas dlCap (lba * d.pgs) index d.pgs)
  let m ← nftlLbaToPba d lba
  let pba := m.2
  let tempdatablock ← nftlGetFreeBlock d
  if tempdatablock = noBlock then pure (-1)
  else
    match ← Prog.loop (mergeDlPage d b.pba factppa pba tempbuf) d.pgs 0 tempdatablock with
    | .brk ret => pure ret
    | .next temp => do
      let _ ← nftlAddtoGt d (if pba ≠ noBlock then [b.pba, pba] else [b.pba])
      let _ ← nftlUpdateMt d lba temp
      nftlUpdateDlRam d .delete index 0 0

/-- A page read that corrected too many bits has its block moved by `move`; `1` when that is given up. -/
def nftlReadPage (pba pageofs : Nat) (move : M Int) : M (Int × Option PageData) := do
  let r ← mtdRead d pba pageofs
  let s ← Prog.get
  let ret : Int := if r.isSome then 0 else -22
  if eccErrLimit < s.nand.ecc then do
    let ret ← move
    pure (ret, r.map Page.data)
  else pure (ret, r.map Page.data)

/-- The move of a DataLog block: only the used pages are copied. -/
def moveDlBlock (lpa pba : Nat) : M Int := do
  let newBlk ← nftlGetFreeBlock d
  if newBlk = noBlock then pure 1
  else
    let cnt ← nftlUpdateDlRam d .update 0 lpa newBlk
    let ret ← nftlBlockReplace d pba newBlk (toU8 cnt)
    if ret ≠ 0 then pure 1
    else
      let ret ← nftlAddtoGt d [pba]
      if ret ≠ 0 then pure 1 else pure 0

/-- The move of a Data block, all pages. -/
def moveDataBlock (lba pba : Nat) : M Int := do
  let newBlk ← nftlGetFreeBlock d
  if newBlk = noBlock then pure 1
  else
    let ret ← nftlBlockReplace d pba newBlk d.pgs
    if ret ≠ 0 then pure 1
    else
      let ret ← nftlUpdateMt d lba newBlk
      if ret ≠ 0 then pure 1
      else
        let ret ← nftlAddtoGt d [pba]
        if ret ≠ 0 then pure 1 else pure 0

/-- `nftl_read_logicpage`: the return code and the bytes stored in `databuff`, if any. -/
def nftlReadLogicpage (lpa : Nat) : M (Int × Option PageData) := do
  if d.maxlp ≤ lpa then pure (-1, none)
  else
    match ← nftlFindLpaInDl d lpa with
    | some a => nftlReadPage d a.1 a.2 (moveDlBlock d lpa a.1)
    | none => do
      let lba := lpa / d.pgs
      let m ← nftlLbaToPba d lba
      if m.2 ≠ noBlock then nftlReadPage d m.2 (lpa % d.pgs) (moveDataBlock d lba m.2)
      else pure (0, some ffData)

/-- `for (i = 0; i < dl_blkcnt; i++)`: the first DataLog block whose logical block has a Data block, and the
last return code of `nftl_lba_to_pba`. (The search for the fullest block that precedes it in the source has
no effect: its index is replaced, or not used.) -/
def findMappedDl (ret : Int) : M (Option Nat × Int) := do
  let s ← Prog.get
  let r ← Prog.loop (fun i (_ : Int) => do
    let s ← Prog.get
    let b ← Prog.lift (s.dl.blockAt dlCap i)
    let m ← nftlLbaToPba d b.key
    if m.1 = 0 ∧ m.2 ≠ noBlock then pure (LoopFlow.brk (i, m.1)) else pure (LoopFlow.next m.1)) s.dl.blkcnt 0 ret
  pure (match r with
    | .brk x => (some x.1, x.2)
    | .next ret => (none, ret))

/-- `while (more) { … merge … }` at the head of a write; `LoopFlow.brk` is its `return -1`. -/
def mergeWhile (more : LogTab → Bool) : Nat → M (LoopFlow Int Unit)
  | 0 => Prog.fault .fuel
  | k + 1 => do
    let s ← Prog.get
    if more s.dl then
      let m ← findMappedDl d 0
      match m.1 with
      | none => pure (.next ())
      | some i => do
        let ret ← nftlMergeDlblk d i
        if ret ≠ 0 then pure (.brk (-1)) else mergeWhile more k
    else pure (.next ())

/-- `if (trigger) while (more) …`. -/
def mergeWhen (trigger more : LogTab → Bool) : M (LoopFlow Int Unit) := do
  let s ← Prog.get
  if trigger s.dl then mergeWhile d more (s.dl.blkcnt + 1) else pure (.next ())

/-- Both merge loops at the head of `nftl_write_logicpage`. -/
def mergeHead : M (LoopFlow Int Unit) := do
  match ← mergeWhen d (fun t => dlMaxBlocksDiv4 ≤ t.blkcnt) (fun t => dlMaxBlocksDiv8 < t.blkcnt) with
  | .brk ret => pure (.brk ret)
  | .next _ => mergeWhen d (fun t => dlMaxPagesDiv4 ≤ t.pgcnt) (fun t => dlMaxPagesDiv8 < t.pgcnt)

/-- Where a write goes. -/
structure Target where
  op : RamOp
  index : Nat
  block : Nat
  page : Nat

/-- The DataLog block of `lba` and its next page. At the last page the block is converted (`delete`) when
page `i` of it holds page `i` of the logical block for every earlier page. -/
def writeTarget (lba : Nat) : M Target := do
  let index ← nftlFindLbaInDl lba
  let s ← Prog.get
  if index < s.dl.blkcnt then do
    let b ← Prog.lift (s.dl.blockAt dlCap index)
    if b.used = d.pgs - 1 then do
      let factppa ← Prog.lift (s.dl.factPpas dlCap (lba * d.pgs) index (d.pgs - 1))
      let op := if factppa = List.range (d.pgs - 1) then RamOp.delete else RamOp.insert
      pure ⟨op, index, b.pba, b.used⟩
    else pure ⟨.insert, index, b.pba, b.used⟩
  else do
    let b ← nftlGetFreeBlock d
    pure ⟨.append, index, b, 0⟩

/-- The page is programmed; after an error `tempblock` is the block it was moved to. -/
def writeDlPage (t : Target) (pg : Page) : M Nat := do
  let ret ← mtdWrite d t.block t.page pg
  if ret ≠ 0 then do
    let nb ← nftlWriteError d t.block t.page pg
    if t.op = .insert then do
      let s ← Prog.get
      let b ← Prog.lift (s.dl.blockAt dlCap t.index)
      let tab ← Prog.lift (s.dl.setBlock dlCap t.index { b with pba := nb })
      setDl tab
    pure nb
  else pure t.block

/-- A full DataLog block becomes the Data block of `lba`. -/
def convertDl (lba tempblock : Nat) : M Int := do
  let m ← nftlLbaToPba d lba
  let _ ← (if m.2 ≠ noBlock then nftlAddtoGt d [m.2] else pure 0)
  nftlUpdateMt d lba tempblock

/-- The last step of a write: with few free blocks left, one more merge. -/
def mergeTail (ret : Int) : M Int := do
  let s ← Prog.get
  if s.al.freeBlkcnt ≤ miniFreeBlock then do
    let m ← findMappedDl d ret
    match m.1 with
    | none => pure m.2
    | some i => do
      let ret ← nftlMergeDlblk d i
      if ret ≠ 0 then pure (-1) else pure ret
  else pure ret

/-- The page is programmed and the tables follow it; `false` when the map could not be changed. -/
def storePage (t : Target) (lpa : Nat) (databuff : PageData) : M Bool := do
  let ty := if t.op = .delete then BlockState.data else BlockState.dataLog
  let tempblock ← writeDlPage d t ⟨databuff, ⟨ty, lpa⟩⟩
  let conv ← (if t.op = .delete then convertDl d (lpa / d.pgs) tempblock else pure 0)
  if conv ≠ 0 then pure false
  else do
    let _ ← nftlUpdateDlRam d t.op t.index lpa tempblock
    pure true

/-- A DataLog block that is full now is merged. -/
def mergeFull (index : Nat) : M Int := do
  let s ← Prog.get
  let b ← Prog.lift (s.dl.blockAt dlCap index)
  if b.used = d.pgs then nftlMergeDlblk d index else pure 0

/-- The merges behind the store. -/
def finishWrite (index : Nat) : M Int := do
  let ret ← mergeFull d index
  if ret ≠ 0 then pure (-1) else mergeTail d ret

/-- A write after the merges at its head. -/
def writeBody (lpa : Nat) (databuff : PageData) : M Int := do
  let t ← writeTarget d (lpa / d.pgs)
  let stored ← storePage d t lpa databuff
  if stored = true then finishWrite d t.index else pure (-1)

def nftlWriteLogicpage (lpa : Nat) (databuff : PageData) : M Int := do
  match ← mergeHead d with
  | .brk ret => pure ret
  | .next _ => writeBody d lpa databuff

end Emlinux.Nftl
