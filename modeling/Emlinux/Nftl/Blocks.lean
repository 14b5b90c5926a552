import Emlinux.Nftl.Nand

/-!
# Free blocks, garbage and write errors

The block allocator of `nftlmount.c`, its garbage table (`nftl_addto_gt`, `nftl_reclaim_garbages`), and the
handlers that move a block after a failed program operation.
-/

namespace Emlinux.Nftl

open Lib

variable (d : Device)

/-! ## The free list -/

/-- `nftl_set_block_free`: counts the block only when it was not free. -/
def nftlSetBlockFree (block : Nat) : M Int := do
  let s ← Prog.get
  if d.blks < block then pure (-1)
  else if s.al.blockstatus block then pure 0
  else
    Prog.modify fun s => { s with al := { s.al with
      blockstatus := Function.update s.al.blockstatus block true
      freeBlkcnt := (s.al.freeBlkcnt + 1) % 65536 } }
    pure 0

/-- `nftl_set_block_nofree`: counts down whether or not the block was free. -/
def nftlSetBlockNofree (block : Nat) : M Int := do
  if d.blks < block then pure (-1)
  else
    Prog.modify fun s => { s with al := { s.al with
      blockstatus := Function.update s.al.blockstatus block false
      freeBlkcnt := (s.al.freeBlkcnt + 65535) % 65536
      lastfree := block } }
    pure 0

/-- `nftl_set_block_bad`: counts down whether or not the block was free. -/
def nftlSetBlockBad (block : Nat) : M Int := do
  if d.blks < block then pure (-1)
  else
    Prog.modify fun s => { s with al := { s.al with
      blockstatus := Function.update s.al.blockstatus block false
      freeBlkcnt := (s.al.freeBlkcnt + 65535) % 65536 } }
    pure 0

/-- The search loop of `nftl_get_free_block`: `k` rounds from `nextfree` on, wrapping behind `nr_blks`. -/
def findFree (bs : Nat → Bool) : Nat → Nat → Except Fault (Option Nat)
  | 0, _ => .ok none
  | k + 1, nextfree =>
    if nextfree < 4096 then
      if bs nextfree then .ok (some nextfree)
      else findFree bs k (if d.blks < nextfree + 1 then 0 else nextfree + 1)
    else .error (.bounds .blockstatus nextfree)

/-- `0xFFFF`, logged together with whether a free block was left. -/
def noFreeBlock : M Nat := do
  let s ← Prog.get
  Prog.emit (.noFree ((List.range d.blks).any s.al.blockstatus))
  pure noBlock

def nftlGetFreeBlock : M Nat := do
  let s ← Prog.get
  if s.al.freeBlkcnt = 0 then noFreeBlock d
  else
    let nextfree := if d.blks < s.al.lastfree then 0 else s.al.lastfree
    match ← Prog.lift (findFree d s.al.blockstatus (2 * d.blks - s.al.lastfree) nextfree) with
    | some b => do
      let _ ← nftlSetBlockNofree d b
      pure b
    | none => noFreeBlock d

/-! ## Erase and program failures -/

def nftlEraseError (block : Nat) : M Int := do
  let _ ← nftlSetBlockBad d block
  blockMarkbad d block

/-- `nftl_block_replace`: the error of a read is ignored and the buffer is written as it is. -/
def nftlBlockReplace (srcBlk dstBlk pagecnt : Nat) : M Int := do
  let databuff ← kmalloc d
  let info ← stackInfo d
  let r ← Prog.loop (fun i buf => do
    let rd ← mtdRead d srcBlk i
    let buf := rd.getD buf
    let ret ← mtdWrite d dstBlk i buf
    if ret ≠ 0 then pure (LoopFlow.brk ret) else pure (LoopFlow.next buf)) pagecnt 0
    (⟨databuff, ⟨.badBlock, info⟩⟩ : Page)
  match r with
  | .brk ret => pure ret
  | .next _ => pure 0

def nftlCopyback (srcBlk srcPg dstBlk dstPg : Nat) (dstBlkType : BlockState) : M Int := do
  let _ ← kmalloc d
  match ← mtdRead d srcBlk srcPg with
  | none => pure eio
  | some pg =>
    let spare := if dstBlkType ≠ .free then { pg.spare with blocktype := dstBlkType } else pg.spare
    mtdWrite d dstBlk dstPg ⟨pg.data, spare⟩

/-- The retry loop shared by `nftl_write_error` and `nftl_copyback_error`: take a free block, copy the pages
before `page` from `block`, then `put` the page itself. A backup block that fails is marked bad and the next
one is tried; on success the old block is marked bad. Every round takes a block off the free list. -/
def relocate (block page : Nat) (put : Nat → M Int) : Nat → M Nat
  | 0 => Prog.fault .fuel
  | k + 1 => do
    let backup ← nftlGetFreeBlock d
    if backup = noBlock then pure noBlock
    else
      let ret ← nftlBlockReplace d block backup page
      if ret ≠ 0 then
        let _ ← blockMarkbad d backup
        let _ ← nftlSetBlockBad d backup
        relocate block page put k
      else
        let ok ← put backup
        if ok = 0 then
          let _ ← blockMarkbad d block
          let _ ← nftlSetBlockBad d block
          pure backup
        else
          let _ ← blockMarkbad d backup
          let _ ← nftlSetBlockBad d backup
          relocate block page put k

def nftlWriteError (block page : Nat) (pg : Page) : M Nat :=
  relocate d block page (fun backup => mtdWrite d backup page pg) (d.blks + 2)

def nftlCopybackError (srcBlk srcPg dstBlk dstPg : Nat) (dstBlkType : BlockState) : M Nat :=
  relocate d dstBlk dstPg (fun backup => nftlCopyback d srcBlk srcPg backup dstPg dstBlkType) (d.blks + 2)

/-! ## Garbage -/

/-- One garbage block of `nftl_reclaim_garbages`; the loop carries `ret`. -/
def reclaimBlock (b : Nat) (ret : Int) : M (LoopFlow Int Int) := do
  if b = noBlock then pure (.next ret)
  else
    let ret ← mtdErase d b
    if ret ≠ 0 then
      if d.blks < b then pure (.brk (-1))
      else do
        let ret ← nftlEraseError d b
        pure (.next ret)
    else
      let ret ← nftlSetBlockFree d b
      pure (.next ret)

/-- The GarbageTab block itself is erased after the blocks it lists. -/
def reclaimTab (ret : Int) : M Int := do
  let s ← Prog.get
  if s.al.gtPba = noBlock then pure ret
  else
    let ret ← mtdErase d s.al.gtPba
    let ret ← (if ret ≠ 0 then nftlEraseError d s.al.gtPba else nftlSetBlockFree d s.al.gtPba)
    Prog.modify fun s => { s with al := { s.al with gtPba := noBlock } }
    pure ret

def nftlReclaimGarbages : M Int := do
  let s ← Prog.get
  if s.al.gar = [] then pure 0
  else
    match ← Prog.each (reclaimBlock d) s.al.gar 0 with
    | .brk ret => pure ret
    | .next ret => do
      let ret ← reclaimTab d ret
      Prog.modify fun s => { s with al := { s.al with gar := [], gtPgcnt := 0 } }
      noteTables
      pure ret

/-- `gar_pbas[gar_blkcnt] = b; gar_blkcnt++`. -/
def pushGar (b : Nat) : M Unit := do
  let s ← Prog.get
  if s.al.gar.length < garbageMaxCnt then
    Prog.modify fun s => { s with al := { s.al with gar := s.al.gar ++ [b] } }
    noteTables
  else Prog.fault (.bounds .garPbas s.al.gar.length)

/-- The data of a GarbageTab page. -/
def gtData (garbages : List Nat) : PageData :=
  garbages.zipIdx.foldl (fun dat x => setWord dat x.2 x.1) ffData

/-- The three triggers at the end of `nftl_addto_gt`, one after the other. -/
def reclaimIf (p : Alloc → Bool) (ret : Int) : M Int := do
  let s ← Prog.get
  if p s.al then nftlReclaimGarbages d else pure ret

/-- A GarbageTab block is allocated when there is none. -/
def openGt : M Unit := do
  let s ← Prog.get
  if s.al.gtPba = noBlock then do
    let b ← nftlGetFreeBlock d
    Prog.modify fun s => { s with al := { s.al with gtPba := b } }
  else pure ()

/-- The next page of the GarbageTab block is programmed; after an error the block is another one. -/
def writeGt (pageofs : Nat) (pg : Page) : M Unit := do
  let s ← Prog.get
  let ret ← mtdWrite d s.al.gtPba pageofs pg
  if ret ≠ 0 then do
    let b ← nftlWriteError d s.al.gtPba pageofs pg
    Prog.modify fun s => { s with al := { s.al with gtPba := b } }
  else pure ()

def nftlAddtoGt (garbages : List Nat) : M Int := do
  let _ ← kmalloc d
  let s ← Prog.get
  let blkindx := s.al.gtPgcnt / d.pgs
  let pageofs := s.al.gtPgcnt % d.pgs
  if gtMaxBlocks ≤ blkindx then Prog.fault (.bounds .gtPbas blkindx)
  else
    openGt d
    let _ ← Prog.each (ρ := Unit) (fun b _ => do pushGar b; pure (LoopFlow.next ())) garbages ()
    writeGt d pageofs ⟨gtData garbages, ⟨.garbageTab, Spare.gtInfo blkindx garbages.length⟩⟩
    Prog.modify fun s => { s with al := { s.al with gtPgcnt := (s.al.gtPgcnt + 1) % 256 } }
    let ret ← reclaimIf d (fun al => d.pgs * gtMaxBlocks / 2 ≤ al.gtPgcnt) 0
    let ret ← reclaimIf d (fun al => garbageMaxCntDiv2 ≤ al.gar.length) ret
    let ret ← reclaimIf d (fun al => al.freeBlkcnt ≤ miniFreeBlock && 0 < al.gar.length) ret
    let s ← Prog.get
    if s.al.gar.any (fun b => d.blks < b) then pure 1 else pure ret

end Emlinux.Nftl
