import Emlinux.Nftl.Blocks

/-!
# The mapping table

The logical-to-physical block map lives in MapTab pages; a changed page is written to the MTLog block of its
MapTab block, and a full MTLog block is merged into a new MapTab block. `mt_readcache` holds the page last
looked up or written.
-/

namespace Emlinux.Nftl

open Lib

variable (d : Device)

/-- The `operation` argument of the two table updates. -/
inductive RamOp where
  | append | insert | delete | update
deriving DecidableEq, Repr

/-- A result stored in a `uint8_t`. -/
def toU8 (r : Int) : Nat := (r % 256).toNat

def setMtl (t : LogTab) : M Unit := do
  Prog.modify fun s => { s with mt := { s.mt with mtl := t } }
  noteTables

/-- `mt_pbas[i]`. -/
def mtPbaAt (i : Nat) : M Nat := do
  let s ← Prog.get
  if i < mtMaxBlocks then pure (s.mt.mtPbas i) else Prog.fault (.bounds .mtPbas i)

/-- `mt_pbas[i] = b`. -/
def setMtPba (i b : Nat) : M Unit := do
  if i < mtMaxBlocks then
    Prog.modify fun s => { s with mt := { s.mt with mtPbas := Function.update s.mt.mtPbas i b } }
  else Prog.fault (.bounds .mtPbas i)

def nftlFindMtpgInMtl (mtpgofs : Nat) : M (Option (Nat × Nat)) := do
  let s ← Prog.get
  Prog.lift (s.mt.mtl.findPage mtlCap (mtpgofs / d.pgs) mtpgofs s.mt.mtl.blkcnt 0 0)

def nftlGetPhysicalMt (mtpgofs : Nat) : M (Nat × Nat) := do
  match ← nftlFindMtpgInMtl d mtpgofs with
  | some a => pure a
  | none => do
    let b ← mtPbaAt (mtpgofs / d.pgs)
    pure (b, mtpgofs % d.pgs)

/-- `nftl_find_mtl_ram`: the index found, or `mtl_blkcnt` (`FIND_FAIL`). -/
def nftlFindMtlRam (mtindex : Nat) : M Nat := do
  let s ← Prog.get
  Prog.lift (s.mt.mtl.findBlock mtlCap (fun b => b.key = mtindex) s.mt.mtl.blkcnt 0)

def nftlUpdateMtlRam (operation : RamOp) (index mtpgofs mtlblock newMtlblock : Nat) : M Int := do
  let s ← Prog.get
  let mtindex := mtpgofs / d.pgs
  match operation with
  | .append => do
    let t ← Prog.lift (s.mt.mtl.append mtlCap mtindex mtpgofs mtlblock)
    setMtl t
    pure 0
  | .insert => do
    let t ← Prog.lift (s.mt.mtl.insert mtlCap index mtpgofs)
    setMtl t
    pure 0
  | .delete => do
    let t ← Prog.lift (s.mt.mtl.delete mtlCap index)
    setMtl t
    pure 0
  | .update => do
    let r ← Prog.lift (s.mt.mtl.update mtlCap (fun b => b.key = mtindex && b.pba = mtlblock) newMtlblock)
    setMtl r.2
    pure (match r.1 with
      | some used => used
      | none => -1)

/-- Page `i` of a merge: copied from (`srcBlk`, `srcPg`), to another block when the program fails. -/
def mergePage (srcBlk srcPg temp i : Nat) (ty : BlockState) : M (LoopFlow Int Nat) := do
  let ret ← nftlCopyback d srcBlk srcPg temp i ty
  if ret = eio then pure (.brk eio)
  else if ret ≠ 0 then do
    let temp ← nftlCopybackError d srcBlk srcPg temp i ty
    pure (.next temp)
  else pure (.next temp)

def nftlMergeMtlblk (ramindex : Nat) : M Int := do
  let s ← Prog.get
  let b ← Prog.lift (s.mt.mtl.blockAt mtlCap ramindex)
  let mtindex := b.key
  let tempmtblock ← nftlGetFreeBlock d
  let factppa ← Prog.lift (s.mt.mtl.factPpas mtlCap (mtindex * d.pgs) ramindex d.pgs)
  let old ← mtPbaAt mtindex
  let r ← Prog.loop (fun i temp =>
    let fact := factppa.getD i 0xff
    if fact ≠ 0xff then mergePage d b.pba fact temp i .mapTab
    else mergePage d old i temp i .mapTab) d.pgs 0 tempmtblock
  match r with
  | .brk ret => pure ret
  | .next temp => do
    let _ ← nftlAddtoGt d [old, b.pba]
    setMtPba mtindex temp
    nftlUpdateMtlRam d .delete ramindex 0 0 0

/-- The map page `mtpgofs` in `mt_readcache`: read unless it is there already. `false` is a read error. -/
def cacheMtPage (mtblock mtpage : Nat) : M Bool := do
  let s ← Prog.get
  if mtblock = s.mt.cacheblock ∧ mtpage = s.mt.cachepage then pure true
  else
    let r ← mtdRead d mtblock mtpage
    Prog.modify fun s => { s with mt := { s.mt with
      readcache := (r.map Page.data).getD s.mt.readcache, cacheblock := mtblock, cachepage := mtpage } }
    pure r.isSome

/-- The MTLog block of `mtindex` in entry `ramindex`, or a new one: what to do with the table, the block and
the page to program. -/
def mtlTarget (ramindex : Nat) : M (RamOp × Nat × Nat) := do
  let s ← Prog.get
  if ramindex < s.mt.mtl.blkcnt then do
    let b ← Prog.lift (s.mt.mtl.blockAt mtlCap ramindex)
    pure (RamOp.insert, b.pba, b.used)
  else do
    let b ← nftlGetFreeBlock d
    pure (RamOp.append, b, 0)

/-- The page is programmed. After an error the new block goes to the table entry of an `insert`; the
caller's `mtlblock` keeps the old one. -/
def writeMtlPage (operation : RamOp) (ramindex mtlblock mtlpage : Nat) (pg : Page) : M Unit := do
  let ret ← mtdWrite d mtlblock mtlpage pg
  Prog.modify fun s => { s with mt := { s.mt with cacheblock := mtlblock, cachepage := mtlpage } }
  if ret ≠ 0 then do
    let nb ← nftlWriteError d mtlblock mtlpage pg
    let s ← Prog.get
    match operation with
    | .insert => do
      let b ← Prog.lift (s.mt.mtl.blockAt mtlCap ramindex)
      let t ← Prog.lift (s.mt.mtl.setBlock mtlCap ramindex { b with pba := nb })
      setMtl t
    | _ => pure ()
  else pure ()

def nftlUpdateMt (lba pba : Nat) : M Int := do
  let mtpgofs := lba / d.words
  let mtindex := mtpgofs / d.pgs
  let wordofs := lba % d.words
  let info ← stackInfo d
  let a ← nftlGetPhysicalMt d mtpgofs
  let _ ← cacheMtPage d a.1 a.2
  Prog.modify fun s => { s with mt := { s.mt with readcache := setWord s.mt.readcache wordofs pba } }
  let ramindex ← nftlFindMtlRam mtindex
  let o ← mtlTarget d ramindex
  let s ← Prog.get
  writeMtlPage d o.1 ramindex o.2.1 o.2.2 ⟨s.mt.readcache, ⟨.mtLog, Spare.setTab info mtindex mtpgofs⟩⟩
  let ret ← nftlUpdateMtlRam d o.1 ramindex mtpgofs o.2.1 0
  let s ← Prog.get
  let b ← Prog.lift (s.mt.mtl.blockAt mtlCap ramindex)
  if b.used = d.pgs then nftlMergeMtlblk d ramindex else pure ret

/-- `if (*pba != 0xffff && *pba > nr_blks) *pba = 0xffff`. -/
def clampPba (pba : Nat) : Nat := if pba ≠ noBlock ∧ d.blks < pba then noBlock else pba

/-- The block move of `nftl_lba_to_pba` when the read of a map page needed too many corrections: `0`, or `1`
when it is given up. -/
def moveMtPage (mtPgofs : Nat) : M Int := do
  match ← nftlFindMtpgInMtl d mtPgofs with
  | some (mtBlock, mtPage) => do
    let newBlk ← nftlGetFreeBlock d
    if newBlk = noBlock then pure 1
    else
      -- `mt_page` is passed where the table index is derived from the map page offset
      let cnt ← nftlUpdateMtlRam d .update 0 mtPage mtBlock newBlk
      let ret ← nftlBlockReplace d mtBlock newBlk (toU8 cnt)
      if ret ≠ 0 then pure 1
      else
        let ret ← nftlAddtoGt d [mtBlock]
        if ret ≠ 0 then pure 1 else pure 0
  | none => do
    let newBlk ← nftlGetFreeBlock d
    if newBlk = noBlock then pure 1
    else
      let mtBlock ← mtPbaAt (mtPgofs / d.pgs)
      setMtPba (mtPgofs / d.pgs) newBlk
      let ret ← nftlBlockReplace d mtBlock newBlk d.pgs
      if ret ≠ 0 then pure 1
      else
        let ret ← nftlAddtoGt d [mtBlock]
        if ret ≠ 0 then pure 1 else pure 0

/-- `nftl_lba_to_pba`: the return code and `*pba`. -/
def nftlLbaToPba (lba : Nat) : M (Int × Nat) := do
  let mtPgofs := lba / d.words
  let a ← nftlGetPhysicalMt d mtPgofs
  let ok ← cacheMtPage d a.1 a.2
  if ok then do
    let s ← Prog.get
    let pba := word s.mt.readcache (lba % d.words)
    if eccErrLimit < s.nand.ecc then do
      let ret ← moveMtPage d mtPgofs
      if ret ≠ 0 then pure (1, pba) else pure (0, clampPba d pba)
    else pure (0, clampPba d pba)
  else do
    let junk ← stackInfo d
    pure (-22, clampPba d (junk % 65536))

end Emlinux.Nftl
