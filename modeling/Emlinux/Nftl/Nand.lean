import Emlinux.Nftl.LogTab

/-!
# The flash, the RAM of the translation layer, and the MTD calls

The chip is a map from (block, page) to the page last programmed since the last erase. What the chip decides
at run time (a program or erase that fails, the corrected-bits count of a read, the content of fresh
`kmalloc` memory) is an arbitrary function of a call counter in `Device`, so a theorem over every `Device`
covers every behaviour of the chip.

The RAM of `nftlmount.c` is the record `St`. `mtdRead`, `mtdWrite` and `mtdErase` are the three functions of
the file that touch the chip; they leave an `Event` each, and `Disciplined` is the rule of NAND programming
on the log of events.
-/

namespace Emlinux.Nftl

open Lib

/-! ## Constants -/

abbrev miniFreeBlock : Nat := 20
abbrev mtMaxBlocks : Nat := 6
abbrev mtlMaxPages : Nat := 6 * 128
abbrev dlMaxBlocks : Nat := 128
abbrev dlMaxBlocksDiv4 : Nat := 32
abbrev dlMaxBlocksDiv8 : Nat := 16
abbrev dlMaxPages : Nat := 4096
abbrev dlMaxPagesDiv4 : Nat := 1024
abbrev dlMaxPagesDiv8 : Nat := 512
abbrev gtMaxBlocks : Nat := 1
abbrev garbageMaxCnt : Nat := 256
abbrev garbageMaxCntDiv2 : Nat := 128
abbrev eccErrLimit : Nat := 2

/-- `0xffff`: no block. -/
abbrev noBlock : Nat := 0xffff

/-- `EIO`. -/
abbrev eio : Int := 5

/-! ## Pages and spare areas -/

/-- `block_state`, the first spare byte of a page. `free` is the erased byte `0xff`. -/
inductive BlockState where
  | free | data | dataLog | mapTab | mtLog | garbageTab | bbt | badBlock
deriving DecidableEq, Repr

/-- `block_info`: the type byte, and the four bytes of the union as one little-endian number. -/
structure Spare where
  blocktype : BlockState
  info : Nat
deriving DecidableEq, Repr

namespace Spare

def lpa (sp : Spare) : Nat := sp.info

/-- First byte of the union: `mtspare.tabindx`, `mtlofs.tabindx` and `gtinfo.tabindx`. -/
def tabindx (sp : Spare) : Nat := sp.info % 256

/-- Bytes 1 and 2 of the union: `mtlofs.pageofs` and `mtspare.lastfree`. -/
def pageofs (sp : Spare) : Nat := sp.info / 256 % 65536

/-- Second byte of the union: `gtinfo.thiscount`. -/
def thiscount (sp : Spare) : Nat := sp.info / 256 % 256

/-- `tabindx` and the 16-bit field behind it are set, the last byte keeps what `old` had there. -/
def setTab (old tab ofs : Nat) : Nat := tab % 256 + 256 * (ofs % 65536) + 16777216 * (old / 16777216 % 256)

/-- `gtinfo` of a page of `cnt` garbage blocks, over bytes preset to `0xff`. -/
def gtInfo (tab cnt : Nat) : Nat := tab % 256 + 256 * (cnt % 256) + 65536 * 0xffff

end Spare

/-- The bytes of a page. -/
abbrev PageData := Nat → UInt8

/-- `memset(buf, 0xff, …)`. -/
def ffData : PageData := fun _ => 0xff

/-- `*(uint16_t *)(buf + 2 * k)` on a little-endian machine. -/
def word (dat : PageData) (k : Nat) : Nat := (dat (2 * k)).toNat + 256 * (dat (2 * k + 1)).toNat

/-- The two byte stores of `v` and `v >> 8` at word `k`. -/
def setWord (dat : PageData) (k v : Nat) : PageData :=
  Function.update (Function.update dat (2 * k) (UInt8.ofNat v)) (2 * k + 1) (UInt8.ofNat (v / 256))

structure Page where
  data : PageData
  spare : Spare

/-- What an erased page reads as. -/
def Page.erased : Page := ⟨ffData, ⟨.free, 0xffffffff⟩⟩

/-! ## The device -/

/-- The geometry of the chip: `mtd->writesize`, `nr_pgsinblk` and `nb_blocks`. -/
structure Geom where
  writesize : Nat
  pgs : Nat
  blks : Nat
  pgs_pos : 0 < pgs
  pgs_le : pgs ≤ 128
  blks_pos : 0 < blks
  blks_le : blks ≤ 4096
  ws_ge : 512 ≤ writesize
  ws_le : writesize ≤ 4096
  ws_even : writesize % 2 = 0

theorem ws_ge_512 : 512 ≤ 512 := le_rfl

theorem ws_le_512 : 512 ≤ 4096 := by decide

theorem ws_even_512 : 512 % 2 = 0 := rfl

theorem ws_le_4096 : 4096 ≤ 4096 := le_rfl

theorem pgs_le_two : 2 ≤ 128 := by decide

theorem blks_pos_300 : 0 < 300 := by decide

theorem blks_le_300 : 300 ≤ 4096 := by decide

/-- A chip with its geometry, and every answer that the program cannot foresee, by call counter. -/
structure Device extends Geom where
  /-- this program operation fails -/
  progFail : Nat → Bool
  /-- what a failed program operation leaves in the page -/
  torn : Nat → Option Page
  /-- this erase operation fails -/
  eraseFail : Nat → Bool
  /-- `ecc_stats.corrected` after this read -/
  corrected : Nat → Nat
  /-- content of this `kmalloc` block -/
  junk : Nat → PageData
  /-- content of an uninitialised `block_info` union on the stack -/
  junkInfo : Nat → Nat

namespace Device

variable (d : Device)

def erasesize : Nat := d.pgs * d.writesize

/-- `mtd->writesize / 2`: map entries per page. -/
def words : Nat := d.writesize / 2

/-- `mt_blkcnt`. -/
def mtBlkcnt : Nat := (d.blks - 1) * 2 / d.erasesize + 1

/-- `nr_mtpage`. -/
def nrMtpage : Nat := (d.blks - 1) * 2 / d.writesize + 1

/-- `logparam.maxlp`, in 32-bit arithmetic. -/
def maxlp : Nat := d.blks * d.erasesize % 2 ^ 32 / d.writesize

/-- The physical page behind `block * erasesize + page * writesize`. -/
def phys (block page : Nat) : Nat × Nat := (block + page / d.pgs, page % d.pgs)

end Device

/-! ## The RAM -/

/-- The cells of the chip: `none` is an erased page. -/
abbrev Flash := Nat → Nat → Option Page

/-- Flash content, bad block marks, `mtd->ecc_stats.corrected`, and the call counter of `Device`. -/
structure Nand where
  flash : Flash
  bad : Nat → Bool
  ecc : Nat
  tick : Nat

def Nand.read (n : Nand) (b p : Nat) : Page := (n.flash b p).getD Page.erased

/-- Free blocks and garbage: `blockstatus`, `free_blkcnt`, `lastfree`, `gt_pbas[0]`, `gt_pgcnt`, and
`gar_pbas[0..gar_blkcnt)`. -/
structure Alloc where
  blockstatus : Nat → Bool
  freeBlkcnt : Nat
  lastfree : Nat
  gtPba : Nat
  gtPgcnt : Nat
  gar : List Nat

/-- The mapping table: `mt_pbas`, the MTLog tables, and the page cache in front of it. -/
structure MapTab where
  mtPbas : Nat → Nat
  mtl : LogTab
  cacheblock : Nat
  cachepage : Nat
  readcache : PageData

structure St where
  nand : Nand
  al : Alloc
  mt : MapTab
  dl : LogTab
  gBadblkcnt : Nat
  gStoragesize : Nat

/-- The tables of the MTLog blocks. -/
def mtlCap : LogCap := ⟨mtMaxBlocks, mtlMaxPages, .mtlBlocktab, .mtlTranstab⟩

/-- The tables of the DataLog blocks. -/
def dlCap : LogCap := ⟨dlMaxBlocks, dlMaxPages, .dlBlocktab, .dlTranstab⟩

/-- RAM as the loader leaves it, over a given chip. -/
def St.boot (n : Nand) : St where
  nand := n
  al := ⟨fun _ => false, 0, 0, 0, 0, []⟩
  mt := ⟨fun _ => 0, LogTab.zero, 0xffff, 0xff, fun _ => 0⟩
  dl := LogTab.zero
  gBadblkcnt := 0
  gStoragesize := 0

/-! ## Events -/

inductive Event where
  /-- a page was programmed -/
  | program (block page : Nat) (pg : Page)
  /-- a block was erased -/
  | erase (block : Nat)
  /-- `mtd->write_oob` returned an error -/
  | progFail (block page : Nat)
  /-- `mtd->erase` failed -/
  | eraseFail (block : Nat)
  /-- `nftl_get_free_block` returned `0xFFFF`; `left` tells whether a block was free -/
  | noFree (left : Bool)
  /-- the counters of the RAM tables after one of them changed -/
  | tables (dlBlkcnt dlPgcnt garBlkcnt mtlBlkcnt : Nat)

abbrev M (α : Type) : Type := Prog Fault St Event α

/-- The effect of one event on the flash. -/
def Event.apply (d : Device) (fl : Flash) : Event → Flash
  | .program block page pg => Function.update fl (d.phys block page).1
      (Function.update (fl (d.phys block page).1) (d.phys block page).2 (some pg))
  | .erase block => Function.update fl block (fun _ => none)
  | _ => fl

/-- The flash after a log of events. -/
def replay (d : Device) (fl : Flash) (l : List Event) : Flash := l.foldl (Event.apply d) fl

/-- NAND discipline: every program goes to a page of the chip behind which the block is still erased. -/
def Disciplined (d : Device) : Flash → List Event → Prop
  | _, [] => True
  | fl, e :: l =>
    (match e with
      | .program b p _ => b < d.blks ∧ p < d.pgs ∧ ∀ q, p ≤ q → q < d.pgs → fl b q = none
      | _ => True) ∧ Disciplined d (e.apply d fl) l

/-! ## The MTD calls -/

section mtd

variable (d : Device)

/-- `mtd_read`: the page, or `none` when the address is outside the chip. -/
def mtdRead (block page : Nat) : M (Option Page) := fun s =>
  let a := d.phys block page
  if a.1 < d.blks then
    ⟨.ok (some (s.nand.read a.1 a.2)),
      { s with nand := { s.nand with ecc := d.corrected s.nand.tick, tick := s.nand.tick + 1 } }, []⟩
  else ⟨.ok none, { s with nand := { s.nand with ecc := 0 } }, []⟩

/-- `mtd_write`: `0`, or the negative error of the driver. -/
def mtdWrite (block page : Nat) (pg : Page) : M Int := fun s =>
  let a := d.phys block page
  if a.1 < d.blks then
    if d.progFail s.nand.tick then
      ⟨.ok (-5), { s with nand := { s.nand with
        flash := Function.update s.nand.flash a.1 (Function.update (s.nand.flash a.1) a.2 (d.torn s.nand.tick))
        tick := s.nand.tick + 1 } }, [.progFail block page]⟩
    else
      ⟨.ok 0, { s with nand := { s.nand with
        flash := Event.apply d s.nand.flash (.program block page pg)
        tick := s.nand.tick + 1 } }, [.program block page pg]⟩
  else ⟨.ok (-22), s, [.progFail block page]⟩

/-- `mtd_erase`. Block `nr_blks` passes the range check; the driver then rejects the address without setting
`MTD_ERASE_FAILED`. -/
def mtdErase (block : Nat) : M Int := fun s =>
  if d.blks < block then ⟨.ok (-1), s, [.eraseFail block]⟩
  else if block = d.blks then ⟨.ok 0, s, []⟩
  else if d.eraseFail s.nand.tick then
    ⟨.ok (-1), { s with nand := { s.nand with tick := s.nand.tick + 1 } }, [.eraseFail block]⟩
  else
    ⟨.ok 0, { s with nand := { s.nand with
      flash := Event.apply d s.nand.flash (.erase block), tick := s.nand.tick + 1 } }, [.erase block]⟩

/-- `mtd->block_markbad`. -/
def blockMarkbad (block : Nat) : M Int := do
  if block < d.blks then
    Prog.modify fun s => { s with nand := { s.nand with bad := Function.update s.nand.bad block true } }
    pure 0
  else pure (-22)

/-- `kmalloc(NAND_MAX_PAGESIZE, GFP_KERNEL)`, which succeeds with arbitrary content. -/
def kmalloc : M PageData := fun s =>
  ⟨.ok (d.junk s.nand.tick), { s with nand := { s.nand with tick := s.nand.tick + 1 } }, []⟩

/-- The union of a `block_info` declared on the stack and not initialised. -/
def stackInfo : M Nat := fun s =>
  ⟨.ok (d.junkInfo s.nand.tick % 2 ^ 32), { s with nand := { s.nand with tick := s.nand.tick + 1 } }, []⟩

end mtd

/-- Logs the table counters, after one of them changed. -/
def noteTables : M Unit := do
  let s ← Prog.get
  Prog.emit (.tables s.dl.blkcnt s.dl.pgcnt s.al.gar.length s.mt.mtl.blkcnt)

end Emlinux.Nftl
