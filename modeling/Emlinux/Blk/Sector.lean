import Mathlib.Tactic

/-!
# The sector layer of the block device

`nftl_writesect`, `nftl_readsect`, `nftl_writesects`, `nftl_readsects` and `nftl_flush` of `nftlcore.c`, over an ideal store of logical pages: `nftl_write` stores a
page, `nftl_read` returns the page stored last, or `0xff`. Between the sectors and the store there is one page that is written back later
(`l_writeblock`, `l_writepage`, `write_buffer`) and one that was read (`l_readblock`, `l_readpage`, `read_buffer`).

Memory is a function from offsets to bytes. A function that moves `buffer` forward as it copies has the position in it as a number, and returns how far it came.
-/

namespace Emlinux.Blk

abbrev Bytes := Nat → UInt8

/-- `memcpy(dst + off, src, n)`. -/
def copy (dst : Bytes) (off : Nat) (src : Bytes) (n : Nat) : Bytes :=
  fun i => if off ≤ i ∧ i < off + n then src (i - off) else dst i

/-- `SECTORSIZE`. -/
abbrev sectorSize : Nat := 4096

/-- The geometry, within the types that the source gives it: the page buffers have `NAND_MAX_PAGESIZE` bytes, `nr_pgsinblk` is a byte, `nr_blks` has 16 bits
and `mtd->size` 32. -/
structure Geom where
  writesize : Nat
  nrPgsinblk : Nat
  nrBlks : Nat
  writesize_pos : 0 < writesize
  writesize_le : writesize ≤ 4096
  nrPgsinblk_pos : 0 < nrPgsinblk
  nrPgsinblk_lt : nrPgsinblk < 256
  nrBlks_lt : nrBlks < 65536
  size_lt : nrBlks * (nrPgsinblk * writesize) < 2 ^ 32

def Geom.erasesize (g : Geom) : Nat := g.nrPgsinblk * g.writesize

/-- The page store and the two cached pages. -/
structure Sectors where
  store : Nat → Bytes
  lWriteblock : Nat
  lWritepage : Nat
  writeBuffer : Bytes
  lReadblock : Nat
  lReadpage : Nat
  readBuffer : Bytes

/-- Nothing stored, nothing cached. -/
def Sectors.init : Sectors where
  store _ _ := 0xff
  lWriteblock := 0xffff
  lWritepage := 0xff
  writeBuffer _ := 0
  lReadblock := 0xffff
  lReadpage := 0xff
  readBuffer _ := 0

namespace Sectors

variable (g : Geom) (s : Sectors)

/-- `nftl_write_logicpage`. -/
def nftlWriteLogicpage (lpa : Nat) (buffer : Bytes) : Sectors :=
  { s with store := Function.update s.store lpa (copy (s.store lpa) 0 buffer g.writesize) }

/-- `nftl_read_logicpage`: what it leaves in `buffer`. -/
def nftlReadLogicpage (lpa : Nat) (buffer : Bytes) : Bytes := copy buffer 0 (s.store lpa) g.writesize

/-- `nftl_write`. -/
def nftlWrite (block page : Nat) (buffer : Bytes) : Sectors := s.nftlWriteLogicpage g (block * g.nrPgsinblk + page) buffer

/-- `nftl_read`. -/
def nftlRead (block page : Nat) (buffer : Bytes) : Bytes := s.nftlReadLogicpage g (block * g.nrPgsinblk + page) buffer

/-- The write-back page is stored. -/
def writeBack : Sectors :=
  if s.lWriteblock ≠ 0xffff ∧ s.lWritepage ≠ 0xff then s.nftlWrite g s.lWriteblock s.lWritepage s.writeBuffer else s

/-- `nftl_flush`. -/
def nftlFlush : Sectors :=
  if s.lWriteblock ≠ 0xffff ∧ s.lWritepage ≠ 0xff then
    { s.nftlWrite g s.lWriteblock s.lWritepage s.writeBuffer with lWriteblock := 0xffff, lWritepage := 0xff }
  else s

/-- The next page; `none` is past the end of the device. -/
def nextPage (block page : Nat) : Option (Nat × Nat) :=
  if (page + 1) % 2 ^ 8 ≥ g.nrPgsinblk then
    if (block + 1) % 2 ^ 16 > g.nrBlks then none else some ((block + 1) % 2 ^ 16, 0)
  else some (block, (page + 1) % 2 ^ 8)

/-- The key that the page loops leave: the block only when it was the last page of it. -/
def passed (block page : Nat) : Sectors :=
  { s with
    lWritepage := page
    lWriteblock := if (page + 1) % 2 ^ 8 ≥ g.nrPgsinblk then block else s.lWriteblock }

/-- What a write returns: the result, how much of `buffer` was copied, and the state. -/
structure Written where
  ret : Int
  pos : Nat
  s : Sectors

/-- The end of `nftl_writesect`: the rest of the data goes into the page that follows, to be written next time. -/
def writeRest (block page pos leftsize : Nat) (buffer : Bytes) : Written :=
  let wb := copy (s.nftlRead g block page s.writeBuffer) 0 (fun i => buffer (pos + i)) leftsize
  ⟨0, pos + leftsize, { s with writeBuffer := wb, lWritepage := page, lWriteblock := block }⟩

/-- `while(leftsize >= mtd->writesize)`. -/
def writePages : (fuel : Nat) → (block page pos leftsize : Nat) → (buffer : Bytes) → (s : Sectors) → Written
  | 0, block, page, pos, leftsize, buffer, s => s.writeRest g block page pos leftsize buffer
  | fuel + 1, block, page, pos, leftsize, buffer, s =>
    if leftsize ≥ g.writesize then
      let s := { s with writeBuffer := copy s.writeBuffer 0 (fun i => buffer (pos + i)) g.writesize }
      let s := (s.nftlWrite g block page s.writeBuffer).passed g block page
      match nextPage g block page with
      | none => ⟨-1, pos + g.writesize, s⟩
      | some (block, page) => writePages fuel block page (pos + g.writesize) (leftsize - g.writesize) buffer s
    else s.writeRest g block page pos leftsize buffer

/-- `nftl_writesect` once the write-back page does not take (all of) the data. -/
def writeMiss (block page pageOffset pos leftsize : Nat) (buffer : Bytes) : Written :=
  let s := s.writeBack g
  if pageOffset ≠ 0 then
    let count := min leftsize (g.writesize - pageOffset)
    let s := { s with writeBuffer := copy (s.nftlRead g block page s.writeBuffer) pageOffset (fun i => buffer (pos + i)) count }
    if leftsize - count = 0 then ⟨0, pos + count, { s with lWritepage := page, lWriteblock := block }⟩
    else
      let s := { s.nftlWrite g block page s.writeBuffer with lWritepage := 0xff, lWriteblock := 0xffff }
      match nextPage g block page with
      | none => ⟨-1, pos + count, s⟩
      | some (block, page) => writePages g sectorSize block page (pos + count) (leftsize - count) buffer s
  else writePages g sectorSize block page pos leftsize buffer s

/-- Where a sector is: `block_num`, `page_num` and `page_offset`. -/
def blockNum (sect : Nat) : Nat := sect * sectorSize % 2 ^ 32 / g.erasesize % 2 ^ 16
def pageNum (sect : Nat) : Nat := sect * sectorSize % 2 ^ 32 % g.erasesize / g.writesize % 2 ^ 8
def pageOffset (sect : Nat) : Nat := sect * sectorSize % 2 ^ 32 % g.erasesize % g.writesize

/-- `nftl_writesect`. -/
def nftlWritesect (sect : Nat) (buffer : Bytes) : Written :=
  let block := blockNum g sect
  let page := pageNum g sect
  let ofs := pageOffset g sect
  if block = s.lWriteblock ∧ page = s.lWritepage then
    let count := min (g.writesize - ofs) sectorSize
    let s := { s with writeBuffer := copy s.writeBuffer ofs buffer count }
    if sectorSize - count = 0 then ⟨0, count, s⟩
    else
      let s := s.passed g block page
      match nextPage g block page with
      | none => ⟨-1, count, s⟩
      | some (block, page) => s.writeMiss g block page 0 count (sectorSize - count) buffer
  else s.writeMiss g block page ofs 0 sectorSize buffer

/-- What a read returns: the result, the buffer, how much of it was written, and the state. -/
structure Readout where
  ret : Int
  buffer : Bytes
  pos : Nat
  s : Sectors

/-- The page is brought into the read buffer. -/
def fetch (block page : Nat) : Sectors :=
  let s :=
    if block = s.lWriteblock ∧ page = s.lWritepage then { s with readBuffer := copy s.readBuffer 0 s.writeBuffer g.writesize }
    else if block ≠ s.lReadblock ∨ page ≠ s.lReadpage then { s with readBuffer := s.nftlRead g block page s.readBuffer }
    else s
  { s with lReadblock := block, lReadpage := page }

/-- `while(count < SECTORSIZE)`; the count is the position in `buffer`. -/
def readPages : (fuel : Nat) → (block page pos : Nat) → (buffer : Bytes) → (s : Sectors) → Readout
  | 0, _, _, pos, buffer, s => ⟨0, buffer, pos, s⟩
  | fuel + 1, block, page, pos, buffer, s =>
    if pos < sectorSize then
      let s := s.fetch g block page
      let n := if sectorSize - pos < g.writesize then sectorSize - pos else g.writesize
      let buffer := copy buffer pos s.readBuffer n
      match nextPage g block page with
      | none => ⟨-1, buffer, pos + n, s⟩
      | some (block, page) => readPages fuel block page (pos + n) buffer s
    else ⟨0, buffer, pos, s⟩

/-- `nftl_readsect`. -/
def nftlReadsect (sect : Nat) (buffer : Bytes) : Readout :=
  let block := blockNum g sect
  let page := pageNum g sect
  let ofs := pageOffset g sect
  if ofs ≠ 0 then
    let count := min (g.writesize - ofs) sectorSize
    let s := s.fetch g block page
    let buffer := copy buffer 0 (fun i => s.readBuffer (ofs + i)) count
    match nextPage g block page with
    | none => ⟨-1, buffer, count, s⟩
    | some (block, page) => readPages g sectorSize block page count buffer s
  else readPages g sectorSize block page 0 buffer s

/-- The page sizes that the multi-sector functions take. -/
def pageCount (count : Nat) : Prop := (count = 8 ∧ g.writesize = 4096) ∨ (count = 4 ∧ g.writesize = 2048)

instance (count : Nat) : Decidable (pageCount g count) :=
  inferInstanceAs (Decidable ((count = 8 ∧ g.writesize = 4096) ∨ (count = 4 ∧ g.writesize = 2048)))

/-- `nftl_writesects`: `sect` is a logical page. -/
def nftlWritesects (sect : Nat) (buffer : Bytes) (count : Nat) : Written :=
  let s := s.nftlFlush g
  if pageCount g count then ⟨0, g.writesize, s.nftlWriteLogicpage g sect buffer⟩ else ⟨1, 0, s⟩

/-- `nftl_readsects`. -/
def nftlReadsects (sect : Nat) (buffer : Bytes) (count : Nat) : Readout :=
  let s := s.nftlFlush g
  if pageCount g count then ⟨0, s.nftlReadLogicpage g sect buffer, g.writesize, s⟩ else ⟨1, buffer, 0, s⟩

end Sectors

end Emlinux.Blk
