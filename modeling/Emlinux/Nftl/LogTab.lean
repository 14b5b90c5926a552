import Emlinux.Lib.Prog

/-!
# The RAM tables of log blocks

`nftlmount.c` keeps two pairs of tables on RAM: `dl_blocktab`/`dl_transtab` for the DataLog blocks and
`mtl_blocktab`/`mtl_transtab` for the MTLog blocks. Both pairs have one layout: an array of log blocks, and
one flat array that holds the translation items of all blocks one after the other, `valid` items a block.
`nftl_update_dl_ram` and `nftl_update_mtl_ram` are the same three loops over it, so the operations are
written once here, with the bounds of the two arrays as a parameter (`LogCap`).

Every access goes through a bounds check: an index outside its C array is a `Fault`.
-/

namespace Emlinux.Nftl

/-- The fixed-size arrays of `nftlmount.c`. -/
inductive RamArray where
  | dlBlocktab | dlTranstab | mtlBlocktab | mtlTranstab | mtPbas | gtPbas | garPbas | blockstatus
deriving DecidableEq, Repr

/-- Why a run has no defined continuation. -/
inductive Fault where
  | bounds (a : RamArray) (i : Nat)
  | fuel
deriving DecidableEq, Repr

/-- `dl_blockinfo` (`key` is `lba`) and `mtl_blockinfo` (`key` is `mtindx`). -/
structure LogBlock where
  key : Nat
  pba : Nat
  used : Nat
  valid : Nat
deriving DecidableEq, Repr

/-- `dl_transitem` (`page` is `lpa`) and `mtl_transitem` (`page` is `pageofs`). -/
structure LogItem where
  ppa : Nat
  page : Nat
deriving DecidableEq, Repr

/-- A block table, its translation table, and the two counters. -/
structure LogTab where
  blocktab : Nat → LogBlock
  blkcnt : Nat
  transtab : Nat → LogItem
  pgcnt : Nat

/-- The zero-initialised tables. -/
def LogTab.zero : LogTab := ⟨fun _ => ⟨0, 0, 0, 0⟩, 0, fun _ => ⟨0, 0⟩, 0⟩

/-- The array sizes of one pair of tables. -/
structure LogCap where
  maxBlocks : Nat
  maxPages : Nat
  blockArr : RamArray
  transArr : RamArray

namespace LogTab

variable (c : LogCap)

def blockAt (t : LogTab) (i : Nat) : Except Fault LogBlock :=
  if i < c.maxBlocks then .ok (t.blocktab i) else .error (.bounds c.blockArr i)

def itemAt (t : LogTab) (i : Nat) : Except Fault LogItem :=
  if i < c.maxPages then .ok (t.transtab i) else .error (.bounds c.transArr i)

def setBlock (t : LogTab) (i : Nat) (b : LogBlock) : Except Fault LogTab :=
  if i < c.maxBlocks then .ok { t with blocktab := Function.update t.blocktab i b }
  else .error (.bounds c.blockArr i)

def setItem (t : LogTab) (i : Nat) (it : LogItem) : Except Fault LogTab :=
  if i < c.maxPages then .ok { t with transtab := Function.update t.transtab i it }
  else .error (.bounds c.transArr i)

/-- `for (i = 0; i < index; i++) offset += tab[i].valid`. -/
def offset (t : LogTab) : Nat → Except Fault Nat
  | 0 => .ok 0
  | i + 1 => do
    let o ← t.offset i
    let b ← t.blockAt c i
    pure (o + b.valid)

/-- `for (; n > 0; i++) if (transtab[i].page == page) break`: the index at which the loop stops. -/
def findItem (t : LogTab) (page : Nat) : Nat → Nat → Except Fault Nat
  | 0, i => .ok i
  | n + 1, i => do
    let it ← t.itemAt c i
    if it.page = page then pure i else t.findItem page n (i + 1)

/-- `for (i = stop + k; i > stop; i--) transtab[i] = transtab[i-1]`. -/
def moveDown (stop : Nat) : Nat → LogTab → Except Fault LogTab
  | 0, t => .ok t
  | k + 1, t => do
    let it ← t.itemAt c (stop + k)
    let t ← t.setItem c (stop + k + 1) it
    moveDown stop k t

/-- `for (; n > 0; i++) transtab[i] = transtab[i+v]`. -/
def moveUp (v : Nat) : Nat → Nat → LogTab → Except Fault LogTab
  | 0, _, t => .ok t
  | n + 1, i, t => do
    let it ← t.itemAt c (i + v)
    let t ← t.setItem c i it
    moveUp v n (i + 1) t

/-- `for (; n > 0; i++) blocktab[i] = blocktab[i+1]`. -/
def moveUpBlocks : Nat → Nat → LogTab → Except Fault LogTab
  | 0, _, t => .ok t
  | n + 1, i, t => do
    let b ← t.blockAt c (i + 1)
    let t ← t.setBlock c i b
    moveUpBlocks n (i + 1) t

/-- `APPEND_OPERATION`: a new log block whose page 0 holds `page`. -/
def append (t : LogTab) (key page pba : Nat) : Except Fault LogTab := do
  let t ← t.setBlock c t.blkcnt ⟨key, pba, 1, 1⟩
  let t ← t.setItem c t.pgcnt ⟨0, page⟩
  pure { t with blkcnt := t.blkcnt + 1, pgcnt := t.pgcnt + 1 }

/-- `INSERT_OPERATION`: `page` was written to the next page of log block `index`. -/
def insert (t : LogTab) (index page : Nat) : Except Fault LogTab := do
  let ofs ← t.offset c index
  let b ← t.blockAt c index
  let i ← t.findItem c page b.valid ofs
  if i ≠ ofs + b.valid then
    let t ← t.setItem c i ⟨b.used, page⟩
    t.setBlock c index { b with used := b.used + 1 }
  else
    let t ← moveDown c (ofs + b.valid) (t.pgcnt - (ofs + b.valid)) t
    let t ← t.setItem c (ofs + b.valid) ⟨b.used, page⟩
    let t ← t.setBlock c index { b with used := b.used + 1, valid := b.valid + 1 }
    pure { t with pgcnt := t.pgcnt + 1 }

/-- `DEL_OPERATION`: log block `index` is dropped. The last round reads `blocktab[blkcnt]`. -/
def delete (t : LogTab) (index : Nat) : Except Fault LogTab := do
  let ofs ← t.offset c index
  let b ← t.blockAt c index
  let t ← moveUp c b.valid (t.pgcnt - b.valid - ofs) ofs t
  let t ← moveUpBlocks c (t.blkcnt - index) index t
  pure { t with pgcnt := t.pgcnt - b.valid, blkcnt := t.blkcnt - 1 }

/-- The first block that satisfies `p`, at or after `i`: its index, or where the loop ends. -/
def findBlock (t : LogTab) (p : LogBlock → Bool) : Nat → Nat → Except Fault Nat
  | 0, i => .ok i
  | n + 1, i => do
    let b ← t.blockAt c i
    if p b then pure i else t.findBlock p n (i + 1)

/-- `UPDATE_OPERATION`: the first block that satisfies `p` moves to `pba`; its `used`, or `none`. -/
def update (t : LogTab) (p : LogBlock → Bool) (pba : Nat) : Except Fault (Option Nat × LogTab) := do
  let i ← t.findBlock c p t.blkcnt 0
  if i < t.blkcnt then
    let b ← t.blockAt c i
    let t ← t.setBlock c i { b with pba := pba }
    pure (some b.used, t)
  else pure (none, t)

/-- The search of `nftl_find_lpa_in_dl` and `nftl_find_mtpg_in_mtl` from block `i` on, whose items start at
`ofs`. A block of the key without the page does not advance `ofs`. -/
def findPage (t : LogTab) (key page : Nat) : Nat → Nat → Nat → Except Fault (Option (Nat × Nat))
  | 0, _, _ => .ok none
  | n + 1, i, ofs => do
    let b ← t.blockAt c i
    if b.key = key then
      let j ← t.findItem c page b.valid ofs
      if j ≠ ofs + b.valid then
        let it ← t.itemAt c j
        pure (some (b.pba, it.ppa))
      else t.findPage key page n (i + 1) ofs
    else t.findPage key page n (i + 1) (ofs + b.valid)

/-- `factppa[i]` of the merges: the last of the `n` items from `ofs` on that holds `page`, or `0xff`. -/
def factPpa (t : LogTab) (page : Nat) : Nat → Nat → Nat → Except Fault Nat
  | 0, _, fact => .ok fact
  | n + 1, ofs, fact => do
    let it ← t.itemAt c ofs
    t.factPpa page n (ofs + 1) (if it.page = page then it.ppa else fact)

/-- The array `factppa` for the pages `start, start + 1, …, start + n - 1` of log block `index`. -/
def factPpas (t : LogTab) (start index : Nat) : Nat → Except Fault (List Nat)
  | 0 => .ok []
  | n + 1 => do
    let l ← t.factPpas start index n
    let b ← t.blockAt c index
    let ofs ← t.offset c index
    let f ← t.factPpa c (start + n) b.valid ofs 0xff
    pure (l ++ [f])

/-- The mount scan has set up the entry behind the last block (`ptab`) and adds one scanned page to it;
`keyOf` is the key the entry has afterwards. -/
def scanPage (t : LogTab) (keyOf : LogBlock → Nat) (page : Nat) : Except Fault LogTab := do
  let b ← t.blockAt c t.blkcnt
  let j ← t.findItem c page b.valid (t.pgcnt - b.valid)
  let t' ← t.setItem c j ⟨b.used, page⟩
  if j = t.pgcnt then
    let t' ← t'.setBlock c t.blkcnt ⟨keyOf b, b.pba, b.used + 1, b.valid + 1⟩
    pure { t' with pgcnt := t.pgcnt + 1 }
  else t'.setBlock c t.blkcnt ⟨keyOf b, b.pba, b.used + 1, b.valid⟩

end LogTab

end Emlinux.Nftl
