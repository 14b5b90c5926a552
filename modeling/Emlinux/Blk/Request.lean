import Emlinux.Blk.Cache

/-!
# Requests of the block layer

`do_blktrans_request` of `mtd_blkdevs.c` with the operations of `nftl_tr`. A request that is a multiple of eight sectors, at a multiple of eight, is passed to the multi-sector functions: in steps of
`count` sectors, each of which moves one page, and with `block / count` for the page. The steps leave out most of the buffer; and where the page size has no `count`, the division is by zero.
-/

namespace Emlinux.Blk

open Sectors

/-- `struct request`: `fs` is `blk_fs_request`, `write` the direction. Sectors here have 512 bytes. -/
structure Request where
  sector : Nat
  currentNrSectors : Nat
  fs : Bool
  write : Bool

/-- `block` and `nsect` of the request, in sectors of the translation layer (`blkshift` is 12). -/
def Request.block (req : Request) : Nat := req.sector * 512 % 2 ^ 32 / 4096
def Request.nsect (req : Request) : Nat := req.currentNrSectors * 512 % 2 ^ 32 / 4096

/-- The result, the state, the memory at `req->buffer`, and the parts of it that were copied to or from. -/
structure Outcome where
  ret : Nat
  s : Sectors
  buffer : Bytes
  touched : List (Nat × Nat)

/-- The pointer `buf + off`, and the memory when a function has written through it. -/
def shift (buffer : Bytes) (off : Nat) : Bytes := fun i => buffer (off + i)
def place (buffer : Bytes) (off : Nat) (part : Bytes) : Bytes := fun i => if off ≤ i then part (i - off) else buffer i

section Request

variable (g : Geom)

/-- `for (; nsect > 0; nsect--, block++, buf += tr->blksize)` with `readsect`. -/
def readEach : (nsect block off : Nat) → (s : Sectors) → (buffer : Bytes) → (touched : List (Nat × Nat)) → Outcome
  | 0, _, _, s, buffer, touched => ⟨1, s, buffer, touched⟩
  | n + 1, block, off, s, buffer, touched =>
    let r := s.nftlReadsect g block (shift buffer off)
    if r.ret ≠ 0 then ⟨0, r.s, place buffer off r.buffer, touched ++ [(off, r.pos)]⟩
    else readEach n (block + 1) (off + sectorSize) r.s (place buffer off r.buffer) (touched ++ [(off, r.pos)])

/-- The same loop with `writesect`. -/
def writeEach : (nsect block off : Nat) → (s : Sectors) → (buffer : Bytes) → (touched : List (Nat × Nat)) → Outcome
  | 0, _, _, s, buffer, touched => ⟨1, s, buffer, touched⟩
  | n + 1, block, off, s, buffer, touched =>
    let w := s.nftlWritesect g block (shift buffer off)
    if w.ret ≠ 0 then ⟨0, w.s, buffer, touched ++ [(off, w.pos)]⟩
    else writeEach n (block + 1) (off + sectorSize) w.s buffer (touched ++ [(off, w.pos)])

/-- `count`. -/
def multiCount : Nat := if g.writesize = 4096 then 8 else if g.writesize = 2048 then 4 else 0

/-- `for (; nsect > 0; nsect-=count, block+=count, buf += tr->blksize*count)` with `readsects`; `none` is the division by zero. -/
def readMulti (count : Nat) : (fuel nsect block off : Nat) → (s : Sectors) → (buffer : Bytes) → (touched : List (Nat × Nat)) → Option Outcome
  | 0, nsect, _, _, s, buffer, touched => if nsect > 0 then none else some ⟨1, s, buffer, touched⟩
  | fuel + 1, nsect, block, off, s, buffer, touched =>
    if nsect > 0 then
      if count = 0 then none
      else
        let r := s.nftlReadsects g (block / count) (shift buffer off) count
        if r.ret ≠ 0 then some ⟨0, r.s, place buffer off r.buffer, touched ++ [(off, r.pos)]⟩
        else readMulti count fuel (nsect - count) (block + count) (off + sectorSize * count) r.s (place buffer off r.buffer)
          (touched ++ [(off, r.pos)])
    else some ⟨1, s, buffer, touched⟩

/-- The same loop with `writesects`. -/
def writeMulti (count : Nat) : (fuel nsect block off : Nat) → (s : Sectors) → (buffer : Bytes) → (touched : List (Nat × Nat)) → Option Outcome
  | 0, nsect, _, _, s, buffer, touched => if nsect > 0 then none else some ⟨1, s, buffer, touched⟩
  | fuel + 1, nsect, block, off, s, buffer, touched =>
    if nsect > 0 then
      if count = 0 then none
      else
        let w := s.nftlWritesects g (block / count) (shift buffer off) count
        if w.ret ≠ 0 then some ⟨0, w.s, buffer, touched ++ [(off, w.pos)]⟩
        else writeMulti count fuel (nsect - count) (block + count) (off + sectorSize * count) w.s buffer (touched ++ [(off, w.pos)])
    else some ⟨1, s, buffer, touched⟩

/-- The sectors of a request one at a time. -/
def eachSector (s : Sectors) (req : Request) (buffer : Bytes) : Outcome :=
  if req.write then writeEach g req.nsect req.block 0 s buffer [] else readEach g req.nsect req.block 0 s buffer []

/-- `do_blktrans_request`. -/
def doBlktransRequest (capacity : Nat) (s : Sectors) (req : Request) (buffer : Bytes) : Option Outcome :=
  if req.fs = false then some ⟨0, s, buffer, []⟩
  else if req.sector + req.currentNrSectors > capacity then some ⟨0, s, buffer, []⟩
  else if req.nsect % 8 = 0 ∧ req.block % 8 = 0 then
    if req.write then writeMulti g (multiCount g) req.nsect req.nsect req.block 0 s buffer []
    else readMulti g (multiCount g) req.nsect req.nsect req.block 0 s buffer []
  else some (eachSector g s req buffer)

end Request

/-! ## One sector -/

section Sector

variable {g : Geom} {sect : Nat}

/-- The page that a sector starts in. -/
def firstPage (g : Geom) (sect : Nat) : Nat := sect * sectorSize / g.writesize

/-- The sector is inside the device. -/
def Geom.hasSector (g : Geom) (sect : Nat) : Prop := (sect + 1) * sectorSize ≤ g.nrBlks * g.erasesize

theorem firstPage_lt (h : g.hasSector sect) : firstPage g sect < g.pages := by
  unfold firstPage Geom.pages
  apply Nat.div_lt_of_lt_mul
  unfold Geom.hasSector Geom.erasesize at h
  calc sect * sectorSize < (sect + 1) * sectorSize := by unfold sectorSize; omega
    _ ≤ g.nrBlks * (g.nrPgsinblk * g.writesize) := h
    _ = g.writesize * (g.nrBlks * g.nrPgsinblk) := by ring

theorem sector_lt_size (h : g.hasSector sect) : sect * sectorSize < 2 ^ 32 := by
  unfold Geom.hasSector Geom.erasesize at h
  have hsize := g.size_lt
  unfold sectorSize at h ⊢
  omega

theorem blockNum_firstPage (h : g.hasSector sect) : blockNum g sect = firstPage g sect / g.nrPgsinblk := by
  unfold blockNum Geom.erasesize
  rw [Nat.mod_eq_of_lt (sector_lt_size h), Nat.mul_comm g.nrPgsinblk, ← Nat.div_div_eq_div_mul]
  have hb := block_lt (firstPage_lt h)
  have hlt := g.nrBlks_lt
  exact Nat.mod_eq_of_lt (lt_trans hb hlt)

theorem pageNum_firstPage (h : g.hasSector sect) : pageNum g sect = firstPage g sect % g.nrPgsinblk := by
  unfold pageNum Geom.erasesize
  rw [Nat.mod_eq_of_lt (sector_lt_size h), Nat.mul_comm g.nrPgsinblk, Nat.mod_mul_right_div_self]
  have hp := Nat.mod_lt (firstPage g sect) g.nrPgsinblk_pos
  have hlt := g.nrPgsinblk_lt
  exact Nat.mod_eq_of_lt (lt_trans hp hlt)

theorem pageOffset_firstPage (h : g.hasSector sect) : pageOffset g sect = sect * sectorSize % g.writesize := by
  unfold pageOffset Geom.erasesize
  rw [Nat.mod_eq_of_lt (sector_lt_size h), Nat.mod_mul_left_mod]

/-- A page that starts inside a sector is a page of the device. -/
theorem page_lt {a pos : Nat} (h : g.hasSector sect) (ha : a * g.writesize = sect * sectorSize + pos) (hpos : pos < sectorSize) :
    a < g.pages := by
  unfold Geom.hasSector Geom.erasesize at h
  have hlt : a * g.writesize < g.pages * g.writesize := by
    rw [ha]
    unfold Geom.pages
    rw [Nat.mul_assoc]
    unfold sectorSize at h hpos ⊢
    omega
  exact lt_of_mul_lt_mul_right hlt (Nat.zero_le _)

/-- The page loop of a read fills the sector. -/
theorem readPages_pos (h : g.hasSector sect) (fuel : Nat) :
    ∀ {a pos : Nat} (buffer : Bytes) (s : Sectors), a * g.writesize = sect * sectorSize + pos → pos ≤ sectorSize → sectorSize - pos ≤ fuel →
      (readPages g fuel (a / g.nrPgsinblk) (a % g.nrPgsinblk) pos buffer s).ret = 0 ∧
        (readPages g fuel (a / g.nrPgsinblk) (a % g.nrPgsinblk) pos buffer s).pos = sectorSize := by
  have hws := g.writesize_pos
  induction fuel with
  | zero =>
    intro a pos buffer s ha hle hf
    unfold readPages
    exact ⟨rfl, by show pos = _; omega⟩
  | succ fuel ih =>
    intro a pos buffer s ha hle hf
    unfold readPages
    by_cases hlt : pos < sectorSize
    · rw [if_pos hlt, nextPage_eq (page_lt h ha hlt)]
      dsimp only
      by_cases hn : sectorSize - pos < g.writesize
      · -- the rest of the sector: the position is its end, whatever page comes next
        rw [if_pos hn, show pos + (sectorSize - pos) = sectorSize by omega]
        cases fuel with
        | zero =>
          unfold readPages
          exact ⟨rfl, rfl⟩
        | succ fuel =>
          unfold readPages
          rw [if_neg (lt_irrefl _)]
          exact ⟨rfl, rfl⟩
      · rw [if_neg hn]
        apply ih
        · rw [Nat.add_mul, ha, Nat.one_mul, Nat.add_assoc]
        · omega
        · omega
    · rw [if_neg hlt]
      exact ⟨rfl, by show pos = _; omega⟩

/-- `nftl_readsect` of a sector of the device fills the sector. -/
theorem readsect_pos (h : g.hasSector sect) (s : Sectors) (buffer : Bytes) :
    (s.nftlReadsect g sect buffer).ret = 0 ∧ (s.nftlReadsect g sect buffer).pos = sectorSize := by
  have hws := g.writesize_pos
  have hle := g.writesize_le
  have hdm := Nat.div_add_mod (sect * sectorSize) g.writesize
  have hofs := Nat.mod_lt (sect * sectorSize) hws
  unfold nftlReadsect
  dsimp only
  rw [blockNum_firstPage h, pageNum_firstPage h, pageOffset_firstPage h]
  split
  · rw [nextPage_eq (firstPage_lt h)]
    dsimp only
    apply readPages_pos h
    · rw [Nat.min_eq_left (by unfold sectorSize; omega), Nat.add_mul, Nat.one_mul, Nat.mul_comm (firstPage g sect)]
      unfold firstPage
      omega
    · exact Nat.min_le_right _ _
    · omega
  · next h0 =>
    apply readPages_pos h
    · rw [Nat.mul_comm (firstPage g sect)]
      unfold firstPage
      omega
    · exact Nat.zero_le _
    · exact le_rfl

/-- The page loop of a write takes the rest of the sector. -/
theorem writePages_pos (h : g.hasSector sect) (fuel : Nat) :
    ∀ {a pos leftsize : Nat} (buffer : Bytes) (s : Sectors), a * g.writesize = sect * sectorSize + pos → pos + leftsize = sectorSize →
      (writePages g fuel (a / g.nrPgsinblk) (a % g.nrPgsinblk) pos leftsize buffer s).ret = 0 ∧
        (writePages g fuel (a / g.nrPgsinblk) (a % g.nrPgsinblk) pos leftsize buffer s).pos = sectorSize := by
  have hws := g.writesize_pos
  induction fuel with
  | zero =>
    intro a pos leftsize buffer s ha hl
    unfold writePages writeRest
    exact ⟨rfl, hl⟩
  | succ fuel ih =>
    intro a pos leftsize buffer s ha hl
    unfold writePages
    by_cases hn : leftsize ≥ g.writesize
    · rw [if_pos hn, nextPage_eq (page_lt h ha (by omega))]
      dsimp only
      apply ih
      · rw [Nat.add_mul, ha, Nat.one_mul, Nat.add_assoc]
      · omega
    · rw [if_neg hn]
      exact ⟨rfl, hl⟩

/-- `nftl_writesect` of a sector of the device takes the whole sector. -/
theorem writesect_pos (h : g.hasSector sect) (s : Sectors) (buffer : Bytes) :
    (s.nftlWritesect g sect buffer).ret = 0 ∧ (s.nftlWritesect g sect buffer).pos = sectorSize := by
  have hws := g.writesize_pos
  have hle := g.writesize_le
  have hdm := Nat.div_add_mod (sect * sectorSize) g.writesize
  have hofs := Nat.mod_lt (sect * sectorSize) hws
  have hnext : (firstPage g sect + 1) * g.writesize = sect * sectorSize + (g.writesize - sect * sectorSize % g.writesize) := by
    rw [Nat.add_mul, Nat.one_mul, Nat.mul_comm (firstPage g sect)]
    unfold firstPage
    omega
  unfold nftlWritesect
  dsimp only
  rw [blockNum_firstPage h, pageNum_firstPage h, pageOffset_firstPage h]
  have hmin : min (g.writesize - sect * sectorSize % g.writesize) sectorSize = g.writesize - sect * sectorSize % g.writesize :=
    Nat.min_eq_left (by unfold sectorSize; omega)
  rw [hmin]
  split
  · split
    · exact ⟨rfl, by show g.writesize - _ = _; unfold sectorSize at *; omega⟩
    · rw [nextPage_eq (firstPage_lt h)]
      dsimp only
      unfold writeMiss
      dsimp only
      rw [if_neg (not_not.2 rfl)]
      apply writePages_pos h _ _ _ hnext
      unfold sectorSize at *
      omega
  · unfold writeMiss
    dsimp only
    split
    · next h0 =>
      have hmin' : min sectorSize (g.writesize - sect * sectorSize % g.writesize) = g.writesize - sect * sectorSize % g.writesize := by
        rw [Nat.min_comm]
        exact hmin
      rw [hmin', if_neg (by unfold sectorSize at *; omega), nextPage_eq (firstPage_lt h)]
      dsimp only
      rw [Nat.zero_add]
      apply writePages_pos h _ _ _ hnext
      unfold sectorSize at *
      omega
    · next h0 =>
      apply writePages_pos h
      · rw [Nat.mul_comm (firstPage g sect)]
        unfold firstPage
        omega
      · rfl

end Sector

/-! ## One sector at a time -/

section Each

variable {g : Geom}

/-- The parts cover exactly the first `n` bytes. -/
def Covers (touched : List (Nat × Nat)) (n : Nat) : Prop :=
  ∀ i, (∃ x ∈ touched, x.1 ≤ i ∧ i < x.1 + x.2) ↔ i < n

theorem Covers.snoc {touched : List (Nat × Nat)} {n m : Nat} (h : Covers touched n) : Covers (touched ++ [(n, m)]) (n + m) := by
  intro i
  constructor
  · rintro ⟨x, hx, hle, hlt⟩
    obtain hx | hx := List.mem_append.1 hx
    · have := (h i).1 ⟨x, hx, hle, hlt⟩
      omega
    · rw [List.mem_singleton.1 hx] at hlt
      exact hlt
  · intro hi
    by_cases hn : i < n
    · obtain ⟨x, hx, hb⟩ := (h i).2 hn
      exact ⟨x, List.mem_append_left _ hx, hb⟩
    · exact ⟨(n, m), List.mem_append_right _ List.mem_cons_self, not_lt.1 hn, hi⟩

theorem covers_nil : Covers [] 0 := by
  intro i
  simp

theorem readEach_covers (n : Nat) :
    ∀ {block off : Nat} (s : Sectors) (buffer : Bytes) {touched : List (Nat × Nat)},
      (∀ k < n, g.hasSector (block + k)) → Covers touched off →
      Covers (readEach g n block off s buffer touched).touched (off + n * sectorSize) := by
  induction n with
  | zero =>
    intro block off s buffer touched _ hc
    rw [Nat.zero_mul]
    exact hc
  | succ n ih =>
    intro block off s buffer touched hin hc
    have hpos := readsect_pos (hin 0 (Nat.succ_pos n)) s (shift buffer off)
    rw [Nat.add_zero] at hpos
    unfold readEach
    dsimp only
    rw [if_neg (not_not.2 hpos.1), hpos.2, show off + (n + 1) * sectorSize = off + sectorSize + n * sectorSize by ring]
    refine ih _ _ ?_ hc.snoc
    intro k hk
    rw [Nat.add_assoc, Nat.add_comm 1 k]
    exact hin (k + 1) (by omega)

theorem writeEach_covers (n : Nat) :
    ∀ {block off : Nat} (s : Sectors) (buffer : Bytes) {touched : List (Nat × Nat)},
      (∀ k < n, g.hasSector (block + k)) → Covers touched off →
      Covers (writeEach g n block off s buffer touched).touched (off + n * sectorSize) := by
  induction n with
  | zero =>
    intro block off s buffer touched _ hc
    rw [Nat.zero_mul]
    exact hc
  | succ n ih =>
    intro block off s buffer touched hin hc
    have hpos := writesect_pos (hin 0 (Nat.succ_pos n)) s (shift buffer off)
    rw [Nat.add_zero] at hpos
    unfold writeEach
    dsimp only
    rw [if_neg (not_not.2 hpos.1), hpos.2, show off + (n + 1) * sectorSize = off + sectorSize + n * sectorSize by ring]
    refine ih _ _ ?_ hc.snoc
    intro k hk
    rw [Nat.add_assoc, Nat.add_comm 1 k]
    exact hin (k + 1) (by omega)

end Each

/-! ## The multi-sector steps -/

section Multi

variable {g : Geom}

/-- The parts start at multiples of the stride, and are one page at most. -/
def Strided (g : Geom) (stride : Nat) (touched : List (Nat × Nat)) : Prop := ∀ x ∈ touched, stride ∣ x.1 ∧ x.2 ≤ g.writesize

theorem Strided.snoc {stride off n : Nat} {touched : List (Nat × Nat)} (h : Strided g stride touched) (ho : stride ∣ off)
    (hn : n ≤ g.writesize) : Strided g stride (touched ++ [(off, n)]) := by
  intro x hx
  obtain hx | hx := List.mem_append.1 hx
  · exact h x hx
  · rw [List.mem_singleton.1 hx]
    exact ⟨ho, hn⟩

theorem readsects_pos (s : Sectors) (lpa : Nat) (buffer : Bytes) (count : Nat) : (s.nftlReadsects g lpa buffer count).pos ≤ g.writesize := by
  unfold nftlReadsects
  dsimp only
  split
  · exact le_rfl
  · exact Nat.zero_le _

theorem writesects_pos (s : Sectors) (lpa : Nat) (buffer : Bytes) (count : Nat) :
    (s.nftlWritesects g lpa buffer count).pos ≤ g.writesize := by
  unfold nftlWritesects
  dsimp only
  split
  · exact le_rfl
  · exact Nat.zero_le _

theorem readMulti_strided {count : Nat} (fuel : Nat) :
    ∀ {nsect block off : Nat} {s : Sectors} {buffer : Bytes} {touched : List (Nat × Nat)} {o : Outcome}, sectorSize * count ∣ off →
      Strided g (sectorSize * count) touched → readMulti g count fuel nsect block off s buffer touched = some o →
      Strided g (sectorSize * count) o.touched := by
  induction fuel with
  | zero =>
    intro nsect block off s buffer touched o _ hs ho
    unfold readMulti at ho
    split at ho
    · cases ho
    · cases ho
      exact hs
  | succ fuel ih =>
    intro nsect block off s buffer touched o hd hs ho
    have hs' := hs.snoc hd (readsects_pos s (block / count) (shift buffer off) count)
    unfold readMulti at ho
    split at ho
    · split at ho
      · cases ho
      · dsimp only at ho
        split at ho
        · cases ho
          exact hs'
        · exact ih (Dvd.dvd.add hd (dvd_refl _)) hs' ho
    · cases ho
      exact hs

theorem writeMulti_strided {count : Nat} (fuel : Nat) :
    ∀ {nsect block off : Nat} {s : Sectors} {buffer : Bytes} {touched : List (Nat × Nat)} {o : Outcome}, sectorSize * count ∣ off →
      Strided g (sectorSize * count) touched → writeMulti g count fuel nsect block off s buffer touched = some o →
      Strided g (sectorSize * count) o.touched := by
  induction fuel with
  | zero =>
    intro nsect block off s buffer touched o _ hs ho
    unfold writeMulti at ho
    split at ho
    · cases ho
    · cases ho
      exact hs
  | succ fuel ih =>
    intro nsect block off s buffer touched o hd hs ho
    have hs' := hs.snoc hd (writesects_pos s (block / count) (shift buffer off) count)
    unfold writeMulti at ho
    split at ho
    · split at ho
      · cases ho
      · dsimp only at ho
        split at ho
        · cases ho
          exact hs'
        · exact ih (Dvd.dvd.add hd (dvd_refl _)) hs' ho
    · cases ho
      exact hs

/-- The second page of the buffer is left out. -/
theorem Strided.not_covers {count n : Nat} {touched : List (Nat × Nat)} (h : Strided g (sectorSize * count) touched)
    (hc : 2 ≤ count) (hn : g.writesize < n) : ¬Covers touched n := by
  intro hcov
  obtain ⟨x, hx, hle, hlt⟩ := (hcov g.writesize).2 hn
  obtain ⟨⟨k, hk⟩, hlen⟩ := h x hx
  have hws := g.writesize_le
  have hk0 : k = 0 := by
    by_contra hne
    have hge : sectorSize * count ≤ x.1 := by
      rw [hk]
      exact Nat.le_mul_of_pos_right _ (Nat.pos_of_ne_zero hne)
    have hbig : sectorSize * 2 ≤ sectorSize * count := Nat.mul_le_mul_left _ hc
    unfold sectorSize at hge hbig
    omega
  rw [hk0, Nat.mul_zero] at hk
  omega

end Multi

/-! ## Requests -/

/-- What a page shows: the write-back page, or what is stored. -/
def Sectors.shown (g : Geom) (s : Sectors) (lpa : Nat) : Bytes := if s.holds g lpa then s.writeBuffer else s.store lpa

/-- The request is done as it would be one sector at a time: with the same result and the same effect on the device and on the buffer, and on exactly the bytes of
the request. -/
structure Agrees (g : Geom) (s : Sectors) (req : Request) (buffer : Bytes) (o : Outcome) : Prop where
  ret : o.ret = (eachSector g s req buffer).ret
  shown : ∀ lpa, ∀ i < g.writesize, o.s.shown g lpa i = (eachSector g s req buffer).s.shown g lpa i
  buffer : o.buffer = (eachSector g s req buffer).buffer
  touched : Covers o.touched (req.nsect * sectorSize)

/-- A request of the file system inside the disk. -/
structure OnDisk (g : Geom) (capacity : Nat) (req : Request) : Prop where
  fs : req.fs = true
  inside : req.sector + req.currentNrSectors ≤ capacity
  capacity : capacity * 512 ≤ g.nrBlks * g.erasesize

section OnDisk

variable {g : Geom} {capacity : Nat} {req : Request}

theorem OnDisk.hasSector (h : OnDisk g capacity req) {k : Nat} (hk : k < req.nsect) : g.hasSector (req.block + k) := by
  have hsize := g.size_lt
  have hcap := h.capacity
  have hin := h.inside
  unfold Geom.hasSector
  unfold Geom.erasesize at hcap ⊢
  generalize g.nrBlks * (g.nrPgsinblk * g.writesize) = size at hsize hcap ⊢
  have hsec : req.sector * 512 % 2 ^ 32 = req.sector * 512 := Nat.mod_eq_of_lt (by omega)
  have hnr : req.currentNrSectors * 512 % 2 ^ 32 = req.currentNrSectors * 512 := Nat.mod_eq_of_lt (by omega)
  unfold Request.nsect at hk
  unfold Request.block
  rw [hnr, show 4096 = 8 * 512 from rfl, Nat.mul_div_mul_right _ _ (by decide)] at hk
  rw [hsec, show 4096 = 8 * 512 from rfl, Nat.mul_div_mul_right _ _ (by decide)]
  have hend : (req.sector / 8 + k + 1) * 8 ≤ req.sector + req.currentNrSectors := by omega
  calc (req.sector / 8 + k + 1) * sectorSize = (req.sector / 8 + k + 1) * 8 * 512 := by rw [Nat.mul_assoc]
    _ ≤ capacity * 512 := Nat.mul_le_mul_right _ (le_trans hend hin)
    _ ≤ size := hcap

theorem eachSector_covers (h : OnDisk g capacity req) (s : Sectors) (buffer : Bytes) :
    Covers (eachSector g s req buffer).touched (req.nsect * sectorSize) := by
  have hin : ∀ k < req.nsect, g.hasSector (req.block + k) := fun k hk => h.hasSector hk
  unfold eachSector
  split
  · have hc := writeEach_covers (g := g) req.nsect s buffer hin covers_nil
    rw [Nat.zero_add] at hc
    exact hc
  · have hc := readEach_covers (g := g) req.nsect s buffer hin covers_nil
    rw [Nat.zero_add] at hc
    exact hc

/-- A request of no sectors. -/
theorem eachSector_nil (s : Sectors) (buffer : Bytes) (hn : req.nsect = 0) : eachSector g s req buffer = ⟨1, s, buffer, []⟩ := by
  unfold eachSector
  rw [hn]
  split
  · rfl
  · rfl

theorem request_nil (h : OnDisk g capacity req) (s : Sectors) (buffer : Bytes) (hn : req.nsect = 0) :
    doBlktransRequest g capacity s req buffer = some (eachSector g s req buffer) := by
  unfold doBlktransRequest
  rw [eachSector_nil s buffer hn, if_neg (by rw [h.fs]; decide), if_neg (by have := h.inside; omega), hn]
  split
  · split
    · rfl
    · rfl
  · rfl

end OnDisk

/-- The request agrees with the sector loop exactly when it has no sectors or is not passed to the multi-sector functions. -/
theorem request_agrees_iff (g : Geom) (capacity : Nat) (s : Sectors) (req : Request) (buffer : Bytes) (h : OnDisk g capacity req) :
    (∃ o, doBlktransRequest g capacity s req buffer = some o ∧ Agrees g s req buffer o) ↔
      req.nsect = 0 ∨ req.nsect % 8 ≠ 0 ∨ req.block % 8 ≠ 0 := by
  have hself : Agrees g s req buffer (eachSector g s req buffer) :=
    ⟨rfl, fun _ _ _ => rfl, rfl, eachSector_covers h s buffer⟩
  constructor
  · rintro ⟨o, ho, ha⟩
    by_contra hn
    push Not at hn
    obtain ⟨hne, h8, hb8⟩ := hn
    unfold doBlktransRequest at ho
    rw [if_neg (by rw [h.fs]; decide), if_neg (by have := h.inside; omega), if_pos ⟨h8, hb8⟩] at ho
    have hstr : Strided g (sectorSize * multiCount g) o.touched := by
      split at ho
      · exact writeMulti_strided _ (dvd_zero _) (fun x hx => absurd hx List.not_mem_nil) ho
      · exact readMulti_strided _ (dvd_zero _) (fun x hx => absurd hx List.not_mem_nil) ho
    have hcount : 2 ≤ multiCount g := by
      by_contra hlt
      -- the first step divides by zero
      have h0 : multiCount g = 0 := by
        unfold multiCount at hlt ⊢
        split at hlt
        · omega
        · split at hlt
          · omega
          · next h4 h2 => rw [if_neg h4, if_neg h2]
      obtain ⟨n, hn⟩ := Nat.exists_eq_succ_of_ne_zero hne
      rw [h0, hn] at ho
      split at ho
      · simp [writeMulti] at ho
      · simp [readMulti] at ho
    refine hstr.not_covers hcount ?_ ha.touched
    have hle := g.writesize_le
    unfold sectorSize
    omega
  · intro hc
    refine ⟨eachSector g s req buffer, ?_, hself⟩
    by_cases hn : req.nsect = 0
    · exact request_nil h s buffer hn
    · have hc' : ¬(req.nsect % 8 = 0 ∧ req.block % 8 = 0) := by
        intro hx
        obtain hc | hc | hc := hc
        · exact hn hc
        · exact hc hx.1
        · exact hc hx.2
      unfold doBlktransRequest
      rw [if_neg (by rw [h.fs]; decide), if_neg (by have := h.inside; omega), if_neg hc']

/-- Eight blocks of two pages. -/
def sixteenPages : Geom := ⟨4096, 2, 8, eightPages.writesize_pos, eightPages.writesize_le, eightPages.nrPgsinblk_pos, eightPages.nrPgsinblk_lt,
  by decide, by decide⟩

/-- A read of two sectors at sector 4 agrees. -/
theorem request_agrees_iff_two :
    OnDisk sixteenPages 128 ⟨32, 16, true, false⟩ ∧
      ∃ o, doBlktransRequest sixteenPages 128 .init ⟨32, 16, true, false⟩ (fun _ => 0) = some o ∧
        Agrees sixteenPages .init ⟨32, 16, true, false⟩ (fun _ => 0) o := by
  have h : OnDisk sixteenPages 128 ⟨32, 16, true, false⟩ := ⟨rfl, by decide, by decide⟩
  exact ⟨h, (request_agrees_iff sixteenPages 128 .init _ _ h).2 (by decide)⟩

/-- A read of eight sectors at sector 0 does not: the second page of the buffer is not touched. -/
theorem request_of_eight :
    OnDisk sixteenPages 128 ⟨0, 64, true, false⟩ ∧
      (doBlktransRequest sixteenPages 128 .init ⟨0, 64, true, false⟩ fun _ => 0).isSome = true ∧
      ((doBlktransRequest sixteenPages 128 .init ⟨0, 64, true, false⟩ fun _ => 0).map fun o => (o.ret, o.buffer 0, o.buffer 4096, o.touched)) =
        some (1, 0xff, 0, [(0, 4096)]) ∧
      (eachSector sixteenPages .init ⟨0, 64, true, false⟩ fun _ => 0).buffer 4096 = 0xff := by
  refine ⟨⟨rfl, by decide, by decide⟩, by decide +kernel, by decide +kernel, by decide +kernel⟩

end Emlinux.Blk
