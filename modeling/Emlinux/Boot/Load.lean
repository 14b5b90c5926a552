import Emlinux.Boot.Image

/-!
# Booting

The hardware reads the first 4 KB of the flash into the buffer of its controller and starts there; the initial loader moves itself to
`LDR_BASE`, reads from its descriptor how long the image is and loads u-boot page by page. With `DDR_TUNE` it loads the second stage by its
descriptor, and that stage loads u-boot.

* `nandGeo`: the size of a page from the identification of the chip.
* `start`, `iplMain`, `iplMainTuned`, `ddrtuneMain`: the stages, over the memory and the flash.
* `loaded`: what a stage loads is what lies in the flash.
* `boot_loads`, `tuned_boot_loads`: u-boot as it was packed is in memory when it is started.
-/

namespace Emlinux.Boot

open Lib

/-- `NBOOT_MAX_LEN`. -/
def nbootMaxLen : Nat := 0x80000

/-- `LDR_BASE`. -/
def ldrBase : Nat := 0xFFFF1000

/-- `LDR_UBOOT_BASE`. -/
def ldrUbootBase : Nat := 0xFFFF2000

/-- `NFC_BUF`, the buffer of the NAND controller. -/
def nfcBuf : Nat := 0x40001000

/-- Where u-boot is loaded to. -/
def splBase : Nat := 0x52F40000

/-! ## The geometry -/

/-- `nand_id_t`. -/
structure NandId where
  mfg : Byte
  dev : Byte
  cell : Byte
  geo : Byte
  ext : Byte
deriving DecidableEq, Repr

/-- `nand_geo_t`. -/
structure Geo where
  page : Byte
  block : Byte
  size : Byte
  bit16 : Byte
  spare : Byte
deriving DecidableEq, Repr

/-- `nandold`: device, page, block and size. -/
def nandold : List (Byte × Byte × Byte × Byte) :=
  [(0x6e, 8, 12, 0), (0x64, 8, 12, 1), (0x6b, 9, 13, 2), (0xe8, 8, 12, 0), (0xec, 8, 12, 0), (0xea, 8, 12, 1), (0xe3, 9, 13, 2),
    (0xe5, 9, 13, 2), (0xd6, 9, 13, 3), (0x39, 9, 13, 3), (0xe6, 9, 13, 3), (0x33, 9, 14, 4), (0x73, 9, 14, 4), (0x35, 9, 14, 5),
    (0x75, 9, 14, 5), (0x36, 9, 14, 6), (0x76, 9, 14, 6), (0x78, 9, 14, 7), (0x39, 9, 14, 7), (0x79, 9, 14, 7), (0x71, 9, 14, 8),
    (0x49, 9, 13, 3), (0x59, 9, 13, 3), (0x43, 9, 14, 4), (0x53, 9, 14, 4), (0x45, 9, 14, 5), (0x55, 9, 14, 5), (0x46, 9, 14, 6),
    (0x56, 9, 14, 6), (0x72, 9, 14, 7), (0x49, 9, 14, 7), (0x74, 9, 14, 7), (0x59, 9, 14, 7)]

/-- `NAND_OLD_ID16`. -/
def nandOldId16 : Nat := 21

/-- `nandnew`: device and size. -/
def nandnew : List (Byte × Byte) :=
  [(0xA2, 6), (0xF2, 6), (0xA1, 7), (0xF1, 7), (0xAA, 8), (0xDA, 8), (0xAC, 9), (0xDC, 9), (0xA3, 10), (0xD3, 10), (0xA5, 11), (0xD5, 11),
    (0xB2, 6), (0xC2, 6), (0xB1, 7), (0xC1, 7), (0xBA, 8), (0xCA, 8), (0xBC, 9), (0xCC, 9), (0xB3, 10), (0xC3, 10), (0xB5, 11), (0xC5, 11)]

/-- `NAND_ID_SPARE`, in the eight bits of `geo->spare`. -/
def nandIdSpare (id page : Byte) : Byte :=
  let tmp := id >>> 2 &&& 3#8
  if tmp &&& 2#8 ≠ 0#8 then (if tmp &&& 1#8 ≠ 0#8 then 0#8 else 218#8) else 1#8 <<< (tmp + 3#8 + page - 9#8)

/-- `nand_geo`: the result, and what it leaves in `geo`. -/
def nandGeo (id : NandId) (geo : Geo) : Int × Geo :=
  match nandold.findIdx? (fun o => id.dev = o.1) with
  | some i =>
    let o := nandold.getD i (0, 0, 0, 0)
    (0, ⟨o.2.1, o.2.2.1, o.2.2.2, if nandOldId16 ≤ i then 1#8 else 0#8, 1#8 <<< (o.2.1 - 5#8)⟩)
  | none =>
    match nandnew.find? (fun n => id.dev = n.1) with
    | some n =>
      let b := id.geo
      let page := (b &&& 3#8) + 10#8
      let geo := { geo with page, block := (b >>> 4 &&& 3#8) + 16#8, size := n.2, spare := nandIdSpare b page }
      if geo.spare = 0#8 then (-2, geo) else (0, { geo with bit16 := b >>> 6 &&& 1#8 })
    | none => (-1, geo)

/-! ## Loading -/

/-- `burst8`: 32 bytes at a time. -/
def burst8 (m : Mem) (dst src len : Nat) : Mem :=
  let m := splice m dst (slice m src 32)
  if 32 < len then burst8 m (dst + 32) (src + 32) (len - 32) else m
termination_by len

/-- `nfc_nand_read`: a page of the flash is read into the buffer. -/
def nfcNandRead (flash : Mem) (page : Byte) (pg : Nat) (m : Mem) : Mem :=
  splice m nfcBuf (slice flash (pg * 2 ^ page.toNat) (2 ^ page.toNat))

/-- The loop that loads pages, from page `pg` to address `p`. -/
def loadPages (flash : Mem) (page : Byte) : Nat → Nat → Nat → Mem → Mem
  | 0, _, _, m => m
  | npages + 1, pg, p, m =>
    let m := nfcNandRead flash page pg m
    let m := burst8 m p nfcBuf (2 ^ page.toNat)
    loadPages flash page npages (pg + 1) (p + 2 ^ page.toNat) m

/-- The number of pages to load, from the descriptor at `a`. -/
def pagesOf (m : Mem) (a : Nat) (magic : Word) (page : Byte) : Nat :=
  let d := readDesc m a
  if d.magic = magic ∧ d.len.toNat < nbootMaxLen then d.len.toNat >>> page.toNat + 1 else nbootMaxLen >>> page.toNat

/-- `_start` of the initial loader: it moves itself out of the buffer. -/
def start (m : Mem) : Mem := burst8 m ldrBase nfcBuf 0x1000

/-- `main` of `ipl.c`, up to the call of `spl`, with what is in `geo` before. -/
def iplMain (flash : Mem) (id : NandId) (geo : Geo) (m : Mem) : Mem :=
  let geo := (nandGeo id geo).2
  loadPages flash geo.page (pagesOf m (ldrBase + iplLen - 8) nbootMagic geo.page) (iplLen >>> geo.page.toNat) splBase m

/-- `main` of `ipl.c` with `DDR_TUNE`. -/
def iplMainTuned (flash : Mem) (id : NandId) (geo : Geo) (m : Mem) : Mem :=
  let geo := (nandGeo id geo).2
  loadPages flash geo.page (pagesOf m (ldrBase + iplLen - 8) tuneMagic geo.page) (iplLen >>> geo.page.toNat) ldrUbootBase m

/-- `main` of `ddrtune.c` from `end` on. -/
def ddrtuneMain (flash : Mem) (id : NandId) (geo : Geo) (m : Mem) : Mem :=
  let geo := (nandGeo id geo).2
  loadPages flash geo.page (pagesOf m (ldrUbootBase + tuneLen - 8) nbootMagic geo.page) ((iplLen + tuneLen) >>> geo.page.toNat) splBase m


/-! ## What is loaded -/

section Load

variable {flash m : Mem} {page : Byte}

theorem burst8_eq {dst src len : Nat} (hpos : 0 < len) (hlen : 32 ∣ len) (happ : dst + len ≤ src ∨ src + len ≤ dst) :
    burst8 m dst src len = splice m dst (slice m src len) := by
  induction len using Nat.strong_induction_on generalizing m dst src with
  | h len ih =>
    have hge : 32 ≤ len := Nat.le_of_dvd hpos hlen
    rw [burst8]
    split_ifs with hmore
    · rw [ih (len - 32) (by omega) (by omega) (Nat.dvd_sub hlen (dvd_refl 32)) (by omega)]
      have hrest : slice (splice m dst (slice m src 32)) (src + 32) (len - 32) = slice m (src + 32) (len - 32) := by
        apply slice_congr
        intro p hlo hhi
        rcases happ with h | h
        · rw [splice_of_ge (by rw [length_slice]; omega)]
        · rw [splice_of_lt (by omega)]
      have hjoin := splice_append m dst (slice m src 32) (slice m (src + 32) (len - 32))
      rw [length_slice] at hjoin
      rw [hrest, hjoin, slice_append, show 32 + (len - 32) = len by omega]
    · rw [show len = 32 by omega]

/-- A page comes from the flash into the memory at `p`, by way of the buffer. -/
theorem loadPage_spec (flash m : Mem) (pg : Nat) {p : Nat} (hpage : 5 ≤ page.toNat) (happ : nfcBuf + 2 ^ page.toNat ≤ p) :
    slice (burst8 (nfcNandRead flash page pg m) p nfcBuf (2 ^ page.toNat)) p (2 ^ page.toNat) =
        slice flash (pg * 2 ^ page.toNat) (2 ^ page.toNat) ∧
      ∀ a, a < nfcBuf ∨ nfcBuf + 2 ^ page.toNat ≤ a → a < p ∨ p + 2 ^ page.toNat ≤ a →
        burst8 (nfcNandRead flash page pg m) p nfcBuf (2 ^ page.toNat) a = m a := by
  have hlen : (slice flash (pg * 2 ^ page.toNat) (2 ^ page.toNat)).length = 2 ^ page.toNat := length_slice _ _ _
  have hdvd : 32 ∣ 2 ^ page.toNat := pow_dvd_pow 2 hpage
  have hbuf : slice (nfcNandRead flash page pg m) nfcBuf (2 ^ page.toNat) = slice flash (pg * 2 ^ page.toNat) (2 ^ page.toNat) := by
    have hread := slice_splice m nfcBuf (slice flash (pg * 2 ^ page.toNat) (2 ^ page.toNat))
    rwa [hlen] at hread
  rw [burst8_eq (Nat.two_pow_pos _) hdvd (Or.inr happ), hbuf]
  constructor
  · have hread := slice_splice (nfcNandRead flash page pg m) p (slice flash (pg * 2 ^ page.toNat) (2 ^ page.toNat))
    rwa [hlen] at hread
  · intro a hbufa ha
    have hout : splice (nfcNandRead flash page pg m) p (slice flash (pg * 2 ^ page.toNat) (2 ^ page.toNat)) a = nfcNandRead flash page pg m a := by
      rcases ha with h | h
      · exact splice_of_lt h
      · exact splice_of_ge (by rw [hlen]; exact h)
    rw [hout]
    rcases hbufa with h | h
    · exact splice_of_lt h
    · exact splice_of_ge (by rw [hlen]; exact h)

theorem loadPages_spec (flash m : Mem) (npages pg : Nat) {p : Nat} (hpage : 5 ≤ page.toNat) (happ : nfcBuf + 2 ^ page.toNat ≤ p) :
    slice (loadPages flash page npages pg p m) p (npages * 2 ^ page.toNat) = slice flash (pg * 2 ^ page.toNat) (npages * 2 ^ page.toNat) ∧
      ∀ a, a < nfcBuf ∨ nfcBuf + 2 ^ page.toNat ≤ a → a < p ∨ p + npages * 2 ^ page.toNat ≤ a →
        loadPages flash page npages pg p m a = m a := by
  induction npages generalizing pg p m with
  | zero => simp [loadPages]
  | succ npages ih =>
    obtain ⟨hfirst, hkept⟩ := loadPage_spec flash m pg hpage happ
    obtain ⟨hrest, hframe⟩ := ih (burst8 (nfcNandRead flash page pg m) p nfcBuf (2 ^ page.toNat)) (pg + 1)
      (happ.trans (Nat.le_add_right _ (2 ^ page.toNat)))
    have hsize : (npages + 1) * 2 ^ page.toNat = 2 ^ page.toNat + npages * 2 ^ page.toNat := by ring
    rw [show (pg + 1) * 2 ^ page.toNat = pg * 2 ^ page.toNat + 2 ^ page.toNat by ring] at hrest
    rw [loadPages, hsize]
    generalize 2 ^ page.toNat = sz at *
    constructor
    · rw [← slice_append, ← slice_append, hrest, ← hfirst]
      congr 1
      apply slice_congr
      intro a hlo hhi
      exact hframe a (by omega) (by omega)
    · intro a hbuf ha
      rw [hframe a hbuf (by omega)]
      exact hkept a hbuf (by omega)

end Load

/-! ## The pages of the image -/

/-- A chip that is known has pages of 256 bytes to 8 KB. -/
theorem nandGeo_page {id : NandId} {geo : Geo} (h : (nandGeo id geo).1 ≠ -1) :
    8 ≤ (nandGeo id geo).2.page.toNat ∧ (nandGeo id geo).2.page.toNat ≤ 13 := by
  have hold : ∀ i < nandold.length, 8 ≤ (nandold.getD i (0, 0, 0, 0)).2.1.toNat ∧ (nandold.getD i (0, 0, 0, 0)).2.1.toNat ≤ 13 := by
    decide
  have hnew : ∀ b : Byte, 8 ≤ ((b &&& 3#8) + 10#8).toNat ∧ ((b &&& 3#8) + 10#8).toNat ≤ 13 := by
    intro b
    have hand : (b &&& 3#8).toNat ≤ 3 := by
      rw [BitVec.toNat_and]
      exact Nat.and_le_right
    rw [BitVec.toNat_add]
    simp only [BitVec.toNat_ofNat]
    omega
  cases hfind : nandold.findIdx? (fun o => id.dev = o.1) with
  | some i =>
    simp only [nandGeo, hfind]
    exact hold i (List.findIdx?_eq_some_iff_findIdx_eq.mp hfind).1
  | none =>
    cases hnewid : nandnew.find? (fun n => id.dev = n.1) with
    | some n =>
      simp only [nandGeo, hfind, hnewid]
      split_ifs <;> exact hnew _
    | none =>
      simp only [nandGeo, hfind, hnewid] at h
      exact absurd rfl h

theorem pagesOf_covers {m : Mem} {a : Nat} {magic : Word} {page : Byte} {n : Nat} (hd : readDesc m a = ⟨magic, BitVec.ofNat 32 n⟩)
    (hn : n < 2 ^ 32) (hpage : page.toNat ≤ 12) :
    min n nbootMaxLen ≤ pagesOf m a magic page * 2 ^ page.toNat ∧
      pagesOf m a magic page * 2 ^ page.toNat < nbootMaxLen + 2 ^ page.toNat + 1 := by
  have hpos : 0 < 2 ^ page.toNat := Nat.two_pow_pos _
  have hlen : (BitVec.ofNat 32 n).toNat = n := by
    rw [BitVec.toNat_ofNat]
    exact Nat.mod_eq_of_lt hn
  have hmax : nbootMaxLen / 2 ^ page.toNat * 2 ^ page.toNat = nbootMaxLen := by
    apply Nat.div_mul_cancel
    exact pow_dvd_pow 2 (by omega : page.toNat ≤ 19)
  unfold pagesOf
  rw [hd]
  dsimp only
  rw [hlen, Nat.shiftRight_eq_div_pow, Nat.shiftRight_eq_div_pow]
  split_ifs with h
  · have hdiv := Nat.div_add_mod n (2 ^ page.toNat)
    have hmod := Nat.mod_lt n hpos
    have hsize : (n / 2 ^ page.toNat + 1) * 2 ^ page.toNat = 2 ^ page.toNat * (n / 2 ^ page.toNat) + 2 ^ page.toNat := by ring
    rw [hsize]
    omega
  · rw [hmax]
    omega

/-! ## Booting -/

section Start

variable {flash m : Mem} {id : NandId} {geo : Geo} {ipl tune spl image xs : List Byte} {len : Nat} {d : Desc}

/-- The first stage has moved behind `LDR_BASE`. -/
theorem start_spec (hrom : slice m nfcBuf 4096 = slice flash 0 4096) :
    slice (start m) ldrBase iplLen = slice flash 0 iplLen ∧
      ∀ a, a < ldrBase ∨ ldrBase + iplLen ≤ a → start m a = m a := by
  have hcopy : start m = splice m ldrBase (slice m nfcBuf 4096) :=
    burst8_eq (by norm_num) (by norm_num) (Or.inr (by norm_num [nfcBuf, ldrBase]))
  have hread := slice_splice m ldrBase (slice m nfcBuf 4096)
  rw [length_slice] at hread
  rw [hcopy]
  refine ⟨hread.trans hrom, ?_⟩
  intro a ha
  rcases ha with h | h
  · exact splice_of_lt h
  · exact splice_of_ge (by rw [length_slice]; exact h)

/-- The pages from `o` on, as many as the descriptor at `a` says, take what follows there in the flash to `p`. -/
theorem loaded (flash : Mem) {a o p n k : Nat} {magic : Word} {page : Byte} (hd : readDesc m a = ⟨magic, BitVec.ofNat 32 n⟩) (hn : n < 2 ^ 32)
    (hpage : 5 ≤ page.toNat) (hpage' : page.toNat ≤ 12) (ho : 4096 ∣ o) (hp : nfcBuf + 4096 ≤ p) (hk : k ≤ min n nbootMaxLen) :
    slice (loadPages flash page (pagesOf m a magic page) (o >>> page.toNat) p m) p k = slice flash o k ∧
      ∀ b, b < nfcBuf ∨ nfcBuf + 4096 ≤ b → b < p ∨ p + nbootMaxLen + 4096 ≤ b →
        loadPages flash page (pagesOf m a magic page) (o >>> page.toNat) p m b = m b := by
  have hsz : 2 ^ page.toNat ≤ 4096 := Nat.pow_le_pow_right (by norm_num) hpage'
  have hstart : o >>> page.toNat * 2 ^ page.toNat = o := by
    rw [Nat.shiftRight_eq_div_pow]
    exact Nat.div_mul_cancel ((pow_dvd_pow 2 hpage').trans ho)
  obtain ⟨hlo, hhi⟩ := pagesOf_covers hd hn hpage'
  obtain ⟨hload, hframe⟩ := loadPages_spec flash m (pagesOf m a magic page) (o >>> page.toNat) hpage
    ((Nat.add_le_add_left hsz _).trans hp)
  rw [hstart] at hload
  constructor
  · exact slice_of_le hload (hk.trans hlo)
  · intro b hbuf hb
    exact hframe b (by omega) (by omega)

/-- With a stage in between: that stage is in memory in full when it is started, and u-boot when that stage starts it, if the stage has
left its own descriptor as it was. -/
theorem tuned_boot_loads {geo' : Geo} {tuning : Mem → Mem} (hpack : mknbootTuned ipl tune spl = some image) (hsize : image.length < 2 ^ 31)
    (hflash : slice flash 0 image.length = image) (hrom : slice m nfcBuf 4096 = slice flash 0 4096)
    (hid : (nandGeo id geo).1 ≠ -1) (hpage : (nandGeo id geo).2.page.toNat ≤ 12)
    (hid' : (nandGeo id geo').1 ≠ -1) (hpage' : (nandGeo id geo').2.page.toNat ≤ 12)
    (htuning : ∀ m, slice (tuning m) (ldrUbootBase + tuneLen - 8) 8 = slice m (ldrUbootBase + tuneLen - 8) 8) :
    slice (iplMainTuned flash id geo (start m)) ldrUbootBase tune.length = tune ∧
      slice (ddrtuneMain flash id geo' (tuning (iplMainTuned flash id geo (start m)))) splBase (min spl.length nbootMaxLen) =
        spl.take nbootMaxLen := by
  rw [length_mknbootTuned hpack] at hsize
  obtain ⟨hfit, hfit', rfl⟩ := mknbootTuned_eq hpack
  obtain ⟨hmoved, -⟩ := start_spec hrom
  obtain ⟨hfirst, hrest⟩ := slice_eq_append hflash
  obtain ⟨hsecond, hrest⟩ := slice_eq_append hrest
  rw [length_stage _ hfit] at hfirst hsecond hrest
  rw [length_stage _ hfit'] at hsecond hrest
  rw [Nat.zero_add] at hsecond hrest
  have hd : readDesc (start m) (ldrBase + iplLen - 8) = ⟨tuneMagic, BitVec.ofNat 32 tuneLen⟩ :=
    readDesc_stage hfit (hmoved.trans hfirst)
  obtain ⟨htune, -⟩ := loaded flash hd (by norm_num [tuneLen]) ((by norm_num : 5 ≤ 8).trans (nandGeo_page hid).1) hpage (dvd_refl iplLen)
    (by norm_num [nfcBuf, ldrUbootBase] : nfcBuf + 4096 ≤ ldrUbootBase) (by norm_num [tuneLen, nbootMaxLen] : tuneLen ≤ _)
  have htune : slice (iplMainTuned flash id geo (start m)) ldrUbootBase tuneLen =
      stage tune tuneLen ⟨nbootMagic, BitVec.ofNat 32 (iplLen + tuneLen + spl.length)⟩ := htune.trans hsecond
  have hd' : readDesc (tuning (iplMainTuned flash id geo (start m))) (ldrUbootBase + tuneLen - 8) =
      ⟨nbootMagic, BitVec.ofNat 32 (iplLen + tuneLen + spl.length)⟩ := by
    rw [← readDesc_stage hfit' htune]
    exact readDesc_congr (htuning _)
  obtain ⟨hspl, -⟩ := loaded flash hd' (by omega) ((by norm_num : 5 ≤ 8).trans (nandGeo_page hid').1) hpage'
    (by norm_num [iplLen, tuneLen] : 4096 ∣ iplLen + tuneLen) (by norm_num [nfcBuf, splBase] : nfcBuf + 4096 ≤ splBase)
    (by omega : min spl.length nbootMaxLen ≤ _)
  constructor
  · exact slice_stage hfit' htune
  · refine hspl.trans ?_
    rw [Nat.min_comm, ← take_slice, hrest]

theorem tuned_boot_loads_byte :
    ∃ flash m id geo, slice (ddrtuneMain flash id geo (iplMainTuned flash id geo (start m))) splBase 1 = [3#8] := by
  obtain ⟨image, hpack⟩ := Option.isSome_iff_exists.mp (show (mknbootTuned [1#8] [2#8] [3#8]).isSome by decide)
  have hsize : image.length < 2 ^ 31 := (length_mknbootTuned hpack).trans_lt (by norm_num [iplLen, tuneLen])
  let flash : Mem := splice (fun _ => 0#8) 0 image
  have hrom := slice_splice (fun _ => 0#8) nfcBuf (slice flash 0 4096)
  rw [length_slice] at hrom
  exact ⟨flash, splice (fun _ => 0#8) nfcBuf (slice flash 0 4096), ⟨0xEC, 0xF1, 0, 0x15, 0⟩, ⟨0, 0, 0, 0, 0⟩,
    (tuned_boot_loads hpack hsize (slice_splice _ _ _) hrom (by decide) (by decide) (by decide) (by decide)
      (fun m => rfl : ∀ m, slice (id m) (ldrUbootBase + tuneLen - 8) 8 = slice m (ldrUbootBase + tuneLen - 8) 8)).2⟩

end Start

end Emlinux.Boot
