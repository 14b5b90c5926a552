import Emlinux.Lib.Splice
import Mathlib.Data.BitVec

/-!
# The boot image

`mknboot` lays the initial loader, a descriptor and u-boot one behind the other in one file, which is written to the NAND flash from its start.
With `DDR_TUNE` a second stage, which tunes the memory, stands in between, with a descriptor of its own.

* `mknboot`, `mknbootTuned`: the file.
* `stage`: a stage, filled up, with the descriptor behind it; `mknboot_eq`, `mknbootTuned_eq`: the file consists of stages and u-boot.
* `readDesc_stage`: the descriptor of a stage in memory is read back.
-/

namespace Emlinux.Boot

open Lib

abbrev Byte := BitVec 8

abbrev Word := BitVec 32

/-- The memory by addresses; the registers of the NAND controller are part of it as far as its buffer goes. -/
abbrev Mem := Nat → Byte

/-- `IPL_LEN`. -/
def iplLen : Nat := 4096

/-- `TUNE_LEN`. -/
def tuneLen : Nat := 8192

/-- `NBOOT_MAGIC`. -/
def nbootMagic : Word := 0x4E424C52#32

/-- `TUNE_MAGIC`. -/
def tuneMagic : Word := 0x4E424C25#32

/-- `struct nboot_desc`, and `struct ddr_tune_desc`, which is the same. -/
structure Desc where
  magic : Word
  len : Word
deriving DecidableEq, Repr

/-! ## Packing -/

/-- A word in memory, the low byte first. -/
def le32 (w : Word) : List Byte := [w.extractLsb' 0 8, w.extractLsb' 8 8, w.extractLsb' 16 8, w.extractLsb' 24 8]

def Desc.bytes (d : Desc) : List Byte := le32 d.magic ++ le32 d.len

/-- `main` of `mknboot.c`: the file it writes, with the padding up to the descriptor. A file that is empty cannot be mapped; the files are
below 2 GB, so that the sizes fit in an `int`. -/
def mknboot (ipl spl : List Byte) : Option (List Byte) :=
  let leni := ipl.length
  let lens := spl.length
  let pad : Int := iplLen - leni - 8
  if pad < 0 then none
  else
    let nboot : Desc := ⟨nbootMagic, BitVec.ofNat 32 (iplLen + lens)⟩
    if leni = 0 ∨ lens = 0 then none
    else
      let bufo := splice (fun _ => 0#8) 0 ipl
      let bufo := splice bufo leni (List.replicate pad.toNat 0xFF#8)
      let bufo := splice bufo (leni + pad.toNat) nboot.bytes
      let bufo := splice bufo iplLen spl
      some (slice bufo 0 (iplLen + lens))

/-- `main` of `mknboot.c` with `DDR_TUNE`. -/
def mknbootTuned (ipl tune spl : List Byte) : Option (List Byte) :=
  let leni := ipl.length
  let lend := tune.length
  let lens := spl.length
  let padIpl : Int := iplLen - leni - 8
  let padTune : Int := tuneLen - lend - 8
  if padIpl < 0 then none
  else if padTune < 0 then none
  else
    let nboot : Desc := ⟨nbootMagic, BitVec.ofNat 32 (iplLen + tuneLen + lens)⟩
    let ddrTune : Desc := ⟨tuneMagic, BitVec.ofNat 32 tuneLen⟩
    if leni = 0 ∨ lens = 0 ∨ lend = 0 then none
    else
      let bufo := splice (fun _ => 0#8) 0 ipl
      let bufo := splice bufo leni (List.replicate padIpl.toNat 0xFF#8)
      let bufo := splice bufo (leni + padIpl.toNat) ddrTune.bytes
      let bufo := splice bufo iplLen tune
      let bufo := splice bufo (iplLen + lend) (List.replicate padTune.toNat 0xFF#8)
      let bufo := splice bufo (iplLen + lend + padTune.toNat) nboot.bytes
      let bufo := splice bufo (iplLen + tuneLen) spl
      some (slice bufo 0 (iplLen + tuneLen + lens))

/-! ## The descriptor in memory -/

def rd32 (m : Mem) (a : Nat) : Word := m (a + 3) ++ m (a + 2) ++ m (a + 1) ++ m a

def readDesc (m : Mem) (a : Nat) : Desc := ⟨rd32 m a, rd32 m (a + 4)⟩

/-! ## What is packed -/

section Pack

variable {ipl tune spl image : List Byte}

@[simp] theorem Desc.length_bytes (d : Desc) : d.bytes.length = 8 := rfl

/-- A stage, filled up, with the descriptor behind it. -/
def stage (xs : List Byte) (len : Nat) (d : Desc) : List Byte := xs ++ (List.replicate (len - 8 - xs.length) 0xFF#8 ++ d.bytes)

theorem length_stage {xs : List Byte} {len : Nat} (d : Desc) (h : xs.length + 8 ≤ len) : (stage xs len d).length = len := by
  simp only [stage, List.length_append, List.length_replicate, Desc.length_bytes]
  omega

theorem splice_stage (f : Mem) (o : Nat) (xs : List Byte) (len : Nat) (d : Desc) :
    splice (splice (splice f o xs) (o + xs.length) (List.replicate (len - 8 - xs.length) 0xFF#8))
      (o + xs.length + (len - 8 - xs.length)) d.bytes = splice f o (stage xs len d) := by
  have hpad := splice_append (splice f o xs) (o + xs.length) (List.replicate (len - 8 - xs.length) 0xFF#8) d.bytes
  rw [List.length_replicate] at hpad
  rw [hpad, splice_append]
  rfl

theorem mknboot_eq (h : mknboot ipl spl = some image) :
    ipl.length + 8 ≤ iplLen ∧ image = stage ipl iplLen ⟨nbootMagic, BitVec.ofNat 32 (iplLen + spl.length)⟩ ++ spl := by
  unfold mknboot at h
  dsimp only at h
  split_ifs at h with hneg hempty
  rw [Option.some_inj] at h
  have hfits : ipl.length + 8 ≤ iplLen := by omega
  have hfill : ((iplLen : Int) - ipl.length - 8).toNat = iplLen - 8 - ipl.length := by omega
  refine ⟨hfits, ?_⟩
  have hstage := splice_stage (fun _ => 0#8) 0 ipl iplLen ⟨nbootMagic, BitVec.ofNat 32 (iplLen + spl.length)⟩
  rw [Nat.zero_add] at hstage
  have happ := splice_append (fun _ => 0#8) 0 (stage ipl iplLen ⟨nbootMagic, BitVec.ofNat 32 (iplLen + spl.length)⟩) spl
  rw [length_stage _ hfits, Nat.zero_add] at happ
  rw [hfill, hstage, happ] at h
  have hread := slice_splice (fun _ => 0#8) 0 (stage ipl iplLen ⟨nbootMagic, BitVec.ofNat 32 (iplLen + spl.length)⟩ ++ spl)
  rw [List.length_append, length_stage _ hfits] at hread
  rw [← h, hread]

theorem length_mknboot (h : mknboot ipl spl = some image) : image.length = iplLen + spl.length := by
  obtain ⟨hfits, rfl⟩ := mknboot_eq h
  rw [List.length_append, length_stage _ hfits]

theorem mknbootTuned_eq (h : mknbootTuned ipl tune spl = some image) :
    ipl.length + 8 ≤ iplLen ∧ tune.length + 8 ≤ tuneLen ∧
      image = stage ipl iplLen ⟨tuneMagic, BitVec.ofNat 32 tuneLen⟩ ++
        (stage tune tuneLen ⟨nbootMagic, BitVec.ofNat 32 (iplLen + tuneLen + spl.length)⟩ ++ spl) := by
  unfold mknbootTuned at h
  dsimp only at h
  split_ifs at h with hneg hneg' hempty
  rw [Option.some_inj] at h
  have hipl : ipl.length + 8 ≤ iplLen := by omega
  have htune : tune.length + 8 ≤ tuneLen := by omega
  have hfill : ((iplLen : Int) - ipl.length - 8).toNat = iplLen - 8 - ipl.length := by omega
  have hfill' : ((tuneLen : Int) - tune.length - 8).toNat = tuneLen - 8 - tune.length := by omega
  refine ⟨hipl, htune, ?_⟩
  let first := stage ipl iplLen ⟨tuneMagic, BitVec.ofNat 32 tuneLen⟩
  let second := stage tune tuneLen ⟨nbootMagic, BitVec.ofNat 32 (iplLen + tuneLen + spl.length)⟩
  have hfirst : first.length = iplLen := length_stage _ hipl
  have hsecond : second.length = tuneLen := length_stage _ htune
  have hs1 := splice_stage (fun _ => 0#8) 0 ipl iplLen ⟨tuneMagic, BitVec.ofNat 32 tuneLen⟩
  rw [Nat.zero_add] at hs1
  rw [hfill, hfill', hs1, splice_stage] at h
  have happ := splice_append (splice (fun _ => 0#8) 0 first) iplLen second spl
  have happ' := splice_append (fun _ => 0#8) 0 first (second ++ spl)
  rw [hsecond] at happ
  rw [hfirst, Nat.zero_add] at happ'
  rw [happ, happ'] at h
  have hread := slice_splice (fun _ => 0#8) 0 (first ++ (second ++ spl))
  rw [List.length_append, List.length_append, hfirst, hsecond, ← Nat.add_assoc] at hread
  rw [← h, hread]

theorem length_mknbootTuned (h : mknbootTuned ipl tune spl = some image) : image.length = iplLen + tuneLen + spl.length := by
  obtain ⟨hipl, htune, rfl⟩ := mknbootTuned_eq h
  rw [List.length_append, List.length_append, length_stage _ hipl, length_stage _ htune, Nat.add_assoc]

end Pack

theorem rd32_eq {m : Mem} {a : Nat} {w : Word} (h : slice m a 4 = le32 w) : rd32 m a = w := by
  have hb : [m a, m (a + 1), m (a + 2), m (a + 3)] = le32 w := h
  unfold le32 at hb
  simp only [List.cons.injEq, and_true] at hb
  obtain ⟨h0, h1, h2, h3⟩ := hb
  rw [rd32, h0, h1, h2, h3]
  apply BitVec.eq_of_getLsbD_eq
  intro i hi
  simp only [BitVec.getLsbD_append, BitVec.getLsbD_extractLsb']
  grind

theorem readDesc_eq {m : Mem} {a : Nat} {d : Desc} (h : slice m a 8 = d.bytes) : readDesc m a = d := by
  have hsplit : slice m a 4 ++ slice m (a + 4) 4 = le32 d.magic ++ le32 d.len := by
    rw [slice_append]
    exact h
  obtain ⟨hmagic, hlen⟩ := List.append_inj hsplit (length_slice _ _ _)
  rw [readDesc, rd32_eq hmagic, rd32_eq hlen]

theorem readDesc_congr {m m' : Mem} {a : Nat} (h : slice m a 8 = slice m' a 8) : readDesc m a = readDesc m' a := by
  have hbytes : [m a, m (a + 1), m (a + 2), m (a + 3), m (a + 4), m (a + 5), m (a + 6), m (a + 7)] =
      [m' a, m' (a + 1), m' (a + 2), m' (a + 3), m' (a + 4), m' (a + 5), m' (a + 6), m' (a + 7)] := h
  simp only [List.cons.injEq] at hbytes
  simp only [readDesc, rd32, hbytes]

/-- The descriptor at the end of a stage is read back. -/
theorem readDesc_stage {m : Mem} {a len : Nat} {xs : List Byte} {d : Desc} (hfit : xs.length + 8 ≤ len)
    (h : slice m a len = stage xs len d) : readDesc m (a + len - 8) = d := by
  have hsplit : slice m a (len - 8) ++ slice m (a + (len - 8)) 8 = xs ++ List.replicate (len - 8 - xs.length) 0xFF#8 ++ d.bytes := by
    rw [slice_append, show len - 8 + 8 = len by omega, h, stage, List.append_assoc]
  have hlen : (slice m a (len - 8)).length = (xs ++ List.replicate (len - 8 - xs.length) 0xFF#8).length := by
    rw [length_slice, List.length_append, List.length_replicate]
    omega
  obtain ⟨_, hd⟩ := List.append_inj hsplit hlen
  rw [show a + len - 8 = a + (len - 8) by omega]
  exact readDesc_eq hd

theorem slice_stage {m : Mem} {a len : Nat} {xs : List Byte} {d : Desc} (hfit : xs.length + 8 ≤ len)
    (h : slice m a len = stage xs len d) : slice m a xs.length = xs := by
  have hall : slice m a (stage xs len d).length = stage xs len d := by rwa [length_stage _ hfit]
  exact (slice_eq_append hall).1

end Emlinux.Boot
