import Emlinux.Dma.Owner
import Emlinux.Lib.Field
import Mathlib.Tactic

/-!
# Legal configurations

`dma_cfg` checks a full configuration and encodes it in the configuration register of the channel. `Cfg.Legal` is what a FIFO can do, `Encodes`
the layout of `dmar.h` read field by field. The checks are made in eight bits: `Fifo.Passes` is what they let through, `Fifo.Sound` what
they miss.

* `cfgCheck_eq`: the checks and the word, with the arithmetic of the driver.
* `legal_iff_sound`: the driver accepts only what is legal and encodes it, when nothing passes that is not sound.
-/

namespace Emlinux.Dma

open Lib

variable {ε : Type}

/-! ## What a FIFO can do -/

/-- `DMA_CAP_FIFOSZ`, before it is stored in eight bits. -/
def capFifosz (cap : Word) : Nat := 2 ^ (field cap 2 2 + 5)

namespace Fifo

variable (f : Fifo)

/-- The side of the channel is a FIFO. -/
def used : Bool := f.width != 0#8

/-- The bytes of a burst. -/
def burst : Nat := f.width.toNat * f.depth.toNat

structure Legal (size : Nat) (count : Word) : Prop where
  width : f.width.toNat ∈ [1, 2, 4, 8]
  depth : 1 ≤ f.depth.toNat
  count : f.width.toNat ∣ count.toNat
  burst : f.burst ≤ size

/-- The side that starts at bit `pos` of the register: whether it is a FIFO, the logarithm of its width, and its request line. -/
structure Encoded (v : Word) (pos : Nat) : Prop where
  fifo : field v pos 1 = f.used.toNat
  spare : field v (pos + 1) 1 = 0
  width : f.used = true → 2 ^ field v (pos + 2) 2 = f.width.toNat
  req : f.used = true → field v (pos + 4) 4 = f.req.toNat
  unused : f.used = false → field v (pos + 2) 6 = 0

/-- The checks of one side: the width among those that `DMA_WIDTH_ERR` knows, and the size of the burst in eight bits. -/
structure Passes (size : Nat) (count : Word) : Prop where
  width : f.width.toNat ∈ [1, 2, 4, 7, 8]
  count : count &&& (f.width.setWidth 32 - 1#32) = 0#32
  burst : f.burst % 256 ≤ size % 256

/-- What the checks do not ask. -/
structure Sound : Prop where
  width : f.width ≠ 7#8
  depth : f.depth ≠ 0#8
  burst : f.burst < 256
  req : f.req.toNat < 16

end Fifo

namespace Cfg

variable (cfg : Cfg ε)

/-- A statement about the sides that are FIFOs. -/
def Sides (P : Fifo → Prop) : Prop := (cfg.src.used = true → P cfg.src) ∧ (cfg.dst.used = true → P cfg.dst)

/-- Both sides are FIFOs of different dimensions. -/
def Unmatched : Prop :=
  cfg.src.used = true ∧ cfg.dst.used = true ∧ (cfg.src.width ≠ cfg.dst.width ∨ cfg.src.depth ≠ cfg.dst.depth)

def Legal (size : Nat) : Prop := cfg.Sides fun f => f.Legal size cfg.count

def Passes (size : Nat) : Prop := ¬ cfg.Unmatched ∧ cfg.Sides fun f => f.Passes size cfg.count

def Sound : Prop := cfg.Sides Fifo.Sound

/-- The burst of the channel; between two memories it is 64 bytes. -/
def burst : Nat := if cfg.dst.used then cfg.dst.burst else if cfg.src.used then cfg.src.burst else 64

end Cfg

/-- The configuration register holds the configuration, and nothing else. -/
structure Encodes (cfg : Cfg ε) (v : Word) : Prop where
  control : field v 0 3 = 0
  flush : field v 3 1 = (cfg.flush != 0#8).toNat
  spare : field v 4 4 = 0
  burst : field v 8 8 + 1 = cfg.burst
  src : cfg.src.Encoded v 16
  dst : cfg.dst.Encoded v 24

/-! ## The checks -/

/-- The code of a width. -/
def widthCode (w : Byte) : Byte := if w >>> 1 = 4#8 then 3#8 else w >>> 1

theorem widthErr_iff (w : Byte) : widthErr w = false ↔ w.toNat ∈ [0, 1, 2, 4, 7, 8] := by
  revert w
  decide

theorem widthCode_lt (w : Byte) (h : widthErr w = false) : (widthCode w).toNat < 4 := by
  revert h
  revert w
  decide

theorem two_pow_widthCode (w : Byte) (h : widthErr w = false) (h0 : w ≠ 0#8) (h7 : w ≠ 7#8) : 2 ^ (widthCode w).toNat = w.toNat := by
  revert h h0 h7
  revert w
  decide

variable {f : Fifo} {cfg : Cfg ε} {size : Nat} {count : Word}

theorem Fifo.used_iff : f.used = true ↔ f.width ≠ 0#8 := by
  simp [Fifo.used]

theorem Fifo.Passes.widthErr (h : f.Passes size count) : widthErr f.width = false := by
  rw [widthErr_iff]
  exact List.mem_cons_of_mem _ h.width

theorem burst_mod (f : Fifo) : (f.width * f.depth).toNat = f.burst % 256 := BitVec.toNat_mul _ _

/-- A width that `DMA_WIDTH_ERR` lets through. -/
theorem fifoparm_width (hw : widthErr f.width = false) (size : Byte) (count : Word) : dmaFifoparm f size count =
    if count &&& (f.width.setWidth 32 - 1#32) ≠ 0#32 then .error errParm
    else if size < f.width * f.depth then .error errParm else .ok (widthCode f.width) := by
  have hle : ¬ 4#8 < f.width >>> 1 := by
    revert hw
    generalize f.width = w
    revert w
    decide
  unfold dmaFifoparm widthCode
  rw [if_neg hle]

theorem fifoparm_passes (h : f.Passes size count) : dmaFifoparm f (BitVec.ofNat 8 size) count = .ok (widthCode f.width) := by
  have hsize : ¬ BitVec.ofNat 8 size < f.width * f.depth := by
    rw [BitVec.lt_def, burst_mod, BitVec.toNat_ofNat]
    exact Nat.not_lt.mpr h.burst
  rw [fifoparm_width h.widthErr, if_neg (not_not.mpr h.count), if_neg hsize]

theorem fifoparm_fails (hw : widthErr f.width = false) (hu : f.used = true) (h : ¬ f.Passes size count) :
    dmaFifoparm f (BitVec.ofNat 8 size) count = .error errParm := by
  rw [fifoparm_width hw]
  split_ifs with h₁ h₂
  · rfl
  · rfl
  · exfalso
    apply h
    refine ⟨?_, not_not.mp h₁, ?_⟩
    · have hmem := (widthErr_iff _).mp hw
      have hne : f.width.toNat ≠ 0 := fun h0 => Fifo.used_iff.mp hu (BitVec.eq_of_toNat_eq h0)
      exact (List.mem_cons.mp hmem).resolve_left hne
    · rw [BitVec.lt_def, burst_mod, BitVec.toNat_ofNat] at h₂
      exact Nat.not_lt.mp h₂

/-- The code of a side, zero when it is no FIFO. -/
def sideCode (f : Fifo) : Byte := if f.used then widthCode f.width else f.width

/-- The burst in eight bits. -/
def burstByte (cfg : Cfg ε) : Byte :=
  if cfg.dst.used then cfg.dst.width * cfg.dst.depth else if cfg.src.used then cfg.src.width * cfg.src.depth else 64#8

theorem Fifo.unused_iff : f.used = false ↔ f.width = 0#8 := by
  simp [Fifo.used]

theorem Cfg.Passes.widthErr (h : cfg.Passes size) : (Dma.widthErr cfg.src.width || Dma.widthErr cfg.dst.width) = false := by
  have hside : ∀ f : Fifo, (f.used = true → f.Passes size cfg.count) → Dma.widthErr f.width = false := by
    intro f hf
    cases hu : f.used with
    | true => exact (hf hu).widthErr
    | false =>
      rw [Fifo.unused_iff.mp hu]
      rfl
  rw [hside _ h.2.1, hside _ h.2.2]
  rfl

theorem ok_bind {α β : Type} (a : α) (k : α → Except Int β) : (Except.ok a >>= k) = k a := rfl

/-- What passes is encoded. -/
theorem cfgCheck_passes (h : cfg.Passes size) :
    cfgCheck (BitVec.ofNat 8 size) cfg = .ok (cfgWord cfg (sideCode cfg.src) (sideCode cfg.dst) (burstByte cfg)) := by
  obtain ⟨hmatch, hsrc, hdst⟩ := h
  have hm : ¬(cfg.src.width ≠ 0#8 ∧ cfg.dst.width ≠ 0#8 ∧ (cfg.src.width ≠ cfg.dst.width ∨ cfg.src.depth ≠ cfg.dst.depth)) := by
    rwa [← Fifo.used_iff, ← Fifo.used_iff]
  unfold cfgCheck sideCode burstByte
  rw [if_neg (by rw [Cfg.Passes.widthErr ⟨hmatch, hsrc, hdst⟩]; exact Bool.false_ne_true), if_neg hm]
  cases hs : cfg.src.used with
  | true =>
    rw [if_pos (Fifo.used_iff.mp hs), fifoparm_passes (hsrc hs)]
    cases hd : cfg.dst.used with
    | true =>
      simp only [ok_bind, pure_bind]
      rw [if_pos (Fifo.used_iff.mp hd), fifoparm_passes (hdst hd)]
      rfl
    | false =>
      simp only [ok_bind, pure_bind]
      rw [if_neg (not_not.mpr (Fifo.unused_iff.mp hd))]
      rfl
  | false =>
    rw [if_neg (not_not.mpr (Fifo.unused_iff.mp hs))]
    cases hd : cfg.dst.used with
    | true =>
      simp only [pure_bind]
      rw [if_pos (Fifo.used_iff.mp hd), fifoparm_passes (hdst hd)]
      rfl
    | false =>
      simp only [pure_bind]
      rw [if_neg (not_not.mpr (Fifo.unused_iff.mp hd))]
      rfl

/-- Everything else is rejected. -/
theorem cfgCheck_fails (h : ¬ cfg.Passes size) : cfgCheck (BitVec.ofNat 8 size) cfg = .error errParm := by
  unfold cfgCheck
  by_cases hw : (widthErr cfg.src.width || widthErr cfg.dst.width) = true
  · rw [if_pos hw]
  by_cases hm : cfg.src.width ≠ 0#8 ∧ cfg.dst.width ≠ 0#8 ∧ (cfg.src.width ≠ cfg.dst.width ∨ cfg.src.depth ≠ cfg.dst.depth)
  · rw [if_neg hw, if_pos hm]
  rw [if_neg hw, if_neg hm]
  rw [Bool.not_eq_true, Bool.or_eq_false_iff] at hw
  by_cases hsrc : cfg.src.used = true → cfg.src.Passes size cfg.count
  · have hdst : ¬(cfg.dst.used = true → cfg.dst.Passes size cfg.count) := fun hdst => h ⟨by rwa [← Fifo.used_iff, ← Fifo.used_iff] at hm, hsrc, hdst⟩
    obtain ⟨hd, hfail⟩ := Classical.not_imp.mp hdst
    cases hs : cfg.src.used with
    | true =>
      rw [if_pos (Fifo.used_iff.mp hs), fifoparm_passes (hsrc hs)]
      simp only [ok_bind, pure_bind]
      rw [if_pos (Fifo.used_iff.mp hd), fifoparm_fails hw.2 hd hfail]
      rfl
    | false =>
      rw [if_neg (not_not.mpr (Fifo.unused_iff.mp hs))]
      simp only [pure_bind]
      rw [if_pos (Fifo.used_iff.mp hd), fifoparm_fails hw.2 hd hfail]
      rfl
  · obtain ⟨hs, hfail⟩ := Classical.not_imp.mp hsrc
    rw [if_pos (Fifo.used_iff.mp hs), fifoparm_fails hw.1 hs hfail]
    rfl

/-! ## The word -/

/-- The bits of one side. -/
def sideWord (f : Fifo) (pos : Nat) : Word :=
  if f.used then 1#32 <<< pos ||| (sideCode f).setWidth 32 <<< (pos + 2) ||| f.req.setWidth 32 <<< (pos + 4) else 0#32

theorem cfgWord_eq (cfg : Cfg ε) : cfgWord cfg (sideCode cfg.src) (sideCode cfg.dst) (burstByte cfg) =
    ((burstByte cfg).setWidth 32 - 1#32) <<< 8 ||| (if cfg.flush ≠ 0#8 then 8#32 else 0#32) ||| sideWord cfg.src 16 ||| sideWord cfg.dst 24 := by
  unfold cfgWord sideWord
  simp only [Fifo.used_iff]

theorem toNat_setWidth_word (b : Byte) : (b.setWidth 32).toNat = b.toNat := by
  rw [BitVec.toNat_setWidth]
  exact Nat.mod_eq_of_lt (b.isLt.trans (by decide))

theorem sideWord_below (f : Fifo) {pos p len : Nat} (h : p + len ≤ pos) : field (sideWord f pos) p len = 0 := by
  unfold sideWord
  split_ifs
  · rw [field_or, field_or, field_shl_below h, field_shl_below (by omega), field_shl_below (by omega)]
    rfl
  · exact field_zero p len

/-- A sound side is encoded in its eight bits, and leaves the others alone. -/
theorem sideWord_encoded (pos : Nat) (hp : pos + 8 ≤ 32) (hw : widthErr f.width = false) (h : f.used = true → f.Sound) :
    f.Encoded (sideWord f pos) pos ∧ ∀ p len, p + len ≤ pos ∨ pos + 8 ≤ p → field (sideWord f pos) p len = 0 := by
  cases hu : f.used with
  | false =>
    have hzero : sideWord f pos = 0#32 := if_neg (by simp [hu])
    rw [hzero]
    refine ⟨⟨?_, field_zero _ _, fun hc => absurd (hu.symm.trans hc) nofun, fun hc => absurd (hu.symm.trans hc) nofun,
      fun _ => field_zero _ _⟩, fun p len _ => field_zero p len⟩
    rw [hu]
    exact field_zero _ _
  | true =>
    have hs := h hu
    have hword : sideWord f pos = 1#32 <<< pos ||| (widthCode f.width).setWidth 32 <<< (pos + 2) ||| f.req.setWidth 32 <<< (pos + 4) := by
      unfold sideWord sideCode
      rw [if_pos hu, if_pos hu]
    have hone : (1#32).toNat < 2 ^ 1 := by decide
    have hcode : ((widthCode f.width).setWidth 32).toNat < 2 ^ 2 := by
      rw [toNat_setWidth_word]
      exact widthCode_lt _ hw
    have hreq : (f.req.setWidth 32).toNat < 2 ^ 4 := by
      rw [toNat_setWidth_word]
      exact hs.req
    rw [hword]
    refine ⟨⟨?_, ?_, fun _ => ?_, fun _ => ?_, fun hc => absurd (hu.symm.trans hc) nofun⟩, fun p len hout => ?_⟩
    · rw [field_or, field_or, field_shl hone (by omega), field_shl_below (by omega), field_shl_below (by omega), hu]
      rfl
    · rw [field_or, field_or, field_shl_above hone (by omega), field_shl_below (by omega), field_shl_below (by omega)]
      rfl
    · rw [field_or, field_or, field_shl_above hone (by omega), field_shl hcode (by omega), field_shl_below (by omega), toNat_setWidth_word,
        Nat.zero_or, Nat.or_zero]
      exact two_pow_widthCode _ hw (Fifo.used_iff.mp hu) hs.width
    · rw [field_or, field_or, field_shl_above hone (by omega), field_shl_above hcode (by omega), field_shl hreq (by omega), toNat_setWidth_word,
        Nat.zero_or, Nat.zero_or]
    · rw [← hword]
      rcases hout with hout | hout
      · exact sideWord_below f hout
      · rw [hword, field_or, field_or, field_shl_above hone (by omega), field_shl_above hcode (by omega), field_shl_above hreq (by omega)]
        rfl

/-- The burst fits when the sides are sound. -/
theorem burstByte_toNat (h : cfg.Sound) : (burstByte cfg).toNat = cfg.burst ∧ 1 ≤ cfg.burst := by
  have hside : ∀ f : Fifo, f.used = true → f.Sound → (f.width * f.depth).toNat = f.burst ∧ 1 ≤ f.burst := by
    intro f hu hs
    rw [burst_mod, Nat.mod_eq_of_lt hs.burst]
    refine ⟨rfl, Nat.mul_pos ?_ ?_⟩
    · exact Nat.pos_of_ne_zero fun h0 => Fifo.used_iff.mp hu (BitVec.eq_of_toNat_eq h0)
    · exact Nat.pos_of_ne_zero fun h0 => hs.depth (BitVec.eq_of_toNat_eq h0)
  unfold burstByte Cfg.burst
  split_ifs with hd hsrc
  · exact hside _ hd (h.2 hd)
  · exact hside _ hsrc (h.1 hsrc)
  · exact ⟨rfl, by decide⟩

theorem Fifo.Encoded.congr {v w : Word} {pos : Nat} (h : f.Encoded v pos)
    (hv : ∀ p len, pos ≤ p → p + len ≤ pos + 8 → field w p len = field v p len) : f.Encoded w pos where
  fifo := (hv pos 1 (by omega) (by omega)).trans h.fifo
  spare := (hv (pos + 1) 1 (by omega) (by omega)).trans h.spare
  width hu := by
    rw [hv (pos + 2) 2 (by omega) (by omega)]
    exact h.width hu
  req hu := (hv (pos + 4) 4 (by omega) (by omega)).trans (h.req hu)
  unused hu := (hv (pos + 2) 6 (by omega) (by omega)).trans (h.unused hu)

/-- The flush bit. -/
theorem flush_field (b : Byte) : field (if b ≠ 0#8 then 8#32 else 0#32) 3 1 = (b != 0#8).toNat ∧
    ∀ p len, p + len ≤ 3 ∨ 4 ≤ p → field (if b ≠ 0#8 then 8#32 else 0#32) p len = 0 := by
  have hone : (1#32).toNat < 2 ^ 1 := by decide
  by_cases hb : b = 0#8
  · rw [if_neg (not_not.mpr hb)]
    exact ⟨by simp [hb], fun p len _ => field_zero p len⟩
  · rw [if_pos hb, show 8#32 = 1#32 <<< 3 from rfl]
    refine ⟨?_, fun p len hout => ?_⟩
    · rw [field_shl hone (by decide), bne_iff_ne.mpr hb]
      rfl
    · rcases hout with hout | hout
      · exact field_shl_below hout
      · exact field_shl_above hone hout

theorem cfgWord_encodes (hw : (widthErr cfg.src.width || widthErr cfg.dst.width) = false) (h : cfg.Sound) :
    Encodes cfg (cfgWord cfg (sideCode cfg.src) (sideCode cfg.dst) (burstByte cfg)) := by
  rw [Bool.or_eq_false_iff] at hw
  obtain ⟨hsrc, hsout⟩ := sideWord_encoded 16 (by decide) hw.1 h.1
  obtain ⟨hdst, hdout⟩ := sideWord_encoded 24 (by decide) hw.2 h.2
  obtain ⟨hflush, hfout⟩ := flush_field cfg.flush
  obtain ⟨hburst, hpos⟩ := burstByte_toNat h
  have hb : ((burstByte cfg).setWidth 32 - 1#32).toNat + 1 = cfg.burst := by
    have hlt := (burstByte cfg).isLt
    rw [BitVec.toNat_sub, toNat_setWidth_word, hburst, BitVec.toNat_ofNat]
    omega
  have hb8 : ((burstByte cfg).setWidth 32 - 1#32).toNat < 2 ^ 8 := by
    have hlt := (burstByte cfg).isLt
    omega
  rw [cfgWord_eq]
  set w := (burstByte cfg).setWidth 32 - 1#32
  set flush : Word := if cfg.flush ≠ 0#8 then 8#32 else 0#32
  have hfield : ∀ p len, field (w <<< 8 ||| flush ||| sideWord cfg.src 16 ||| sideWord cfg.dst 24) p len =
      field (w <<< 8) p len ||| field flush p len ||| field (sideWord cfg.src 16) p len ||| field (sideWord cfg.dst 24) p len := by
    intro p len
    rw [field_or, field_or, field_or]
  refine ⟨?_, ?_, ?_, ?_, hsrc.congr fun p len hp hl => ?_, hdst.congr fun p len hp _ => ?_⟩
  · rw [hfield, field_shl_below (by decide), hfout _ _ (by decide), hsout _ _ (by decide), hdout _ _ (by decide)]
    rfl
  · rw [hfield, field_shl_below (by decide), hsout _ _ (by decide), hdout _ _ (by decide), hflush, Nat.zero_or, Nat.or_zero, Nat.or_zero]
  · rw [hfield, field_shl_below (by decide), hfout _ _ (by decide), hsout _ _ (by decide), hdout _ _ (by decide)]
    rfl
  · rw [hfield, field_shl hb8 (by decide), hfout _ _ (by decide), hsout _ _ (by decide), hdout _ _ (by decide), Nat.or_zero, Nat.or_zero,
      Nat.or_zero, hb]
  · rw [hfield, field_shl_above hb8 hp, hfout _ _ (by omega), hdout _ _ (by omega), Nat.or_zero, Nat.zero_or, Nat.zero_or]
  · rw [hfield, field_shl_above hb8 (by omega), hfout _ _ (by omega), hsout _ _ (by omega), Nat.zero_or, Nat.zero_or, Nat.zero_or]

/-! ## Legal and sound -/

theorem capFifosz_le (cap : Word) : capFifosz cap ≤ 256 := by
  have hlt := field_lt cap 2 2
  calc 2 ^ (field cap 2 2 + 5) ≤ 2 ^ 8 := Nat.pow_le_pow_right (by decide) (by omega)
    _ = 256 := by decide

/-- The test of the count, for a width that is a power of two. -/
theorem count_dvd {k : Nat} (hk : k ≤ 3) (hw : f.width.toNat = 2 ^ k) (h : count &&& (f.width.setWidth 32 - 1#32) = 0#32) :
    f.width.toNat ∣ count.toNat := by
  have hmask : f.width.setWidth 32 - 1#32 = BitVec.ofNat 32 (2 ^ k - 1) <<< 0 := by
    have hw' : f.width = BitVec.ofNat 8 (2 ^ k) := by
      rw [← hw, BitVec.ofNat_toNat, BitVec.setWidth_eq]
    rw [hw']
    interval_cases k <;> decide
  have hfield := (and_mask_eq_iff count hmask rfl (by omega) (Nat.two_pow_pos k)).mp h
  rw [field_eq, pow_zero, Nat.div_one] at hfield
  rw [hw]
  exact Nat.dvd_of_mod_eq_zero hfield

theorem Fifo.Passes.legal (h : f.Passes size count) (hs : f.Sound) : f.Legal size count := by
  have h7 : f.width.toNat ≠ 7 := fun h7 => hs.width (BitVec.eq_of_toNat_eq h7)
  have hk : ∃ k ≤ 3, f.width.toNat = 2 ^ k := by
    have hmem := h.width
    simp only [List.mem_cons, List.not_mem_nil, or_false] at hmem
    rcases hmem with hw | hw | hw | hw | hw
    · exact ⟨0, by decide, hw⟩
    · exact ⟨1, by decide, hw⟩
    · exact ⟨2, by decide, hw⟩
    · exact absurd hw h7
    · exact ⟨3, by decide, hw⟩
  obtain ⟨k, hk, hw⟩ := hk
  refine ⟨?_, Nat.pos_of_ne_zero fun h0 => hs.depth (BitVec.eq_of_toNat_eq h0), count_dvd hk hw h.count, ?_⟩
  · rw [hw]
    interval_cases k <;> decide
  · have hb := h.burst
    rw [Nat.mod_eq_of_lt hs.burst] at hb
    exact hb.trans (Nat.mod_le _ _)

/-- A burst of 256 bytes is none in eight bits, and its word spills over the channel's sides. -/
theorem cfgWord_spills (h : burstByte cfg = 0#8) : ¬ Encodes cfg (cfgWord cfg (sideCode cfg.src) (sideCode cfg.dst) (burstByte cfg)) := by
  intro he
  have hspare := he.src.spare
  have hone : field (((0#8).setWidth 32 - 1#32) <<< 8) (16 + 1) 1 = 1 := by decide
  rw [cfgWord_eq, h, field_or, field_or, field_or, hone] at hspare
  have hle : 1 ≤ 1 ||| field (if cfg.flush ≠ 0#8 then 8#32 else 0#32) (16 + 1) 1 ||| field (sideWord cfg.src 16) (16 + 1) 1 |||
      field (sideWord cfg.dst 24) (16 + 1) 1 := by
    rw [Nat.or_assoc, Nat.or_assoc]
    exact Nat.left_le_or
  omega

/-- The byte of a burst that passes. -/
theorem burstByte_side (h : cfg.Passes size) : (cfg.src.used = true → burstByte cfg = cfg.src.width * cfg.src.depth) ∧
    (cfg.dst.used = true → burstByte cfg = cfg.dst.width * cfg.dst.depth) := by
  refine ⟨fun hs => ?_, fun hd => if_pos hd⟩
  unfold burstByte
  split_ifs with hd
  · have hm : ¬(cfg.src.width ≠ cfg.dst.width ∨ cfg.src.depth ≠ cfg.dst.depth) := fun hm => h.1 ⟨hs, hd, hm⟩
    rw [not_or, not_not, not_not] at hm
    rw [hm.1, hm.2]
  · rfl

/-- A side that is legal and encoded is sound. -/
theorem sound_of_encoded {v : Word} {pos : Nat} (hsize : size ≤ 256) (hl : f.Legal size count) (hu : f.used = true) (he : f.Encoded v pos)
    (hb : f.width * f.depth ≠ 0#8) : f.Sound where
  width h7 := by
    have hmem := hl.width
    rw [h7] at hmem
    simp at hmem
  depth h0 := by
    have hd := hl.depth
    rw [h0] at hd
    exact absurd hd (by decide)
  burst := by
    have hle := hl.burst.trans hsize
    refine lt_of_le_of_ne hle fun h256 => hb ?_
    apply BitVec.eq_of_toNat_eq
    rw [burst_mod, h256]
    rfl
  req := by
    rw [← he.req hu]
    exact field_lt v (pos + 4) 4

/-! ## `dma_cfg` -/

variable {t : Context ε} {ch : Nat}

theorem dmaCfg_fails (hflag : cfg.flag = fAll) (hsize : t.fifosize = BitVec.ofNat 8 size) (h : ¬ cfg.Passes size) :
    dmaCfg t ch cfg = (errParm, t) := by
  unfold dmaCfg
  rw [if_pos hflag, hsize, cfgCheck_fails h]

theorem cfgWord_control (cfg : Cfg ε) : field (cfgWord cfg (sideCode cfg.src) (sideCode cfg.dst) (burstByte cfg)) 0 3 = 0 := by
  rw [cfgWord_eq, field_or, field_or, field_or, field_shl_below (by decide), (flush_field cfg.flush).2 _ _ (by decide),
    sideWord_below _ (by decide), sideWord_below _ (by decide)]
  rfl

/-- The register takes the word as it is, as none of its control bits is set. -/
theorem Chan.wrCfg_cfg (c : Chan) {v : Word} (h : field v 0 3 = 0) : (c.wrCfg v).cfg = v := by
  have hbit : ∀ i < 3, v.getLsbD i = false := by
    intro i hi
    rw [getLsbD_eq_field, decide_eq_false_iff_not, field_eq]
    rw [field_eq] at h
    interval_cases i <;> omega
  unfold Chan.wrCfg
  rw [hbit 2 (by decide), hbit 1 (by decide)]
  rfl

theorem dmaCfg_passes (hflag : cfg.flag = fAll) (hsize : t.fifosize = BitVec.ofNat 8 size) (h : cfg.Passes size) :
    (dmaCfg t ch cfg).1 = errNone ∧
      ((dmaCfg t ch cfg).2.r.ch ch).cfg = cfgWord cfg (sideCode cfg.src) (sideCode cfg.dst) (burstByte cfg) := by
  unfold dmaCfg
  rw [if_pos hflag, hsize, cfgCheck_passes h]
  refine ⟨rfl, ?_⟩
  simp only [Chip.setCh, Function.update_self, Chan.wrAddr]
  exact (t.r.ch ch).wrCfg_cfg (cfgWord_control cfg)

/-- The driver accepts a configuration only when it is legal, and encodes it, exactly when the configuration does not pass the checks with a
width of seven, an empty FIFO, a burst over 255 bytes or a request line over 15. -/
theorem legal_iff_sound (t : Context ε) (ch : Nat) (cfg : Cfg ε) (hflag : cfg.flag = fAll)
    (hsize : t.fifosize = BitVec.ofNat 8 (capFifosz t.r.cap)) :
    (((dmaCfg t ch cfg).1 = errNone → cfg.Legal (capFifosz t.r.cap) ∧ Encodes cfg ((dmaCfg t ch cfg).2.r.ch ch).cfg) ∧
      (¬ cfg.Legal (capFifosz t.r.cap) → (dmaCfg t ch cfg).1 ≠ errNone ∧ (dmaCfg t ch cfg).2 = t)) ↔
    (cfg.Passes (capFifosz t.r.cap) → cfg.Sound) := by
  have hle := capFifosz_le t.r.cap
  by_cases hp : cfg.Passes (capFifosz t.r.cap)
  · obtain ⟨hok, hreg⟩ : (dmaCfg t ch cfg).1 = errNone ∧ _ := dmaCfg_passes hflag hsize hp
    rw [hok, hreg]
    constructor
    · rintro ⟨h, -⟩ -
      obtain ⟨hl, he⟩ := h rfl
      have hb : burstByte cfg ≠ 0#8 := fun h0 => cfgWord_spills h0 he
      obtain ⟨hbs, hbd⟩ := burstByte_side hp
      exact ⟨fun hs => sound_of_encoded hle (hl.1 hs) hs he.src (hbs hs ▸ hb), fun hd => sound_of_encoded hle (hl.2 hd) hd he.dst (hbd hd ▸ hb)⟩
    · intro h
      have hs := h hp
      have hl : cfg.Legal (capFifosz t.r.cap) := ⟨fun hu => (hp.2.1 hu).legal (hs.1 hu), fun hu => (hp.2.2 hu).legal (hs.2 hu)⟩
      exact ⟨fun _ => ⟨hl, cfgWord_encodes hp.widthErr hs⟩, fun hn => absurd hl hn⟩
  · rw [dmaCfg_fails hflag hsize hp]
    have herr : errParm ≠ errNone := by decide
    exact ⟨fun _ h => absurd h hp, fun _ => ⟨fun h => absurd h herr, fun _ => ⟨herr, rfl⟩⟩⟩

/-- The size that `dma_init` takes from the capabilities. -/
theorem dmaInit_fifosize {polls : Nat} (h : (dmaInit t polls).1 = errNone) :
    (dmaInit t polls).2.fifosize = BitVec.ofNat 8 (capFifosz (dmaInit t polls).2.r.cap) := by
  have hsize : ∀ cap : Word, (1#32 <<< (((cap >>> 2) &&& 3#32).toNat + 5)).setWidth 8 = BitVec.ofNat 8 (capFifosz cap) := by
    intro cap
    have hf : ((cap >>> 2) &&& 3#32).toNat = field cap 2 2 := by
      rw [BitVec.toNat_and, BitVec.toNat_ushiftRight, field_eq, Nat.shiftRight_eq_div_pow]
      exact Nat.and_two_pow_sub_one_eq_mod _ 2
    have hlt := field_lt cap 2 2
    unfold capFifosz
    rw [hf]
    interval_cases field cap 2 2 <;> decide
  obtain ⟨hid, hp⟩ := dmaInit_ok h
  rw [dmaInit, if_neg hid, dmaReset, if_neg hp]
  exact hsize t.r.cap

/-- Words of four bytes from the FIFO of a device, eight in a burst. -/
def rxCfg : Cfg Nat := ⟨fAll, 0x1000#32, 0#32, 64#32, ⟨4#8, 8#8, 3#8⟩, ⟨0#8, 0#8, 0#8⟩, 7, 1#8⟩

theorem legal_iff_sound_rx : rxCfg.Legal 32 ∧ Encodes rxCfg ((dmaCfg (dmaInit bare 0).2 0 rxCfg).2.r.ch 0).cfg := by
  have hs : rxCfg.Sound := ⟨fun _ => ⟨by decide, by decide, by decide, by decide⟩, fun hd => absurd hd (by decide)⟩
  exact ((legal_iff_sound (dmaInit bare 0).2 0 rxCfg rfl (dmaInit_fifosize rfl)).mpr fun _ => hs).1 (by decide +kernel)

/-- A FIFO of width seven, its bursts of seven bytes. -/
def sevenCfg : Cfg Nat := ⟨fAll, 0x1000#32, 0#32, 64#32, ⟨7#8, 1#8, 3#8⟩, ⟨0#8, 0#8, 0#8⟩, 7, 0#8⟩

theorem seven_accepted : (dmaCfg (dmaInit bare 0).2 0 sevenCfg).1 = errNone ∧ ¬ sevenCfg.Legal (capFifosz (dmaInit bare 0).2.r.cap) := by
  refine ⟨by decide +kernel, fun h => ?_⟩
  have hw := (h.1 (by decide)).width
  revert hw
  decide

end Emlinux.Dma
