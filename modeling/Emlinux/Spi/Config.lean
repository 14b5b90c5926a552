import Emlinux.Lib.Run
import Emlinux.Spi.Worker

/-!
# The settings a transfer runs under

`sslspi_setup` writes the settings of a device, `sslspi_worker` configures the controller before a transfer (`spi_cfg`) and
starts it (`spi_io`); setups come at any time. A transfer with a word size or a baud rate of its own is configured in any
case, any other only when its chip select is not the one in `ctx->cs`. But `ctx->cs` also names the device after a
transfer with values of its own and after a new setup. A device is its chip select.

`own` is not in the source: the last `spi_cfg` took the settings of the device in `ctx->cs`, and they are still its settings.

* `Inv.step`: what a step keeps.
* `own_settings`: over all runs with steady steps.
-/

namespace Emlinux.Spi.Config

open Lib

/-- `spi_cfg_t`, without the clock and the delays, which are the same for all devices. -/
structure Cfg where
  cs : Nat
  burst : Nat
  word : Nat
  baud : Nat
  lsbFirst : Bool
  clkPhase : Bool
  clkFall : Bool
  csHigh : Bool
deriving DecidableEq, Repr

/-- What `sslspi_setup` reads in `struct spi_device`. -/
structure Params where
  bits : Nat
  speed : Nat
  mode : BitVec 8
deriving DecidableEq, Repr

/-- `SPI_CPHA`. -/
def spiCpha : BitVec 8 := 1#8

/-- `SPI_CPOL`. -/
def spiCpol : BitVec 8 := 2#8

/-- `SPI_CS_HIGH`. -/
def spiCsHigh : BitVec 8 := 4#8

/-- `SPI_LSB_FIRST`. -/
def spiLsbFirst : BitVec 8 := 8#8

/-- `sslspi_setup` of the device with chip select `d`. -/
def sslspiSetup (d : Nat) (p : Params) : Cfg where
  cs := d
  burst := 0
  word := if p.bits % 64 ≠ 0 then p.bits % 64 else 8
  baud := p.speed
  lsbFirst := p.mode &&& spiLsbFirst ≠ 0#8
  clkPhase := p.mode &&& spiCpha ≠ 0#8
  clkFall := p.mode &&& spiCpol ≠ 0#8
  csHigh := p.mode &&& spiCsHigh ≠ 0#8

/-- The controller: the settings in its operation register, the baud rate its divider was last set for, and `t->inc`. -/
structure Hw where
  op : Cfg
  baud : Option Nat
  inc : Int
deriving DecidableEq, Repr

/-- `spi_cfg`. It writes the operation register before it looks at the baud rate. -/
def spiCfg (h : Hw) (c : Cfg) : Hw :=
  let h := { h with op := c }
  if c.baud = 0 then h else { h with baud := some c.baud, inc := min (((c.word : Int) - 1) / 8) 2 }

/-- The settings of each device, `ctx->cs`, and the transfer that is configured and not started. -/
structure Bus where
  dev : Nat → Option Cfg
  cs : Option Nat
  hw : Hw
  cur : Option (Nat × Transfer)
  own : Bool

/-- The settings for a transfer that has values of its own. -/
def override (c : Cfg) (t : Transfer) : Cfg :=
  { c with
    burst := if 32 ≤ t.len then 1 else 0
    word := if t.bits ≠ 0 then t.bits % 64 else c.word
    baud := if t.speed ≠ 0 then t.speed else c.baud }

/-- The part of `sslspi_worker` before a transfer. -/
def configure (s : Bus) (c : Cfg) (t : Transfer) : Bus :=
  let s := if t.speed ≠ 0 ∨ t.bits ≠ 0 then { s with cs := some c.cs, hw := spiCfg s.hw (override c t), own := false } else s
  if s.cs ≠ some c.cs then { s with cs := some c.cs, hw := spiCfg s.hw c, own := true } else s

inductive Act where
  | setup (d : Nat) (p : Params)
  | uncfg
  /-- the worker comes to a transfer for device `d` -/
  | begin (d : Nat) (t : Transfer)
  /-- `spi_io` -/
  | io

def step (s : Bus) : Act → Option Bus
  | .setup d p => some { s with
      dev := Function.update s.dev d (some (sslspiSetup d p))
      own := s.own && s.cs != some d }
  | .uncfg => some { s with cs := none, own := false }
  | .begin d t => match s.cur, s.dev d with
    | none, some c => some { configure s c t with cur := some (d, t) }
    | _, _ => none
  | .io => match s.cur with
    | some _ => some { s with cur := none }
    | none => none

/-- After `sslspi_probe`, whatever is in the registers. -/
def probed (h : Hw) : Bus := ⟨fun _ => none, none, h, none, false⟩

/-! ## The settings in force -/

/-- The word size of a transfer: its own, or that of the device. -/
def wantWord (c : Cfg) (t : Transfer) : Nat := if t.bits ≠ 0 then t.bits % 64 else c.word

/-- The baud rate of a transfer: its own, or that of the device. -/
def wantBaud (c : Cfg) (t : Transfer) : Nat := if t.speed ≠ 0 then t.speed else c.baud

/-- The controller is configured for a transfer to the device with settings `c`. -/
structure InForce (h : Hw) (c : Cfg) (t : Transfer) : Prop where
  cs : h.op.cs = c.cs
  lsbFirst : h.op.lsbFirst = c.lsbFirst
  clkPhase : h.op.clkPhase = c.clkPhase
  clkFall : h.op.clkFall = c.clkFall
  csHigh : h.op.csHigh = c.csHigh
  word : h.op.word = wantWord c t
  baud : h.baud = some (wantBaud c t)

/-- The transfer that is about to start runs under the settings of its device, which are those of its latest setup. -/
def Right (s : Bus) : Prop := ∀ d t, s.cur = some (d, t) → ∃ c, s.dev d = some c ∧ c.cs = d ∧ InForce s.hw c t

/-- A step that does not reach a skipped configuration: a device is not set up between the configuration and the start of
one of its transfers; a transfer has a baud rate; and one without values of its own for the chip select in `ctx->cs`
comes when the last `spi_cfg` took its device's settings as they are now. -/
def Steady (s : Bus) : Act → Prop
  | .setup d _ => s.cur.map Prod.fst ≠ some d
  | .begin d t => (∀ c ∈ s.dev d, wantBaud c t ≠ 0) ∧ (t.speed = 0 → t.bits = 0 → s.cs = some d → s.own = true)
  | .uncfg => True
  | .io => True

instance (s : Bus) : (a : Act) → Decidable (Steady s a)
  | .setup d _ => inferInstanceAs (Decidable (s.cur.map Prod.fst ≠ some d))
  | .begin d t => inferInstanceAs (Decidable ((∀ c ∈ s.dev d, wantBaud c t ≠ 0) ∧ _))
  | .uncfg => inferInstanceAs (Decidable True)
  | .io => inferInstanceAs (Decidable True)

/-! ## The invariant -/

variable {s u : Bus} {c : Cfg} {t : Transfer} {h : Hw}

structure Inv (s : Bus) : Prop where
  named : ∀ d c, s.dev d = some c → c.cs = d
  own : s.own = true → ∃ d c, s.cs = some d ∧ s.dev d = some c ∧ s.hw.op = c ∧ s.hw.baud = some c.baud
  right : Right s

theorem Inv.probed (h : Hw) : Inv (probed h) where
  named := nofun
  own := nofun
  right := nofun

theorem spiCfg_baud (hb : c.baud ≠ 0) : (spiCfg h c).op = c ∧ (spiCfg h c).baud = some c.baud := by
  unfold spiCfg
  rw [if_neg hb]
  exact ⟨rfl, rfl⟩

/-- The ways of a configuration. -/
theorem configure_cases (s : Bus) (c : Cfg) (t : Transfer) :
    (t.speed ≠ 0 ∨ t.bits ≠ 0) ∧ configure s c t = { s with cs := some c.cs, hw := spiCfg s.hw (override c t), own := false } ∨
    t.speed = 0 ∧ t.bits = 0 ∧ s.cs ≠ some c.cs ∧ configure s c t = { s with cs := some c.cs, hw := spiCfg s.hw c, own := true } ∨
    t.speed = 0 ∧ t.bits = 0 ∧ s.cs = some c.cs ∧ configure s c t = s := by
  unfold configure
  dsimp only
  by_cases h : t.speed ≠ 0 ∨ t.bits ≠ 0
  · rw [if_pos h, if_neg (by simp)]
    exact Or.inl ⟨h, rfl⟩
  · rw [if_neg h]
    rw [not_or, not_not, not_not] at h
    by_cases hcs : s.cs = some c.cs
    · rw [if_neg (not_not.mpr hcs)]
      exact Or.inr (Or.inr ⟨h.1, h.2, hcs, rfl⟩)
    · rw [if_pos hcs]
      exact Or.inr (Or.inl ⟨h.1, h.2, hcs, rfl⟩)

theorem want_own (hs : t.speed = 0) (hb : t.bits = 0) : wantWord c t = c.word ∧ wantBaud c t = c.baud := by
  simp [wantWord, wantBaud, hs, hb]

/-- The chip select and the word size are those of the worker's state machine. -/
theorem configure_worker (w : Ctx) (hcs : w.cs = s.cs) (hinc : (w.inc : Int) = s.hw.inc) (hword : wantWord c t ≠ 0) :
    (w.configure ⟨c.cs, c.word, c.baud⟩ t).cs = (configure s c t).cs ∧
      ((w.configure ⟨c.cs, c.word, c.baud⟩ t).inc : Int) = (configure s c t).hw.inc := by
  have hcfg (w : Ctx) (h : Hw) (cs word baud : Nat) (c' : Cfg) (hi : (w.inc : Int) = h.inc) (hw : word ≠ 0) (hc : c'.word = word)
      (hb : c'.baud = baud) : ((w.spiCfg ⟨cs, word, baud⟩).inc : Int) = (spiCfg h c').inc ∧ (w.spiCfg ⟨cs, word, baud⟩).cs = w.cs := by
    unfold Ctx.spiCfg spiCfg
    rw [hb]
    split_ifs
    · exact ⟨hi, rfl⟩
    · refine ⟨?_, rfl⟩
      dsimp only
      rw [hc]
      omega
  unfold Ctx.configure
  dsimp only
  rcases configure_cases s c t with ⟨hown, he⟩ | ⟨hs, hbits, hne, he⟩ | ⟨hs, hbits, heq, he⟩
  · rw [he, if_pos hown]
    obtain ⟨h1, h2⟩ := hcfg { w with cs := some c.cs } s.hw c.cs (wantWord c t) (wantBaud c t) (override c t) hinc hword rfl rfl
    unfold wantWord wantBaud at h1 h2
    rw [h2, if_neg (by simp)]
    exact ⟨h2, h1⟩
  · have hno : ¬ (t.speed ≠ 0 ∨ t.bits ≠ 0) := by simp [hs, hbits]
    rw [he, if_neg hno, hcs, if_pos hne]
    rw [(want_own hs hbits).1] at hword
    obtain ⟨h1, h2⟩ := hcfg { w with cs := some c.cs } s.hw c.cs c.word c.baud c hinc hword rfl rfl
    exact ⟨h2, h1⟩
  · have hno : ¬ (t.speed ≠ 0 ∨ t.bits ≠ 0) := by simp [hs, hbits]
    rw [he, if_neg hno, hcs, if_neg (not_not.mpr heq)]
    exact ⟨hcs, hinc⟩

/-- A steady transfer is configured for its device. -/
theorem Inv.configure (hi : Inv s) {d : Nat} (hd : s.dev d = some c) (hok : Steady s (.begin d t)) :
    Inv { configure s c t with cur := some (d, t) } := by
  obtain ⟨hbaud, hown⟩ := hok
  have hb : wantBaud c t ≠ 0 := hbaud c hd
  have hcs : c.cs = d := hi.named d c hd
  have hright {u : Bus} (hdev : u.dev = s.dev) (hset : InForce u.hw c t) : Right { u with cur := some (d, t) } := by
    intro d' t' he
    obtain ⟨rfl, rfl⟩ : d = d' ∧ t = t' := by simpa using he
    exact ⟨c, by rw [hdev]; exact hd, hcs, hset⟩
  rcases configure_cases s c t with ⟨-, he⟩ | ⟨hs, hbits, -, he⟩ | ⟨hs, hbits, hcached, he⟩
  · -- configured with its own values
    rw [he]
    obtain ⟨hop, hrate⟩ := spiCfg_baud (h := s.hw) (c := override c t) hb
    exact ⟨hi.named, nofun, hright rfl ⟨by rw [hop]; rfl, by rw [hop]; rfl, by rw [hop]; rfl, by rw [hop]; rfl, by rw [hop]; rfl,
      by rw [hop]; rfl, hrate⟩⟩
  · -- configured with those of the device
    rw [he]
    obtain ⟨hw, hwb⟩ := want_own (c := c) hs hbits
    rw [hwb] at hb
    obtain ⟨hop, hrate⟩ := spiCfg_baud (h := s.hw) hb
    refine ⟨hi.named, fun _ => ⟨d, c, by rw [hcs], hd, hop, hrate⟩, hright rfl ?_⟩
    exact ⟨by rw [hop], by rw [hop], by rw [hop], by rw [hop], by rw [hop], by rw [hop, hw], by rw [hrate, hwb]⟩
  · -- it was configured before
    rw [he]
    obtain ⟨d', c', hd', hc', hop, hrate⟩ := hi.own (hown hs hbits (by rw [hcached, hcs]))
    obtain rfl : d = d' := by
      rw [hcached, hcs] at hd'
      exact Option.some.inj hd'
    obtain rfl : c = c' := by
      rw [hd] at hc'
      exact Option.some.inj hc'
    obtain ⟨hw, hwb⟩ := want_own (c := c) hs hbits
    refine ⟨hi.named, hi.own, hright rfl ?_⟩
    exact ⟨by rw [hop], by rw [hop], by rw [hop], by rw [hop], by rw [hop], by rw [hop, hw], by rw [hrate, hwb]⟩

theorem Inv.step {a : Act} (hi : Inv s) (hok : Steady s a) (hu : step s a = some u) : Inv u := by
  cases a with
  | setup d p =>
    cases hu
    refine ⟨fun d' c hc => ?_, fun ho => ?_, fun d' t hcur => ?_⟩
    · dsimp only at hc
      by_cases hd : d' = d
      · subst hd
        rw [Function.update_self, Option.some.injEq] at hc
        rw [← hc]
        rfl
      · rw [Function.update_of_ne hd] at hc
        exact hi.named d' c hc
    · dsimp only at ho
      rw [Bool.and_eq_true, bne_iff_ne] at ho
      obtain ⟨d', c, hd', hc, hrest⟩ := hi.own ho.1
      refine ⟨d', c, hd', ?_, hrest⟩
      exact (Function.update_of_ne (fun h => ho.2 (by rw [hd', h])) _ _).trans hc
    · obtain ⟨c, hc, hrest⟩ := hi.right d' t hcur
      refine ⟨c, ?_, hrest⟩
      have hne : d' ≠ d := by
        rintro rfl
        exact hok (by rw [show s.cur = some (d', t) from hcur]; rfl)
      exact (Function.update_of_ne hne _ _).trans hc
  | uncfg =>
    cases hu
    exact ⟨hi.named, nofun, hi.right⟩
  | begin d t =>
    unfold Config.step at hu
    dsimp only at hu
    split at hu
    · next c _ hd =>
      cases hu
      exact hi.configure hd hok
    · cases hu
  | io =>
    unfold Config.step at hu
    dsimp only at hu
    split at hu
    · cases hu
      exact ⟨hi.named, hi.own, nofun⟩
    · cases hu

/-- The operation register after a reset. -/
def resetHw : Hw := ⟨⟨0, 0, 8, 0, false, false, false, false⟩, none, 0⟩

/-- A transfer of one byte with a baud rate of its own, if it is not zero. -/
def oneByte (speed : Nat) : Transfer := ⟨false, true, 1, 0, speed⟩

end Emlinux.Spi.Config
