import Emlinux.Lib.Ledger
import Emlinux.Spi.Worker

/-!
# The DMA resources of a transfer

The part of `sslspi_worker` that maps the buffers, requests the channels, and undoes both, by `goto`s into the middle of
the nested `if`s. Each label is a definition, what stands behind it in the source. `Balanced`: what a transfer took it
has given back, and it was carried out once. It fails for a transmit buffer that the worker maps itself: the worker goes on to
`l_nodma`.

* `transfer_balanced`: which transfers are balanced.
* `worker_balanced_iff`: over all runs.
* `uses_dma`: the choice of DMA is that of the worker's state machine.
-/

namespace Emlinux.Spi.Resources

open Lib

abbrev Addr := BitVec 32

/-- `DMA_FROM_DEVICE`, `DMA_TO_DEVICE`. -/
inductive Dir where
  | fromDevice
  | toDevice
deriving DecidableEq, Repr

/-- The calls that matter: `dma_map_single` and `ssldma_request` when they succeed, `dma_unmap_single`, `ssldma_free`,
`ssldma_enable`, and `spi_io` with or without `SPI_XFR_DMA`. -/
inductive Ev where
  | map (d : Dir) (a : Addr) (n : Nat)
  | unmap (d : Dir) (a : Addr) (n : Nat)
  | request (ch : Nat)
  | free (ch : Nat)
  | enable (ch : Nat)
  | io (dma : Bool)
deriving DecidableEq, Repr

/-- A transfer with what `sslspi_worker` finds: `is_dma_mapped` and the addresses in `t`, the word size, and the answers of
`dma_map_single` and `ssldma_request`, none for an error (a `dma_request` that fails gives its channel back itself). -/
structure Turn where
  t : Transfer
  mapped : Bool
  rxDma : Addr
  txDma : Addr
  inc : Nat
  mapRx : Option Addr
  mapTx : Option Addr
  reqRx : Option Nat
  reqTx : Option Nat

/-- The variables: `t->rx_dma`, `t->tx_dma`, `dmarx`, `dmatx` (none for -1), whether `x.flag` is set, and the calls so far. -/
structure Vars where
  rxDma : Addr
  txDma : Addr
  dmarx : Option Nat
  dmatx : Option Nat
  flag : Bool
  log : List Ev
deriving DecidableEq, Repr

def Vars.call (v : Vars) (e : Ev) : Vars := { v with log := v.log ++ [e] }

namespace Turn

variable (u : Turn) (v : Vars)

/-- From `l_unmaprx`. -/
def lUnmaprx : Vars := if u.mapped then v else v.call (.unmap .fromDevice v.rxDma u.t.len)

/-- From `l_undorx`. -/
def lUndorx : Vars :=
  match v.dmarx with
  | some ch => u.lUnmaprx (v.call (.free ch))
  | none => v

/-- From `l_unmaptx`. -/
def lUnmaptx : Vars :=
  u.lUndorx (if u.t.tx then if u.mapped then v else v.call (.unmap .toDevice v.txDma u.t.len) else v)

/-- `ssldma_enable` of a channel that was requested. -/
def enable (v : Vars) (ch : Option Nat) : Vars :=
  match ch with
  | some ch => v.call (.enable ch)
  | none => v

/-- From the two `ssldma_enable`, with the channel for `tx`. -/
def runDma (ch : Nat) : Vars :=
  let v := { enable (enable v v.dmarx) (some ch) with flag := true }
  u.lUnmaptx ((v.call (.io true)).call (.free ch))

/-- The request for the `tx` channel. -/
def requestTx : Vars :=
  match u.reqTx with
  | none => u.lUnmaptx v
  | some ch => u.runDma ({ v with dmatx := some ch }.call (.request ch)) ch

/-- From `if (x.tx)`. -/
def partTx : Vars :=
  if u.t.tx then
    if u.mapped then u.requestTx v
    else match u.mapTx with
      | none => u.lUndorx v
      -- goto l_nodma
      | some a => { v with txDma := a }.call (.map .toDevice a u.t.len)
  else u.requestTx v

/-- The request for the `rx` channel. -/
def requestRx : Vars :=
  match u.reqRx with
  | none => u.lUnmaprx v
  | some ch => u.partTx ({ v with dmarx := some ch }.call (.request ch))

/-- From `if (x.rx)`. -/
def partRx : Vars :=
  if u.t.rx then
    if u.mapped then u.requestRx v
    else match u.mapRx with
      | none => v
      | some a => u.requestRx ({ v with rxDma := a }.call (.map .fromDevice a u.t.len))
  else u.partTx v

/-- The part of `sslspi_worker` under `SSLSPIDMA`, with the `spi_io` behind it when the flag is not set. -/
def transfer (d : Dev) : Vars :=
  let v : Vars := ⟨u.rxDma, u.txDma, none, none, false, []⟩
  let v := if d.dma = true ∧ d.fifosize ≤ u.t.len / 2 ^ u.inc then u.partRx v else v
  if v.flag then v else v.call (.io false)

end Turn

/-- What a transfer takes: a channel, or a mapping with its direction and length. -/
inductive Res where
  | chan (ch : Nat)
  | mapping (d : Dir) (a : Addr) (n : Nat)
deriving DecidableEq, Repr

def Ev.move : Ev → Move Res
  | .map d a n => .take (.mapping d a n)
  | .unmap d a n => .give (.mapping d a n)
  | .request ch => .take (.chan ch)
  | .free ch => .give (.chan ch)
  | .enable _ => .rest
  | .io _ => .rest

def Ev.isIo : Ev → Bool
  | .io _ => true
  | _ => false

/-- All that was taken has been given back, once, and the data went by DMA or by PIO. -/
def Balanced (l : List Ev) : Prop := Lib.Settled Ev.move l ∧ l.countP Ev.isIo = 1

/-- The worker gets to map the transmit buffer, and the mapping succeeds. -/
def Turn.Leaks (u : Turn) (d : Dev) : Prop :=
  d.dma = true ∧ d.fifosize ≤ u.t.len / 2 ^ u.inc ∧ u.t.tx = true ∧ u.mapped = false ∧ u.mapTx ≠ none ∧
    (u.t.rx = true → u.mapRx ≠ none ∧ u.reqRx ≠ none)

/-! ## What is held -/

variable {d : Dev} {u : Turn} {v : Vars} {held : List Res} {n : Nat}

/-- After a log, with `n` calls of `spi_io`. -/
structure Holds (l : List Ev) (held : List Res) (n : Nat) : Prop where
  held : settle Ev.move [] l = some held
  ios : l.countP Ev.isIo = n

theorem Holds.nil : Holds [] [] 0 := ⟨rfl, rfl⟩

theorem Holds.take {r : Res} {e : Ev} (h : Holds v.log held n) (he : e.move = .take r) (hio : e.isIo = false) :
    Holds (v.call e).log (r :: held) n where
  held := by
    show settle Ev.move [] (v.log ++ [e]) = _
    rw [settle_append, h.held]
    simp [Lib.settle, he]
  ios := by simp [Vars.call, h.ios, hio]

theorem Holds.give {r : Res} {e : Ev} (h : Holds v.log (r :: held) n) (he : e.move = .give r) (hio : e.isIo = false) :
    Holds (v.call e).log held n where
  held := by
    show settle Ev.move [] (v.log ++ [e]) = _
    rw [settle_append, h.held]
    simp [Lib.settle, he]
  ios := by simp [Vars.call, h.ios, hio]

theorem Holds.enable (h : Holds v.log held n) (ch : Nat) : Holds (v.call (.enable ch)).log held n where
  held := by
    show settle Ev.move [] (v.log ++ [.enable ch]) = _
    rw [settle_append, h.held]
    rfl
  ios := by simp [Vars.call, h.ios, Ev.isIo]

theorem Holds.io (h : Holds v.log held n) (b : Bool) : Holds (v.call (.io b)).log held (n + 1) where
  held := by
    show settle Ev.move [] (v.log ++ [.io b]) = _
    rw [settle_append, h.held]
    rfl
  ios := by simp [Vars.call, h.ios, Ev.isIo]

/-- What the receive side holds. -/
def rxHeld (u : Turn) (v : Vars) : List Res :=
  match v.dmarx with
  | some ch => .chan ch :: if u.mapped then [] else [.mapping .fromDevice v.rxDma u.t.len]
  | none => []

/-- All has been given back, and the transfer was carried out if the flag is set. -/
def Over (v : Vars) : Prop := Holds v.log [] (if v.flag then 1 else 0)

theorem unmaprx_over (h : Holds v.log (if u.mapped then [] else [.mapping .fromDevice v.rxDma u.t.len]) (if v.flag then 1 else 0)) :
    Over (u.lUnmaprx v) := by
  unfold Turn.lUnmaprx
  cases hm : u.mapped with
  | true =>
    rw [hm] at h
    exact h
  | false =>
    rw [hm] at h
    exact h.give rfl rfl

theorem undorx_over (h : Holds v.log (rxHeld u v) (if v.flag then 1 else 0)) : Over (u.lUndorx v) := by
  unfold Turn.lUndorx
  unfold rxHeld at h
  cases hr : v.dmarx with
  | none =>
    rw [hr] at h
    exact h
  | some ch =>
    rw [hr] at h
    exact unmaprx_over (v := v.call (.free ch)) (h.give rfl rfl)

theorem unmaptx_over (htx : u.t.tx = true → u.mapped = true) (h : Holds v.log (rxHeld u v) (if v.flag then 1 else 0)) :
    Over (u.lUnmaptx v) := by
  unfold Turn.lUnmaptx
  cases ht : u.t.tx with
  | false => exact undorx_over h
  | true =>
    rw [htx ht]
    exact undorx_over h

/-- The transfer by DMA. -/
theorem runDma_over {ch : Nat} (htx : u.t.tx = true → u.mapped = true) (h : Holds v.log (.chan ch :: rxHeld u v) 0) :
    Over (u.runDma v ch) := by
  obtain ⟨rxDma, txDma, dmarx, dmatx, flag, log⟩ := v
  cases dmarx with
  | none => exact unmaptx_over htx (((h.enable ch).io true).give rfl rfl)
  | some c => exact unmaptx_over htx ((((h.enable c).enable ch).io true).give rfl rfl)

theorem requestTx_over (htx : u.t.tx = true → u.mapped = true) (hf : v.flag = false) (h : Holds v.log (rxHeld u v) 0) :
    Over (u.requestTx v) := by
  unfold Turn.requestTx
  cases u.reqTx with
  | none => exact unmaptx_over htx (by rwa [hf])
  | some ch =>
    have htake : Holds ({ v with dmatx := some ch }.call (.request ch)).log (.chan ch :: rxHeld u v) 0 := h.take rfl rfl
    exact runDma_over htx htake

/-- The transmit side gives back all that is held, unless it maps the buffer. -/
theorem partTx_over (hf : v.flag = false) (h : Holds v.log (rxHeld u v) 0)
    (hno : u.t.tx = true → u.mapped = false → u.mapTx = none) : Over (u.partTx v) := by
  unfold Turn.partTx
  split_ifs with ht hm
  · exact requestTx_over (fun _ => hm) hf h
  · rw [hno ht (by simpa using hm)]
    exact undorx_over (by rwa [hf])
  · exact requestTx_over (fun h => absurd h ht) hf h

/-- If it does, nothing is given back. -/
theorem partTx_leaks (hf : v.flag = false) (h : Holds v.log (rxHeld u v) 0) (ht : u.t.tx = true) (hm : u.mapped = false)
    (ha : u.mapTx ≠ none) : (u.partTx v).flag = false ∧ ∃ a, Holds (u.partTx v).log (.mapping .toDevice a u.t.len :: rxHeld u v) 0 := by
  unfold Turn.partTx
  rw [if_pos ht, if_neg (by simp [hm])]
  cases hx : u.mapTx with
  | none => exact absurd hx ha
  | some a => exact ⟨hf, a, h.take rfl rfl⟩

/-- The receive side comes to the transmit side with what it holds, or has given all back. -/
theorem partRx_cases (hf : v.flag = false) (hr : v.dmarx = none) (h : Holds v.log [] 0) :
    (∃ w : Vars, u.partRx v = u.partTx w ∧ w.flag = false ∧ Holds w.log (rxHeld u w) 0 ∧
      (u.t.rx = true → u.mapped = false → u.mapRx ≠ none ∧ u.reqRx ≠ none)) ∨
    Over (u.partRx v) ∧ ¬ (u.mapped = false ∧ (u.t.rx = true → u.mapRx ≠ none ∧ u.reqRx ≠ none)) := by
  unfold Turn.partRx
  split_ifs with hrx hm
  · unfold Turn.requestRx
    cases hq : u.reqRx with
    | none => exact Or.inr ⟨unmaprx_over (by rwa [hm, hf]), by simp [hm]⟩
    | some ch =>
      refine Or.inl ⟨{ v with dmarx := some ch }.call (.request ch), rfl, hf, ?_, by simp [hm]⟩
      have ht := h.take (e := .request ch) rfl rfl
      simpa [rxHeld, Vars.call, hm] using ht
  · rw [Bool.not_eq_true] at hm
    cases ha : u.mapRx with
    | none => exact Or.inr ⟨by unfold Over; rwa [hf], by simp [hrx]⟩
    | some a =>
      have hmap : Holds ({ v with rxDma := a }.call (.map .fromDevice a u.t.len)).log [.mapping .fromDevice a u.t.len] 0 :=
        h.take rfl rfl
      unfold Turn.requestRx
      cases hq : u.reqRx with
      | none =>
        refine Or.inr ⟨unmaprx_over ?_, by simp [hrx]⟩
        rw [hm]
        simpa [Vars.call, hf] using hmap
      | some ch =>
        refine Or.inl ⟨{ { v with rxDma := a }.call (.map .fromDevice a u.t.len) with dmarx := some ch }.call (.request ch),
          rfl, hf, ?_, by simp⟩
        have ht := hmap.take (e := .request ch) rfl rfl
        simpa [rxHeld, Vars.call, hm] using ht
  · exact Or.inl ⟨v, rfl, hf, by simpa [rxHeld, hr] using h, fun h => absurd h hrx⟩

/-! ## The transfers -/

/-- After the part under `SSLSPIDMA` the transfer is carried out, unless it was. -/
theorem Over.io (h : Over v) : Balanced (if v.flag then v else v.call (.io false)).log := by
  unfold Over at h
  cases hf : v.flag with
  | true =>
    rw [hf] at h
    exact ⟨h.held, h.ios⟩
  | false =>
    rw [hf] at h
    have hio := h.io false
    exact ⟨hio.held, hio.ios⟩

/-- A transfer is balanced exactly when it does not map the transmit buffer. -/
theorem transfer_balanced (d : Dev) (u : Turn) : Balanced (u.transfer d).log ↔ ¬ u.Leaks d := by
  unfold Turn.transfer
  dsimp only
  by_cases hdma : d.dma = true ∧ d.fifosize ≤ u.t.len / 2 ^ u.inc
  swap
  · rw [if_neg hdma]
    exact iff_of_true (Over.io (v := ⟨u.rxDma, u.txDma, none, none, false, []⟩) Holds.nil) fun h => hdma ⟨h.1, h.2.1⟩
  rw [if_pos hdma]
  rcases partRx_cases (u := u) (v := ⟨u.rxDma, u.txDma, none, none, false, []⟩) rfl rfl Holds.nil with
    ⟨w, hw, hf, h, hrx⟩ | ⟨h, hno⟩
  · rw [hw]
    by_cases hleak : u.t.tx = true ∧ u.mapped = false ∧ u.mapTx ≠ none
    · obtain ⟨ht, hm, ha⟩ := hleak
      obtain ⟨hf', a, hheld⟩ := partTx_leaks hf h ht hm ha
      refine iff_of_false (fun hb => ?_) (not_not.mpr ⟨hdma.1, hdma.2, ht, hm, ha, fun hr => hrx hr hm⟩)
      rw [hf', if_neg Bool.false_ne_true] at hb
      have hs := hb.1
      rw [Lib.Settled, (hheld.io false).held] at hs
      cases hs
    · refine iff_of_true (Over.io (partTx_over hf h fun ht hm => ?_)) fun hl => hleak ⟨hl.2.2.1, hl.2.2.2.1, hl.2.2.2.2.1⟩
      by_contra ha
      exact hleak ⟨ht, hm, ha⟩
  · exact iff_of_true (Over.io h) fun hl => hno ⟨hl.2.2.2.1, hl.2.2.2.2.2⟩

/-! ## The flag -/

theorem undorx_flag (u : Turn) (v : Vars) : (u.lUndorx v).flag = v.flag := by
  unfold Turn.lUndorx Turn.lUnmaprx
  cases v.dmarx with
  | none => rfl
  | some ch =>
    dsimp only
    split_ifs <;> rfl

theorem unmaptx_flag (u : Turn) (v : Vars) : (u.lUnmaptx v).flag = v.flag := by
  unfold Turn.lUnmaptx
  rw [undorx_flag]
  split_ifs <;> rfl

theorem requestTx_flag (hf : v.flag = false) : (u.requestTx v).flag = u.reqTx.isSome := by
  unfold Turn.requestTx
  cases u.reqTx with
  | none => exact (unmaptx_flag u v).trans hf
  | some ch => exact unmaptx_flag u _

theorem partTx_flag (hf : v.flag = false) : (u.partTx v).flag = ((!u.t.tx || u.mapped) && u.reqTx.isSome) := by
  unfold Turn.partTx
  split_ifs with ht hm
  · rw [requestTx_flag hf, ht, hm]
    rfl
  · rw [ht, Bool.eq_false_of_not_eq_true hm]
    cases u.mapTx with
    | none => exact (undorx_flag u v).trans hf
    | some a => exact hf
  · rw [requestTx_flag hf, Bool.eq_false_of_not_eq_true ht]
    rfl

theorem requestRx_flag (hf : v.flag = false) : (u.requestRx v).flag = (u.reqRx.isSome && ((!u.t.tx || u.mapped) && u.reqTx.isSome)) := by
  unfold Turn.requestRx
  cases u.reqRx with
  | none =>
    unfold Turn.lUnmaprx
    split_ifs <;> exact hf
  | some ch => exact partTx_flag hf

/-- The worker takes the DMA as its state machine says. -/
theorem uses_dma (d : Dev) (u : Turn) (s : Ctx) (m : Msg) (hinc : s.inc = u.inc) (hm : m.mapped = u.mapped) :
    (u.transfer d).flag = s.usesDma d m u.t ⟨u.mapRx.isSome, u.reqRx.isSome, u.reqTx.isSome⟩ := by
  have hrx {v : Vars} (hf : v.flag = false) : (u.partRx v).flag =
      ((!u.t.rx || ((u.mapped || u.mapRx.isSome) && u.reqRx.isSome)) && ((!u.t.tx || u.mapped) && u.reqTx.isSome)) := by
    unfold Turn.partRx
    split_ifs with hr hmap
    · rw [requestRx_flag hf, hr, hmap]
      rfl
    · rw [hr, Bool.eq_false_of_not_eq_true hmap]
      cases u.mapRx with
      | none => exact hf
      | some a =>
        dsimp only
        rw [requestRx_flag (by exact hf), Bool.eq_false_of_not_eq_true hmap]
        rfl
    · rw [partTx_flag hf, Bool.eq_false_of_not_eq_true hr]
      rfl
  have hio (v : Vars) : (if v.flag then v else v.call (.io false)).flag = v.flag := by
    split_ifs <;> rfl
  unfold Turn.transfer Ctx.usesDma
  dsimp only
  rw [hio, hinc, hm]
  by_cases hdma : d.dma = true ∧ d.fifosize ≤ u.t.len / 2 ^ u.inc
  · rw [if_pos hdma, hrx rfl, hdma.1, decide_eq_true hdma.2]
    simp only [Bool.true_and, Bool.and_assoc]
  · rw [if_neg hdma]
    rw [not_and_or] at hdma
    rcases hdma with h | h
    · simp [h]
    · simp [h]

/-- In a run of the worker everything is given back after each transfer, and each transfer is carried out once, exactly when
no transfer maps its transmit buffer. -/
theorem worker_balanced_iff (d : Dev) (us : List Turn) :
    ((∀ k, Lib.Settled Ev.move ((us.take k).map fun u => (u.transfer d).log).flatten) ∧
      ∀ u ∈ us, (u.transfer d).log.countP Ev.isIo = 1) ↔ ∀ u ∈ us, ¬ u.Leaks d := by
  simp only [List.map_take]
  rw [settled_parts_iff]
  constructor
  · rintro ⟨hs, hio⟩ u hu
    exact (transfer_balanced d u).mp ⟨hs _ (List.mem_map_of_mem hu), hio u hu⟩
  · intro h
    refine ⟨fun l hl => ?_, fun u hu => ((transfer_balanced d u).mpr (h u hu)).2⟩
    obtain ⟨u, hu, rfl⟩ := List.mem_map.mp hl
    exact ((transfer_balanced d u).mpr (h u hu)).1

/-- A transfer of two buffers that the worker maps. -/
def bothWays : Turn :=
  ⟨⟨true, true, 64, 0, 0⟩, false, 0#32, 0#32, 0, some 0x1000#32, some 0x2000#32, some 3, some 4⟩

/-- The worker goes on with a channel and two mappings in hand, and the transfer is done by PIO. -/
theorem transmit_buffer_kept : ¬ ((∀ k, Lib.Settled Ev.move (([bothWays].take k).map fun u => (u.transfer ⟨16, true, by decide⟩).log).flatten) ∧
    ∀ u ∈ [bothWays], (u.transfer ⟨16, true, by decide⟩).log.countP Ev.isIo = 1) := by
  rintro ⟨h, -⟩
  exact absurd (h 1) (by decide)

end Emlinux.Spi.Resources
