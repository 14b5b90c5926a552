import Emlinux.Lib.Ledger
import Emlinux.Sdhc.Scatter

/-!
# The mapping of a scatter list

`sslsd_request` maps the scatter list of a request with data for DMA, and `sslsd_cmd_done` unmaps it behind `l_done`: from
`host->sg`, which has gone on with the sub-transfers by then, with the count that `dma_map_sg` returned, and not at all after an
R2 response. Any request with data is taken, and `dma_map_sg` may map fewer entries than it is given.

* `completion_xfer`, `sslsdRequest_xfer`: for the requests of `DataReq` with all entries mapped, the transfer is the one without the
  mapping.
* `cmdDone_cases`: what `sslsd_cmd_done` does.
* `completion_logged`, `completion_cursor`: the log and the cursor over a completion.
* `proper_iff`: over all runs of a request.
-/

namespace Emlinux.Sdhc.Unmap

open Lib

/-- A request with data. The scatter list is given by the lengths of its entries. -/
structure Req where
  resp : RespType
  arg : BitVec 32
  stream : Bool
  wr : Bool
  blksz : Nat
  sg : List Nat
  sdio : Bool
  blkadr : Bool
  fdma : Bool
  blksz_pos : 0 < blksz
  sg_ne : sg ≠ []

/-- `enum dma_data_direction`. -/
inductive Dir where
  | toDevice
  | fromDevice
deriving DecidableEq, Repr

/-- The arguments of `dma_map_sg` and `dma_unmap_sg`; the list head is an index in the list of the request. -/
structure Mapping where
  head : Nat
  nents : Nat
  dir : Dir
deriving DecidableEq, Repr

/-- A `dma_map_sg` that maps something, `dma_unmap_sg` and `mmc_request_done`. -/
inductive Event where
  | map (m : Mapping)
  | unmap (m : Mapping)
  | done
deriving DecidableEq, Repr

def Event.move : Event → Move Mapping
  | .map m => .take m
  | .unmap m => .give m
  | .done => .rest

/-- What is unmapped was mapped so, and whenever a request is done nothing is mapped. -/
def Proper (log : List Event) : Prop :=
  (settle Event.move [] log).isSome ∧ ∀ k < log.length, log[k]? = some .done → Settled Event.move (log.take k)

instance (log : List Event) : Decidable (Proper log) := inferInstanceAs (Decidable (_ ∧ _))

/-- The progress of a request with `host->sgc` and the calls so far. -/
structure Host where
  xfer : Xfer
  sgc : Nat
  log : List Event
deriving DecidableEq

namespace Req

variable (r : Req)

def dir : Dir := if r.wr then .toDevice else .fromDevice

/-- How far `c->arg` goes for `n` blocks. -/
def stride (n : Nat) : BitVec 32 := BitVec.ofNat 32 (if r.blkadr then n else n * r.blksz)

/-- The count of `sslsd_map`, an `uint16_t`. -/
def mapCount (i ofs : Nat) : Nat := (r.sg.getD i 0 - ofs) / r.blksz % 2 ^ 16

/-- `sdhc_cmd`. -/
def issue (s : Xfer) (l : Lines) : Ret × Xfer :=
  let rt := l.answer s.count r.blksz
  (rt, { s with rt := rt, actual := if l = .ready then 0 else s.actual })

end Req

namespace Host

variable (r : Req) (h : Host)

/-- The end of `sslsd_cmd_done`. -/
def finish : Host := { h with xfer := h.xfer.finish, log := h.log ++ [.done] }

/-- `l_done`. -/
def lDone : Host :=
  finish (if r.fdma then { h with log := h.log ++ [.unmap ⟨h.xfer.sg, h.sgc, r.dir⟩] } else h)

/-- `l_next`. -/
def next (l : Lines) : Host :=
  let s := { h.xfer with arg := h.xfer.arg + r.stride h.xfer.actual, count := r.mapCount h.xfer.sg h.xfer.sgofs }
  let (rt, s) := r.issue s l
  if rt = .none then { h with xfer := s } else { h with xfer := s }.lDone r

/-- `sslsd_cmd_done`. -/
def cmdDone (l : Lines) : Host :=
  let s := h.xfer
  if r.resp = .r2 then h.finish
  else if s.actual = 0 ∧ (s.retry = false ∨ r.sdio) then h.lDone r
  else
    let len := s.actual * r.blksz
    let s := { s with retry := s.retry && s.actual != 0, rt := .none, bytesXfered := s.bytesXfered + len }
    if r.sdio then { h with xfer := s }.lDone r
    else if s.actual < s.count then { h with xfer := { s with sgofs := s.sgofs + len } }.next r l
    else if s.sg < s.sgn then { h with xfer := { s with sg := s.sg + 1, retry := true, sgofs := 0 } }.next r l
    else { h with xfer := s }.lDone r

end Host

/-- `Sdhc.Entry`, with what `dma_map_sg` returns for the list. -/
structure Entry (r : Req) extends Sdhc.Entry where
  mapped : Nat
  mapped_le : mapped ≤ r.sg.length

/-- `dma_map_sg`; `host->sgc` and `host->sgn` go down by the entries that were not mapped. -/
def mapSg (r : Req) (e : Entry r) (h : Host) : Host :=
  let less := r.sg.length - e.mapped
  if r.fdma then
    ⟨{ h.xfer with sgn := h.xfer.sgn - less }, h.sgc - less, h.log ++ [.map ⟨0, r.sg.length, r.dir⟩]⟩
  else h

/-- `sslsd_request`. -/
def sslsdRequest (r : Req) (e : Entry r) : Host :=
  let n := r.sg.length
  let s : Xfer := ⟨r.arg, .none, 0, e.stale, 0, n - 1, 0, true, 0, none, false, []⟩
  if !e.inserted then ⟨{ s with error := some .nomedium, done := true }, n, [.done]⟩
  else if r.stream then ⟨{ s with error := some .inval, done := true }, n, [.done]⟩
  else if r.fdma ∧ e.mapped = 0 then ⟨{ s with error := some .nomem, done := true }, n, [.done]⟩
  else
    let h := mapSg r e ⟨{ s with count := r.mapCount 0 0 }, n, []⟩
    let (rt, s) := r.issue h.xfer e.first
    if rt = .none then { h with xfer := s } else { h with xfer := s }.cmdDone r e.again

/-- The blocks of the sub-transfer that is under way. -/
def blocks (r : Req) (s : Xfer) (n : Nat) : List (Nat × BitVec 32) :=
  (List.range n).map fun j => ((r.sg.take s.sg).sum + s.sgofs + j * r.blksz, s.arg + r.stride j)

/-- A sub-transfer ends: its first `actual` blocks are moved, and `sslsd_cmd_done` is called. -/
def completion (r : Req) (h : Host) (c : Completion) : Option Host :=
  let s := h.xfer
  if s.done then none
  else if c.actual ≤ s.count then
    some ({ h with xfer := { s with actual := c.actual, rt := c.rt, moved := s.moved ++ blocks r s c.actual } }.cmdDone r c.lines)
  else none

/-! ## The transfer of the requests without the mapping -/

/-- A request of `DataReq`. -/
def ofData (r : DataReq) (wr fdma : Bool) : Req :=
  ⟨r.resp, r.arg, r.stream, wr, r.blksz, r.sg, r.sdio, r.blkadr, fdma, r.blksz_pos, r.sg_ne⟩

section Transfer

variable {d : DataReq} {wr fdma : Bool}

theorem lDone_xfer (r : Req) (h : Host) : (h.lDone r).xfer = h.xfer.finish := by
  unfold Host.lDone Host.finish
  split_ifs <;> rfl

theorem issued {α : Type*} (p : Ret × Xfer) (f g : Xfer → α) :
    (match p with | (.none, s) => f s | (_, s) => g s) = if p.1 = .none then f p.2 else g p.2 := by
  obtain ⟨rt, s⟩ := p
  cases rt <;> rfl

theorem next_xfer (h : Host) (l : Lines) : (h.next (ofData d wr fdma) l).xfer = h.xfer.next d l := by
  refine Eq.trans ?_ (issued _ _ _).symm
  exact (apply_ite Host.xfer _ _ _).trans (congrArg _ (lDone_xfer _ _))

theorem cmdDone_xfer (h : Host) (l : Lines) : (h.cmdDone (ofData d wr fdma) l).xfer = h.xfer.cmdDone d l := by
  unfold Host.cmdDone Xfer.cmdDone
  simp only [apply_ite Host.xfer, lDone_xfer, next_xfer]
  rfl

theorem completion_xfer (h : Host) (c : Completion) :
    (completion (ofData d wr fdma) h c).map Host.xfer = Sdhc.completion d h.xfer c := by
  unfold completion Sdhc.completion
  dsimp only
  split_ifs
  · rfl
  · exact congrArg some (cmdDone_xfer _ _)
  · rfl

/-- When all entries are mapped, the request is the one without the mapping. -/
theorem sslsdRequest_xfer (e : Entry (ofData d wr fdma)) (hall : e.mapped = d.sg.length) :
    (sslsdRequest (ofData d wr fdma) e).xfer = Sdhc.sslsdRequest d e.toEntry := by
  have hne : ¬ ((ofData d wr fdma).fdma = true ∧ e.mapped = 0) := by
    have hlen := List.length_pos_iff.mpr d.sg_ne
    omega
  have hmap (h : Host) : (mapSg (ofData d wr fdma) e h).xfer = h.xfer := by
    have hless : (ofData d wr fdma).sg.length - e.mapped = 0 := Nat.sub_eq_zero_of_le hall.ge
    unfold mapSg
    rw [hless]
    split_ifs <;> rfl
  unfold sslsdRequest Sdhc.sslsdRequest
  dsimp only
  refine (apply_ite Host.xfer _ _ _).trans (ite_congr rfl (fun _ => rfl) fun _ => ?_)
  refine (apply_ite Host.xfer _ _ _).trans (ite_congr rfl (fun _ => rfl) fun _ => ?_)
  rw [if_neg hne]
  refine Eq.trans ?_ (issued _ _ _).symm
  refine (apply_ite Host.xfer _ _ _).trans ?_
  rw [cmdDone_xfer, hmap]
  rfl

end Transfer

/-! ## A completion -/

section Cases

variable {r : Req} {h : Host} {l : Lines}

/-- What `sslsd_cmd_done` does: it stops, it goes on with the rest of the entry, or it goes on to the next entry. -/
theorem cmdDone_cases (hr : r.resp ≠ .r2) :
    (∃ s, h.cmdDone r l = { h with xfer := s }.lDone r ∧ s.sg = h.xfer.sg ∧ s.sgn = h.xfer.sgn ∧
      (h.xfer.actual = 0 ∧ h.xfer.retry = false ∨ r.sdio = true ∨ h.xfer.sgn ≤ h.xfer.sg)) ∨
    (∃ s, h.cmdDone r l = { h with xfer := s }.next r l ∧ s.sg = h.xfer.sg ∧ s.sgn = h.xfer.sgn ∧ s.done = h.xfer.done ∧
      s.sgofs = h.xfer.sgofs + h.xfer.actual * r.blksz ∧ h.xfer.actual < h.xfer.count ∧ r.sdio = false) ∨
    (∃ s, h.cmdDone r l = { h with xfer := s }.next r l ∧ s.sg = h.xfer.sg + 1 ∧ s.sgn = h.xfer.sgn ∧ s.done = h.xfer.done ∧
      h.xfer.count ≤ h.xfer.actual ∧ h.xfer.sg < h.xfer.sgn ∧ r.sdio = false) := by
  unfold Host.cmdDone
  dsimp only
  rw [if_neg hr]
  split_ifs with hstuck hio hrest hsg
  · refine .inl ⟨_, rfl, rfl, rfl, ?_⟩
    obtain ⟨hzero, hretry | hio⟩ := hstuck
    · exact .inl ⟨hzero, hretry⟩
    · exact .inr (.inl hio)
  · exact .inl ⟨_, rfl, rfl, rfl, .inr (.inl hio)⟩
  · exact .inr (.inl ⟨_, rfl, rfl, rfl, rfl, rfl, hrest, by simpa using hio⟩)
  · exact .inr (.inr ⟨_, rfl, rfl, rfl, rfl, not_lt.mp hrest, hsg, by simpa using hio⟩)
  · exact .inl ⟨_, rfl, rfl, rfl, .inr (.inr (not_lt.mp hsg))⟩

/-- What `l_next` leaves alone, and the count it sets. -/
structure Next (r : Req) (s t : Xfer) : Prop where
  sg : t.sg = s.sg
  sgn : t.sgn = s.sgn
  sgofs : t.sgofs = s.sgofs
  count : t.count = r.mapCount s.sg s.sgofs

theorem next_next : Next r h.xfer (h.next r l).xfer := by
  unfold Host.next
  dsimp only
  split_ifs
  · exact ⟨rfl, rfl, rfl, rfl⟩
  · rw [lDone_xfer]
    exact ⟨rfl, rfl, rfl, rfl⟩

end Cases

/-! ## The log -/

section Log

variable {r : Req} {h t : Host} {first : List Event} {n : Nat} {l : Lines}

/-- What is unmapped at the end, when `host->sg` is `sg` and `host->sgc` is `n`. -/
def Req.unmaps (r : Req) (sg n : Nat) : List Event :=
  if r.fdma = true ∧ r.resp ≠ .r2 then [.unmap ⟨sg, n, r.dir⟩] else []

/-- Behind `first` the log has only what belongs to the end. -/
structure Logged (r : Req) (first : List Event) (n : Nat) (t : Host) : Prop where
  sgc : t.sgc = n
  going : t.xfer.done = false → t.log = first
  done : t.xfer.done = true → t.log = first ++ r.unmaps t.xfer.sg n ++ [.done]

theorem lDone_logged (hr : r.resp ≠ .r2) (hn : h.sgc = n) (hl : h.log = first) : Logged r first n (h.lDone r) := by
  have hlog : (h.lDone r).log = first ++ r.unmaps h.xfer.sg n ++ [.done] := by
    unfold Host.lDone Host.finish Req.unmaps
    by_cases hf : r.fdma = true
    · rw [if_pos hf, if_pos ⟨hf, hr⟩, hn, hl]
    · rw [if_neg hf, if_neg fun hc => hf hc.1, hl, List.append_nil]
  have hsgc : (h.lDone r).sgc = n := by
    rw [← hn]
    unfold Host.lDone Host.finish
    split_ifs <;> rfl
  refine ⟨hsgc, fun hd => ?_, fun _ => ?_⟩
  · rw [lDone_xfer] at hd
    exact absurd hd (by simp [Xfer.finish])
  · rw [lDone_xfer]
    exact hlog

theorem next_logged (hr : r.resp ≠ .r2) (hd : h.xfer.done = false) (hn : h.sgc = n) (hl : h.log = first) :
    Logged r first n (h.next r l) := by
  unfold Host.next
  dsimp only
  split_ifs
  · exact ⟨hn, fun _ => hl, fun hd' => absurd (hd.symm.trans hd') (by decide)⟩
  · exact lDone_logged hr hn hl

theorem cmdDone_logged (hd : h.xfer.done = false) (hn : h.sgc = n) (hl : h.log = first) :
    Logged r first n (h.cmdDone r l) := by
  by_cases hr : r.resp = .r2
  · have hfin : h.cmdDone r l = h.finish := if_pos hr
    rw [hfin]
    refine ⟨hn, fun hd' => absurd hd' (by simp [Host.finish, Xfer.finish]), fun _ => ?_⟩
    unfold Host.finish Req.unmaps
    rw [if_neg fun hc => hc.2 hr, List.append_nil, hl]
  · obtain ⟨s, he, -⟩ | ⟨s, he, -, -, hs, -⟩ | ⟨s, he, -, -, hs, -⟩ := cmdDone_cases (h := h) (l := l) hr
    · rw [he]
      exact lDone_logged hr hn hl
    · rw [he]
      exact next_logged hr (hs.trans hd) hn hl
    · rw [he]
      exact next_logged hr (hs.trans hd) hn hl

/-- A completion is `sslsd_cmd_done` after the end of a sub-transfer. -/
theorem completion_eq {u : Host} {c : Completion} (hu : completion r t c = some u) :
    t.xfer.done = false ∧ c.actual ≤ t.xfer.count ∧
      u = { t with xfer := { t.xfer with actual := c.actual, rt := c.rt, moved := t.xfer.moved ++ blocks r t.xfer c.actual } }.cmdDone r c.lines := by
  unfold completion at hu
  dsimp only at hu
  split_ifs at hu with hd hc
  exact ⟨by simpa using hd, hc, (Option.some.inj hu).symm⟩

theorem completion_logged (h : Logged r first n t) {u : Host} {c : Completion} (hu : completion r t c = some u) :
    Logged r first n u := by
  obtain ⟨hd, -, rfl⟩ := completion_eq hu
  exact cmdDone_logged hd h.sgc (h.going hd)

end Log

/-! ## The cursor -/

section Cursor

variable {r : Req} {h t : Host} {p : Nat} {l : Lines}

/-- The cursor is at the first entry and cannot leave it. -/
structure Still (r : Req) (s : Xfer) : Prop where
  sg : s.sg = 0
  kept : r.sdio = true ∨ s.sgn = 0

theorem cmdDone_still (hr : r.resp ≠ .r2) (hs : Still r h.xfer) : Still r (h.cmdDone r l).xfer := by
  have hlast := hs.kept
  obtain ⟨s, he, hsg, hsgn, -⟩ | ⟨s, he, hsg, hsgn, -⟩ | ⟨s, he, -, -, -, -, hlt, hio⟩ := cmdDone_cases (h := h) (l := l) hr
  · rw [he, lDone_xfer]
    exact ⟨hsg.trans hs.sg, hlast.imp_right hsgn.trans⟩
  · have hn := next_next (r := r) (h := { h with xfer := s }) (l := l)
    rw [he]
    exact ⟨hn.sg.trans (hsg.trans hs.sg), hlast.imp_right (hn.sgn.trans hsgn).trans⟩
  · rcases hlast with hlast | hlast
    · exact absurd (hio.symm.trans hlast) (by decide)
    · omega

theorem completion_still (hr : r.resp ≠ .r2) {u : Host} {c : Completion} (hs : Still r t.xfer)
    (hu : completion r t c = some u) : Still r u.xfer := by
  obtain ⟨-, -, rfl⟩ := completion_eq hu
  exact cmdDone_still hr ⟨hs.sg, hs.kept⟩

/-- `sslsd_map` for the rest of the first entry. -/
theorem mapCount_rest (hp : p ≤ r.mapCount 0 0) : r.mapCount 0 (p * r.blksz) = r.mapCount 0 0 - p := by
  unfold Req.mapCount at *
  rw [Nat.sub_zero] at *
  rw [Nat.mul_comm, Nat.sub_mul_div]
  generalize r.sg.getD 0 0 / r.blksz = n at hp ⊢
  omega

/-- With `p` blocks moved, the sub-transfers are in the first entry or have left it, as it has more blocks or not. -/
structure Cursor (r : Req) (p : Nat) (s : Xfer) : Prop where
  sgn : 0 < s.sgn
  stay : p < r.mapCount 0 0 → s.sg = 0 ∧ (s.done = false → s.sgofs = p * r.blksz ∧ s.count = r.mapCount 0 0 - p)
  left : r.mapCount 0 0 ≤ p → 0 < s.sg

/-- `sslsd_cmd_done` in the first entry. -/
theorem cmdDone_first (hr : r.resp ≠ .r2) (hio : r.sdio = false) (hsgn : 0 < h.xfer.sgn) (hp : p ≤ r.mapCount 0 0)
    (hsg : h.xfer.sg = 0) (hofs : h.xfer.sgofs = p * r.blksz) (hcount : h.xfer.count = r.mapCount 0 0 - p)
    (hgo : p < r.mapCount 0 0 ∨ h.xfer.retry = true) : Cursor r (p + h.xfer.actual) (h.cmdDone r l).xfer := by
  obtain ⟨s, he, hs, hn, hstop⟩ | ⟨s, he, hs, hn, -, ho, hlt, -⟩ | ⟨s, he, hs, hn, -, hle, -⟩ := cmdDone_cases (h := h) (l := l) hr
  · rw [he, lDone_xfer]
    obtain ⟨hzero, hretry⟩ : h.xfer.actual = 0 ∧ h.xfer.retry = false := by
      rcases hstop with hstop | hstop | hstop
      · exact hstop
      · exact absurd (hio.symm.trans hstop) (by decide)
      · omega
    have hlt : p < r.mapCount 0 0 := hgo.resolve_right fun hretry' => absurd (hretry.symm.trans hretry') (by decide)
    refine ⟨hn ▸ hsgn, fun _ => ⟨hs.trans hsg, fun hd => absurd hd (by simp [Xfer.finish])⟩, fun hle => ?_⟩
    omega
  · have hnext := next_next (r := r) (h := { h with xfer := s }) (l := l)
    have hs0 : s.sg = 0 := hs.trans hsg
    have hofs' : s.sgofs = (p + h.xfer.actual) * r.blksz := by rw [ho, hofs, Nat.add_mul]
    rw [he]
    refine ⟨(hnext.sgn.trans hn) ▸ hsgn, fun hlt' => ⟨hnext.sg.trans hs0, fun _ => ⟨hnext.sgofs.trans hofs', ?_⟩⟩, fun hle => ?_⟩
    · rw [hnext.count]
      dsimp only
      rw [hs0, hofs', mapCount_rest hlt'.le]
    · omega
  · have hnext := next_next (r := r) (h := { h with xfer := s }) (l := l)
    have hpos : 0 < s.sg := hs ▸ Nat.succ_pos _
    rw [he]
    refine ⟨(hnext.sgn.trans hn) ▸ hsgn, fun hlt => ?_, fun _ => hnext.sg ▸ hpos⟩
    omega

/-- `sslsd_cmd_done` behind the first entry. -/
theorem cmdDone_behind (hr : r.resp ≠ .r2) (hsgn : 0 < h.xfer.sgn) (hsg : 0 < h.xfer.sg) :
    0 < (h.cmdDone r l).xfer.sgn ∧ 0 < (h.cmdDone r l).xfer.sg := by
  obtain ⟨s, he, hs, hn, -⟩ | ⟨s, he, hs, hn, -⟩ | ⟨s, he, hs, hn, -⟩ := cmdDone_cases (h := h) (l := l) hr
  · rw [he, lDone_xfer]
    exact ⟨hn ▸ hsgn, hs ▸ hsg⟩
  · have hnext := next_next (r := r) (h := { h with xfer := s }) (l := l)
    rw [he, hnext.sgn, hnext.sg]
    exact ⟨hn ▸ hsgn, hs ▸ hsg⟩
  · have hnext := next_next (r := r) (h := { h with xfer := s }) (l := l)
    rw [he, hnext.sgn, hnext.sg]
    exact ⟨hn ▸ hsgn, hs ▸ Nat.succ_pos _⟩

theorem completion_cursor (hr : r.resp ≠ .r2) (hio : r.sdio = false) {u : Host} {c : Completion} (hc : Cursor r p t.xfer)
    (hu : completion r t c = some u) : Cursor r (p + c.actual) u.xfer := by
  obtain ⟨hd, hle, rfl⟩ := completion_eq hu
  rcases Nat.lt_or_ge p (r.mapCount 0 0) with hp | hp
  · obtain ⟨hsg, hin⟩ := hc.stay hp
    obtain ⟨hofs, hcount⟩ := hin hd
    exact cmdDone_first (h := { t with xfer := { t.xfer with
      actual := c.actual, rt := c.rt, moved := t.xfer.moved ++ blocks r t.xfer c.actual } })
      hr hio hc.sgn hp.le hsg hofs hcount (.inl hp)
  · obtain ⟨hsgn, hsg⟩ := cmdDone_behind (r := r) (l := c.lines) (h := { t with xfer := { t.xfer with
      actual := c.actual, rt := c.rt, moved := t.xfer.moved ++ blocks r t.xfer c.actual } }) hr hc.sgn (hc.left hp)
    exact ⟨hsgn, fun hlt => by omega, fun _ => hsg⟩

end Cursor

/-! ## A request -/

section Request

variable {r : Req} (e : Entry r)

/-- The request gets as far as the first `sdhc_cmd`. -/
def Entry.Accepted : Prop := e.inserted = true ∧ r.stream = false ∧ ¬ (r.fdma = true ∧ e.mapped = 0)

/-- The blocks that `sslsd_cmd_done` finds when the first `sdhc_cmd` fails: those of the last transfer, if it did not get as far as
the data. -/
def Entry.start : Nat := if e.first = .ready then 0 else e.stale

/-- `host->sgc`. -/
def Entry.sgc : Nat := if r.fdma then e.mapped else r.sg.length

def Req.maps (r : Req) : List Event := if r.fdma then [.map ⟨0, r.sg.length, r.dir⟩] else []

variable {e}

theorem sslsdRequest_rejected (h : ¬ e.Accepted) : (sslsdRequest r e).xfer.done = true ∧ (sslsdRequest r e).log = [.done] := by
  unfold sslsdRequest
  dsimp only
  split_ifs with hin hst hmap
  · exact ⟨rfl, rfl⟩
  · exact ⟨rfl, rfl⟩
  · exact ⟨rfl, rfl⟩
  all_goals exact absurd ⟨by simpa using hin, by simpa using hst, hmap⟩ h

/-- The first `sdhc_cmd` starts a sub-transfer, or `sslsd_cmd_done` follows it. -/
theorem sslsdRequest_accepted (h : e.Accepted) : ∃ s : Xfer, s.sg = 0 ∧ s.sgn = e.sgc - 1 ∧ s.sgofs = 0 ∧
    s.count = r.mapCount 0 0 ∧ s.retry = true ∧ s.done = false ∧ s.actual = e.start ∧
    (sslsdRequest r e = ⟨s, e.sgc, r.maps⟩ ∧ 0 < s.count ∧ e.start = 0 ∨
      sslsdRequest r e = (Host.mk s e.sgc r.maps).cmdDone r e.again) := by
  obtain ⟨hin, hst, hmap⟩ := h
  let s : Xfer := ⟨r.arg, .none, r.mapCount 0 0, e.stale, 0, e.sgc - 1, 0, true, 0, none, false, []⟩
  have hle := e.mapped_le
  have hmapped : mapSg r e ⟨⟨r.arg, .none, r.mapCount 0 0, e.stale, 0, r.sg.length - 1, 0, true, 0, none, false, []⟩,
      r.sg.length, []⟩ = ⟨s, e.sgc, r.maps⟩ := by
    unfold mapSg Req.maps
    split_ifs with hf
    · have hsgc : e.sgc = e.mapped := if_pos hf
      have h1 : r.sg.length - 1 - (r.sg.length - e.mapped) = e.sgc - 1 := by omega
      have h2 : r.sg.length - (r.sg.length - e.mapped) = e.sgc := by omega
      dsimp only
      rw [h1, h2]
      rfl
    · have hsgc : e.sgc = r.sg.length := if_neg hf
      rw [← hsgc]
  have hreq : sslsdRequest r e = if (r.issue s e.first).1 = .none then ⟨(r.issue s e.first).2, e.sgc, r.maps⟩
      else (Host.mk (r.issue s e.first).2 e.sgc r.maps).cmdDone r e.again := by
    unfold sslsdRequest
    dsimp only
    rw [if_neg (by simp [hin]), if_neg (by simp [hst]), if_neg hmap, hmapped]
  refine ⟨(r.issue s e.first).2, rfl, rfl, rfl, rfl, rfl, rfl, rfl, ?_⟩
  rw [hreq]
  split_ifs with hrt
  · refine .inl ⟨rfl, Lines.answer_none hrt, ?_⟩
    unfold Entry.start
    cases hf : e.first with
    | ready => rfl
    | removed => exact absurd hrt (by simp [Req.issue, hf, Lines.answer])
    | busy => exact absurd hrt (by simp [Req.issue, hf, Lines.answer])
  · exact .inr rfl

theorem sslsdRequest_logged (h : e.Accepted) : Logged r r.maps e.sgc (sslsdRequest r e) := by
  obtain ⟨s, -, -, -, -, -, hd, -, ⟨he, -⟩ | he⟩ := sslsdRequest_accepted h
  · rw [he]
    exact ⟨rfl, fun _ => rfl, fun hd' => absurd (hd.symm.trans hd') (by decide)⟩
  · rw [he]
    exact cmdDone_logged hd rfl rfl

theorem sslsdRequest_still (h : e.Accepted) (hr : r.resp ≠ .r2) (hkept : r.sdio = true ∨ e.sgc - 1 = 0) :
    Still r (sslsdRequest r e).xfer := by
  obtain ⟨s, hsg, hsgn, -, -, -, -, -, ⟨he, -⟩ | he⟩ := sslsdRequest_accepted h
  · rw [he]
    exact ⟨hsg, hkept.imp_right hsgn.trans⟩
  · rw [he]
    exact cmdDone_still hr ⟨hsg, hkept.imp_right hsgn.trans⟩

theorem sslsdRequest_cursor (h : e.Accepted) (hr : r.resp ≠ .r2) (hio : r.sdio = false) (hsgc : 0 < e.sgc - 1) :
    Cursor r e.start (sslsdRequest r e).xfer := by
  obtain ⟨s, hsg, hsgn, hofs, hcount, hretry, hd, hact, ⟨he, hpos, hzero⟩ | he⟩ := sslsdRequest_accepted h
  · rw [he, hzero]
    refine ⟨hsgn ▸ hsgc, fun _ => ⟨hsg, fun _ => ⟨by rw [hofs, Nat.zero_mul], hcount⟩⟩, fun hle => ?_⟩
    omega
  · have hfirst := cmdDone_first (h := ⟨s, e.sgc, r.maps⟩) (l := e.again) hr hio (hsgn ▸ hsgc) (Nat.zero_le (r.mapCount 0 0)) hsg
      (by rw [Nat.zero_mul]; exact hofs) hcount (.inr hretry)
    rw [he, ← hact]
    rwa [Nat.zero_add] at hfirst

/-- Over a run, the cursor stays at the first entry. -/
theorem play_cursor_iff (h : e.Accepted) (hr : r.resp ≠ .r2) (cs : List Completion) {t : Host}
    (ht : play (completion r) (sslsdRequest r e) cs = some t) :
    t.xfer.sg = 0 ↔ r.sdio = true ∨ e.sgc - 1 = 0 ∨ e.start + (cs.map Completion.actual).sum < r.mapCount 0 0 := by
  by_cases hkept : r.sdio = true ∨ e.sgc - 1 = 0
  · have hstill : Still r t.xfer := play_weighted (P := fun _ t => Still r t.xfer) Completion.actual
      (fun _ _ _ _ hs hu => completion_still hr hs hu) cs (n := 0) (sslsdRequest_still h hr hkept) ht
    exact iff_of_true hstill.sg (hkept.imp_right .inl)
  · obtain ⟨hio, hsgc⟩ := not_or.mp hkept
    have hio : r.sdio = false := by simpa using hio
    have hcursor : Cursor r (e.start + (cs.map Completion.actual).sum) t.xfer := play_weighted (P := fun p t => Cursor r p t.xfer)
      Completion.actual (fun _ _ _ _ hc hu => completion_cursor hr hio hc hu) cs (sslsdRequest_cursor h hr hio (Nat.pos_of_ne_zero hsgc)) ht
    constructor
    · intro hsg
      refine .inr (.inr ?_)
      by_contra hle
      have hpos := hcursor.left (not_lt.mp hle)
      omega
    · rintro (hio' | hsgc' | hlt)
      · exact absurd (hio.symm.trans hio') (by decide)
      · exact absurd hsgc' hsgc
      · exact (hcursor.stay hlt).1

end Request

/-! ## Whole requests -/

theorem proper_done : Proper [.done] := by decide

theorem proper_maps (r : Req) : Proper r.maps := by
  unfold Req.maps
  split_ifs
  · refine ⟨rfl, fun k hk hdone => ?_⟩
    obtain rfl : k = 0 := Nat.lt_one_iff.mp hk
    exact absurd hdone (by simp)
  · decide

theorem proper_pair_iff (a b : Mapping) : Proper [.map a, .unmap b, .done] ↔ b = a := by
  constructor
  · intro h
    by_contra hne
    have hsettle := h.1
    simp [settle, Event.move, hne] at hsettle
  · rintro rfl
    refine ⟨by simp [settle, Event.move], fun k hk hdone => ?_⟩
    obtain rfl : k = 2 := by
      have hlt : k < 3 := hk
      interval_cases k
      · exact absurd hdone (by simp)
      · exact absurd hdone (by simp)
      · rfl
    simp [Settled, settle, Event.move]

theorem not_proper_kept (a : Mapping) : ¬ Proper [.map a, .done] := by
  intro h
  have hsettled := h.2 1 Nat.one_lt_two rfl
  exact absurd hsettled (by simp [Settled, settle, Event.move])

variable {r : Req}

/-- When a request with DMA is done, its log is as it should be if it was unmapped, from the first entry on and all of it. -/
theorem Logged.proper_end_iff {n : Nat} {t : Host} (h : Logged r r.maps n t) (hf : r.fdma = true) (hd : t.xfer.done = true) :
    Proper t.log ↔ r.resp ≠ .r2 ∧ t.xfer.sg = 0 ∧ n = r.sg.length := by
  rw [h.done hd, Req.maps, Req.unmaps, if_pos hf]
  by_cases hr : r.resp = .r2
  · rw [if_neg fun h => h.2 hr]
    exact iff_of_false (not_proper_kept _) fun h => h.1 hr
  · rw [if_pos ⟨hf, hr⟩]
    refine (proper_pair_iff _ _).trans ?_
    simp [hr]

/-- Without DMA nothing is mapped. -/
theorem Logged.proper_unmapped {n : Nat} {t : Host} (h : Logged r r.maps n t) (hf : ¬ r.fdma = true) (hd : t.xfer.done = true) :
    Proper t.log := by
  rw [h.done hd, Req.maps, Req.unmaps, if_neg hf, if_neg fun h => hf h.1]
  exact proper_done

/-- The list of the request is mapped. -/
def Entry.Mapped (e : Entry r) : Prop := e.inserted = true ∧ r.stream = false ∧ r.fdma = true ∧ 0 < e.mapped

/-- The sub-transfers do not leave the first entry: the card is an SDIO card, there is one entry, or they move fewer blocks
than the first entry has. -/
def StaysFirst (r : Req) (e : Entry r) (cs : List Completion) : Prop :=
  r.sdio = true ∨ r.sg.length = 1 ∨ e.start + (cs.map Completion.actual).sum < r.mapCount 0 0

/-- Until it is done a request has unmapped nothing that was not mapped so. When it is done, its list was unmapped as it was mapped exactly when it
was not mapped, or all its entries were, the response is not R2, and the sub-transfers did not leave the first entry. -/
theorem proper_iff (r : Req) (e : Entry r) (cs : List Completion) (t : Host)
    (ht : play (completion r) (sslsdRequest r e) cs = some t) :
    (t.xfer.done = false → Proper t.log) ∧
    (t.xfer.done = true →
      (Proper t.log ↔ (e.Mapped → e.mapped = r.sg.length ∧ r.resp ≠ .r2 ∧ StaysFirst r e cs))) := by
  by_cases hacc : e.Accepted
  · have hlog : Logged r r.maps e.sgc t := play_weighted (P := fun _ => Logged r r.maps e.sgc) Completion.actual
      (fun _ _ _ _ hl hu => completion_logged hl hu) cs (n := 0) (sslsdRequest_logged hacc) ht
    refine ⟨fun hd => ?_, fun hd => ?_⟩
    · rw [hlog.going hd]
      exact proper_maps r
    · by_cases hf : r.fdma = true
      · have hmapped : e.Mapped := ⟨hacc.1, hacc.2.1, hf, Nat.pos_of_ne_zero fun h => hacc.2.2 ⟨hf, h⟩⟩
        have hsgc : e.sgc = e.mapped := if_pos hf
        have hlen := List.length_pos_iff.mpr r.sg_ne
        rw [hlog.proper_end_iff hf hd, hsgc]
        constructor
        · rintro ⟨hr, hsg, hall⟩ -
          have hstay := (play_cursor_iff hacc hr cs ht).mp hsg
          exact ⟨hall, hr, hstay.imp_right (.imp_left fun hone => by omega)⟩
        · intro h
          obtain ⟨hall, hr, hstay⟩ := h hmapped
          have hsg : t.xfer.sg = 0 := (play_cursor_iff hacc hr cs ht).mpr (hstay.imp_right (.imp_left fun hone => by omega))
          exact ⟨hr, hsg, hall⟩
      · exact iff_of_true (hlog.proper_unmapped hf hd) fun h => absurd h.2.2.1 hf
  · obtain ⟨hd, hl⟩ := sslsdRequest_rejected hacc
    obtain ⟨-, rfl⟩ := play_stuck (fun c => if_pos hd) ht
    rw [hl]
    refine ⟨fun _ => proper_done, fun _ => iff_of_true proper_done fun h => ?_⟩
    exact absurd ⟨h.1, h.2.1, fun hz => absurd hz.2 h.2.2.2.ne'⟩ hacc

/-- A read of two blocks. -/
def twoBlocks (sg : List Nat) (hsg : sg ≠ []) : Req :=
  ⟨.r1, 8, false, false, 512, sg, false, true, true, threeBlocks.blksz_pos, hsg⟩

/-- The card and the lines are ready, and all entries are mapped. -/
def allMapped (r : Req) : Entry r := ⟨⟨true, .ready, .ready, 0⟩, r.sg.length, le_rfl⟩

def oneEntry : Req := twoBlocks [1024] (by decide)

def twoEntries : Req := twoBlocks [512, 512] (by decide)

/-- One entry, with the second block in a further sub-transfer after an error. -/
theorem proper_iff_one : ∃ t, play (completion oneEntry) (sslsdRequest oneEntry (allMapped oneEntry))
      [⟨1, .datLine, .ready⟩, ⟨1, .none, .ready⟩] = some t ∧
    t.xfer.done = true ∧ Proper t.log := by
  obtain ⟨t, ht, hd⟩ : ∃ t, play (completion oneEntry) (sslsdRequest oneEntry (allMapped oneEntry))
      [⟨1, .datLine, .ready⟩, ⟨1, .none, .ready⟩] = some t ∧ t.xfer.done = true := play_ends _ (by decide +kernel)
  exact ⟨t, ht, hd, ((proper_iff _ _ _ t ht).2 hd).mpr fun _ => ⟨rfl, by decide, .inr (.inl rfl)⟩⟩

/-- Two entries: the list is unmapped from the second one on. -/
theorem unmapped_from_second : ∃ t, play (completion twoEntries) (sslsdRequest twoEntries (allMapped twoEntries))
      [⟨1, .none, .ready⟩, ⟨1, .none, .ready⟩] = some t ∧
    t.xfer.done = true ∧ t.log = [.map ⟨0, 2, .fromDevice⟩, .unmap ⟨1, 2, .fromDevice⟩, .done] ∧ ¬ Proper t.log :=
  play_ends _ (by decide +kernel)

end Emlinux.Sdhc.Unmap
