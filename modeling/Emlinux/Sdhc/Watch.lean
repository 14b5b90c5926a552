import Emlinux.Lib.Run
import Emlinux.Sdhc.Scatter

/-!
# The timer of an SD request

`sslsd_request` starts a timer of two seconds and issues the command; `sslsd_cmd_done` stops it, and then either ends the request or issues the
next sub-transfer; `sslsd_tout` flushes the controller. The three are interleaved here step by step: a timer may expire, and the
interrupt routine may answer or end a command, whenever they can. The flush is two steps, since the core may repeat
a request from inside `mmc_request_done`; the interrupts are off meanwhile.

A sub-transfer that `sslsd_cmd_done` issues has no timer, and neither has a command whose timer expires before `sdhc_cmd` is reached. In
all other steps an outstanding command stays watched (`watched_iff`).
-/

namespace Emlinux.Sdhc

open Lib

/-- A request of the core: a command without data, or with. -/
inductive Req where
  | plain
  | data (r : DataReq)

/-- `sslsd_host`: whether `tcmd` is in the slots `t->cmd` and `t->dat`, whether the timer is pending, whether `sslsd_request` is between
`mod_timer` and `sdhc_cmd`, whether `sdhc_flush` has done its first half, and the outstanding request with its progress. -/
structure Sslsd where
  cmd : Bool
  dat : Bool
  timer : Bool
  armed : Bool
  flushing : Bool
  req : Option Req
  xfer : Xfer

namespace Sslsd

variable (s : Sslsd)

/-- A command is outstanding. -/
def outstanding : Bool := s.cmd || s.dat

/-- The command leaves its slot. -/
def take : Sslsd := { s with cmd := false, dat := false }

/-- `del_timer`, and what `sslsd_cmd_done` makes of the request: it is done, or the next sub-transfer is in the command slot. -/
def settle (x : Xfer) : Sslsd :=
  if x.done then { s with timer := false, xfer := x, req := none } else { s with timer := false, xfer := x, cmd := true }

/-- The progress with which a request starts; `tdat.actual` is still that of the last one. -/
def start (x : Xfer) : Req → Xfer
  | .plain => { x with error := none, done := false }
  | .data r =>
    { x with
      arg := r.arg, count := r.mapCount 0 0, sg := 0, sgn := r.sg.length - 1, sgofs := 0, retry := true
      bytesXfered := 0, error := none, done := false, moved := [] }

/-- A request that is refused before the timer is started. -/
def Refused (q : Req) (inserted : Bool) : Prop := inserted = false ∨ ∃ r, q = .data r ∧ r.stream = true

instance (q : Req) (inserted : Bool) : Decidable (Refused q inserted) :=
  match q with
  | .plain => decidable_of_iff (inserted = false) ⟨Or.inl, fun h => h.elim id nofun⟩
  | .data r => decidable_of_iff (inserted = false ∨ r.stream = true)
      ⟨Or.imp id fun h => ⟨r, rfl, h⟩, Or.imp id fun ⟨_, hr, h⟩ => by cases hr; exact h⟩

/-- `sslsd_request` up to `mod_timer`. -/
def request (q : Req) (inserted : Bool) : Sslsd :=
  if Refused q inserted then s
  else { s with timer := true, armed := true, req := some q, xfer := start s.xfer q }

/-- `sdhc_cmd` in `sslsd_request`, and `sslsd_cmd_done` when it fails. -/
def issue (first again : Lines) : Option Sslsd :=
  match s.req with
  | none => none
  | some .plain =>
    let rt := first.answer 1 1
    some (if rt = .none then { s with armed := false, cmd := true }
      else { s with armed := false }.settle { s.xfer with rt := rt }.finish)
  | some (.data r) =>
    let x := s.xfer.issue r first
    some (if x.1 = .none then { s with armed := false, cmd := true, xfer := x.2 }
      else { s with armed := false }.settle (x.2.cmdDone r again))

/-- The outstanding command ends, and `sslsd_cmd_done` is called. -/
def complete (c : Completion) : Option Sslsd :=
  match s.req with
  | none => none
  | some .plain => some (s.take.settle { s.xfer with rt := c.rt }.finish)
  | some (.data r) => (completion r s.xfer c).map s.take.settle

end Sslsd

inductive SslAction where
  /-- `sslsd_request` up to `mod_timer` -/
  | request (q : Req) (inserted : Bool)
  /-- `sslsd_request` from `sdhc_cmd` on -/
  | issue (first again : Lines)
  /-- `sdhc_isr` moves the command to the data slot -/
  | respond
  /-- `sdhc_isr` passes the command to the event function -/
  | complete (c : Completion)
  /-- the timer expires: `sslsd_tout`, with the first half of `sdhc_flush` -/
  | tout (c : Completion)
  /-- the second half -/
  | flushCmd (c : Completion)

/-- The core has one request at a time. -/
def Sslsd.step (s : Sslsd) : SslAction → Option Sslsd
  | .request q inserted => if s.req.isNone then some (s.request q inserted) else none
  | .issue first again => if s.armed then s.issue first again else none
  | .respond => if s.cmd && !s.flushing then some { s with cmd := false, dat := true } else none
  | .complete c => if s.outstanding && !s.flushing then s.complete c else none
  | .tout c =>
    if s.timer && !s.flushing then
      let s := { s with timer := false, flushing := true }
      if s.dat then s.complete { c with rt := .rem } else some s
    else none
  | .flushCmd c =>
    if s.flushing then
      let s := { s with flushing := false }
      if s.cmd then s.complete { c with rt := .rem } else some s
    else none

/-- A host without requests. -/
def Sslsd.idle (x : Xfer) : Sslsd := ⟨false, false, false, false, false, none, x⟩

/-- What the timer is for: unless the flush is under way, it is pending while a command is outstanding, and never without a request. -/
structure Watched (s : Sslsd) : Prop where
  pending : s.flushing = false → s.outstanding = true → s.timer = true
  stopped : s.flushing = false → s.req = none → s.timer = false

/-- `sslsd_cmd_done` goes on: the last sub-transfer made progress or may be repeated, something is left of the entry or of the list, and
`sdhc_cmd` finds the lines ready for it. -/
def Xfer.GoesOn (r : DataReq) (s : Xfer) (l : Lines) : Prop :=
  r.sdio = false ∧ (s.actual ≠ 0 ∨ s.retry = true) ∧ l = .ready ∧
    (s.actual < s.count ∧ 0 < r.mapCount s.sg (s.sgofs + s.actual * r.blksz) ∨
      s.count ≤ s.actual ∧ s.sg < s.sgn ∧ 0 < r.mapCount (s.sg + 1) 0)

/-- The command that ends after `actual` blocks is followed by another sub-transfer. -/
def Sslsd.GoesOn (s : Sslsd) (actual : Nat) (l : Lines) : Prop :=
  ∃ r, s.req = some (.data r) ∧ { s.xfer with actual := actual }.GoesOn r l

/-- `sdhc_cmd` accepts the first command of the request. -/
def Sslsd.Accepts (s : Sslsd) (first : Lines) : Prop :=
  first = .ready ∧ ∀ r, s.req = some (.data r) → 0 < s.xfer.count

/-- The steps that leave the commands watched: outside of a flush, no command that ends is followed by another sub-transfer, and the timer is
still pending when `sdhc_cmd` accepts the first command. -/
def Sslsd.Settled (s : Sslsd) : SslAction → Prop
  | .issue first again => s.flushing = false → (s.Accepts first → s.timer = true) ∧
      (¬ s.Accepts first → ¬ s.GoesOn (if first = .ready then 0 else s.xfer.actual) again)
  | .complete c => ¬ s.GoesOn c.actual c.lines
  | .flushCmd c => s.cmd = true → ¬ s.GoesOn c.actual c.lines
  | .request .. | .respond | .tout _ => True

/-! ## The end of a command -/

section cmdDone

variable {r : DataReq} {x : Xfer} {l : Lines}

theorem answer_eq_none {n : Nat} : l.answer n r.blksz = .none ↔ l = .ready ∧ 0 < n := by
  have hblk := r.blksz_pos
  cases l with
  | ready =>
    unfold Lines.answer
    dsimp only
    split_ifs with h
    · exact iff_of_false nofun fun hx => by omega
    · exact iff_of_true rfl ⟨rfl, by omega⟩
  | removed | busy => exact iff_of_false nofun fun hx => absurd hx.1 nofun

theorem finish_done (x : Xfer) : ¬ x.finish.done = false := fun h => Bool.noConfusion (show true = false from h)

theorem next_done (h : x.done = false) :
    (x.next r l).done = false ↔ l = .ready ∧ 0 < r.mapCount x.sg x.sgofs := by
  rw [← answer_eq_none]
  unfold Xfer.next Xfer.issue
  dsimp only
  by_cases hrt : l.answer (r.mapCount x.sg x.sgofs) r.blksz = .none
  · rw [hrt]
    exact iff_of_true h rfl
  · refine iff_of_false ?_ hrt
    split
    next s' he => exact absurd (Prod.mk.inj he).1 hrt
    next => exact finish_done _

/-- A request that is not done goes on with its next sub-transfer. -/
theorem cmdDone_done (h : x.done = false) : (x.cmdDone r l).done = false ↔ x.GoesOn r l := by
  unfold Xfer.cmdDone Xfer.GoesOn
  rw [if_neg r.resp_ne]
  by_cases hstop : x.actual = 0 ∧ (x.retry = false ∨ r.sdio = true)
  · rw [if_pos hstop]
    refine iff_of_false (finish_done x) fun ⟨hsdio, hmore, _⟩ => ?_
    obtain ⟨h0, hr⟩ := hstop
    rcases hmore with hne | hretry
    · exact hne h0
    · rcases hr with hr | hr
      · exact absurd (hretry.symm.trans hr) nofun
      · exact absurd (hsdio.symm.trans hr) nofun
  rw [if_neg hstop]
  dsimp only
  by_cases hsdio : r.sdio = true
  · rw [if_pos hsdio]
    exact iff_of_false (finish_done _) fun hx => absurd (hsdio.symm.trans hx.1) nofun
  have hfree : r.sdio = false := Bool.eq_false_of_not_eq_true hsdio
  have hmore : x.actual ≠ 0 ∨ x.retry = true := by
    by_contra hx
    obtain ⟨h1, h2⟩ := not_or.mp hx
    exact hstop ⟨not_not.mp h1, Or.inl (Bool.eq_false_of_not_eq_true h2)⟩
  rw [if_neg hsdio]
  by_cases hlt : x.actual < x.count
  · rw [if_pos hlt]
    refine (next_done ?_).trans ?_
    · exact h
    constructor
    · exact fun ⟨hl, hpos⟩ => ⟨hfree, hmore, hl, Or.inl ⟨hlt, hpos⟩⟩
    · rintro ⟨-, -, hl, ⟨-, hpos⟩ | ⟨hle, -⟩⟩
      · exact ⟨hl, hpos⟩
      · omega
  rw [if_neg hlt]
  by_cases hsg : x.sg < x.sgn
  · rw [if_pos hsg]
    refine (next_done ?_).trans ?_
    · exact h
    constructor
    · exact fun ⟨hl, hpos⟩ => ⟨hfree, hmore, hl, Or.inr ⟨Nat.le_of_not_lt hlt, hsg, hpos⟩⟩
    · rintro ⟨-, -, hl, ⟨hlt', -⟩ | ⟨-, -, hpos⟩⟩
      · exact absurd hlt' hlt
      · exact ⟨hl, hpos⟩
  · rw [if_neg hsg]
    refine iff_of_false (finish_done _) ?_
    rintro ⟨-, -, -, ⟨hlt', -⟩ | ⟨-, hsg', -⟩⟩
    · exact hlt hlt'
    · exact hsg hsg'

end cmdDone

/-! ## The steps -/

/-- Where the request stands. -/
structure Ordered (s : Sslsd) : Prop where
  req : s.req = none → s.outstanding = false ∧ s.armed = false ∧ s.timer = false
  armed : s.armed = true → s.outstanding = false
  flush : s.flushing = true → s.dat = false
  done : ∀ r, s.req = some (.data r) → s.xfer.done = false

section step

variable {s s' : Sslsd} {x : Xfer} {c : Completion}

/-- With no command in a slot, the request is done or goes on. -/
theorem Ordered.settle (ho : s.outstanding = false) (ha : s.armed = false) (hreq : s.req ≠ none) : Ordered (s.settle x) := by
  obtain ⟨hc, hd⟩ := Bool.or_eq_false_iff.mp ho
  unfold Sslsd.settle
  by_cases hx : x.done = true
  · rw [if_pos hx]
    exact ⟨fun _ => ⟨ho, ha, rfl⟩, fun _ => ho, fun _ => hd, nofun⟩
  · rw [if_neg hx]
    refine ⟨fun h => absurd h hreq, fun h => absurd (ha.symm.trans h) nofun, fun _ => hd, fun _ _ => ?_⟩
    exact Bool.eq_false_of_not_eq_true hx

/-- Outside of a flush, what the request goes on with is not watched. -/
theorem settle_watched (ho : s.outstanding = false) (hf : s.flushing = false) :
    Watched (s.settle x) ↔ ¬ x.done = false := by
  unfold Sslsd.settle
  by_cases hx : x.done = true
  · rw [if_pos hx]
    refine iff_of_true ⟨fun _ h => absurd (ho.symm.trans h) nofun, fun _ _ => rfl⟩ fun h => ?_
    exact absurd (hx.symm.trans h) nofun
  · rw [if_neg hx]
    refine iff_of_false (fun h => ?_) (not_not.mpr (Bool.eq_false_of_not_eq_true hx))
    exact absurd (h.pending hf (Bool.true_or _)) nofun

theorem settle_flushing : (s.settle x).flushing = s.flushing := by
  unfold Sslsd.settle
  split_ifs <;> rfl

theorem watched_of_flushing (hf : s.flushing = true) : Watched s :=
  ⟨fun h => absurd (hf.symm.trans h) nofun, fun h => absurd (hf.symm.trans h) nofun⟩

/-- The command is taken out of its slot, and the request is done or goes on. -/
theorem complete_eq (h : ∀ r, s.req = some (.data r) → s.xfer.done = false) (hs : s.complete c = some s') :
    ∃ x, s' = s.take.settle x ∧ s.req ≠ none ∧ (x.done = false ↔ s.GoesOn c.actual c.lines) := by
  unfold Sslsd.complete at hs
  unfold Sslsd.GoesOn
  cases hr : s.req with
  | none =>
    rw [hr] at hs
    cases hs
  | some q =>
    rw [hr] at hs
    cases q with
    | plain =>
      cases hs
      refine ⟨_, rfl, nofun, iff_of_false (finish_done _) ?_⟩
      rintro ⟨r, hq, -⟩
      cases hq
    | data r =>
      obtain ⟨x, hx, rfl⟩ := Option.map_eq_some_iff.mp hs
      unfold completion at hx
      rw [if_neg (by rw [h r hr]; exact Bool.false_ne_true)] at hx
      split_ifs at hx
      cases hx
      refine ⟨_, rfl, nofun, (cmdDone_done ?_).trans ?_⟩
      · exact h r hr
      · constructor
        · exact fun hx => ⟨r, rfl, hx⟩
        · rintro ⟨r', hq, hx⟩
          cases hq
          exact hx

/-- A command ends outside of a flush. -/
theorem complete_watched (h : Ordered s) (ha : s.armed = false) (hf : s.flushing = false) (hs : s.complete c = some s') :
    Ordered s' ∧ (Watched s' ↔ ¬ s.GoesOn c.actual c.lines) := by
  obtain ⟨x, rfl, hreq, hx⟩ := complete_eq h.done hs
  exact ⟨.settle rfl ha hreq, (settle_watched (s := s.take) rfl hf).trans (not_congr hx)⟩

theorem request_step (h : Ordered s) (hr : s.req = none) (q : Req) (inserted : Bool) :
    Ordered (s.request q inserted) ∧ (Watched s → Watched (s.request q inserted)) := by
  obtain ⟨ho, ha, ht⟩ := h.req hr
  unfold Sslsd.request
  by_cases href : Sslsd.Refused q inserted
  · rw [if_pos href]
    exact ⟨h, id⟩
  · rw [if_neg href]
    refine ⟨⟨nofun, fun _ => ho, h.flush, fun r hq => ?_⟩, fun _ => ⟨fun _ _ => rfl, fun _ => nofun⟩⟩
    cases hq
    rfl

/-- `sdhc_cmd` accepts the first command, or the request is done or goes on. -/
theorem issue_eq (h : Ordered s) {first again : Lines} (hs : s.issue first again = some s') :
    s.req ≠ none ∧
    (s.Accepts first → ∃ x, s' = { s with armed := false, cmd := true, xfer := x } ∧ x.done = s.xfer.done) ∧
    (¬ s.Accepts first → ∃ x, s' = ({ s with armed := false } : Sslsd).settle x ∧
      (x.done = false ↔ s.GoesOn (if first = .ready then 0 else s.xfer.actual) again)) := by
  unfold Sslsd.issue at hs
  unfold Sslsd.Accepts Sslsd.GoesOn
  cases hr : s.req with
  | none =>
    rw [hr] at hs
    cases hs
  | some q =>
    rw [hr] at hs
    cases q with
    | plain =>
      dsimp only at hs
      have hacc : first.answer 1 1 = .none ↔ first = .ready := by cases first <;> decide
      refine ⟨nofun, fun ha => ?_, fun ha => ?_⟩
      · rw [if_pos (hacc.mpr ha.1)] at hs
        cases hs
        exact ⟨s.xfer, rfl, rfl⟩
      · rw [if_neg fun hx => ha ⟨hacc.mp hx, nofun⟩] at hs
        cases hs
        refine ⟨_, rfl, iff_of_false (finish_done _) ?_⟩
        rintro ⟨r, hq, -⟩
        cases hq
    | data r =>
      dsimp only at hs
      have hacc : (s.xfer.issue r first).1 = .none ↔ first = .ready ∧ ∀ r', some (Req.data r) = some (.data r') → 0 < s.xfer.count :=
        answer_eq_none.trans (and_congr_right fun _ => ⟨fun hx _ _ => hx, fun hx => hx r rfl⟩)
      refine ⟨nofun, fun ha => ?_, fun ha => ?_⟩
      · rw [if_pos (hacc.mpr ha)] at hs
        cases hs
        exact ⟨_, rfl, rfl⟩
      · rw [if_neg fun hx => ha (hacc.mp hx)] at hs
        cases hs
        refine ⟨_, rfl, (cmdDone_done ?_).trans ?_⟩
        · exact h.done r hr
        constructor
        · exact fun hx => ⟨r, rfl, hx⟩
        · rintro ⟨r', hq, hx⟩
          cases hq
          exact hx

theorem issue_step (h : Ordered s) (ha : s.armed = true) {first again : Lines}
    (hs : s.issue first again = some s') : Ordered s' ∧ (Watched s' ↔ s.Settled (.issue first again)) := by
  have ho := h.armed ha
  obtain ⟨hreq, hyes, hno⟩ := issue_eq h hs
  by_cases hacc : s.Accepts first
  · obtain ⟨x, rfl, hx⟩ := hyes hacc
    refine ⟨⟨fun hr => absurd hr hreq, nofun, h.flush, fun r hr => hx.trans (h.done r hr)⟩, ?_⟩
    constructor
    · exact fun hw' hf => ⟨fun _ => hw'.pending hf (Bool.true_or _), fun hn => absurd hacc hn⟩
    · exact fun hset => ⟨fun hf _ => (hset hf).1 hacc, fun _ hr => absurd hr hreq⟩
  · obtain ⟨x, rfl, hx⟩ := hno hacc
    refine ⟨.settle ho rfl hreq, ?_⟩
    by_cases hf : s.flushing = true
    · exact iff_of_true (watched_of_flushing (settle_flushing.trans hf)) fun hx => absurd (hf.symm.trans hx) nofun
    · have hf' : s.flushing = false := Bool.eq_false_of_not_eq_true hf
      refine ((settle_watched (s := { s with armed := false }) ho hf').trans (not_congr hx)).trans ?_
      exact ⟨fun hgo _ => ⟨fun ha => absurd ha hacc, fun _ => hgo⟩, fun hset => (hset hf').2 hacc⟩

theorem Ordered.not_armed (h : Ordered s) (ho : s.outstanding = true) : s.armed = false := by
  by_contra hx
  exact absurd (ho.symm.trans (h.armed (Bool.eq_true_of_not_eq_false hx))) nofun

/-- The timer expires: from here on the interrupts are off. -/
theorem tout_step (h : Ordered s) (hs : s.step (.tout c) = some s') : Ordered s' ∧ Watched s' := by
  unfold Sslsd.step at hs
  dsimp only at hs
  split_ifs at hs with ht hd
  · -- what is in the data slot ends
    have ha : s.armed = false := h.not_armed (by unfold Sslsd.outstanding; rw [hd, Bool.or_true])
    obtain ⟨x, rfl, hreq, -⟩ := complete_eq (s := { s with timer := false, flushing := true }) h.done hs
    exact ⟨.settle rfl ha hreq, watched_of_flushing settle_flushing⟩
  · cases hs
    refine ⟨⟨fun hr => ⟨(h.req hr).1, (h.req hr).2.1, rfl⟩, h.armed, fun _ => Bool.eq_false_of_not_eq_true hd, h.done⟩, ?_⟩
    exact watched_of_flushing rfl

theorem flushCmd_step (h : Ordered s) (hs : s.step (.flushCmd c) = some s') :
    Ordered s' ∧ (Watched s' ↔ s.Settled (.flushCmd c)) := by
  unfold Sslsd.step at hs
  dsimp only at hs
  split_ifs at hs with hf hc
  · have ha : s.armed = false := h.not_armed (by unfold Sslsd.outstanding; rw [hc, Bool.true_or])
    obtain ⟨x, rfl, hreq, hx⟩ := complete_eq (s := { s with flushing := false }) h.done hs
    refine ⟨.settle rfl ha hreq, ?_⟩
    refine (settle_watched (s := ({ s with flushing := false } : Sslsd).take) rfl rfl).trans ((not_congr hx).trans ?_)
    exact ⟨fun hgo _ => hgo, fun hset => hset hc⟩
  · -- nothing is left in the slots
    cases hs
    have ho : s.outstanding = false := Bool.or_eq_false_iff.mpr ⟨Bool.eq_false_of_not_eq_true hc, h.flush hf⟩
    refine ⟨⟨h.req, h.armed, nofun, h.done⟩, iff_of_true ⟨fun _ hx => absurd (ho.symm.trans hx) nofun, fun _ hr => ?_⟩ ?_⟩
    · exact (h.req hr).2.2
    · exact fun hx => absurd hx hc

theorem respond_step (h : Ordered s) (hs : s.step .respond = some s') : Ordered s' ∧ (Watched s → Watched s') := by
  unfold Sslsd.step at hs
  dsimp only at hs
  split_ifs at hs with hc
  obtain ⟨hc, hf⟩ := (Bool.and_eq_true_iff).mp hc
  have hf' : s.flushing = false := by simpa using hf
  have ho : s.outstanding = true := by
    unfold Sslsd.outstanding
    rw [hc, Bool.true_or]
  cases hs
  refine ⟨⟨fun hr => ?_, fun ha => ?_, fun hx => absurd (hf'.symm.trans hx) nofun, h.done⟩,
    fun hw => ⟨fun _ _ => hw.pending hf' ho, fun _ hr => (h.req hr).2.2⟩⟩
  · exact absurd (ho.symm.trans (h.req hr).1) nofun
  · exact absurd ((h.not_armed ho).symm.trans ha) nofun

/-- Every step keeps the order, and of those in watched states exactly the settled ones lead to watched states. -/
theorem Ordered.step_iff {a : SslAction} (h : Ordered s) (hs : s.step a = some s') :
    Ordered s' ∧ (Watched s → (Watched s' ↔ s.Settled a)) := by
  cases a with
  | request q inserted =>
    unfold Sslsd.step at hs
    dsimp only at hs
    split_ifs at hs with hr
    cases hs
    obtain ⟨h1, h2⟩ := request_step h (Option.isNone_iff_eq_none.mp hr) q inserted
    exact ⟨h1, fun hw => iff_of_true (h2 hw) trivial⟩
  | issue first again =>
    unfold Sslsd.step at hs
    dsimp only at hs
    split_ifs at hs with ha
    obtain ⟨h1, h2⟩ := issue_step h ha hs
    exact ⟨h1, fun _ => h2⟩
  | respond =>
    obtain ⟨h1, h2⟩ := respond_step h hs
    exact ⟨h1, fun hw => iff_of_true (h2 hw) trivial⟩
  | complete c =>
    unfold Sslsd.step at hs
    dsimp only at hs
    split_ifs at hs with hc
    obtain ⟨ho, hf⟩ := (Bool.and_eq_true_iff).mp hc
    obtain ⟨h1, h2⟩ := complete_watched h (h.not_armed ho) (by simpa using hf) hs
    exact ⟨h1, fun _ => h2⟩
  | tout c =>
    obtain ⟨h1, h2⟩ := tout_step h hs
    exact ⟨h1, fun _ => iff_of_true h2 trivial⟩
  | flushCmd c =>
    obtain ⟨h1, h2⟩ := flushCmd_step h hs
    exact ⟨h1, fun _ => h2⟩

theorem settle_xfer : (s.settle x).xfer = x := by
  unfold Sslsd.settle
  split_ifs <;> rfl

/-- `sslsd_request` from the first command on. -/
theorem sslsdRequest_eq {r : DataReq} (hr : r.stream = false) (first again : Lines) (stale : Nat) (x : Ret × Xfer)
    (hx : x = (⟨r.arg, .none, r.mapCount 0 0, stale, 0, r.sg.length - 1, 0, true, 0, none, false, []⟩ : Xfer).issue r first) :
    sslsdRequest r ⟨true, first, again, stale⟩ = if x.1 = .none then x.2 else x.2.cmdDone r again := by
  unfold sslsdRequest
  dsimp only
  rw [if_neg (by decide), if_neg (by rw [hr]; decide), ← hx]
  obtain ⟨rt, x⟩ := x
  by_cases hrt : rt = .none
  · rw [hrt]
    rfl
  · rw [if_neg hrt]
    split
    next he => exact absurd (Prod.mk.inj he).1 hrt
    next he => rw [(Prod.mk.inj he).2]

/-- The two parts of `sslsd_request` make of a request with data what the whole makes of it. -/
theorem request_issue {s t u : Sslsd} {r : DataReq} {first again : Lines} (hr : r.stream = false)
    (ht : s.step (.request (.data r) true) = some t) (hu : t.step (.issue first again) = some u) :
    u.xfer = sslsdRequest r ⟨true, first, again, s.xfer.actual⟩ := by
  unfold Sslsd.step at ht
  dsimp only at ht
  split_ifs at ht with hnone
  cases ht
  have hok : ¬ Sslsd.Refused (.data r) true := by
    rintro (h | ⟨r', hq, h⟩)
    · cases h
    · cases hq
      exact absurd (hr.symm.trans h) nofun
  unfold Sslsd.request at hu
  rw [if_neg hok] at hu
  unfold Sslsd.step Sslsd.issue at hu
  dsimp only at hu
  rw [if_pos rfl] at hu
  cases hu
  rw [sslsdRequest_eq hr first again s.xfer.actual ((Sslsd.start s.xfer (.data r)).issue r first) rfl]
  split_ifs
  · rfl
  · exact settle_xfer

end step

/-! ## Runs -/

theorem Ordered.idle (x : Xfer) : Ordered (.idle x) := ⟨fun _ => ⟨rfl, rfl, rfl⟩, nofun, nofun, nofun⟩

theorem Watched.idle (x : Xfer) : Watched (.idle x) := ⟨fun _ => nofun, fun _ _ => rfl⟩

/-- In the runs under any guard an outstanding command is always watched by the timer, and the timer runs only for a request, exactly when in all
their steps no command that ends is followed by another sub-transfer, and no timer expires before `sdhc_cmd`. -/
theorem watched_iff (x : Xfer) (ok : Sslsd → SslAction → Prop) :
    (∀ s, Run Sslsd.step ok (.idle x) s → Watched s) ↔
      ∀ s a s', Run Sslsd.step ok (.idle x) s → ok s a → s.step a = some s' → s.Settled a :=
  Run.invariant_iff_of (Ordered.idle x) (Watched.idle x) Ordered.step_iff

/-! ## Sub-transfers without a timer -/

/-- A host after its last request. -/
def noXfer : Xfer := ⟨0, .none, 0, 0, 0, 0, 0, false, 0, none, true, []⟩

/-- The first entry of a list is done, and the command for the second one is outstanding without a timer. -/
theorem second_unwatched : ∃ s, Run Sslsd.step free (.idle noXfer) s ∧ s.outstanding = true ∧ s.timer = false ∧
    s.flushing = false ∧ ¬ Watched s := by
  have h : Run Sslsd.step free (.idle noXfer) _ :=
    .of_isSome [.request (.data threeBlocks) true, .issue .ready .ready, .respond, .complete ⟨1, .none, .ready⟩] (by decide +kernel)
  refine ⟨_, h, by decide +kernel, by decide +kernel, by decide +kernel, fun hw => ?_⟩
  exact absurd (hw.pending (by decide +kernel) (by decide +kernel)) (by decide +kernel)

end Emlinux.Sdhc
