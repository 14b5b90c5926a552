import Emlinux.Sdhc.Command

/-!
# Scatter-gather transfers

The controller moves one contiguous buffer per command, so `ssl_sd.c` breaks a request into sub-transfers: one for each entry
of the scatter list, and a further one for the rest of an entry whenever a sub-transfer ends early. The
continuation is in `sslsd_cmd_done`; it advances the card address, the entry, the offset in it and the count from
the progress that the sub-transfer reports, and allows one completion without progress (`retry`).

The answers of the controller are inputs: whether `sdhc_cmd` finds the card and the lines ready, and for each sub-transfer
any progress up to its count with any result. `moved` is the record of the blocks that the sub-transfers moved,
each with its offset in the concatenated scatter list and its address on the card.
-/

namespace Emlinux.Sdhc

open Lib

/-- The error codes of `cmd->error`. -/
inductive Errno where
  | timedout
  | ilseq
  | nomedium
  | io
  | inval
  | nomem
deriving DecidableEq, Repr

/-- `mmc_resp_type`. -/
inductive RespType where
  | none
  | r1
  | r1b
  | r2
  | r3
deriving DecidableEq, Repr

/-- A request with data, as `mmc_start_request` lets it through, and the card it is for. The scatter list is given by the lengths of its
entries. No command with an R2 response has data. -/
structure DataReq where
  resp : RespType
  arg : BitVec 32
  stream : Bool
  blksz : Nat
  blocks : Nat
  sg : List Nat
  sdio : Bool
  blkadr : Bool
  resp_ne : resp ≠ .r2
  blksz_pos : 0 < blksz
  blksz_le : blksz ≤ 4096
  blocks_le : blocks ≤ 65535
  sg_ne : sg ≠ []
  sg_dvd : ∀ l ∈ sg, blksz ∣ l
  sg_sum : sg.sum = blocks * blksz

/-- The progress of a request: `tcmd`, `tdat` and the fields `sg`, `sgn`, `sgofs` and `retry` of the host, and
of the request `bytes_xfered`, `error` and whether `mmc_request_done` was called. -/
structure Xfer where
  arg : BitVec 32
  rt : Ret
  count : Nat
  actual : Nat
  sg : Nat
  sgn : Nat
  sgofs : Nat
  retry : Bool
  bytesXfered : Nat
  error : Option Errno
  done : Bool
  moved : List (Nat × BitVec 32)
deriving DecidableEq

/-- How `sdhc_cmd` finds the card and the lines. -/
inductive Lines where
  | ready
  | removed
  | busy
deriving DecidableEq, Repr

/-- What `sdhc_cmd` returns for a command with data. -/
def Lines.answer (l : Lines) (count blk : Nat) : Ret :=
  match l with
  | .removed => .rem
  | .busy => .busy
  | .ready => if count = 0 ∨ blk = 0 then .parm else .none

theorem Lines.answer_none {l : Lines} {count blk : Nat} (h : l.answer count blk = .none) : 0 < count := by
  unfold Lines.answer at h
  cases l with
  | ready =>
    split_ifs at h with hc
    omega
  | removed => cases h
  | busy => cases h

/-- The lines as a host and an attempt have them. -/
def Host.lines (s : Host) (q : Request) : Lines :=
  if !s.fins then .removed else if q.busy (inhibitMask q) then .busy else .ready

theorem Host.sdhcCmd_answer (s : Host) (q : Request) (h : q.flag &&& fDat ≠ 0) :
    (s.sdhcCmd q).1 = (s.lines q).answer q.count q.blk := by
  unfold Host.sdhcCmd Host.lines
  split_ifs with h₁ h₂ h₃
  · simp [Lines.answer]
  · simp [Lines.answer]
  · simp [Lines.answer, h₃.2]
  · have : ¬(q.count = 0 ∨ q.blk = 0) := fun hc => h₃ ⟨h, hc⟩
    simp [Lines.answer, this]

namespace DataReq

variable (r : DataReq)

/-- The length of an entry. -/
def entry (i : Nat) : Nat := r.sg.getD i 0

/-- The bytes of the entries before `i`. -/
def before (i : Nat) : Nat := (r.sg.take i).sum

/-- How far `c->arg` goes for `n` blocks. -/
def stride (n : Nat) : BitVec 32 := BitVec.ofNat 32 (if r.blkadr then n else n * r.blksz)

/-- The place of a block: its offset in the scatter list, and its address on the card. -/
def place (k : Nat) : Nat × BitVec 32 := (k * r.blksz, r.arg + r.stride k)

/-- The count of `sslsd_map`, an `uint16_t`. -/
def mapCount (i ofs : Nat) : Nat := (r.entry i - ofs) / r.blksz % 2 ^ 16

end DataReq

/-- The error for a result. -/
def errnoOf : Ret → Option Errno
  | .none => none
  | .tout | .cmdTout | .datTout => some .timedout
  | .datLine | .cmdLine => some .ilseq
  | .rem => some .nomedium
  | .parm | .busy | .abort | .datOvr => some .io

namespace Xfer

variable (r : DataReq) (s : Xfer)

/-- The end of `sslsd_cmd_done`. -/
def finish : Xfer := { s with error := if s.rt = .none then s.error else errnoOf s.rt, done := true }

/-- `sdhc_cmd`. Only when it gets as far as the data does it clear the progress. -/
def issue (l : Lines) : Ret × Xfer :=
  let rt := l.answer s.count r.blksz
  (rt, { s with rt := rt, actual := if l = .ready then 0 else s.actual })

/-- `l_next`: the next sub-transfer starts where the last one stopped. -/
def next (l : Lines) : Xfer :=
  let s := { s with arg := s.arg + r.stride s.actual, count := r.mapCount s.sg s.sgofs }
  match s.issue r l with
  | (.none, s) => s
  | (_, s) => s.finish

/-- `sslsd_cmd_done`. -/
def cmdDone (l : Lines) : Xfer :=
  if r.resp = .r2 then s.finish
  else if s.actual = 0 ∧ (s.retry = false ∨ r.sdio) then s.finish
  else
    let len := s.actual * r.blksz
    -- errors are ignored as long as there is progress
    let s := { s with retry := s.retry && s.actual != 0, rt := .none, bytesXfered := s.bytesXfered + len }
    if r.sdio then s.finish
    else if s.actual < s.count then { s with sgofs := s.sgofs + len }.next r l
    else if s.sg < s.sgn then { s with sg := s.sg + 1, retry := true, sgofs := 0 }.next r l
    else s.finish

end Xfer

/-- The state of the host when a request comes: whether the card is in, what `sdhc_cmd` answers, what it answers once more if
`sslsd_cmd_done` tries again, and the progress that the last transfer left in `tdat`. -/
structure Entry where
  inserted : Bool
  first : Lines
  again : Lines
  stale : Nat

/-- `sslsd_request`. `dma_map_sg` maps every entry. -/
def sslsdRequest (r : DataReq) (e : Entry) : Xfer :=
  let s : Xfer := ⟨r.arg, .none, 0, e.stale, 0, r.sg.length - 1, 0, true, 0, none, false, []⟩
  if !e.inserted then { s with error := some .nomedium, done := true }
  else if r.stream then { s with error := some .inval, done := true }
  else
    let s := { s with count := r.mapCount 0 0 }
    match s.issue r e.first with
    | (.none, s) => s
    | (_, s) => s.cmdDone r e.again

/-- The end of a sub-transfer, and how the lines are when the next one is issued. -/
structure Completion where
  actual : Nat
  rt : Ret
  lines : Lines

/-- The blocks of the sub-transfer that is under way. -/
def Xfer.blocks (r : DataReq) (s : Xfer) (n : Nat) : List (Nat × BitVec 32) :=
  (List.range n).map fun j => (r.before s.sg + s.sgofs + j * r.blksz, s.arg + r.stride j)

/-- A sub-transfer ends: its first `actual` blocks are moved, and `sslsd_cmd_done` is called. -/
def completion (r : DataReq) (s : Xfer) (c : Completion) : Option Xfer :=
  if s.done then none
  else if c.actual ≤ s.count then
    some ({ s with actual := c.actual, rt := c.rt, moved := s.moved ++ s.blocks r c.actual }.cmdDone r c.lines)
  else none

/-! ## Where a request stands -/

namespace DataReq

variable {r : DataReq}

theorem entry_eq {i : Nat} (hi : i < r.sg.length) : r.entry i = r.sg[i] := by
  unfold entry
  simp [hi]

theorem before_succ {i : Nat} (hi : i < r.sg.length) : r.before (i + 1) = r.before i + r.entry i := by
  unfold before
  rw [List.sum_take_succ _ _ hi, entry_eq hi]

theorem before_length : r.before r.sg.length = r.blocks * r.blksz := by
  unfold before
  rw [List.take_length, r.sg_sum]

theorem before_mono {i j : Nat} (h : i ≤ j) : r.before i ≤ r.before j := by
  unfold before
  exact (List.take_sublist_take_left h).sum_le_sum fun _ _ => Nat.zero_le _

/-- The entries up to one make at most the whole request. -/
theorem before_add_entry_le {i : Nat} (hi : i < r.sg.length) : r.before i + r.entry i ≤ r.blocks * r.blksz := by
  rw [← before_succ hi, ← before_length]
  exact before_mono hi

theorem entry_dvd {i : Nat} (hi : i < r.sg.length) : r.blksz ∣ r.entry i := by
  rw [entry_eq hi]
  exact r.sg_dvd _ (List.getElem_mem hi)

theorem before_dvd (i : Nat) : r.blksz ∣ r.before i := by
  unfold before
  apply List.dvd_sum
  intro l hl
  exact r.sg_dvd l (List.mem_of_mem_take hl)

/-- `sslsd_map` covers the rest of the entry: the count does not wrap. -/
theorem mapCount_spec {i ofs : Nat} (hi : i < r.sg.length) (hd : r.blksz ∣ ofs) (hle : ofs ≤ r.entry i) :
    ofs + r.mapCount i ofs * r.blksz = r.entry i := by
  obtain ⟨n, hn⟩ := Nat.dvd_sub (entry_dvd hi) hd
  have hle' : r.blksz * n ≤ r.blocks * r.blksz := by
    have := before_add_entry_le hi
    omega
  have hnb : n ≤ r.blocks := by
    rw [Nat.mul_comm] at hle'
    exact Nat.le_of_mul_le_mul_right hle' r.blksz_pos
  have hcnt : r.mapCount i ofs = n := by
    unfold mapCount
    rw [hn, Nat.mul_div_cancel_left _ r.blksz_pos]
    apply Nat.mod_eq_of_lt
    have := r.blocks_le
    omega
  rw [hcnt, Nat.mul_comm]
  omega

theorem stride_add (m j : Nat) : r.stride m + r.stride j = r.stride (m + j) := by
  unfold stride
  split_ifs
  · exact (BitVec.ofNat_add m j).symm
  · rw [Nat.add_mul]
    exact (BitVec.ofNat_add _ _).symm

@[simp] theorem stride_zero : r.stride 0 = 0 := by
  unfold stride
  simp

theorem map_place_range_add (m a : Nat) :
    (List.range (m + a)).map r.place = (List.range m).map r.place ++ (List.range a).map fun j => r.place (m + j) := by
  rw [List.range_add, List.map_append, List.map_map]
  rfl

end DataReq

/-- `m` blocks are behind the request, and `sslsd_map` has taken the rest of an entry. -/
structure At (r : DataReq) (m : Nat) (s : Xfer) : Prop where
  error : s.error = none
  sg : s.sg < r.sg.length
  sgn : s.sgn = r.sg.length - 1
  pos : r.before s.sg + s.sgofs = m * r.blksz
  count : s.sgofs + s.count * r.blksz = r.entry s.sg
  arg : s.arg = r.arg + r.stride m
  bytes : s.bytesXfered = m * r.blksz

/-- A sub-transfer is under way after `m` blocks. -/
structure Going (r : DataReq) (m : Nat) (s : Xfer) : Prop extends At r m s where
  done : s.done = false
  moved : s.moved = (List.range m).map r.place
  count_pos : 0 < s.count

/-- The request is finished after a prefix of its blocks, and without an error after all of them. -/
structure Ended (r : DataReq) (s : Xfer) : Prop where
  done : s.done = true
  moved : ∃ m ≤ r.blocks, s.moved = (List.range m).map r.place ∧ s.bytesXfered = m * r.blksz ∧
    (s.error = none → m = r.blocks)

/-- What is left of a request: the blocks twice, and the retry. -/
def left (r : DataReq) (m : Nat) (s : Xfer) : Nat := 2 * (r.blocks - m) + s.retry.toNat

theorem left_le (r : DataReq) (m : Nat) (s : Xfer) : left r m s ≤ 2 * (r.blocks - m) + 1 :=
  Nat.add_le_add_left (Bool.toNat_le _) _

theorem At.add_count_le {r : DataReq} {m : Nat} {s : Xfer} (h : At r m s) : m + s.count ≤ r.blocks := by
  have hle := DataReq.before_add_entry_le h.sg
  rw [← h.count, ← Nat.add_assoc, h.pos, ← Nat.add_mul] at hle
  exact Nat.le_of_mul_le_mul_right hle r.blksz_pos

/-- The blocks that a sub-transfer moves are the next ones of the request. -/
theorem At.blocks_eq {r : DataReq} {m : Nat} {s : Xfer} (h : At r m s) (a : Nat) :
    s.blocks r a = (List.range a).map fun j => r.place (m + j) := by
  unfold Xfer.blocks
  apply List.map_congr_left
  intro j _
  unfold DataReq.place
  rw [h.pos, h.arg, BitVec.add_assoc, DataReq.stride_add, Nat.add_mul]

/-! ## One completion -/

theorem Xfer.finish_error {s : Xfer} (h : s.error = none) : s.finish.error = errnoOf s.rt := by
  unfold Xfer.finish
  split
  · next hr => rw [hr, h]; rfl
  · rfl

theorem errnoOf_eq_none {rt : Ret} : errnoOf rt = none ↔ rt = .none := by cases rt <;> simp [errnoOf]

/-- A request that ends after `m` blocks ends well when it has an error or is complete. -/
theorem ended_finish {r : DataReq} {m : Nat} {s : Xfer} (he : s.error = none) (hm : m ≤ r.blocks)
    (hv : s.moved = (List.range m).map r.place) (hb : s.bytesXfered = m * r.blksz)
    (hc : s.rt = .none → m = r.blocks) : Ended r s.finish := by
  refine ⟨rfl, m, hm, hv, hb, ?_⟩
  intro hn
  rw [Xfer.finish_error he] at hn
  exact hc (errnoOf_eq_none.1 hn)

/-- The next sub-transfer after `m'` blocks. -/
theorem next_spec {r : DataReq} {m : Nat} {s : Xfer} (l : Lines) (he : s.error = none) (hd : s.done = false)
    (hsg : s.sg < r.sg.length) (hsgn : s.sgn = r.sg.length - 1)
    (hpos : r.before s.sg + s.sgofs = (m + s.actual) * r.blksz) (hle : s.sgofs ≤ r.entry s.sg)
    (harg : s.arg = r.arg + r.stride m) (hb : s.bytesXfered = (m + s.actual) * r.blksz)
    (hv : s.moved = (List.range (m + s.actual)).map r.place) :
    Ended r (s.next r l) ∨ (Going r (m + s.actual) (s.next r l) ∧ (s.next r l).retry = s.retry) := by
  have hdvd : r.blksz ∣ s.sgofs := by
    apply (Nat.dvd_add_right (DataReq.before_dvd s.sg)).1
    rw [hpos]
    exact Nat.dvd_mul_left _ _
  have hcnt := DataReq.mapCount_spec hsg hdvd hle
  have hmb : m + s.actual ≤ r.blocks := by
    have := DataReq.before_add_entry_le hsg
    apply Nat.le_of_mul_le_mul_right _ r.blksz_pos
    omega
  unfold Xfer.next Xfer.issue
  cases ha : l.answer (r.mapCount s.sg s.sgofs) r.blksz with
  | none =>
    right
    have hpos' := Lines.answer_none ha
    simp only [ha]
    refine ⟨⟨⟨he, hsg, hsgn, hpos, hcnt, ?_, hb⟩, hd, hv, hpos'⟩, trivial⟩
    rw [harg, BitVec.add_assoc, DataReq.stride_add]
  | _ =>
    left
    simp only [ha]
    exact ended_finish he hmb hv hb (by simp)

/-- `sslsd_cmd_done` after a sub-transfer that moved `actual` blocks: the request is finished, or the next sub-transfer is under
way and less is left. -/
theorem cmdDone_spec {r : DataReq} {m : Nat} {s : Xfer} (hr : r.sdio = false) (l : Lines) (h : At r m s)
    (hd : s.done = false) (ha : s.actual ≤ s.count) (hv : s.moved = (List.range (m + s.actual)).map r.place)
    (hs : ¬(s.retry = false ∧ s.actual = 0 ∧ s.rt = .none)) :
    Ended r (s.cmdDone r l) ∨
      ∃ m', Going r m' (s.cmdDone r l) ∧ left r m' (s.cmdDone r l) ≤ left r m s ∧
        (0 < s.count → left r m' (s.cmdDone r l) < left r m s) := by
  have hmc := h.add_count_le
  have hlen : s.sgofs + s.actual * r.blksz ≤ r.entry s.sg := by
    rw [← h.count]
    exact Nat.add_le_add_left (Nat.mul_le_mul_right _ ha) _
  have hbytes : s.bytesXfered + s.actual * r.blksz = (m + s.actual) * r.blksz := by rw [h.bytes, Nat.add_mul]
  unfold Xfer.cmdDone
  rw [if_neg r.resp_ne]
  split
  · -- no progress, and no retry left
    next hz =>
    obtain ⟨hz, hf | hf⟩ := hz
    · left
      rw [hz, Nat.add_zero] at hv
      exact ended_finish h.error (by omega) hv h.bytes fun hrt => absurd ⟨hf, hz, hrt⟩ hs
    · rw [hr] at hf
      cases hf
  · next hz =>
    have hretry : s.actual = 0 → s.retry = true := by
      intro h0
      by_contra hn
      exact hz ⟨h0, .inl (by simpa using hn)⟩
    simp only [hr]
    split
    · next hf => cases hf
    · split
      · -- the rest of the entry
        next hlt =>
        obtain hE | ⟨hG, hret⟩ := next_spec (r := r) (m := m) (s := { s with
            retry := s.retry && s.actual != 0, rt := .none, bytesXfered := s.bytesXfered + s.actual * r.blksz,
            sgofs := s.sgofs + s.actual * r.blksz }) l h.error hd h.sg h.sgn
            (by rw [← Nat.add_assoc, h.pos, Nat.add_mul]) hlen h.arg hbytes hv
        · exact .inl hE
        · right
          refine ⟨_, hG, ?_⟩
          unfold left
          rw [hret]
          have hlt' : 2 * (r.blocks - (m + s.actual)) + (s.retry && s.actual != 0).toNat <
              2 * (r.blocks - m) + s.retry.toNat := by
            by_cases h0 : s.actual = 0
            · simp [h0, hretry h0]
            · have h1 : (s.actual != 0) = true := by simpa using h0
              rw [h1, Bool.and_true]
              omega
          exact ⟨hlt'.le, fun _ => hlt'⟩
      · next hlt =>
        have hac : s.actual = s.count := by omega
        have hfull : r.before (s.sg + 1) = (m + s.actual) * r.blksz := by
          rw [DataReq.before_succ h.sg, ← h.count, ← Nat.add_assoc, h.pos, ← Nat.add_mul, hac]
        split
        · -- the next entry
          next hsg =>
          have hsg' : s.sg < s.sgn := hsg
          rw [h.sgn] at hsg'
          obtain hE | ⟨hG, hret⟩ := next_spec (r := r) (m := m) (s := { s with
              retry := true, rt := .none, bytesXfered := s.bytesXfered + s.actual * r.blksz,
              sg := s.sg + 1, sgofs := 0 }) l h.error hd (show s.sg + 1 < r.sg.length by omega) h.sgn
              hfull (Nat.zero_le _) h.arg hbytes hv
          · exact .inl hE
          · right
            refine ⟨m + s.actual, hG, ?_⟩
            refine ⟨(left_le _ _ _).trans ?_, fun hp => lt_of_le_of_lt (left_le _ _ _) ?_⟩
            · unfold left
              by_cases h0 : s.actual = 0
              · simp [h0, hretry h0]
              · omega
            · unfold left
              omega
        · -- the last entry is complete
          next hsg =>
          have hsg' : ¬s.sg < s.sgn := hsg
          rw [h.sgn] at hsg'
          have hlast : s.sg + 1 = r.sg.length := by
            have := h.sg
            omega
          left
          rw [hlast, DataReq.before_length] at hfull
          have hall := Nat.eq_of_mul_eq_mul_right r.blksz_pos hfull
          apply ended_finish (m := m + s.actual)
          · exact h.error
          · exact hall.ge
          · exact hv
          · exact hbytes
          · exact fun _ => hall.symm

/-! ## Whole requests -/

/-- A completion without progress and without an error does not come when the retry is used up. -/
def Sound (s : Xfer) (c : Completion) : Prop := ¬(s.retry = false ∧ c.actual = 0 ∧ c.rt = .none)

instance (s : Xfer) (c : Completion) : Decidable (Sound s c) := inferInstanceAs (Decidable (¬_))

/-- The first command reaches the data, or the last transfer left no progress behind. -/
def Entry.Fresh (e : Entry) : Prop := e.first = .ready ∨ e.stale = 0

theorem completion_spec {r : DataReq} {m : Nat} {s t : Xfer} {c : Completion} (hr : r.sdio = false) (h : Going r m s)
    (hs : Sound s c) (ht : completion r s c = some t) :
    Ended r t ∨ ∃ m', Going r m' t ∧ left r m' t < left r m s := by
  unfold completion at ht
  split_ifs at ht with hf ha
  · cases ht
    have hv : s.moved ++ s.blocks r c.actual = (List.range (m + c.actual)).map r.place := by
      rw [h.moved, h.blocks_eq, DataReq.map_place_range_add]
    obtain hE | ⟨m', hG, -, hl⟩ := cmdDone_spec (r := r) (m := m) (s := { s with
        actual := c.actual, rt := c.rt, moved := s.moved ++ s.blocks r c.actual }) hr c.lines
        ⟨h.error, h.sg, h.sgn, h.pos, h.count, h.arg, h.bytes⟩ h.done ha hv hs
    · exact .inl hE
    · exact .inr ⟨m', hG, hl h.count_pos⟩

/-- A new request: it is finished at once, or its first sub-transfer is under way. -/
theorem sslsdRequest_spec {r : DataReq} (hr : r.sdio = false) {e : Entry} (he : e.Fresh) :
    Ended r (sslsdRequest r e) ∨
      ∃ m, Going r m (sslsdRequest r e) ∧ left r m (sslsdRequest r e) ≤ 2 * r.blocks + 1 := by
  have hsg : 0 < r.sg.length := List.length_pos_iff.2 r.sg_ne
  have hcnt := DataReq.mapCount_spec hsg (Nat.dvd_zero _) (Nat.zero_le _)
  have hAt : ∀ a rt, At r 0 ⟨r.arg, rt, r.mapCount 0 0, a, 0, r.sg.length - 1, 0, true, 0, none, false, []⟩ := by
    intro a rt
    refine ⟨rfl, hsg, rfl, ?_, hcnt, ?_, (Nat.zero_mul _).symm⟩
    · simp [DataReq.before]
    · simp
  unfold sslsdRequest
  split
  · exact .inl ⟨rfl, 0, Nat.zero_le _, rfl, (Nat.zero_mul _).symm, by simp⟩
  · split
    · exact .inl ⟨rfl, 0, Nat.zero_le _, rfl, (Nat.zero_mul _).symm, by simp⟩
    · have hact : (if e.first = .ready then 0 else e.stale) = 0 := by
        split_ifs with hf
        · rfl
        · exact he.resolve_left hf
      simp only [Xfer.issue, hact]
      split
      · next s' heq =>
        obtain ⟨hrt, rfl⟩ := Prod.mk.inj heq
        right
        have hpos := Lines.answer_none hrt
        exact ⟨0, ⟨hAt _ _, rfl, rfl, hpos⟩, left_le _ _ _⟩
      · next rt s' hne heq =>
        cases heq
        obtain hE | ⟨m, hG, hl, -⟩ := cmdDone_spec hr e.again (hAt 0 _) rfl (Nat.zero_le _) rfl (by simp)
        · exact .inl hE
        · exact .inr ⟨m, hG, hl.trans (left_le _ _ _)⟩

/-- Nothing follows the end. -/
theorem play_ended {r : DataReq} {s t : Xfer} (h : Ended r s) {l : List Completion}
    (ht : play (guarded (completion r) Sound) s l = some t) : l = [] ∧ t = s := by
  refine play_stuck (fun c => ?_) ht
  unfold guarded completion
  simp [h.done]

/-- From a sub-transfer that is under way to any state that the completions reach. -/
theorem play_completion {r : DataReq} (hr : r.sdio = false) (l : List Completion) :
    ∀ {m : Nat} {s t : Xfer}, Going r m s → play (guarded (completion r) Sound) s l = some t →
      (Ended r t ∧ l.length < left r m s) ∨ ∃ m', Going r m' t ∧ l.length + left r m' t ≤ left r m s := by
  induction l with
  | nil =>
    intro m s t h ht
    cases ht
    exact .inr ⟨m, h, by simp⟩
  | cons c l ih =>
    intro m s t h ht
    unfold play at ht
    split at ht
    · next u hu =>
      unfold guarded at hu
      split_ifs at hu with hs
      obtain hE | ⟨m', hG, hl⟩ := completion_spec hr h hs hu
      · obtain ⟨rfl, rfl⟩ := play_ended hE ht
        left
        refine ⟨hE, ?_⟩
        have : m < r.blocks := by
          have := h.add_count_le
          have := h.count_pos
          omega
        unfold left
        rw [List.length_singleton]
        omega
      · obtain ⟨hE, hlt⟩ | ⟨m'', hG', hlt⟩ := ih hG ht
        · left
          refine ⟨hE, ?_⟩
          rw [List.length_cons]
          omega
        · right
          refine ⟨m'', hG', ?_⟩
          rw [List.length_cons]
          omega
    · cases ht

/-- A request for a card that is not SDIO, and any completions of its sub-transfers. There are at most two for each block. When the
request is finished without an error, its blocks were moved one after the other, each between its place in the scatter list and
its address on the card; when it is finished with an error, `bytes_xfered` is the length of the prefix that was moved. -/
theorem scatter_blocks_moved (r : DataReq) (hr : r.sdio = false) (e : Entry) (he : e.Fresh) (l : List Completion) (t : Xfer)
    (ht : play (guarded (completion r) Sound) (sslsdRequest r e) l = some t) :
    l.length ≤ 2 * r.blocks ∧
    (t.done = true → t.error = none →
      t.bytesXfered = r.blocks * r.blksz ∧ t.moved = (List.range r.blocks).map r.place) ∧
    (t.done = true → t.error ≠ none →
      ∃ m ≤ r.blocks, t.moved = (List.range m).map r.place ∧ t.bytesXfered = m * r.blksz) ∧
    (t.done = false → ∀ c, c.actual ≤ t.count → ∃ u, completion r t c = some u) := by
  have hend : Ended r t →
      (t.done = true → t.error = none →
        t.bytesXfered = r.blocks * r.blksz ∧ t.moved = (List.range r.blocks).map r.place) ∧
      (t.done = true → t.error ≠ none →
        ∃ m ≤ r.blocks, t.moved = (List.range m).map r.place ∧ t.bytesXfered = m * r.blksz) ∧
      (t.done = false → ∀ c, c.actual ≤ t.count → ∃ u, completion r t c = some u) := by
    rintro ⟨hd, m, hm, hv, hb, hc⟩
    refine ⟨fun _ hn => ?_, fun _ _ => ⟨m, hm, hv, hb⟩, fun hf => ?_⟩
    · obtain rfl := hc hn
      exact ⟨hb, hv⟩
    · rw [hd] at hf
      cases hf
  obtain hE | ⟨m, hG, hl⟩ := sslsdRequest_spec hr he
  · obtain ⟨rfl, rfl⟩ := play_ended hE ht
    exact ⟨Nat.zero_le _, hend hE⟩
  · obtain ⟨hE, hlt⟩ | ⟨m', hG', hlt⟩ := play_completion hr l hG ht
    · exact ⟨by omega, hend hE⟩
    · refine ⟨?_, ?_, ?_, ?_⟩
      · have : m' < r.blocks := by
          have := hG'.add_count_le
          have := hG'.count_pos
          omega
        unfold left at hlt hl
        omega
      · intro hd
        rw [hG'.done] at hd
        cases hd
      · intro hd
        rw [hG'.done] at hd
        cases hd
      · intro hd c hc
        unfold completion
        simp [hd, hc]

/-- Three blocks in two entries, from block 8 of a block-addressed card. -/
def threeBlocks : DataReq where
  resp := .r1
  arg := 8
  stream := false
  blksz := 512
  blocks := 3
  sg := [512, 1024]
  sdio := false
  blkadr := true
  resp_ne := by decide
  blksz_pos := by decide
  blksz_le := by decide
  blocks_le := by decide
  sg_ne := by decide
  sg_dvd := by decide
  sg_sum := by decide

/-- The second entry takes two sub-transfers, as the first of them ends with an error. -/
theorem scatter_blocks_moved_three :
    ∃ t, play (guarded (completion threeBlocks) Sound) (sslsdRequest threeBlocks ⟨true, .ready, .ready, 7⟩)
        [⟨1, .none, .ready⟩, ⟨1, .datLine, .ready⟩, ⟨1, .none, .ready⟩] = some t ∧
      t.done = true ∧ t.error = none ∧ t.bytesXfered = 1536 ∧ t.moved = [(0, 8), (512, 9), (1024, 10)] := by
  have hrun : ∃ t, play (guarded (completion threeBlocks) Sound) (sslsdRequest threeBlocks ⟨true, .ready, .ready, 7⟩)
      [⟨1, .none, .ready⟩, ⟨1, .datLine, .ready⟩, ⟨1, .none, .ready⟩] = some t ∧ t.done = true ∧ t.error = none :=
    play_ends _ (by decide +kernel)
  obtain ⟨t, ht, hd, he⟩ := hrun
  have h := scatter_blocks_moved threeBlocks rfl ⟨true, .ready, .ready, 7⟩ (.inl rfl) _ t ht
  exact ⟨t, ht, hd, he, h.2.1 hd he⟩

/-- Two completions in a row without progress and without an error: the request is finished as if it were complete. -/
theorem request_finished_short :
    ∃ t, play (completion threeBlocks) (sslsdRequest threeBlocks ⟨true, .ready, .ready, 0⟩)
        [⟨0, .none, .ready⟩, ⟨0, .none, .ready⟩] = some t ∧
      t.done = true ∧ t.error = none ∧ t.bytesXfered ≠ threeBlocks.blocks * threeBlocks.blksz ∧ t.moved = [] := by
  exact play_ends _ (by decide +kernel)

/-- The lines are busy for the first command and the last transfer moved one block: the first block of the request is counted and
never moved. -/
theorem request_counts_stale_progress :
    ∃ t, play (completion threeBlocks) (sslsdRequest threeBlocks ⟨true, .busy, .ready, 1⟩) [⟨2, .none, .ready⟩] = some t ∧
      t.done = true ∧ t.error = none ∧ t.bytesXfered = 1536 ∧ t.moved = [(512, 9), (1024, 10)] := by
  exact play_ends _ (by decide +kernel)

end Emlinux.Sdhc
