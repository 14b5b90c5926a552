import Emlinux.Sdhc.Command

/-!
# Status words and the commands issued meanwhile

`sdhc_isr` reads the status once and works through its bits: response errors, data errors, the response, the buffer, the end of the data. The
events on the way may issue the next command, which the bits still to come do not mean.

A response error takes the response bit out of the status word, a data error only the bits of the data phase. So a command issued while a data
error is handled is taken for answered when the response bit was set as well, and this is the only way: the routine
leaves the commands issued in it alone exactly when the status word does not mix the two (`stale_iff`).
-/

namespace Emlinux.Sdhc

open Lib

/-- What was issued from number `k` on is where `sdhc_cmd` put it: not passed, not in the data slot, no data moved. -/
structure Untouched (k : Nat) (s : Host) : Prop where
  passed : ∀ n, k ≤ n → Evt.passed n ∉ s.log
  slot : ∀ c, s.dat = some c → (s.cmds c).serial < k
  pio : ∀ c, s.cmd = some c → k ≤ (s.cmds c).serial → (s.cmds c).has fDat = true → (s.cmds c).actual = 0

/-- A data error ends a command: the one with data, or one whose abort is under way. -/
def Host.ends (s : Host) : Bool := s.dat.isSome || s.cmd.any fun c => (s.cmds c).rt != .none

/-- A data error that ends a command, without a response error, in one status word with the response of a command. -/
def Mixed (s : Host) (i : IsrIn) : Prop :=
  i.ista &&& irqInsRem = 0 ∧ s.fins = true ∧ i.ista &&& irqErr ≠ 0 ∧ i.ista &&& irqCmd ≠ 0 ∧
    i.esta &&& errRspMask = 0 ∧ i.esta &&& errDatMask ≠ 0 ∧ s.ends = true

instance (s : Host) (i : IsrIn) : Decidable (Mixed s i) :=
  inferInstanceAs (Decidable (i.ista &&& irqInsRem = 0 ∧ s.fins = true ∧ i.ista &&& irqErr ≠ 0 ∧ i.ista &&& irqCmd ≠ 0 ∧
    i.esta &&& errRspMask = 0 ∧ i.esta &&& errDatMask ≠ 0 ∧ s.ends = true))

/-! ## New commands -/

/-- All that is outstanding was issued from number `k` on, and stands in the command slot as `sdhc_cmd` left it. -/
structure Young (k : Nat) (s : Host) : Prop where
  good : Good k [] s
  dat : s.dat = none
  cmd : ∀ c, s.cmd = some c → (s.cmds c).rt = .none ∧ ((s.cmds c).has fDat = true → (s.cmds c).actual = 0)
  passed : ∀ n, k ≤ n → Evt.passed n ∉ s.log

/-- During the routine: nothing issued yet, or only new commands outstanding. -/
inductive Phase (k : Nat) (s : Host) : Prop
  | old (h : Good 0 [] s) (hk : s.next = k)
  | young (h : Young k s)

/-- The same with the status bits to come, which mean no new command. -/
inductive Ready (k : Nat) (s : Host) (sta : BitVec 16) : Prop
  | old (h : Good 0 [] s) (hk : s.next = k)
  | young (h : Young k s) (hsta : sta &&& irqCmd = 0)

variable {s : Host} {k : Nat} {sta : BitVec 16}

theorem Ready.phase (h : Ready k s sta) : Phase k s := by
  cases h with
  | old h hk => exact .old h hk
  | young h _ => exact .young h

theorem Young.untouched (h : Young k s) : Untouched k s where
  passed := h.passed
  slot := by
    intro c hc
    rw [h.dat] at hc
    cases hc
  pio := fun c hc _ => (h.cmd c hc).2

/-- What is outstanding in the old phase was accepted before. -/
theorem Good.serial_lt (h : Good 0 [] s) {n : Nat} (hn : n ∈ s.pending) : n < s.next := by
  by_contra hle
  exact (h.logged.fresh n (by omega)).1 (h.logged.pending n hn).1

theorem Good.untouched (h : Good 0 [] s) : Untouched s.next s := by
  refine ⟨fun n hn => (h.logged.fresh n hn).2, fun c hc => ?_, fun c hc hle _ => ?_⟩
  · cases h.slots with
    | empty _ _ hd => rw [hd] at hc; cases hc
    | inCmd _ _ _ hd => rw [hd] at hc; cases hc
    | inDat d hp _ hd =>
      rw [hd] at hc
      cases hc
      exact h.serial_lt (by rw [hp]; exact List.mem_singleton_self _)
  · cases h.slots with
    | empty _ hc' _ => rw [hc'] at hc; cases hc
    | inDat _ _ hc' _ => rw [hc'] at hc; cases hc
    | inCmd d hp hc' _ =>
      rw [hc'] at hc
      cases hc
      have := h.serial_lt (n := (s.cmds c).serial) (by rw [hp]; exact List.mem_singleton_self _)
      omega

theorem Phase.untouched (h : Phase k s) : Untouched k s := by
  cases h with
  | old h hk => exact hk ▸ h.untouched
  | young h => exact h.untouched

theorem Slots.of_pending (h : Slots s) (hp : s.pending = []) : s.cmd = none ∧ s.dat = none := by
  cases h with
  | empty _ hc hd => exact ⟨hc, hd⟩
  | inCmd _ hp' _ _ => rw [hp] at hp'; cases hp'
  | inDat _ hp' _ _ => rw [hp] at hp'; cases hp'

/-- `sdhc_cmd` rejects the request, or puts the command into its slot with nothing transferred. -/
theorem sdhcCmd_cases (s : Host) (q : Request) : (∃ x : Cmd, (s.sdhcCmd q).2 = s.setCmd q.id fun _ => x) ∨
    ∃ x : Cmd, (s.sdhcCmd q).2 = { s.setCmd q.id fun _ => x with
        cmd := some q.id, log := s.log ++ [.accepted s.next], next := s.next + 1, pending := s.pending ++ [s.next] } ∧
      x.rt = .none ∧ x.flag = q.flag ∧ x.serial = s.next ∧ (x.has fDat = true → x.actual = 0) := by
  unfold Host.sdhcCmd
  dsimp only
  split_ifs with h1 h2 h3 h4
  · exact Or.inl ⟨_, rfl⟩
  · exact Or.inl ⟨_, rfl⟩
  · exact Or.inl ⟨_, rfl⟩
  · exact Or.inr ⟨_, rfl, rfl, rfl, rfl, fun _ => rfl⟩
  · refine Or.inr ⟨_, rfl, rfl, rfl, rfl, fun hdat => absurd ?_ h4⟩
    exact bne_iff_ne.mp hdat

theorem Young.sdhcCmd (h : Young k s) (hp : s.pending = []) (q : Request) : Young k (s.sdhcCmd q).2 := by
  have hgood := h.good.sdhcCmd hp q
  have hnone := (h.good.slots.of_pending hp).1
  rcases sdhcCmd_cases s q with ⟨f, he⟩ | ⟨x, he, hrt, -, -, hact⟩
  · rw [he] at hgood ⊢
    exact ⟨hgood, h.dat, fun c hc => absurd (hnone.symm.trans hc) nofun, h.passed⟩
  · rw [he] at hgood ⊢
    refine ⟨hgood, h.dat, fun c hc => ?_, fun n hn hmem => ?_⟩
    · cases hc
      have hx : ∀ y : Cmd, y = x → y.rt = .none ∧ (y.has fDat = true → y.actual = 0) := by
        rintro y rfl
        exact ⟨hrt, hact⟩
      exact hx _ (Function.update_self _ _ _)
    · rcases List.mem_append.mp hmem with hmem | hmem
      · exact h.passed n hn hmem
      · cases List.mem_singleton.mp hmem

theorem Young.issue (l : List Request) : ∀ {s : Host}, Young k s → Young k (Host.issue l s) := by
  induction l with
  | nil => exact fun h => h
  | cons q l ih =>
    intro s h
    unfold Host.issue
    apply ih
    split_ifs with hp
    · exact h.sdhcCmd hp q
    · exact h

/-! ## Events -/

/-- A client that issues nothing. -/
def silent : Client := fun _ => []

/-- The client issues its commands in the state that the event leaves without them. -/
theorem evt_eq (s : Host) (cl : Client) (e : Evt) : s.evt cl e = Host.issue (cl (s.evt silent e).log) (s.evt silent e) := rfl

theorem pass_eq (s : Host) (cl : Client) (c : Nat) :
    s.pass cl c = Host.issue (cl (s.pass silent c).log) (s.pass silent c) := rfl

/-- With the event of the command that the routine holds, only new commands can be outstanding. -/
theorem Held.young {l : List Evt} {c : Nat} (h : Held 0 l s c) (hk : s.next = k) (cl : Client) : Young k (s.pass cl c) := by
  subst hk
  rw [pass_eq]
  apply Young.issue
  obtain ⟨hslots, hlogged, hnew⟩ := h.pass_new silent
  refine ⟨⟨hslots, hlogged, hnew.next, hnew.pending, nofun⟩, h.holding.dat, fun d hd => ?_, fun n hn hmem => ?_⟩
  · exact absurd (h.holding.cmd.symm.trans hd) nofun
  · obtain ⟨hacc, hpass⟩ := h.logged.fresh n hn
    rcases List.mem_append.mp hmem with hmem | hmem
    · exact hpass hmem
    · cases List.mem_singleton.mp hmem
      refine hacc (h.logged.pending _ ?_).1
      rw [h.holding.pending]
      exact List.mem_singleton_self _

theorem mem_plain {e : Evt} (he : e.plain = true) {n : Nat} (h : Evt.passed n ∈ s.log ++ [e]) : Evt.passed n ∈ s.log := by
  rcases List.mem_append.mp h with h | h
  · exact h
  · rw [← List.mem_singleton.mp h] at he
    cases he

/-- An event that is no completion. -/
theorem Phase.evt (h : Phase k s) (cl : Client) {e : Evt} (he : e.plain = true) (fins fwp : Bool) :
    Phase k ({ s with fins := fins, fwp := fwp }.evt cl e) := by
  rw [evt_eq]
  cases h with
  | young h =>
    refine .young (.issue _ ⟨h.good.evt silent he fins fwp, h.dat, h.cmd, fun n hn hmem => ?_⟩)
    exact h.passed n hn (mem_plain he hmem)
  | old h hk =>
    have hgood := h.evt silent he fins fwp
    by_cases hp : s.pending = []
    · obtain ⟨hc, hd⟩ := h.slots.of_pending hp
      refine .young (.issue _ ⟨⟨hgood.slots, hgood.logged, hk.ge, ?_, nofun⟩, hd, fun c hx => absurd (hc.symm.trans hx) nofun,
        fun n hn hmem => ?_⟩)
      · intro n hn
        exact absurd (hp ▸ hn : n ∈ ([] : List Nat)) nofun
      · exact (h.logged.fresh n (hk ▸ hn)).2 (mem_plain he hmem)
    · rw [issue_of_pending _ (show ({ s with fins := fins, fwp := fwp }.evt silent e).pending ≠ [] from hp)]
      exact .old hgood hk

/-! ## The parts of the routine -/

section parts

variable (cl : Client) (i : IsrIn)

/-- What holds when a part ends the routine, and when the routine goes on. -/
def LoopFlow.Meets {β : Type} (P : Host → Prop) (Q : β → Prop) : LoopFlow Host β → Prop
  | .brk s => P s
  | .next b => Q b

theorem irqCmd_cleared (sta : BitVec 16) : sta &&& ~~~irqCmd &&& irqCmd = 0 := by
  rw [BitVec.and_assoc, BitVec.not_and_self]
  exact BitVec.and_zero

theorem irqCmd_masked (m : BitVec 16) (h : sta &&& irqCmd = 0) : sta &&& m &&& irqCmd = 0 := by
  rw [BitVec.and_assoc, BitVec.and_comm m, ← BitVec.and_assoc, h]
  exact BitVec.zero_and

/-- A response error takes the response bit out of the status word. -/
theorem Good.isrErrRsp_ready (sta : BitVec 16) (h : Good 0 [] s) (hk : s.next = k) (herr : i.esta &&& errRspMask ≠ 0) :
    LoopFlow.Meets (Phase k) (fun b => Phase k b.1 ∧ b.2 &&& irqCmd = 0) (s.isrErrRsp cl i sta) := by
  unfold Host.isrErrRsp
  rw [if_pos herr]
  dsimp only
  split
  next c hc =>
    have hh := h.takeCmd hc
    have hf : Held 0 [] (Host.setCmd { s with cmd := none } c fun x => { x with rt := rspRet i.esta }) c := hh.setCmd rfl
    split
    · split
      · exact .old hf.putCmd hk
      · exact ⟨.young (hf.young hk cl), irqCmd_cleared sta⟩
    · exact ⟨.young (hh.young hk cl), irqCmd_cleared sta⟩
  next hc =>
    split
    next c hd =>
      split
      · exact ⟨.young ((h.takeDat hd).young hk cl), irqCmd_cleared sta⟩
      · exact ⟨.old h hk, irqCmd_cleared sta⟩
    next hd => exact ⟨.old h hk, irqCmd_cleared sta⟩

/-- New commands are not what a data error is about. -/
theorem Young.isrErrDat (h : Young k s) : s.isrErrDat cl i sta = (s, sta) := by
  unfold Host.isrErrDat
  rw [h.dat]
  dsimp only
  split
  · split
    next c hc => rw [if_neg (not_not.mpr (h.cmd c hc).1)]
    next => rfl
  · rfl

theorem Good.isrErrDat_phase (sta : BitVec 16) (h : Good 0 [] s) (hk : s.next = k) : Phase k (s.isrErrDat cl i sta).1 := by
  unfold Host.isrErrDat
  split
  · split
    next c hd =>
      have hs : Good 0 [] (s.setCmd c fun x => { x with rt := datRet i.esta, actual := x.progress i }) := h.setCmd rfl
      exact .young ((hs.takeDat hd).young hk cl)
    next hd =>
      split
      next c hc =>
        split
        · exact .young ((h.takeCmd hc).young hk cl)
        · exact .old h hk
      next hc => exact .old h hk
  · exact .old h hk

theorem isrErrDat_irqCmd (h : sta &&& irqCmd = 0) : (s.isrErrDat cl i sta).2 &&& irqCmd = 0 := by
  unfold Host.isrErrDat
  split
  · split
    · exact irqCmd_masked _ h
    · split
      · split <;> exact h
      · exact h
  · exact h

/-- Without the response bit, the bits left mean no command that a data error lets the client issue. -/
theorem Phase.isrErrDat (h : Phase k s) (hsta : sta &&& irqCmd = 0) :
    Ready k (s.isrErrDat cl i sta).1 (s.isrErrDat cl i sta).2 := by
  cases h with
  | old h hk =>
    cases h.isrErrDat_phase cl i sta hk with
    | old h' hk' => exact .old h' hk'
    | young h' => exact .young h' (isrErrDat_irqCmd cl i hsta)
  | young h =>
    rw [h.isrErrDat cl i]
    exact .young h hsta

theorem ends_eq_false (h : s.ends = false) : s.dat = none ∧ ∀ c, s.cmd = some c → (s.cmds c).rt = .none := by
  unfold Host.ends at h
  rw [Bool.or_eq_false_iff] at h
  refine ⟨?_, fun c hc => ?_⟩
  · cases hd : s.dat with
    | none => rfl
    | some d =>
      rw [hd] at h
      cases h.1
  · rw [hc] at h
    exact bne_eq_false_iff_eq.mp h.2

/-- A data error that ends no command leaves all as it is. -/
theorem isrErrDat_none (h : i.esta &&& errDatMask = 0 ∨ s.ends = false) : s.isrErrDat cl i sta = (s, sta) := by
  unfold Host.isrErrDat
  rcases h with h | h
  · rw [if_neg (not_not.mpr h)]
  · obtain ⟨hd, hc⟩ := ends_eq_false h
    rw [hd]
    dsimp only
    split
    · split
      next c hx => rw [if_neg (not_not.mpr (hc c hx))]
      next => rfl
    · rfl

theorem Ready.isrErrA12 (h : Ready k s sta) :
    LoopFlow.Meets (Phase k) (fun s => Ready k s sta) (s.isrErrA12 i) := by
  unfold Host.isrErrA12
  split
  · cases h with
    | young h hsta =>
      rw [h.dat]
      exact .young h hsta
    | old h hk =>
      split
      next c hd =>
        split
        · exact .old (h.setCmd rfl) hk
        · exact .old h hk
      next => exact .old h hk
  · exact h

/-- Unless the status word mixes them, the errors leave bits that mean no new command. -/
theorem Good.isrErr_ready (sta : BitVec 16) (h : Good 0 [] s) (hk : s.next = k)
    (hmix : ¬ (sta &&& irqErr ≠ 0 ∧ sta &&& irqCmd ≠ 0 ∧ i.esta &&& errRspMask = 0 ∧ i.esta &&& errDatMask ≠ 0 ∧ s.ends = true)) :
    LoopFlow.Meets (Phase k) (fun b => Ready k b.1 b.2) (s.isrErr cl i sta) := by
  unfold Host.isrErr
  by_cases herr : sta &&& irqErr ≠ 0
  swap
  · rw [if_neg herr]
    exact .old h hk
  rw [if_pos herr]
  -- the state and the bits that the data errors leave
  have hdat : LoopFlow.Meets (Phase k) (fun b => Ready k (b.1.isrErrDat cl i b.2).1 (b.1.isrErrDat cl i b.2).2)
      (s.isrErrRsp cl i sta) := by
    by_cases hrsp : i.esta &&& errRspMask = 0
    · have hnone : s.isrErrRsp cl i sta = .next (s, sta) := by
        unfold Host.isrErrRsp
        rw [if_neg (not_not.mpr hrsp)]
      rw [hnone]
      show Ready k (s.isrErrDat cl i sta).1 (s.isrErrDat cl i sta).2
      by_cases hcmd : sta &&& irqCmd = 0
      · exact (Phase.old h hk).isrErrDat cl i hcmd
      · rw [isrErrDat_none cl i]
        · exact .old h hk
        · by_contra hx
          obtain ⟨h1, h2⟩ := not_or.mp hx
          exact hmix ⟨herr, hcmd, hrsp, h1, Bool.eq_true_of_not_eq_false h2⟩
    · have hready := h.isrErrRsp_ready cl i sta hk hrsp
      cases hr : s.isrErrRsp cl i sta with
      | brk s' =>
        rw [hr] at hready
        exact hready
      | next b =>
        rw [hr] at hready
        exact hready.1.isrErrDat cl i hready.2
  cases hr : s.isrErrRsp cl i sta with
  | brk s' =>
    rw [hr] at hdat
    exact hdat
  | next b =>
    rw [hr] at hdat
    have ha := Ready.isrErrA12 i hdat
    dsimp only
    cases hx : (b.1.isrErrDat cl i b.2).1.isrErrA12 i with
    | brk s' =>
      rw [hx] at ha
      exact ha
    | next s' =>
      rw [hx] at ha
      exact ha

theorem Ready.isrCmd (h : Ready k s sta) : Phase k (s.isrCmd cl i sta).1 := by
  unfold Host.isrCmd
  cases h with
  | young h hsta =>
    rw [if_neg (not_not.mpr hsta)]
    exact .young h
  | old h hk =>
    split
    · split
      next hc =>
        split
        next c hd =>
          split
          · exact .young ((h.takeDat hd).young hk cl)
          · exact .old h hk
        next => exact .old h hk
      next c hc =>
        have hh := h.takeCmd hc
        have hr : Held 0 [] (Host.setCmd { s with cmd := none } c fun x => { x with rsp := i.rsp }) c := hh.setCmd rfl
        dsimp only
        split
        · exact .young (hh.young hk cl)
        · split
          · exact .young (hh.young hk cl)
          · split
            · split
              · exact .old (hr.putDat.pio i c) hk
              · exact .old hr.putDat hk
            · exact .young (hr.young hk cl)
    · exact .old h hk

theorem Phase.isrDat (sta : BitVec 16) (h : Phase k s) : Phase k (s.isrDat cl i sta) := by
  unfold Host.isrDat
  cases h with
  | young h =>
    rw [h.dat]
    exact .young h
  | old h hk =>
    split
    next => exact .old h hk
    next c hd =>
      have key : ∀ s' : Host, Good 0 [] s' → s'.next = k → s'.dat = some c →
          Phase k (if sta &&& irqDat ≠ 0 then
            Host.pass { s'.setCmd c fun x => if x.has fDma then { x with actual := i.dmawait x.count } else x with dat := none } cl c
            else s') := by
        intro s' h' hk' hd'
        split
        · have hs : Good 0 [] (s'.setCmd c fun x => if x.has fDma then { x with actual := i.dmawait x.count } else x) := by
            apply h'.setCmd
            split <;> rfl
          exact .young ((hs.takeDat hd').young hk' cl)
        · exact .old h' hk'
      apply key
      · split
        · exact h.pio i c
        · exact h
      · split <;> exact hk
      · split <;> exact hd

theorem Good.isrRemoval_phase (h : Good 0 [] s) (hk : s.next = k) : Phase k (s.isrRemoval cl i) := by
  rcases h.isrRemoval_cases cl i with ⟨-, he⟩ | ⟨s', c, hh, hnext, he⟩
  · rw [he]
    unfold Host.detect
    split
    · exact (Phase.old h hk).evt cl (e := .ins) rfl true i.wp
    · exact (Phase.old h hk).evt cl (e := .rem) rfl false s.fwp
  · obtain ⟨h1, h2⟩ := hh.detect cl i
    rw [he]
    exact .young (h1.young ((h2.trans hnext).trans hk) cl)

/-- A status word that mixes nothing touches no command issued while it is worked through. -/
theorem Good.isr_untouched (h : Good 0 [] s) (hmix : ¬ Mixed s i) : Untouched s.next (s.isr cl i).2 := by
  suffices hphase : Phase s.next (s.isr cl i).2 from hphase.untouched
  unfold Host.isr
  split
  · exact .old h rfl
  split
  · exact h.isrRemoval_phase cl i rfl
  next hrem =>
  split
  · exact .old h rfl
  next hfins =>
  have herr := h.isrErr_ready cl i i.ista rfl fun hx => hmix ⟨not_not.mp hrem, by simpa using hfins, hx⟩
  cases hr : s.isrErr cl i i.ista with
  | brk s' =>
    rw [hr] at herr
    exact herr
  | next b =>
    rw [hr] at herr
    have hcmd := Ready.isrCmd cl i herr
    have hdat := hcmd.isrDat cl i (b.1.isrCmd cl i b.2).2
    dsimp only
    split
    · exact hdat.evt cl (e := .io) rfl _ _
    · exact hdat

end parts

/-! ## A mixed status word -/

/-- A request without data. -/
def statusRequest : Request := ⟨0, 13#8, 0, 1#8, 0, 0, fun _ => false⟩

/-- The client that asks for the status when a command with a number below `k` is passed. -/
def asker (k : Nat) : Client := fun log => match log.getLast? with
  | some (.passed n) => if n < k then [statusRequest] else []
  | _ => []

/-- The status request stands in the command slot. -/
structure Asking (k : Nat) (s : Host) : Prop where
  good : Good 0 [] s
  dat : s.dat = none
  cmd : s.cmd = some 0
  serial : (s.cmds 0).serial = k
  flag : (s.cmds 0).flag = 1#8
  rt : (s.cmds 0).rt = .none

theorem sdhcCmd_status (s : Host) (hfins : s.fins = true) : (s.sdhcCmd statusRequest).2.dat = s.dat ∧
    (s.sdhcCmd statusRequest).2.cmd = some 0 ∧ ((s.sdhcCmd statusRequest).2.cmds 0).serial = s.next ∧
    ((s.sdhcCmd statusRequest).2.cmds 0).flag = 1#8 ∧ ((s.sdhcCmd statusRequest).2.cmds 0).rt = .none := by
  unfold Host.sdhcCmd
  dsimp only
  rw [hfins, if_neg (by decide), if_neg (by decide), if_neg (by decide)]
  have hself : ∀ x : Cmd, Function.update s.cmds 0 x 0 = x := fun x => Function.update_self 0 x s.cmds
  exact ⟨rfl, rfl, congrArg Cmd.serial (hself _), congrArg Cmd.flag (hself _), congrArg Cmd.rt (hself _)⟩

theorem asker_passed {n : Nat} (h : n < k) (l : List Evt) : asker k (l ++ [.passed n]) = [statusRequest] := by
  unfold asker
  rw [List.getLast?_concat]
  exact if_pos h

/-- Passed its command, the client asks. -/
theorem Held.asking {c : Nat} (h : Held 0 [] s c) (hk : s.next = k) (hfins : s.fins = true) : Asking k (s.pass (asker k) c) := by
  have hgood := h.pass (asker k)
  have hlt : (s.cmds c).serial < k := by
    by_contra hle
    refine (h.logged.fresh (s.cmds c).serial (by omega)).1 (h.logged.pending _ ?_).1
    rw [h.holding.pending]
    exact List.mem_singleton_self _
  have hp : (s.pass silent c).pending = [] := by
    show s.pending.erase _ = []
    rw [h.holding.pending, List.erase_cons_head]
  have hpass : s.pass (asker k) c = ((s.pass silent c).sdhcCmd statusRequest).2 := by
    rw [pass_eq, show (s.pass silent c).log = s.log ++ [.passed (s.cmds c).serial] from rfl, asker_passed hlt]
    unfold Host.issue Host.issue
    rw [if_pos hp]
  obtain ⟨hdat, hcmd, hserial, hflag, hrt⟩ := sdhcCmd_status (s.pass silent c) hfins
  rw [hpass] at hgood ⊢
  exact ⟨hgood, hdat.trans h.holding.dat, hcmd, hserial.trans hk, hflag, hrt⟩

variable (cl : Client) {i : IsrIn}

/-- The command that the routine passes is in the history. -/
theorem Held.mem_pass {c : Nat} (h : Held 0 [] s c) : Evt.passed (s.cmds c).serial ∈ (s.pass cl c).log := by
  obtain ⟨hslots, hlogged, hnew⟩ := h.pass_new silent
  have hgood : Good s.next (s.pass silent c).log (s.pass silent c) := ⟨hslots, hlogged, hnew.next, hnew.pending, fun _ hx => hx⟩
  rw [pass_eq]
  exact (hgood.issue _).new.log _ (List.mem_append_right _ (List.mem_singleton_self _))

/-- The response bit completes the status request. -/
theorem Asking.isrCmd (h : Asking k s) (hsta : sta &&& irqCmd ≠ 0) : Evt.passed k ∈ (s.isrCmd cl i sta).1.log := by
  have hh : Held 0 [] (Host.setCmd { s with cmd := none } 0 fun x => { x with rsp := i.rsp }) 0 := (h.good.takeCmd h.cmd).setCmd rfl
  have hcmd : (Host.setCmd { s with cmd := none } 0 fun x => { x with rsp := i.rsp }).cmds 0 = { s.cmds 0 with rsp := i.rsp } :=
    Function.update_self 0 _ s.cmds
  have hplain : ((Host.setCmd { s with cmd := none } 0 fun x => { x with rsp := i.rsp }).cmds 0).has fDat = false := by
    rw [hcmd]
    unfold Cmd.has
    rw [h.flag]
    rfl
  have hmem := hh.mem_pass cl
  rw [hcmd, h.serial] at hmem
  unfold Host.isrCmd
  rw [if_pos hsta, h.cmd]
  dsimp only
  rw [if_neg (not_not.mpr h.rt), h.flag, if_neg (by decide), hplain, if_neg Bool.false_ne_true]
  exact hmem

theorem mem_isrDat (sta : BitVec 16) {e : Evt} (h : Good 0 [] s) (he : e ∈ s.log) : e ∈ (s.isrDat cl i sta).log := by
  have hl : Good 0 s.log s := ⟨h.slots, h.logged, h.new.next, h.new.pending, fun _ hx => hx⟩
  exact (hl.isrDat cl i sta).new.log e he

theorem mem_io {e : Evt} (h : Good 0 [] s) (he : e ∈ s.log) : e ∈ (s.evt cl .io).log := by
  have hl : Good 0 s.log s := ⟨h.slots, h.logged, h.new.next, h.new.pending, fun _ hx => hx⟩
  exact (Good.evt hl cl (e := .io) rfl _ _).new.log e he

/-- The data error of a mixed status word lets the client ask, and leaves the response bit. -/
theorem Good.isrErrDat_asking (h : Good 0 [] s) (hk : s.next = k) (hfins : s.fins = true) (hdat : i.esta &&& errDatMask ≠ 0)
    (hends : s.ends = true) (sta : BitVec 16) (hsta : sta &&& irqCmd ≠ 0) :
    Asking k (s.isrErrDat (asker k) i sta).1 ∧ (s.isrErrDat (asker k) i sta).2 &&& irqCmd ≠ 0 := by
  have hkeep : sta &&& ~~~(irqDat ||| irqRdWr) &&& irqCmd = sta &&& irqCmd := by
    rw [BitVec.and_assoc]
    rfl
  unfold Host.isrErrDat
  rw [if_pos hdat]
  cases hd : s.dat with
  | some c =>
    have hs : Good 0 [] (s.setCmd c fun x => { x with rt := datRet i.esta, actual := x.progress i }) := h.setCmd rfl
    exact ⟨(hs.takeDat hd).asking hk hfins, hkeep ▸ hsta⟩
  | none =>
    cases hc : s.cmd with
    | none =>
      unfold Host.ends at hends
      rw [hd, hc] at hends
      cases hends
    | some c =>
      have hrt : (s.cmds c).rt ≠ .none := by
        unfold Host.ends at hends
        rw [hd, hc] at hends
        exact bne_iff_ne.mp hends
      have hask := (h.takeCmd hc).asking hk hfins
      rw [hd] at hask
      dsimp only
      rw [if_pos hrt]
      exact ⟨hask, hsta⟩

/-- A mixed status word completes the status request in the call that it is issued in. -/
theorem Good.isr_stale (h : Good 0 [] s) (hmix : Mixed s i) : Evt.passed s.next ∈ (s.isr (asker s.next) i).2.log := by
  obtain ⟨hrem, hfins, herr, hcmd, hrsp, hdat, hends⟩ := hmix
  have hne : i.ista ≠ 0 := by
    intro h0
    rw [h0] at hcmd
    exact hcmd BitVec.zero_and
  obtain ⟨hask, hsta⟩ := h.isrErrDat_asking rfl hfins hdat hends i.ista hcmd
  have hnone : s.isrErrRsp (asker s.next) i i.ista = .next (s, i.ista) := by
    unfold Host.isrErrRsp
    rw [if_neg (not_not.mpr hrsp)]
  have ha12 : (s.isrErrDat (asker s.next) i i.ista).1.isrErrA12 i = .next (s.isrErrDat (asker s.next) i i.ista).1 := by
    unfold Host.isrErrA12
    rw [hask.dat]
    dsimp only
    split <;> rfl
  have he : s.isrErr (asker s.next) i i.ista = .next (s.isrErrDat (asker s.next) i i.ista) := by
    unfold Host.isrErr
    rw [if_pos herr, hnone]
    dsimp only
    rw [ha12]
  have hgood := Good.isrCmd (asker s.next) i hask.good (s.isrErrDat (asker s.next) i i.ista).2
  have hmem := mem_isrDat (asker s.next) (i := i)
    ((s.isrErrDat (asker s.next) i i.ista).1.isrCmd (asker s.next) i (s.isrErrDat (asker s.next) i i.ista).2).2 hgood
    (hask.isrCmd (asker s.next) hsta)
  unfold Host.isr
  rw [if_neg hne, if_neg (not_not.mpr hrem), hfins, if_neg (by decide), he]
  dsimp only
  split
  · exact mem_io (asker s.next) (hgood.isrDat _ _ _) hmem
  · exact hmem

/-- In a call of the interrupt routine on a state that a run reaches, whatever client there is, the commands issued during the call are left alone, exactly when
the status word is not mixed. -/
theorem stale_iff (cl : Client) (fins : Bool) (cmds : Nat → Cmd) (s : Host) (h : Run (Host.step cl) free (.init fins cmds) s)
    (i : IsrIn) : (∀ cl', Untouched s.next (s.isr cl' i).2) ↔ ¬ Mixed s i := by
  have hg : Good 0 [] s := h.invariant (Good.init fins cmds) (fun t a u ht _ hu => ht.step cl hu)
  constructor
  · exact fun hall hmix => (hall (asker s.next)).passed _ (le_refl _) (hg.isr_stale hmix)
  · exact fun hmix cl' => hg.isr_untouched cl' i hmix

/-- A read of two blocks with the automatic stop, which has gone wrong: its abort is under way. -/
def aborting : List HostAction :=
  [.cmd ⟨0, 18#8, 0, 0x61#8, 2, 512, fun _ => false⟩, .isr (plainIsr 0x1#16 0),
    .isr { plainIsr 0x8000#16 0x100#16 with a12err := 1#8 }]

theorem aborting_run : ∃ s, Run (Host.step readAgain) free (.init true fun _ => noCmd) s ∧ s.dat = some 0 ∧ s.next = 1 ∧
    ¬ Mixed s (plainIsr 0x8000#16 0x10#16) ∧
    (s.isr readAgain (plainIsr 0x8001#16 0x10#16)).2.dat = some 0 ∧
    ((s.isr readAgain (plainIsr 0x8001#16 0x10#16)).2.cmds 0).serial = 1 := by
  have h : Run (Host.step readAgain) free (.init true fun _ => noCmd) _ := .of_isSome aborting (by decide +kernel)
  exact ⟨_, h, by decide +kernel, by decide +kernel, by decide +kernel, by decide +kernel, by decide +kernel⟩

/-- A data timeout without the response of the abort touches nothing that a client issues. -/
theorem timeout_untouched : ∃ s, Run (Host.step readAgain) free (.init true fun _ => noCmd) s ∧ s.dat = some 0 ∧
    ∀ cl, Untouched s.next (s.isr cl (plainIsr 0x8000#16 0x10#16)).2 := by
  obtain ⟨s, h, hdat, -, hmix, -⟩ := aborting_run
  exact ⟨s, h, hdat, (stale_iff readAgain true _ s h (plainIsr 0x8000#16 0x10#16)).mpr hmix⟩

/-- With the response of the abort in the same status word, the read that the client issues on the timeout gets to the data slot. -/
theorem timeout_touched : ∃ s, Run (Host.step readAgain) free (.init true fun _ => noCmd) s ∧
    ¬ Untouched s.next (s.isr readAgain (plainIsr 0x8001#16 0x10#16)).2 := by
  obtain ⟨s, h, -, hnext, -, hdat, hserial⟩ := aborting_run
  refine ⟨s, h, fun hu => ?_⟩
  have hlt := hu.slot 0 hdat
  rw [hserial, hnext] at hlt
  exact absurd hlt (Nat.lt_irrefl 1)

end Emlinux.Sdhc
