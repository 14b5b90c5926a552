import Emlinux.Usb.Udc

/-!
# The stages of a control transfer

A control transfer as the host sees it: a setup packet, a data stage in the direction of the packet when its `wLength` is not
zero, and a status stage in the other direction, or IN without data; a transfer may be stalled in its first stage after the packet. `walk` follows
the assignments to the stage of endpoint 0 along these phases.

`Udc.view` is what the driver keeps for endpoint 0, and `Mode` what holds of it in a phase: which descriptor is armed with which request, and what
is left to do.
-/

namespace Emlinux.Gadget

/-! ## Phases -/

inductive Phase where
  | setup
  | data (p : Setup)
  | status (p : Setup)
deriving DecidableEq, Repr

/-- `bRequestType & USB_DIR_IN`. -/
def Setup.isIn (p : Setup) : Bool := p.bRequestType &&& 0x80#8 != 0#8

/-- The phase after a setup packet. -/
def Setup.phase (p : Setup) : Phase := if p.wLength ≠ 0 then .data p else .status p

namespace Phase

/-- The direction, IN or not. -/
def dir : Phase → Bool
  | setup => false
  | data p => p.isIn
  | status p => p.wLength == 0 || !p.isIn

def stage : Phase → BitVec 8
  | setup => 0
  | data p => if p.isIn then stDat ||| stIn else stDat
  | status p => if p.wLength == 0 || !p.isIn then stSta ||| stIn else stSta

end Phase

/-- One assignment to the stage: what is left is a legal move from the phase. -/
def follow : Option Phase → Move → Option Phase
  | some .setup, m => if m = ⟨0, m.pkt.phase.stage, m.pkt, false⟩ then some m.pkt.phase else none
  | some (.data p), m =>
    if m = ⟨(Phase.data p).stage, (Phase.status p).stage, p, false⟩ then some (.status p)
    else if m = ⟨(Phase.data p).stage, 0, p, true⟩ then some .setup
    else none
  | some (.status p), m =>
    if m = ⟨(Phase.status p).stage, 0, p, false⟩ then some .setup
    else if p.wLength = 0 ∧ m = ⟨(Phase.status p).stage, 0, p, true⟩ then some .setup
    else none
  | none, _ => none

/-- The phase after a list of assignments; `none` when one of them was not legal. -/
def walk (l : List Move) : Option Phase := l.foldl follow (some .setup)

theorem walk_snoc (l : List Move) (m : Move) : walk (l ++ [m]) = follow (walk l) m := by
  unfold walk
  rw [List.foldl_append]
  rfl

namespace Phase

variable (p : Setup)

theorem stage_data : (data p).stage = if (data p).dir then stDat ||| stIn else stDat := rfl

theorem stage_status : (status p).stage = if (status p).dir then stSta ||| stIn else stSta := rfl

/-- The stage has the bit of the direction. -/
theorem stage_in (ph : Phase) : ph.stage &&& stIn ≠ 0 ↔ ph.dir = true := by
  cases ph with
  | setup => simp [stage, dir]
  | data p =>
    rw [stage_data]
    cases (data p).dir <;> decide
  | status p =>
    rw [stage_status]
    cases (status p).dir <;> decide

theorem stage_ne_zero {ph : Phase} (h : ph ≠ .setup) : ph.stage ≠ 0 := by
  cases ph with
  | setup => exact absurd rfl h
  | data p =>
    rw [stage_data]
    cases (data p).dir <;> decide
  | status p =>
    rw [stage_status]
    cases (status p).dir <;> decide

theorem stage_data_dat : (data p).stage &&& stDat ≠ 0 := by
  rw [stage_data]
  cases (data p).dir <;> decide

theorem stage_data_sta : (data p).stage &&& stSta = 0 := by
  rw [stage_data]
  cases (data p).dir <;> decide

theorem stage_status_dat : (status p).stage &&& stDat = 0 := by
  rw [stage_status]
  cases (status p).dir <;> decide

theorem stage_status_sta : (status p).stage &&& stSta ≠ 0 := by
  rw [stage_status]
  cases (status p).dir <;> decide

/-- The status stage after data goes the other way. -/
theorem dir_status {p : Setup} (hw : p.wLength ≠ 0) : (status p).dir = !(data p).dir := by
  have hw' : (p.wLength == 0) = false := by simpa using hw
  show (p.wLength == 0 || !p.isIn) = !p.isIn
  rw [hw', Bool.false_or]

/-- `udc->stage ^= UDC_EP0_STA | UDC_EP0_DAT | UDC_EP0_IN` goes from the data to the status stage. -/
theorem stage_data_xor {p : Setup} (hw : p.wLength ≠ 0) :
    (data p).stage ^^^ (stSta ||| stDat ||| stIn) = (status p).stage := by
  rw [stage_data, stage_status, dir_status hw]
  cases (data p).dir <;> decide

end Phase

theorem Setup.first_eq (p : Setup) : p.first = p.phase.stage := by
  unfold Setup.first Setup.phase
  by_cases hw : p.wLength = 0
  · rw [if_neg (not_not.2 hw), if_neg (not_not.2 hw), Phase.stage_status]
    simp [Phase.dir, hw]
  · rw [if_pos hw, if_pos hw, Phase.stage_data]
    simp [Phase.dir, Setup.isIn]

/-! ## Endpoint 0 -/

/-- The tasks that work on endpoint 0. -/
def Task.zero : Task → Bool
  | .setup | .status | .qsetup _ => true
  | .restore e _ => e == 0
  | .bit i _ => decide (i < 2)
  | _ => false

/-- What the driver keeps for endpoint 0; the direction selects the descriptor. -/
structure View where
  stage : BitVec 8
  pkt : Setup
  tc : Bool → Option (Rq × Nat)
  rdy : Bool → Bool
  stall : Bool → Bool
  queue : List Nat
  fstopped : Bool
  tasks : List Task
  hist : List Move

def Udc.view (s : Udc) : View where
  stage := s.stage
  pkt := s.pkt
  tc b := s.tc b.toNat
  rdy b := s.rdy b.toNat
  stall b := s.stall b.toNat
  queue := (s.ep 0).queue
  fstopped := (s.ep 0).fstopped
  tasks := s.control.filter Task.zero
  hist := s.hist

/-- The descriptor of the direction `b` is armed, the other is not. -/
structure Armed (v : View) (b : Bool) (rq : Rq) (n : Nat) : Prop where
  tc : v.tc b = some (rq, n)
  other : v.tc (!b) = none
  rdy : v.rdy (!b) = false
  running : v.fstopped = false

/-- Neither descriptor is armed. -/
structure Unarmed (v : View) : Prop where
  tc : ∀ b, v.tc b = none
  rdy : ∀ b, v.rdy b = false
  queue : v.queue = []

/-- Nothing is left to do for endpoint 0 but the done bit of the direction `b`. -/
def Pending (v : View) (b : Bool) : Prop := v.tasks = [] ∨ ∃ p, v.tasks = [.bit b.toNat p]

/-- The last task of a stage, in its phase. -/
def Last (v : View) (ph : Phase) (t : Task) : Prop :=
  ((t = .status ∨ t = .qsetup false) ∧ ∃ p, ph = .status p) ∨ (t = .qsetup true ∧ ph = v.pkt.phase)

/-- What may be under way in a phase. -/
inductive Kind (v : View) (ph : Phase) : Prop
  /-- waiting for a setup packet -/
  | wait (hp : ph = .setup) (ha : Armed v false .int 8) (hq : v.queue = []) (ht : Pending v false)
  /-- a stage that the driver runs by itself -/
  | own (n : Nat) (hp : ph ≠ .setup) (ha : Armed v ph.dir .int n) (hn : ph.dir = false → n ≠ 8)
      (hd : ∀ p, ph = .data p → p.isIn = true) (hq : v.queue = []) (ht : Pending v ph.dir)
  /-- a stage with the request of the class driver -/
  | serve (r n : Nat) (hp : ph ≠ .setup) (ha : Armed v ph.dir (.req r) n) (hq : v.queue = [r])
      (ht : Pending v ph.dir ∨ v.tasks = [.setup])
  /-- the packet was passed to the class driver, which has to act -/
  | ask (hp : ph = v.pkt.phase) (hu : Unarmed v) (hs : v.fstopped = false) (ht : v.tasks = [] ∨ v.tasks = [.setup])
  /-- the class driver returned an error -/
  | stalled (b : Bool) (hp : ph = v.pkt.phase) (htc : ∀ b, v.tc b = none) (hr : v.rdy b = true) (ho : v.rdy (!b) = false)
      (hst : v.stall b = true) (hq : v.queue = []) (hs : v.fstopped = false) (ht : Pending v b)
  /-- between two stages -/
  | close (t : Task) (hu : Unarmed v) (hl : Last v ph t)
      (ht : (v.tasks = [t] ∧ v.fstopped = false) ∨ v.tasks = [.restore 0 false, t])

structure Mode (v : View) (ph : Phase) : Prop where
  stage : v.stage = ph.stage
  pkt : ∀ p, ph = .data p ∨ ph = .status p → v.pkt = p
  data : ∀ p, ph = .data p → p.wLength ≠ 0
  kind : Kind v ph

/-- The stages since `h₀` were those of control transfers, and endpoint 0 is where they lead. -/
def Staged (h₀ : List Move) (v : View) : Prop :=
  ∃ moves ph, v.hist = h₀ ++ moves ∧ walk moves = some ph ∧ Mode v ph

/-- The class driver has to act on a packet that was passed to it. -/
def View.Asked (v : View) : Prop :=
  v.stage ≠ 0 ∧ (∀ b, v.tc b = none ∧ v.rdy b = false) ∧ v.queue = [] ∧ (v.tasks = [] ∨ v.tasks = [.setup])

instance (v : View) : Decidable v.Asked :=
  inferInstanceAs (Decidable (v.stage ≠ 0 ∧ (∀ b, v.tc b = none ∧ v.rdy b = false) ∧ v.queue = [] ∧
    (v.tasks = [] ∨ v.tasks = [.setup])))

section Mode

variable {v w : View} {ph : Phase}

theorem Last.ne_setup {t : Task} (h : Last v ph t) : t ≠ .setup ∧ t ≠ .restore 0 false ∧ ∀ i p, t ≠ .bit i p := by
  obtain ⟨ht | ht, -⟩ | ⟨ht, -⟩ := h
  · rw [ht]
    simp
  · rw [ht]
    simp
  · rw [ht]
    simp

theorem Mode.ask_of_asked (h : Mode v ph) (ha : v.Asked) : ph = v.pkt.phase ∧ Unarmed v ∧ v.fstopped = false := by
  obtain ⟨hst, hb, hq, ht⟩ := ha
  have htasks : ∀ t l, v.tasks = t :: l → t = .setup ∧ l = [] := by
    intro t l htl
    obtain ht | ht := ht
    · rw [ht] at htl
      cases htl
    · rw [ht] at htl
      cases htl
      exact ⟨rfl, rfl⟩
  cases h.kind with
  | wait hp ha => exact absurd ((hb _).1.symm.trans ha.tc) (by simp)
  | own n hp ha => exact absurd ((hb _).1.symm.trans ha.tc) (by simp)
  | serve r n hp ha => exact absurd ((hb _).1.symm.trans ha.tc) (by simp)
  | ask hp hu hs => exact ⟨hp, hu, hs⟩
  | stalled b hp htc hr => exact absurd ((hb _).2.symm.trans hr) (by simp)
  | close t hu hl ht' =>
    obtain ⟨hns, -, -⟩ := hl.ne_setup
    obtain ⟨ht', -⟩ | ht' := ht'
    · exact absurd (htasks _ _ ht').1 hns
    · exact absurd (htasks _ _ ht').1 (by simp)

/-- The phase after a packet is not that of the packet itself. -/
theorem Setup.phase_ne_setup (p : Setup) : p.phase ≠ .setup := by
  unfold Setup.phase
  split
  · simp
  · simp

theorem Setup.phase_eq_data {p q : Setup} (h : p.phase = .data q) : p = q ∧ p.wLength ≠ 0 := by
  unfold Setup.phase at h
  split at h
  · next hw =>
    cases h
    exact ⟨rfl, hw⟩
  · cases h

theorem Setup.phase_eq_status {p q : Setup} (h : p.phase = .status q) : p = q ∧ p.wLength = 0 := by
  unfold Setup.phase at h
  split at h
  · cases h
  · next hw =>
    cases h
    exact ⟨rfl, not_not.1 hw⟩

/-- The first phase after the packet may be stalled. -/
theorem follow_stall (p : Setup) : follow (some p.phase) ⟨p.phase.stage, 0, p, true⟩ = some .setup := by
  unfold Setup.phase
  split
  · simp [follow]
  · next hw => simp [follow, not_not.1 hw]

theorem follow_first (p : Setup) : follow (some .setup) ⟨0, p.phase.stage, p, false⟩ = some p.phase := by
  simp [follow]

theorem follow_data (p : Setup) :
    follow (some (.data p)) ⟨(Phase.data p).stage, (Phase.status p).stage, p, false⟩ = some (.status p) := by
  simp [follow]

theorem follow_status (p : Setup) : follow (some (.status p)) ⟨(Phase.status p).stage, 0, p, false⟩ = some .setup := by
  simp [follow]

/-- The stage of endpoint 0 and the armed descriptors agree. -/
theorem Mode.armed (h : Mode v ph) {b : Bool} (hb : v.tc b ≠ none) : (v.stage &&& stIn ≠ 0 ↔ b = true) := by
  have harmed : ∀ {b' rq n}, Armed v b' rq n → b = b' := by
    intro b' rq n ha
    by_contra hne
    rw [Bool.eq_not.2 hne] at hb
    exact hb ha.other
  have hdir : b = ph.dir := by
    cases h.kind with
    | wait hp ha =>
      rw [hp]
      exact harmed ha
    | own n hp ha => exact harmed ha
    | serve r n hp ha => exact harmed ha
    | ask hp hu => exact absurd (hu.tc b) hb
    | stalled b' hp htc => exact absurd (htc b) hb
    | close t hu => exact absurd (hu.tc b) hb
  rw [h.stage, ph.stage_in, hdir]

/-- In the setup stage the reception of eight bytes is armed. -/
theorem Mode.reception (h : Mode v ph) (hst : v.stage = 0) : v.tc false = some (.int, 8) ∧ v.tc true = none := by
  have hp : ph = .setup := by
    by_contra hne
    exact Phase.stage_ne_zero hne (h.stage.symm.trans hst)
  cases h.kind with
  | wait _ ha => exact ⟨ha.tc, ha.other⟩
  | own n hne => exact absurd hp hne
  | serve r n hne => exact absurd hp hne
  | ask hph => exact absurd (hph.symm.trans hp) (Setup.phase_ne_setup _)
  | stalled b hph => exact absurd (hph.symm.trans hp) (Setup.phase_ne_setup _)
  | close t hu hl =>
    obtain ⟨-, p, hps⟩ | ⟨-, hph⟩ := hl
    · rw [hp] at hps
      cases hps
    · exact absurd (hph.symm.trans hp) (Setup.phase_ne_setup _)

end Mode

end Emlinux.Gadget
