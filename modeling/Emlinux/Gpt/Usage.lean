import Emlinux.Gpt.Timer
import Mathlib.Tactic

/-!
# The usage count of the timer

`Counted`: the count is the number of users and the module is enabled exactly while it is positive. The count is a byte,
and the compare branch of `gpt_isr` leaves the compare interrupt armed: when another user keeps the counter running, the
next match is served again and releases a user that has already gone.

* `Inv.step`: a matched action keeps the invariant.
* `Inv.broken`: every other action ends in a state that is not counted.
-/

namespace Emlinux.Gpt

open Lib

variable {t t' : Context} {s u : Sys}

/-- The count is the number of users, and the module is enabled exactly while it is positive. -/
structure Counted (s : Sys) : Prop where
  usage : s.t.usage.toNat = s.users.length
  enabled : s.t.reg.ctrl.getLsbD 0 = true ↔ 0 < s.t.usage.toNat

/-- The compare interrupt being served found a pending user. -/
def Stage.known : Stage → Bool
  | .comp _ none => false
  | _ => true

/-- The guard of the runs in which fewer than 256 users meet, and a compare interrupt finds its delayed callback
pending. -/
def Matched (s : Sys) : Action → Prop
  | .profileStart _ | .udelay _ _ | .udelayCb _ | .capture _ _ => s.users.length < 255
  | .leave => s.stage.known = true
  | _ => True

instance (s : Sys) (a : Action) : Decidable (Matched s a) := by
  cases a <;> unfold Matched <;> infer_instance

/-! ## Joining and leaving -/

/-- A context that one more user has joined. -/
structure Joined (t t' : Context) : Prop where
  usage : t'.usage = t.usage + 1#8
  enabled : (t.reg.ctrl.getLsbD 0 = true ↔ 0 < t.usage.toNat) → t'.reg.ctrl.getLsbD 0 = true
  mode : t.mode = .profile ∨ t.usage = 0#8 → t'.mode = .profile

theorem usage_ne_zero : t.usage ≠ 0#8 ↔ 0 < t.usage.toNat := by
  rw [Nat.pos_iff_ne_zero, ne_eq, ne_eq, ← BitVec.toNat_inj]
  rfl

theorem ctrlRun_enabled (c : Clk) : (ctrlRun c).getLsbD 0 = true := by
  unfold ctrlRun
  rw [BitVec.getLsbD_or, BitVec.getLsbD_or]
  simp [ctrlEn]

theorem gptProfileStart_cases (t : Context) (stack : Clk) :
    (∃ e, gptProfileStart t stack = .error e ∧ t.usage = 0#8) ∨
    ∃ t', gptProfileStart t stack = .ok t' ∧ Joined t t' ∧ t'.callback = t.callback ∧ t'.reg.ier = t.reg.ier := by
  unfold gptProfileStart
  split_ifs with h0
  · cases gptSetclk t .profile stack with
    | error e => exact Or.inl ⟨e, rfl, h0⟩
    | ok c => exact Or.inr ⟨_, rfl, ⟨rfl, fun _ => ctrlRun_enabled c, fun _ => rfl⟩, rfl, rfl⟩
  · refine Or.inr ⟨_, rfl, ⟨rfl, fun h => h.mpr (usage_ne_zero.mp h0), fun h => ?_⟩, rfl, rfl⟩
    exact h.resolve_right h0

theorem gptTimeUdelay_cases (t : Context) (w : User) (stack : Clk) :
    (∃ e, gptTimeUdelay t w stack = .error e ∧ t.usage = 0#8) ∨
    ∃ t', gptTimeUdelay t w stack = .ok t' ∧ Joined t t' ∧ t'.callback = some w ∧ t'.reg.ier = intComp ∧
      t'.mode = .profile := by
  have hor (v : Word) (h : v.getLsbD 0 = true) : (v ||| ctrlCompen).getLsbD 0 = true := by
    rw [BitVec.getLsbD_or, h, Bool.true_or]
  unfold gptTimeUdelay
  split_ifs with h0
  · exact Or.inr ⟨_, rfl, ⟨rfl, fun h => hor _ (h.mpr (usage_ne_zero.mp h0)), fun _ => rfl⟩, rfl, rfl, rfl⟩
  · rw [ne_eq, not_not] at h0
    cases hc : gptSetclk t .profile stack with
    | error e => exact Or.inl ⟨e, rfl, h0⟩
    | ok c => exact Or.inr ⟨_, rfl, ⟨rfl, fun _ => hor _ (ctrlRun_enabled c), fun _ => rfl⟩, rfl, rfl, rfl⟩

theorem gptProfileCapture_cases (t : Context) (edgedet : BitVec 8) (w : User) (stack : Clk) :
    (∃ e, gptProfileCapture t edgedet w stack = .error e ∧ t.usage = 0#8) ∨
    ∃ t', gptProfileCapture t edgedet w stack = .ok t' ∧ Joined t t' ∧ t'.callback = some w ∧ t'.reg.ier = intCap := by
  have hor (v : Word) (h : v.getLsbD 0 = true) :
      (v &&& ~~~ctrlEdgedet ||| edgedet.setWidth 32 <<< 5 ||| ctrlCapen).getLsbD 0 = true := by
    rw [BitVec.getLsbD_or, BitVec.getLsbD_or, BitVec.getLsbD_and, h]
    rfl
  unfold gptProfileCapture
  split_ifs with h0
  · exact Or.inr ⟨_, rfl, ⟨rfl, fun h => hor _ (h.mpr (usage_ne_zero.mp h0)), fun h => h.resolve_right h0⟩, rfl, rfl⟩
  · rw [ne_eq, not_not] at h0
    cases hc : gptSetclk t .capture stack with
    | error e => exact Or.inl ⟨e, rfl, h0⟩
    | ok c => exact Or.inr ⟨_, rfl, ⟨rfl, fun _ => hor _ (ctrlRun_enabled c), fun _ => rfl⟩, rfl, rfl⟩

theorem release_usage (t : Context) : (release t).usage = t.usage - 1#8 := by
  unfold release
  dsimp only
  split_ifs <;> rfl

/-- What a release leaves alone. -/
theorem release_rest (t : Context) : (release t).callback = t.callback ∧ (release t).mode = t.mode ∧
    (release t).reg.ier = t.reg.ier := by
  unfold release
  dsimp only
  split_ifs <;> exact ⟨rfl, rfl, rfl⟩

/-- The release of one of the counted users keeps the module enabled exactly for the others. -/
theorem release_enabled (h : t.reg.ctrl.getLsbD 0 = true ↔ 0 < t.usage.toNat) (hpos : 0 < t.usage.toNat) :
    (release t).reg.ctrl.getLsbD 0 = true ↔ 0 < (release t).usage.toNat := by
  rw [← usage_ne_zero, release_usage]
  unfold release
  dsimp only
  split_ifs with h0
  · simp [h0, ctrlDis]
  · simp [h0, h.mpr hpos]

/-! ## The invariant -/

/-- The serial number of a user. -/
def User.id : User → Nat
  | .sec id => id
  | .wait id _ => id
  | .delay id => id
  | .capture id => id

/-- The user whose interrupt is being served. -/
def Stage.served : Stage → Option User
  | .idle => none
  | .comp _ w => w
  | .cap w => w

/-- A user that an interrupt ends. -/
def User.awaiting : User → Prop
  | .delay _ => True
  | .capture _ => True
  | _ => False

/-- `Counted`, and what keeps it: at most one interrupt source is enabled, and the capture interrupt is enabled only
while the last capture is pending. -/
structure Inv (s : Sys) : Prop extends Counted s where
  nodup : s.users.Nodup
  fresh : ∀ w ∈ s.users, w.id < s.next
  owner : ∀ w, s.t.callback = some w → w.id < s.next ∧ w.awaiting
  served : ∀ w, s.stage.served = some w → w ∈ s.users ∧ w.awaiting
  mode : s.t.reg.ier.getLsbD 0 = true → s.t.mode = .profile
  single : s.t.reg.ier.getLsbD 1 = true → s.t.reg.ier.getLsbD 0 = false
  armed : s.t.reg.ier.getLsbD 1 = true → ∃ w, s.t.callback = some w ∧ w ∈ s.users ∧ s.stage.served ≠ some w
  inComp : ∀ stat w, s.stage = .comp stat w → stat.getLsbD 1 = false ∧ s.t.mode = .profile
  inCap : ∀ w, s.stage = .cap w → w.isSome = true

theorem Inv.counted (h : Inv s) : Counted s := h.toCounted

/-- One more user than the count has room for. -/
theorem joined_usage (hj : Joined s.t t') (h : Counted s) :
    t'.usage.toNat = s.users.length + 1 ↔ s.users.length < 255 := by
  have := h.usage
  have hlt := s.t.usage.isLt
  rw [hj.usage, BitVec.toNat_add]
  simp only [BitVec.toNat_ofNat]
  omega

theorem joined_counted {w : User} (hj : Joined s.t t') (h : Counted s) (hlt : s.users.length < 255) :
    Counted { s with t := t', users := w :: s.users, next := s.next + 1 } where
  usage := (joined_usage hj h).mpr hlt
  enabled := by
    have := (joined_usage hj h).mpr hlt
    exact ⟨fun _ => by dsimp only; omega, fun _ => hj.enabled h.enabled⟩

theorem fresh_not_mem (h : Inv s) {w : User} (hw : w.id = s.next) : w ∉ s.users := by
  intro hm
  have := h.fresh w hm
  omega

theorem fresh_join (h : Inv s) {w : User} (hw : w.id = s.next) : ∀ v ∈ w :: s.users, v.id < s.next + 1 := by
  intro v hv
  rcases List.mem_cons.mp hv with rfl | hv
  · omega
  · exact Nat.lt_succ_of_lt (h.fresh v hv)

/-- A user that joins without registering a callback. -/
theorem Inv.join (h : Inv s) (hj : Joined s.t t') {w : User} (hw : w.id = s.next) (hlt : s.users.length < 255)
    (hcb : t'.callback = s.t.callback) (hier : t'.reg.ier = s.t.reg.ier) :
    Inv { s with t := t', users := w :: s.users, next := s.next + 1 } where
  toCounted := joined_counted hj h.counted hlt
  nodup := List.nodup_cons.mpr ⟨fresh_not_mem h hw, h.nodup⟩
  fresh := fresh_join h hw
  owner v hv := ⟨Nat.lt_succ_of_lt (h.owner v (hcb ▸ hv)).1, (h.owner v (hcb ▸ hv)).2⟩
  served v hv := ⟨List.mem_cons_of_mem _ (h.served v hv).1, (h.served v hv).2⟩
  mode hi := hj.mode (Or.inl (h.mode (hier ▸ hi)))
  single hi := by
    dsimp only at hi ⊢
    rw [hier] at hi ⊢
    exact h.single hi
  armed hi := by
    dsimp only at hi ⊢
    rw [hier] at hi
    obtain ⟨v, hv, hm, hs⟩ := h.armed hi
    exact ⟨v, hcb ▸ hv, List.mem_cons_of_mem _ hm, hs⟩
  inComp stat v hs := ⟨(h.inComp stat v hs).1, hj.mode (Or.inl (h.inComp stat v hs).2)⟩
  inCap := h.inCap

/-- A user that joins and registers its callback. -/
theorem Inv.register (h : Inv s) (hj : Joined s.t t') {w : User} (hw : w.id = s.next) (ha : w.awaiting)
    (hlt : s.users.length < 255) (hcb : t'.callback = some w)
    (hier : t'.reg.ier = intComp ∧ t'.mode = .profile ∨ t'.reg.ier = intCap) :
    Inv { s with t := t', users := w :: s.users, next := s.next + 1 } where
  toCounted := joined_counted hj h.counted hlt
  nodup := List.nodup_cons.mpr ⟨fresh_not_mem h hw, h.nodup⟩
  fresh := fresh_join h hw
  owner v hv := by
    rw [hcb, Option.some.injEq] at hv
    subst hv
    exact ⟨by dsimp only; omega, ha⟩
  served v hv := ⟨List.mem_cons_of_mem _ (h.served v hv).1, (h.served v hv).2⟩
  mode hi := by
    rcases hier with ⟨-, hm⟩ | hier
    · exact hm
    · rw [hier] at hi
      cases hi
  single hi := by
    dsimp only at hi ⊢
    rcases hier with ⟨hier, -⟩ | hier
    · rw [hier] at hi
      cases hi
    · rw [hier]
      rfl
  armed _ := by
    refine ⟨w, hcb, List.mem_cons_self, fun hs => ?_⟩
    exact fresh_not_mem h hw (h.served w hs).1
  inComp stat v hs := ⟨(h.inComp stat v hs).1, hj.mode (Or.inl (h.inComp stat v hs).2)⟩
  inCap := h.inCap

theorem release_counted (h : Counted s) {w : User} (hw : w ∈ s.users) (g : Stage) :
    Counted { s with t := release s.t, stage := g, users := s.users.erase w } where
  usage := by
    have := h.usage
    have hpos := List.length_pos_of_mem hw
    dsimp only
    rw [release_usage, List.length_erase_of_mem hw, BitVec.toNat_sub]
    simp only [BitVec.toNat_ofNat]
    omega
  enabled := release_enabled h.enabled (by rw [h.usage]; exact List.length_pos_of_mem hw)

/-- A counted user leaves: the one being served, or one that no interrupt ends. -/
theorem Inv.quit (h : Inv s) {w : User} (hw : w ∈ s.users) (g : Stage)
    (hg : g = .idle ∧ s.stage.served = some w ∨ g = s.stage ∧ ¬ w.awaiting) :
    Inv { s with t := release s.t, stage := g, users := s.users.erase w } where
  toCounted := release_counted h.counted hw g
  nodup := h.nodup.erase w
  fresh v hv := h.fresh v (List.mem_of_mem_erase hv)
  owner v hv := h.owner v ((release_rest s.t).1 ▸ hv)
  served v hv := by
    dsimp only at hv ⊢
    rcases hg with ⟨rfl, -⟩ | ⟨rfl, hna⟩
    · cases hv
    · obtain ⟨hm, ha⟩ := h.served v hv
      have hne : v ≠ w := fun he => hna (he ▸ ha)
      exact ⟨(List.mem_erase_of_ne hne).mpr hm, ha⟩
  mode hi := by
    dsimp only at hi ⊢
    rw [(release_rest s.t).2.2] at hi
    rw [(release_rest s.t).2.1]
    exact h.mode hi
  single hi := by
    dsimp only at hi ⊢
    rw [(release_rest s.t).2.2] at hi ⊢
    exact h.single hi
  armed hi := by
    dsimp only at hi ⊢
    rw [(release_rest s.t).2.2] at hi
    obtain ⟨v, hv, hm, hs⟩ := h.armed hi
    rw [(release_rest s.t).1]
    rcases hg with ⟨rfl, hsw⟩ | ⟨rfl, hna⟩
    · have hne : v ≠ w := fun he => hs (he ▸ hsw)
      refine ⟨v, hv, (List.mem_erase_of_ne hne).mpr hm, ?_⟩
      simp [Stage.served]
    · have hne : v ≠ w := fun he => hna (he ▸ (h.owner v hv).2)
      exact ⟨v, hv, (List.mem_erase_of_ne hne).mpr hm, hs⟩
  inComp stat v hs := by
    dsimp only at hs ⊢
    rw [(release_rest s.t).2.1]
    rcases hg with ⟨rfl, -⟩ | ⟨rfl, -⟩
    · cases hs
    · exact h.inComp stat v hs
  inCap v hs := by
    dsimp only at hs
    rcases hg with ⟨rfl, -⟩ | ⟨rfl, -⟩
    · cases hs
    · exact h.inCap v hs

/-- A change of the counter and of the raised interrupts. -/
theorem Inv.same (h : Inv s) {r : Regs} (hc : r.ctrl = s.t.reg.ctrl) (hi : r.ier = s.t.reg.ier) :
    Inv { s with t := { s.t with reg := r } } := by
  obtain ⟨⟨h1, h2⟩, h3, h4, h5, h6, h7, h8, h9, h10, h11⟩ := h
  rw [← hc] at h2
  rw [← hi] at h7 h8 h9
  exact ⟨⟨h1, h2⟩, h3, h4, h5, h6, h7, h8, h9, h10, h11⟩

theorem serving_eq_some {w : User} : s.serving = some w ↔ s.t.callback = some w ∧ w ∈ s.users := by
  unfold Sys.serving
  rw [Option.filter_eq_some_iff]
  simp

theorem Inv.enterCap (h : Inv s) (hi : s.t.reg.ier.getLsbD 1 = true) : Inv s.enterCap := by
  obtain ⟨w, hcb, hw, -⟩ := h.armed hi
  have hier : s.enterCap.t.reg.ier.getLsbD 1 = false := by
    show (s.t.reg.ier &&& ~~~intCap).getLsbD 1 = false
    rw [BitVec.getLsbD_and]
    simp [intCap]
  constructor
  · constructor
    · exact h.usage
    · dsimp only [Sys.enterCap]
      rw [← h.enabled, BitVec.getLsbD_and]
      simp [ctrlCapen, ctrlEdgedet]
  · exact h.nodup
  · exact h.fresh
  · exact h.owner
  · intro v hv
    obtain ⟨hc, hm⟩ := serving_eq_some.mp hv
    exact ⟨hm, (h.owner v hc).2⟩
  · intro h0
    simp only [Sys.enterCap, BitVec.getLsbD_and, Bool.and_eq_true] at h0
    exact h.mode h0.1
  · intro h1
    rw [hier] at h1
    cases h1
  · intro h1
    rw [hier] at h1
    cases h1
  · intro stat v hs
    cases hs
  · intro v hs
    cases hs
    rw [serving_eq_some.mpr ⟨hcb, hw⟩]
    rfl

theorem Inv.enterIsr (h : Inv s) : Inv s.enterIsr := by
  unfold Sys.enterIsr
  dsimp only
  split_ifs with h0 h1
  · rw [BitVec.getLsbD_and, Bool.and_eq_true] at h0
    have hcap : s.t.reg.ier.getLsbD 1 = false := by
      by_contra hne
      rw [Bool.not_eq_false] at hne
      rw [h.single hne] at h0
      cases h0.1
    constructor
    · exact ⟨h.usage, h.enabled⟩
    · exact h.nodup
    · exact h.fresh
    · exact h.owner
    · intro v hv
      obtain ⟨hc, hm⟩ := serving_eq_some.mp hv
      exact ⟨hm, (h.owner v hc).2⟩
    · exact h.mode
    · exact h.single
    · intro hi
      rw [hcap] at hi
      cases hi
    · intro stat v hs
      cases hs
      refine ⟨?_, h.mode h0.1⟩
      rw [BitVec.getLsbD_and, hcap, Bool.false_and]
    · intro v hs
      cases hs
  · rw [BitVec.getLsbD_and, Bool.and_eq_true] at h1
    exact Inv.enterCap (h.same rfl rfl) h1.1
  · exact h.same rfl rfl

theorem Inv.leaveIsr (h : Inv s) (hk : s.stage.known = true) (hu : s.leaveIsr = some u) : Inv u := by
  unfold Sys.leaveIsr at hu
  cases hst : s.stage with
  | idle => simp [hst] at hu
  | comp stat w =>
    obtain ⟨hstat, hmode⟩ := h.inComp stat w hst
    rw [hst] at hk hu
    cases w with
    | none => cases hk
    | some w =>
      simp only [if_pos hmode, Sys.retire, Option.elim_some, hstat, Bool.false_eq_true, if_false, Option.some.injEq] at hu
      subst hu
      have hs : s.stage.served = some w := by rw [hst]; rfl
      exact h.quit (h.served w hs).1 .idle (Or.inl ⟨rfl, hs⟩)
  | cap w =>
    have hw := h.inCap w hst
    obtain ⟨w, rfl⟩ := Option.isSome_iff_exists.mp hw
    rw [hst] at hu
    simp only [Sys.retire, Option.elim_some, Option.some.injEq] at hu
    subst hu
    have hs : s.stage.served = some w := by rw [hst]; rfl
    exact h.quit (h.served w hs).1 .idle (Or.inl ⟨rfl, hs⟩)

/-- A matched action keeps the invariant. -/
theorem Inv.step {a : Action} (h : Inv s) (hok : Matched s a) (hu : s.step a = some u) : Inv u := by
  cases a with
  | profileStart stack =>
    cases hu
    rcases gptProfileStart_cases s.t stack with ⟨e, he, -⟩ | ⟨t', he, hj, hcb, hier⟩
    · rw [he]
      exact h
    · rw [he]
      exact h.join hj rfl hok hcb hier
  | udelay usec stack =>
    simp only [Sys.step, Option.some.injEq] at hu
    subst hu
    rcases gptProfileStart_cases s.t stack with ⟨e, he, -⟩ | ⟨t', he, hj, hcb, hier⟩
    · rw [he]
      exact h
    · rw [he]
      exact h.join hj rfl hok hcb hier
  | udelayCb stack =>
    cases hu
    rcases gptTimeUdelay_cases s.t (.delay s.next) stack with ⟨e, he, -⟩ | ⟨t', he, hj, hcb, hier, hmode⟩
    · rw [he]
      exact h
    · rw [he]
      exact h.register hj rfl trivial hok hcb (Or.inl ⟨hier, hmode⟩)
  | capture edgedet stack =>
    cases hu
    rcases gptProfileCapture_cases s.t edgedet (.capture s.next) stack with ⟨e, he, -⟩ | ⟨t', he, hj, hcb, hier⟩
    · rw [he]
      exact h
    · rw [he]
      exact h.register hj rfl trivial hok hcb (Or.inr hier)
  | profileEnd id =>
    simp only [Sys.step] at hu
    split_ifs at hu with hm
    cases hu
    exact h.quit hm s.stage (Or.inr ⟨rfl, fun ha => ha⟩)
  | poll id limit =>
    simp only [Sys.step] at hu
    split_ifs at hu with hm hlt
    · cases hu
      exact h
    · cases hu
      exact h.quit hm s.stage (Or.inr ⟨rfl, fun ha => ha⟩)
  | enter =>
    simp only [Sys.step] at hu
    split_ifs at hu
    cases hu
    exact h.enterIsr
  | leave => exact h.leaveIsr hok hu
  | elapse n =>
    cases hu
    unfold Sys.elapse
    dsimp only
    split_ifs
    · exact h.same rfl rfl
    · exact h.same rfl rfl
    · exact h
  | edge =>
    cases hu
    unfold Sys.edge
    dsimp only
    split_ifs
    · exact h.same rfl rfl
    · exact h

/-- An action that is not matched ends in a state that is not counted. -/
theorem Inv.broken {a : Action} (h : Inv s) (hok : ¬ Matched s a) (hu : s.step a = some u) : ¬ Counted u := by
  have hlt := s.t.usage.isLt
  have hlen := h.usage
  -- a full count wraps to zero
  have hfull (hn : ¬ s.users.length < 255) {t' : Context} {w : User} (hj : Joined s.t t')
      (hc : Counted { s with t := t', users := w :: s.users, next := s.next + 1 }) : False :=
    hn ((joined_usage hj h.counted).mp hc.usage)
  have hpos (hn : ¬ s.users.length < 255) : s.t.usage ≠ 0#8 := usage_ne_zero.mpr (by omega)
  cases a with
  | profileStart stack =>
    cases hu
    rcases gptProfileStart_cases s.t stack with ⟨e, -, h0⟩ | ⟨t', he, hj, -⟩
    · exact absurd h0 (hpos hok)
    · rw [he]
      exact hfull hok hj
  | udelay usec stack =>
    simp only [Sys.step, Option.some.injEq] at hu
    subst hu
    rcases gptProfileStart_cases s.t stack with ⟨e, -, h0⟩ | ⟨t', he, hj, -⟩
    · exact absurd h0 (hpos hok)
    · rw [he]
      exact hfull hok hj
  | udelayCb stack =>
    cases hu
    rcases gptTimeUdelay_cases s.t (.delay s.next) stack with ⟨e, -, h0⟩ | ⟨t', he, hj, -⟩
    · exact absurd h0 (hpos hok)
    · rw [he]
      exact hfull hok hj
  | capture edgedet stack =>
    cases hu
    rcases gptProfileCapture_cases s.t edgedet (.capture s.next) stack with ⟨e, -, h0⟩ | ⟨t', he, hj, -⟩
    · exact absurd h0 (hpos hok)
    · rw [he]
      exact hfull hok hj
  | leave =>
    change ¬ s.stage.known = true at hok
    cases hst : s.stage with
    | idle => simp [hst, Stage.known] at hok
    | cap w => simp [hst, Stage.known] at hok
    | comp stat w =>
      obtain ⟨hstat, hmode⟩ := h.inComp stat w hst
      cases w with
      | some w => simp [hst, Stage.known] at hok
      | none =>
        -- nobody is released, but the count goes down
        simp only [Sys.step, Sys.leaveIsr, hst, if_pos hmode, Sys.retire, Option.elim_none, hstat, Bool.false_eq_true, if_false,
          Option.some.injEq] at hu
        subst hu
        intro hc
        have hcu := hc.usage
        dsimp only at hcu
        rw [release_usage, ← hlen, BitVec.toNat_sub] at hcu
        simp only [BitVec.toNat_ofNat] at hcu
        omega
  | _ => exact absurd trivial hok

theorem gptInit_fresh {polls : Nat} {comp : Word} (h : (gptInit t polls comp).1 = errNone) :
    (gptInit t polls comp).2.usage = 0#8 ∧ (gptInit t polls comp).2.reg.ctrl = 0#32 ∧
      (gptInit t polls comp).2.reg.ier = 0#32 := by
  by_cases hid : t.reg.idr >>> 16 ≠ 0x0802#32
  · rw [gptInit, if_pos hid] at h
    cases h
  · by_cases hp : 300 < polls
    · simp [gptInit, if_neg hid, gptReset, if_pos hp, errHw, errNone] at h
    · by_cases hc : comp ≠ ~~~0#32
      · simp [gptInit, if_neg hid, gptReset, if_neg hp, Regs.reset, errHw, errNone, show comp ≠ 4294967295#32 from hc] at h
      · rw [not_not] at hc
        rw [gptInit, if_neg hid, gptReset, if_neg hp, hc]
        exact ⟨rfl, rfl, rfl⟩

theorem inv_start {polls : Nat} {comp : Word} (h : (gptInit t polls comp).1 = errNone) : Inv (start t polls comp) := by
  obtain ⟨husage, hctrl, hier⟩ := gptInit_fresh h
  have hier' : (start t polls comp).t.reg.ier = 0#32 := hier
  constructor
  · constructor
    · show (gptInit t polls comp).2.usage.toNat = 0
      rw [husage]
      rfl
    · show (gptInit t polls comp).2.reg.ctrl.getLsbD 0 = true ↔ 0 < (gptInit t polls comp).2.usage.toNat
      rw [hctrl, husage]
      simp
  · exact List.nodup_nil
  · intro w hw
    cases hw
  · intro w hw
    cases hw
  · intro w hw
    cases hw
  · intro hi
    rw [hier'] at hi
    cases hi
  · intro hi
    rw [hier'] at hi
    cases hi
  · intro hi
    rw [hier'] at hi
    cases hi
  · intro stat w hw
    cases hw
  · intro w hw
    cases hw

/-- In every run of matched actions the usage count is right; and an action from there leaves it right exactly when it
is matched. -/
theorem usage_counted (t : Context) (polls : Nat) (comp : Word)
    (h₀ : (gptInit t polls comp).1 = errNone) (s : Sys) (h : Run Sys.step Matched (start t polls comp) s) :
    Counted s ∧ ∀ a u, s.step a = some u → (Counted u ↔ Matched s a) := by
  have hs : Inv s := h.invariant (inv_start h₀) fun _ _ _ ht hok hu => ht.step hok hu
  refine ⟨hs.counted, fun a u hu => ⟨fun hc => ?_, fun hok => (hs.step hok hu).counted⟩⟩
  by_contra hok
  exact hs.broken hok hu hc

/-- A timer of 1 MHz. -/
def bare : Context :=
  ⟨⟨0x08020000#32, 0#32, 0#32, 0#32, 0#32, 0#32, 0#32, 0#32⟩, 32000000#32, 32000000#32, none, 1000000#32, .none, 0#8⟩

/-- An uninitialised `gpt_clk_t`. -/
def junk : Clk := ⟨0#32, 0#16, 1000#32⟩

/-- A section, a delayed callback and a capture, each ended once. -/
def tour : List Action :=
  [.profileStart junk, .udelayCb junk, .elapse 1000, .enter, .leave, .capture 1#8 junk, .edge, .enter, .leave, .profileEnd 0]

theorem usage_counted_tour : ∃ s, Run Sys.step Matched (start bare 0 (~~~0#32)) s ∧
    (Counted s ∧ ∀ a u, s.step a = some u → (Counted u ↔ Matched s a)) ∧ s.next = 3 ∧ s.users = [] := by
  have h : Run Sys.step Matched (start bare 0 (~~~0#32)) _ := .of_isSome tour (by decide +kernel)
  exact ⟨_, h, usage_counted bare 0 (~~~0#32) (by decide +kernel) _ h, by decide +kernel, by decide +kernel⟩

/-- A section keeps the counter running after a delayed callback: the next match of the compare register takes the
section's count and stops the timer. -/
theorem section_loses_timer : ∃ s, Run Sys.step free (start bare 0 (~~~0#32)) s ∧ ¬ Counted s ∧
    s.users = [.sec 0] ∧ s.t.usage = 0#8 := by
  have h : Run Sys.step free (start bare 0 (~~~0#32)) _ :=
    .of_isSome [.profileStart junk, .udelayCb junk, .elapse 1000, .enter, .leave, .elapse (2 ^ 32), .enter, .leave]
      (by decide +kernel)
  refine ⟨_, h, fun hc => ?_, by decide +kernel, by decide +kernel⟩
  exact absurd hc.usage (by decide +kernel)

end Emlinux.Gpt
