import Emlinux.Dma.Channel
import Mathlib.Tactic

/-!
# Who owns a DMA channel

`Shared` holds in every run: the channels granted and not yet freed are distinct, they exist, and `used` has exactly
their bits. `Confined` needs the clients' help: `dma_free` leaves the active bit of the channel and its pending
interrupt, so a channel must be idle when it is freed.

* `dmaRequest_cases`: all that a request can do.
* `channels_owned`: both, over runs.
-/

namespace Emlinux.Dma

open Lib

variable {ε : Type} {t : Context ε} {s u : Sys ε} {ch i : Nat}

/-! ## Bits -/

theorem getLsbD_chIdx : (chIdx ch).getLsbD i = (decide (ch < 32) && decide (ch = i)) := by
  show (BitVec.twoPow 32 ch).getLsbD i = _
  rw [BitVec.getLsbD_twoPow]

theorem and_chIdx_eq_zero (v : Word) : v &&& chIdx ch = 0#32 ↔ v.getLsbD ch = false := by
  show v &&& BitVec.twoPow 32 ch = 0#32 ↔ _
  rw [BitVec.and_twoPow]
  cases h : v.getLsbD ch with
  | false => simp
  | true =>
    have hlt := BitVec.lt_of_getLsbD h
    simp only [if_true, Bool.true_eq_false, iff_false]
    intro h0
    have := congrArg (fun x => BitVec.getLsbD x ch) h0
    simp [hlt] at this

theorem getLsbD_set (v : Word) (hch : ch < 32) : (v ||| chIdx ch).getLsbD i = true ↔ i = ch ∨ v.getLsbD i = true := by
  rw [BitVec.getLsbD_or, getLsbD_chIdx]
  simp only [hch, decide_true, Bool.true_and, Bool.or_eq_true, decide_eq_true_eq]
  rw [or_comm, eq_comm]

theorem getLsbD_clear (v : Word) : (v &&& ~~~chIdx ch).getLsbD i = true ↔ v.getLsbD i = true ∧ i ≠ ch := by
  rw [BitVec.getLsbD_and, BitVec.getLsbD_not, getLsbD_chIdx, Bool.and_eq_true]
  apply and_congr_right
  intro h
  have hlt := BitVec.lt_of_getLsbD h
  simp only [hlt, decide_true, Bool.true_and, Bool.not_eq_true', Bool.and_eq_false_iff, decide_eq_false_iff_not]
  omega

theorem set_clear (v : Word) (h : v &&& chIdx ch = 0#32) : (v ||| chIdx ch) &&& ~~~chIdx ch = v := by
  rw [and_chIdx_eq_zero] at h
  apply BitVec.eq_of_getLsbD_eq
  intro i hi
  apply Bool.eq_iff_iff.mpr
  rw [getLsbD_clear, BitVec.getLsbD_or, getLsbD_chIdx, Bool.or_eq_true]
  by_cases hc : i = ch
  · subst hc
    simp [h]
  · simp [hc, Ne.symm hc]

/-! ## The owners in the notes -/

@[simp] theorem owned_granted (l : List (Note ε)) : owned (l ++ [.granted ch]) = ch :: owned l := by
  simp [owned]

@[simp] theorem owned_freed (l : List (Note ε)) : owned (l ++ [.freed ch]) = (owned l).filter (· ≠ ch) := by
  simp [owned]

@[simp] theorem owned_called (l : List (Note ε)) (e : ε) : owned (l ++ [.called ch e]) = owned l := by
  simp [owned]

/-- Every callback is of a channel owned at that time. -/
def CallsOwned (l : List (Note ε)) : Prop :=
  ∀ pre post ch e, l = pre ++ .called ch e :: post → ch ∈ owned pre

theorem callsOwned_nil : CallsOwned ([] : List (Note ε)) := by
  intro pre post ch e h
  simp at h

theorem CallsOwned.snoc {l : List (Note ε)} {n : Note ε} (h : CallsOwned l)
    (hn : ∀ ch e, n = .called ch e → ch ∈ owned l) : CallsOwned (l ++ [n]) := by
  intro pre post ch e he
  rcases List.eq_nil_or_concat post with rfl | ⟨post, m, rfl⟩
  · obtain ⟨rfl, hm⟩ := List.append_inj' he rfl
    exact hn ch e (List.singleton_inj.mp hm)
  · rw [List.concat_eq_append, ← List.cons_append, ← List.append_assoc] at he
    obtain ⟨hl, -⟩ := List.append_inj' he rfl
    exact h pre post ch e hl

/-! ## What each operation does -/

/-- What the operations on one channel leave alone. -/
structure Calm (t t' : Context ε) : Prop where
  channels : t'.channels = t.channels
  isr : t'.r.isr = t.r.isr
  busy : ∀ i, (t'.r.ch i).busy = true → (t.r.ch i).busy = true

theorem Calm.trans {t' t'' : Context ε} (h : Calm t t') (h' : Calm t' t'') : Calm t t'' where
  channels := h'.channels.trans h.channels
  isr := h'.isr.trans h.isr
  busy i hi := h.busy i (h'.busy i hi)

/-- A change of one channel that starts no transfer. -/
theorem Calm.of_setCh {t' : Context ε} {f : Chan → Chan} (hc : t'.channels = t.channels) (hi : t'.r.isr = t.r.isr)
    (hr : t'.r.ch = (t.r.setCh ch f).ch) (hf : ∀ c : Chan, (f c).busy = true → c.busy = true) : Calm t t' where
  channels := hc
  isr := hi
  busy i h := by
    rw [hr] at h
    simp only [Chip.setCh, Function.update_apply] at h
    split_ifs at h with he
    · subst he
      exact hf _ h
    · exact h

theorem busy_wrCfg_rst (c : Chan) : (c.wrCfg cfgRst).busy = false := rfl

theorem cfgWord_low (cfg : Cfg ε) (sw dw burst : Byte) (hi : i < 3) : (cfgWord cfg sw dw burst).getLsbD i = false := by
  have h8 : (8#32 : Word).getLsbD i = false := by
    interval_cases i <;> rfl
  unfold cfgWord
  simp only [BitVec.getLsbD_or, BitVec.getLsbD_shiftLeft, Bool.or_eq_false_iff, apply_ite (BitVec.getLsbD · i)]
  have h16 : i < 16 := by omega
  have h18 : i < 18 := by omega
  have h20 : i < 20 := by omega
  have h24 : i < 24 := by omega
  have h26 : i < 26 := by omega
  have h28 : i < 28 := by omega
  have h88 : i < 8 := by omega
  simp [h8, h16, h18, h20, h24, h26, h28, h88]

theorem dmaFifoparm_cases (f : Fifo) (size : Byte) (count : Word) :
    dmaFifoparm f size count = .error errParm ∨ ∃ w, dmaFifoparm f size count = .ok w := by
  unfold dmaFifoparm
  dsimp only
  split_ifs <;> simp

theorem cfgCheck_cases (size : Byte) (cfg : Cfg ε) :
    cfgCheck size cfg = .error errParm ∨ ∃ sw dw burst, cfgCheck size cfg = .ok (cfgWord cfg sw dw burst) := by
  unfold cfgCheck
  dsimp only
  split_ifs
  · exact Or.inl rfl
  · exact Or.inl rfl
  · -- both sides are FIFOs
    rcases dmaFifoparm_cases cfg.src size cfg.count with hs | ⟨w, hs⟩
    · exact Or.inl (by rw [hs]; rfl)
    · rcases dmaFifoparm_cases cfg.dst size cfg.count with hd | ⟨w', hd⟩
      · exact Or.inl (by rw [hs, hd]; rfl)
      · exact Or.inr ⟨w, w', _, by rw [hs, hd]; rfl⟩
  · rcases dmaFifoparm_cases cfg.src size cfg.count with hs | ⟨w, hs⟩
    · exact Or.inl (by rw [hs]; rfl)
    · exact Or.inr ⟨w, _, _, by rw [hs]; rfl⟩
  · rcases dmaFifoparm_cases cfg.dst size cfg.count with hd | ⟨w', hd⟩
    · exact Or.inl (by rw [hd]; rfl)
    · exact Or.inr ⟨_, w', _, by rw [hd]; rfl⟩
  · exact Or.inr ⟨_, _, _, rfl⟩

theorem busy_wrCfg {c : Chan} {v : Word} (hv : v.getLsbD 0 = false) (h : (c.wrCfg v).busy = true) : c.busy = true := by
  unfold Chan.wrCfg at h
  split_ifs at h
  · exact absurd h Bool.false_ne_true
  · simp only [hv, Bool.or_false] at h
    exact h

/-- A configuration fails with `DMA_ERR_PARM` and changes nothing, or succeeds. -/
theorem dmaCfg_cases (t : Context ε) (ch : Nat) (cfg : Cfg ε) :
    dmaCfg t ch cfg = (errParm, t) ∨
    (dmaCfg t ch cfg).1 = errNone ∧ Calm t (dmaCfg t ch cfg).2 ∧ (dmaCfg t ch cfg).2.used = t.used ∧
      (dmaCfg t ch cfg).2.active = t.active := by
  have haddr (t : Context ε) : Calm t { t with r := t.r.setCh ch (·.wrAddr cfg) } :=
    .of_setCh rfl rfl rfl fun c hc => hc
  unfold dmaCfg
  split_ifs with hf
  · rcases cfgCheck_cases t.fifosize cfg with hc | ⟨sw, dw, burst, hc⟩
    · rw [hc]
      exact Or.inl rfl
    · rw [hc]
      have hw : Calm t { t with r := t.r.setCh ch (·.wrCfg (cfgWord cfg sw dw burst)), evt := Function.update t.evt ch cfg.evt } :=
        .of_setCh rfl rfl rfl fun c hc => busy_wrCfg (cfgWord_low cfg sw dw burst (by decide)) hc
      exact Or.inr ⟨rfl, hw.trans (haddr _), rfl, rfl⟩
  · exact Or.inr ⟨rfl, haddr t, rfl, rfl⟩

theorem calm_dmaFree (t : Context ε) (ch : Nat) : Calm t (dmaFree t ch) :=
  .of_setCh rfl rfl rfl fun c hc => by simp [busy_wrCfg_rst] at hc

/-- The first free channel, and that all are in use when there is none. -/
theorem dmaAlloc_some (h : dmaAlloc t = some ch) : ch < t.channels ∧ t.used &&& chIdx ch = 0#32 := by
  have hm := List.mem_of_find?_eq_some h
  have hp := List.find?_some h
  exact ⟨List.mem_range.mp hm, by simpa using hp⟩

theorem dmaAlloc_none : dmaAlloc t = none ↔ ∀ ch < t.channels, t.used.getLsbD ch = true := by
  unfold dmaAlloc
  rw [List.find?_eq_none]
  simp [and_chIdx_eq_zero]

/-- All that a request does: it fails without a trace in `used`, `active` and the callbacks, or takes a free channel. -/
theorem dmaRequest_cases (t : Context ε) (cfg : Cfg ε) :
    ((dmaRequest t cfg).1 < 0 ∧ Calm t (dmaRequest t cfg).2 ∧ (dmaRequest t cfg).2.used = t.used ∧
      (dmaRequest t cfg).2.active = t.active ∧ (dmaRequest t cfg).2.evt = t.evt ∧
      ((dmaRequest t cfg).1 = errFull ↔ cfg.flag = fAll ∧ dmaAlloc t = none)) ∨
    ∃ ch, dmaAlloc t = some ch ∧ (dmaRequest t cfg).1 = ch ∧ Calm t (dmaRequest t cfg).2 ∧
      (dmaRequest t cfg).2.used = t.used ||| chIdx ch ∧ (dmaRequest t cfg).2.active = t.active := by
  unfold dmaRequest
  split_ifs with hf
  · exact Or.inl ⟨show errCfg < 0 by decide, ⟨rfl, rfl, fun _ h => h⟩, rfl, rfl, rfl, by simp [hf, errCfg, errFull]⟩
  · rw [not_not] at hf
    cases ha : dmaAlloc t with
    | none =>
      exact Or.inl ⟨show errFull < 0 by decide, ⟨rfl, rfl, fun _ h => h⟩, rfl, rfl, rfl, by simp [hf]⟩
    | some ch =>
      dsimp only
      have hset : Calm t { t with used := t.used ||| chIdx ch } := ⟨rfl, rfl, fun _ h => h⟩
      rcases dmaCfg_cases { t with used := t.used ||| chIdx ch } ch cfg with hc | ⟨hc, hcalm, hu, hac⟩
      · -- the configuration is refused: the channel is given back
        rw [hc]
        refine Or.inl ⟨show errParm < 0 by decide, hset.trans (calm_dmaFree _ ch), ?_, rfl, rfl, ?_⟩
        · exact set_clear t.used (dmaAlloc_some ha).2
        · simp [errParm, errFull]
      · refine Or.inr ⟨ch, rfl, ?_⟩
        generalize dmaCfg { t with used := t.used ||| chIdx ch } ch cfg = p at hc hcalm hu hac
        obtain ⟨rt, t'⟩ := p
        cases hc
        have hier : Calm t' { t' with r := { t'.r with ier := t'.r.ier ||| chIdx ch }.setCh ch fun c => { c with ier := irqErr ||| irqDone } } :=
          .of_setCh (f := fun c => { c with ier := irqErr ||| irqDone }) rfl rfl rfl fun _ hc => hc
        exact ⟨rfl, (hset.trans hcalm).trans hier, hu, hac⟩

/-! ## Runs -/

/-- What holds of the channels whatever the clients do. -/
structure Shared (s : Sys ε) : Prop where
  room : s.dma.channels ≤ maxChannels
  nodup : (owned s.log).Nodup
  below : ∀ ch ∈ owned s.log, ch < s.dma.channels
  used : ∀ ch, s.dma.used.getLsbD ch = true ↔ ch ∈ owned s.log

/-- An interrupt of the channel is raised, or latched by the routine under way and not yet served. -/
def pending (s : Sys ε) (ch : Nat) : Bool :=
  s.dma.r.isr.getLsbD ch || match s.stage with
    | none => false
    | some (sta, n) => decide (n ≤ ch) && sta.getLsbD ch

/-- The guard of the runs in which clients free only idle channels. -/
def Idle (s : Sys ε) : Action ε → Prop
  | .free ch => s.dma.active.getLsbD ch = false ∧ pending s ch = false
  | _ => True

instance (s : Sys ε) (a : Action ε) : Decidable (Idle s a) := by
  cases a <;> unfold Idle <;> infer_instance

/-- Nothing goes on in a channel without an owner. -/
structure Confined (s : Sys ε) : Prop where
  active : ∀ ch, s.dma.active.getLsbD ch = true → ch ∈ owned s.log
  busy : ∀ ch, (s.dma.r.ch ch).busy = true → ch ∈ owned s.log
  pending : ∀ ch, pending s ch = true → ch ∈ owned s.log
  called : CallsOwned s.log

theorem Shared.same {s' : Sys ε} (h : Shared s) (hc : s'.dma.channels = s.dma.channels) (hu : s'.dma.used = s.dma.used)
    (ho : owned s'.log = owned s.log) : Shared s' where
  room := hc ▸ h.room
  nodup := ho ▸ h.nodup
  below := by
    rw [ho, hc]
    exact h.below
  used := by
    rw [ho, hu]
    exact h.used

theorem step_request (s : Sys ε) (cfg : Cfg ε) : step s (.request cfg) = some { s with
    dma := (dmaRequest s.dma cfg).2
    log := s.log ++ if 0 ≤ (dmaRequest s.dma cfg).1 then [.granted (dmaRequest s.dma cfg).1.toNat] else [] } := rfl

theorem Shared.request (h : Shared s) (cfg : Cfg ε) (hu : step s (.request cfg) = some u) : Shared u := by
  rw [step_request, Option.some.injEq] at hu
  subst hu
  rcases dmaRequest_cases s.dma cfg with ⟨hn, hcalm, hused, -⟩ | ⟨ch, ha, hr, hcalm, hused, -⟩
  · refine h.same hcalm.channels hused ?_
    rw [if_neg (by omega)]
    simp
  · obtain ⟨hlt, hfree⟩ := dmaAlloc_some ha
    rw [and_chIdx_eq_zero] at hfree
    have hlog : (if 0 ≤ (dmaRequest s.dma cfg).1 then [Note.granted (ε := ε) (dmaRequest s.dma cfg).1.toNat] else []) =
        [.granted ch] := by
      rw [hr]
      simp
    have hnew : ch ∉ owned s.log := fun hm => by
      rw [(h.used ch).mpr hm] at hfree
      cases hfree
    have hch : ch < 32 := lt_of_lt_of_le hlt h.room
    constructor
    · exact hcalm.channels ▸ h.room
    · dsimp only
      rw [hlog, owned_granted]
      exact List.nodup_cons.mpr ⟨hnew, h.nodup⟩
    · dsimp only
      rw [hlog, owned_granted, hcalm.channels]
      intro i hi
      rcases List.mem_cons.mp hi with rfl | hi
      · exact hlt
      · exact h.below i hi
    · dsimp only
      intro i
      rw [hlog, owned_granted, hused, getLsbD_set _ hch, List.mem_cons, h.used i]

theorem Shared.free (h : Shared s) (hu : step s (.free ch) = some u) : Shared u := by
  simp only [step] at hu
  split_ifs at hu with hown
  cases hu
  constructor
  · exact h.room
  · dsimp only
    rw [owned_freed]
    exact h.nodup.filter _
  · dsimp only
    rw [owned_freed]
    intro i hi
    exact h.below i (List.mem_of_mem_filter hi)
  · dsimp only
    intro i
    show (s.dma.used &&& ~~~chIdx ch).getLsbD i = true ↔ _
    rw [owned_freed, getLsbD_clear, h.used i, List.mem_filter]
    simp

/-- What one channel of the interrupt routine does. -/
theorem isrChannel_cases (t : Context ε) (sta : Word) (ch : Nat) :
    isrChannel t sta ch = (false, t) ∨
    (isrChannel t sta ch).1 = true ∧ sta.getLsbD ch = true ∧ Calm t (isrChannel t sta ch).2 ∧
      (isrChannel t sta ch).2.used = t.used ∧ (isrChannel t sta ch).2.active = t.active &&& ~~~chIdx ch := by
  unfold isrChannel
  dsimp only
  split_ifs with hs hc he
  · exact Or.inl rfl
  · exact Or.inl rfl
  · rw [and_chIdx_eq_zero, Bool.not_eq_false] at hs
    refine Or.inr ⟨rfl, hs, .of_setCh (f := (·.wrCfg cfgRst)) rfl rfl rfl ?_, rfl, rfl⟩
    intro c h
    simp [busy_wrCfg_rst] at h
  · rw [and_chIdx_eq_zero, Bool.not_eq_false] at hs
    exact Or.inr ⟨rfl, hs, ⟨rfl, rfl, fun _ h => h⟩, rfl, rfl⟩

theorem used_dmaAbort (t : Context ε) (ch : Nat) :
    Calm t (dmaAbort t ch).2.2 ∧ (dmaAbort t ch).2.2.used = t.used ∧
      ∀ i, (dmaAbort t ch).2.2.active.getLsbD i = true → t.active.getLsbD i = true := by
  unfold dmaAbort
  split_ifs
  · exact ⟨⟨rfl, rfl, fun _ h => h⟩, rfl, fun _ h => h⟩
  · exact ⟨⟨rfl, rfl, fun _ h => h⟩, rfl, fun _ h => h⟩
  · refine ⟨.of_setCh (f := fun c => c.wrCfg (c.cfg ||| cfgDis)) rfl rfl rfl ?_, rfl, fun i h => ((getLsbD_clear _).mp h).1⟩
    intro c h
    -- the disable bit wins over the enable bit
    have hdis : (c.cfg ||| cfgDis).getLsbD 1 = true := by
      rw [BitVec.getLsbD_or]
      exact Bool.or_eq_true_iff.mpr (Or.inr rfl)
    unfold Chan.wrCfg at h
    split_ifs at h
    exact absurd h Bool.false_ne_true

theorem step_isrNext {sta : Word} {n : Nat} (hst : s.stage = some (sta, n)) :
    step s .isrNext = if n < s.dma.channels then some ⟨(isrChannel s.dma sta n).2, some (sta, n + 1),
        s.log ++ if (isrChannel s.dma sta n).1 then [.called n ((isrChannel s.dma sta n).2.evt n)] else []⟩
      else some { s with stage := none } := by
  simp only [step, hst]

theorem Shared.step {a : Action ε} (h : Shared s) (hu : step s a = some u) : Shared u := by
  cases a with
  | request cfg => exact h.request cfg hu
  | free ch => exact h.free hu
  | cfg ch cfg =>
    simp only [Dma.step] at hu
    split_ifs at hu
    cases hu
    rcases dmaCfg_cases s.dma ch cfg with hc | ⟨-, hcalm, hused, -⟩
    · exact h.same (by rw [hc]) (by rw [hc]) rfl
    · exact h.same hcalm.channels hused rfl
  | enable ch =>
    simp only [Dma.step] at hu
    split_ifs at hu
    cases hu
    exact h.same rfl rfl rfl
  | abort ch =>
    simp only [Dma.step] at hu
    split_ifs at hu
    cases hu
    exact h.same (used_dmaAbort s.dma ch).1.channels (used_dmaAbort s.dma ch).2.1 rfl
  | isr =>
    simp only [Dma.step] at hu
    split_ifs at hu
    · cases hu
      exact h
    · cases hu
      exact h.same rfl rfl rfl
  | isrNext =>
    cases hst : s.stage with
    | none => simp [Dma.step, hst] at hu
    | some p =>
      obtain ⟨sta, n⟩ := p
      rw [step_isrNext hst] at hu
      by_cases hn : n < s.dma.channels
      · rw [if_pos hn] at hu
        cases hu
        rcases isrChannel_cases s.dma sta n with hi | ⟨hi, -, hcalm, hused, -⟩
        · exact h.same (by rw [hi]) (by rw [hi]) (by simp [hi])
        · exact h.same hcalm.channels hused (by simp [hi])
      · rw [if_neg hn] at hu
        cases hu
        exact h.same rfl rfl rfl
  | finish ch v =>
    simp only [Dma.step] at hu
    split_ifs at hu
    cases hu
    exact h.same rfl rfl rfl
  | status ch v =>
    cases hu
    exact h.same rfl rfl rfl

theorem Confined.mono {s' : Sys ε} (h : Confined s)
    (ha : ∀ i, s'.dma.active.getLsbD i = true → s.dma.active.getLsbD i = true)
    (hb : ∀ i, (s'.dma.r.ch i).busy = true → (s.dma.r.ch i).busy = true)
    (hp : ∀ i, Dma.pending s' i = true → Dma.pending s i = true)
    (ho : ∀ i ∈ owned s.log, i ∈ owned s'.log) (hc : CallsOwned s'.log) : Confined s' where
  active i hi := ho i (h.active i (ha i hi))
  busy i hi := ho i (h.busy i (hb i hi))
  pending i hi := ho i (h.pending i (hp i hi))
  called := hc

theorem Calm.pending {s' : Sys ε} (h : Calm s.dma s'.dma) (hs : s'.stage = s.stage) (i : Nat)
    (hi : Dma.pending s' i = true) : Dma.pending s i = true := by
  unfold Dma.pending at hi ⊢
  rwa [h.isr, hs] at hi

theorem Confined.request (h : Confined s) (cfg : Cfg ε) (hu : step s (.request cfg) = some u) : Confined u := by
  rw [step_request, Option.some.injEq] at hu
  subst hu
  rcases dmaRequest_cases s.dma cfg with ⟨hn, hcalm, -, hact, -⟩ | ⟨ch, -, hr, hcalm, -, hact⟩
  · rw [if_neg (by omega), List.append_nil]
    exact h.mono (fun i hi => hact ▸ hi) hcalm.busy (hcalm.pending (s := s) rfl) (fun _ hi => hi) h.called
  · rw [if_pos (by omega)]
    refine h.mono (fun i hi => hact ▸ hi) hcalm.busy (hcalm.pending (s := s) rfl) (fun i hi => ?_) (h.called.snoc ?_)
    · rw [owned_granted]
      exact List.mem_cons_of_mem _ hi
    · rintro _ _ ⟨⟩

theorem Confined.enable (h : Confined s) (hs : Shared s) (hu : step s (.enable ch) = some u) : Confined u := by
  simp only [step] at hu
  split_ifs at hu with hown
  cases hu
  have hch : ch < 32 := lt_of_lt_of_le (hs.below ch hown) hs.room
  constructor
  · intro i hi
    rcases (getLsbD_set _ hch).mp hi with rfl | hi
    · exact hown
    · exact h.active i hi
  · intro i hi
    by_cases he : i = ch
    · exact he ▸ hown
    · simp only [dmaEnable, Chip.setCh, Function.update_of_ne he] at hi
      exact h.busy i hi
  · exact h.pending
  · exact h.called

theorem Confined.free (h : Confined s) (hok : Idle s (.free ch)) (hu : step s (.free ch) = some u) : Confined u := by
  simp only [step] at hu
  split_ifs at hu with hown
  cases hu
  obtain ⟨hact, hpend⟩ := hok
  have hkeep {i : Nat} (hi : i ∈ owned s.log) (hne : i ≠ ch) : i ∈ owned (s.log ++ [Note.freed ch]) := by
    rw [owned_freed, List.mem_filter]
    exact ⟨hi, by simpa using hne⟩
  constructor
  · intro i hi
    refine hkeep (h.active i hi) ?_
    rintro rfl
    exact absurd hi (by rw [show (dmaFree s.dma i).active = s.dma.active from rfl, hact]; exact Bool.false_ne_true)
  · intro i hi
    refine hkeep (h.busy i ((calm_dmaFree s.dma ch).busy i hi)) ?_
    rintro rfl
    simp [dmaFree, Chip.setCh, busy_wrCfg_rst] at hi
  · intro i hi
    have hp : Dma.pending s i = true := (calm_dmaFree s.dma ch).pending (by rfl) i hi
    refine hkeep (h.pending i hp) ?_
    rintro rfl
    rw [hpend] at hp
    cases hp
  · exact h.called.snoc (by rintro _ _ ⟨⟩)

theorem Confined.isrNext (h : Confined s) (hu : step s .isrNext = some u) : Confined u := by
  cases hst : s.stage with
  | none => simp [step, hst] at hu
  | some p =>
    obtain ⟨sta, n⟩ := p
    have hlatch {i : Nat} (hn : n ≤ i) (hi : sta.getLsbD i = true) : Dma.pending s i = true := by
      simp [Dma.pending, hst, hn, hi]
    -- what is pending afterwards was pending before
    have hpend {t : Context ε} {l : List (Note ε)} (ht : t.r.isr = s.dma.r.isr) (i : Nat)
        (hi : Dma.pending ⟨t, some (sta, n + 1), l⟩ i = true) : Dma.pending s i = true := by
      unfold Dma.pending at hi
      simp only [ht, Bool.or_eq_true, Bool.and_eq_true, decide_eq_true_eq] at hi
      rcases hi with hi | ⟨hn, hi⟩
      · simp [Dma.pending, hi]
      · exact hlatch (by omega) hi
    rw [step_isrNext hst] at hu
    by_cases hn : n < s.dma.channels
    · rw [if_pos hn] at hu
      cases hu
      rcases isrChannel_cases s.dma sta n with hi | ⟨hi, hsta, hcalm, -, hact⟩
      · rw [hi]
        simp only [Bool.false_eq_true, if_false, List.append_nil]
        exact h.mono (fun _ hi => hi) (fun _ hi => hi) (hpend rfl) (fun _ hi => hi) h.called
      · rw [hi, if_pos rfl]
        refine h.mono (fun i hi => ?_) hcalm.busy (hpend hcalm.isr) (fun i hi => ?_) (h.called.snoc ?_)
        · rw [hact, getLsbD_clear] at hi
          exact hi.1
        · rwa [owned_called]
        · rintro _ _ ⟨⟩
          exact h.pending n (hlatch le_rfl hsta)
    · rw [if_neg hn] at hu
      cases hu
      refine h.mono (fun _ hi => hi) (fun _ hi => hi) (fun i hi => ?_) (fun _ hi => hi) h.called
      simp only [Dma.pending, Bool.or_false] at hi
      simp [Dma.pending, hi]

theorem Confined.isr (h : Confined s) (hu : step s .isr = some u) : Confined u := by
  simp only [step] at hu
  split_ifs at hu with hst h0
  · cases hu
    exact h
  · cases hu
    refine h.mono (fun _ hi => hi) (fun _ hi => hi) (fun i hi => ?_) (fun _ hi => hi) h.called
    have hi : s.dma.r.isr.getLsbD i = true := by simpa [Dma.pending] using hi
    simp [Dma.pending, hi]

theorem Confined.finish {v : Word} (h : Confined s) (hs : Shared s) (hu : step s (.finish ch v) = some u) : Confined u := by
  simp only [step] at hu
  split_ifs at hu with hbusy
  cases hu
  have hown := h.busy ch hbusy
  have hch : ch < 32 := lt_of_lt_of_le (hs.below ch hown) hs.room
  constructor
  · exact h.active
  · intro i hi
    by_cases he : i = ch
    · exact he ▸ hown
    · simp only [Chip.finish, Chip.setCh, Function.update_of_ne he] at hi
      exact h.busy i hi
  · intro i hi
    simp only [Dma.pending, Chip.finish, Bool.or_eq_true] at hi
    rw [getLsbD_set _ hch] at hi
    rcases hi with (rfl | hi) | hi
    · exact hown
    · exact h.pending i (by simp [Dma.pending, hi])
    · exact h.pending i (by simp only [Dma.pending, hi, Bool.or_true])
  · exact h.called

theorem Confined.step {a : Action ε} (h : Confined s) (hs : Shared s) (hok : Idle s a) (hu : step s a = some u) :
    Confined u := by
  cases a with
  | request cfg => exact h.request cfg hu
  | enable ch => exact h.enable hs hu
  | free ch => exact h.free hok hu
  | isr => exact h.isr hu
  | isrNext => exact h.isrNext hu
  | finish ch v => exact h.finish hs hu
  | cfg ch cfg =>
    simp only [Dma.step] at hu
    split_ifs at hu
    cases hu
    rcases dmaCfg_cases s.dma ch cfg with hc | ⟨-, hcalm, -, hact⟩
    · rw [hc]
      exact h
    · exact h.mono (fun i hi => hact ▸ hi) hcalm.busy (hcalm.pending (s := s) rfl) (fun _ hi => hi) h.called
  | abort ch =>
    simp only [Dma.step] at hu
    split_ifs at hu
    cases hu
    obtain ⟨hcalm, -, hact⟩ := used_dmaAbort s.dma ch
    exact h.mono hact hcalm.busy (hcalm.pending (s := s) rfl) (fun _ hi => hi) h.called
  | status ch v =>
    cases hu
    have hcalm : Calm s.dma { s.dma with r := s.dma.r.setCh ch fun c => { c with isr := v } } :=
      .of_setCh (f := fun c => { c with isr := v }) rfl rfl rfl fun _ hc => hc
    exact h.mono (fun _ hi => hi) hcalm.busy (hcalm.pending (s := s) rfl) (fun _ hi => hi) h.called

/-- The controller is there, and its reset ends. -/
theorem dmaInit_ok {polls : Nat} (h : (dmaInit t polls).1 = errNone) :
    ¬ (t.r.id >>> 16 ≠ 0x0801#32 ∨ (t.r.id >>> 10) &&& 0x3F#32 ≠ 1#32) ∧ ¬ 300 < polls := by
  by_cases hid : t.r.id >>> 16 ≠ 0x0801#32 ∨ (t.r.id >>> 10) &&& 0x3F#32 ≠ 1#32
  · rw [dmaInit, if_pos hid] at h
    cases h
  · refine ⟨hid, fun hp => ?_⟩
    simp [dmaInit, if_neg hid, dmaReset, if_pos hp, errHw, errNone] at h

theorem dmaInit_fresh {polls : Nat} (h : (dmaInit t polls).1 = errNone) :
    (dmaInit t polls).2.channels ≤ maxChannels ∧ (dmaInit t polls).2.used = 0#32 ∧ (dmaInit t polls).2.active = 0#32 ∧
      (dmaInit t polls).2.r.isr = 0#32 ∧ ∀ i, ((dmaInit t polls).2.r.ch i).busy = false := by
  obtain ⟨hid, hp⟩ := dmaInit_ok h
  rw [dmaInit, if_neg hid, dmaReset, if_neg hp]
  refine ⟨?_, rfl, rfl, rfl, fun _ => rfl⟩
  show (if maxChannels < capChn t.r.cap then maxChannels else capChn t.r.cap) ≤ maxChannels
  split_ifs <;> omega

theorem shared_start {polls : Nat} (h : (dmaInit t polls).1 = errNone) : Shared (start t polls) where
  room := (dmaInit_fresh h).1
  nodup := List.nodup_nil
  below _ hi := by cases hi
  used ch := by
    show (dmaInit t polls).2.used.getLsbD ch = true ↔ ch ∈ owned ([] : List (Note ε))
    rw [(dmaInit_fresh h).2.1]
    simp [owned]

theorem confined_start {polls : Nat} (h : (dmaInit t polls).1 = errNone) : Confined (start t polls) := by
  obtain ⟨-, -, hact, hisr, hbusy⟩ := dmaInit_fresh h
  constructor
  · intro i hi
    change (dmaInit t polls).2.active.getLsbD i = true at hi
    simp [hact] at hi
  · intro i hi
    change ((dmaInit t polls).2.r.ch i).busy = true at hi
    simp [hbusy i] at hi
  · intro i hi
    change ((dmaInit t polls).2.r.isr.getLsbD i || false) = true at hi
    simp [hisr] at hi
  · exact callsOwned_nil

/-- The channels are handed out soundly: the part that holds in every run. -/
structure Granted (s : Sys ε) : Prop where
  /-- the channels returned and not yet freed are distinct -/
  nodup : (owned s.log).Nodup
  below : ∀ ch ∈ owned s.log, ch < s.dma.channels
  used : ∀ ch, s.dma.used.getLsbD ch = true ↔ ch ∈ owned s.log
  full : ∀ cfg, (dmaRequest s.dma cfg).1 = errFull ↔ cfg.flag = fAll ∧ ∀ ch < s.dma.channels, ch ∈ owned s.log
  failed : ∀ cfg, (dmaRequest s.dma cfg).1 < 0 → (dmaRequest s.dma cfg).2.used = s.dma.used ∧
    (dmaRequest s.dma cfg).2.active = s.dma.active ∧ (dmaRequest s.dma cfg).2.evt = s.dma.evt

theorem Shared.granted (h : Shared s) : Granted s where
  nodup := h.nodup
  below := h.below
  used := h.used
  full cfg := by
    have hall : dmaAlloc s.dma = none ↔ ∀ ch < s.dma.channels, ch ∈ owned s.log := by
      rw [dmaAlloc_none]
      exact forall₂_congr fun ch _ => h.used ch
    rcases dmaRequest_cases s.dma cfg with ⟨-, -, -, -, -, hfull⟩ | ⟨ch, ha, hr, -⟩
    · rw [hfull, hall]
    · rw [← hall, ha, hr]
      simp only [reduceCtorEq, and_false, iff_false]
      have : errFull = -5 := rfl
      omega
  failed cfg hn := by
    rcases dmaRequest_cases s.dma cfg with ⟨-, -, hused, hact, hevt, -⟩ | ⟨ch, -, hr, -⟩
    · exact ⟨hused, hact, hevt⟩
    · omega

/-- In every run from `dma_init` the channels are handed out soundly. As long as clients free only idle channels,
only channels in use are active and only owned channels are called back. -/
theorem channels_owned (t : Context ε) (polls : Nat) (h₀ : (dmaInit t polls).1 = errNone) (s : Sys ε)
    (h : Run step free (start t polls) s) :
    Granted s ∧ (Run step Idle (start t polls) s →
      (∀ ch, s.dma.active.getLsbD ch = true → s.dma.used.getLsbD ch = true) ∧ CallsOwned s.log) := by
  have hs : Shared s := h.invariant (shared_start h₀) fun _ _ _ ht _ hu => ht.step hu
  refine ⟨hs.granted, fun hi => ?_⟩
  have hboth : Shared s ∧ Confined s :=
    hi.invariant (I := fun s => Shared s ∧ Confined s) ⟨shared_start h₀, confined_start h₀⟩
      fun _ _ _ ht hok hu => ⟨ht.1.step hu, ht.2.step ht.1 hok hu⟩
  exact ⟨fun ch hch => (hs.used ch).mpr (hboth.2.active ch hch), hboth.2.called⟩

/-- A controller of eight channels. -/
def bareChip : Chip := ⟨0x08010400#32, 0#32, 0#32, 0#32, 0#32, fun _ => ⟨0#32, 0#32, 0#32, 0#32, 0#32, 0#32, false⟩⟩

/-- A driver with numbers for callbacks. -/
def bare : Context Nat := ⟨bareChip, 0#8, 0#8, fun _ => 0, 0, 0#8, 0#32, 0#32⟩

/-- A memory to memory copy. -/
def copyCfg (flag : Word) (evt : Nat) : Cfg Nat := ⟨flag, 0#32, 0#32, 64#32, ⟨0#8, 0#8, 0#8⟩, ⟨0#8, 0#8, 0#8⟩, evt, 0#8⟩

/-- A channel that ends its transfer, is served, and is freed. -/
def useOne : List (Action Nat) :=
  [.request (copyCfg fAll 7), .request (copyCfg fAll 8), .enable 1, .enable 0, .finish 1 irqDone, .isr, .isrNext, .isrNext,
    .free 1, .abort 0, .free 0]

theorem channels_owned_two : ∃ s, Run step free (start bare 0) s ∧ Granted s ∧
    (∀ ch, s.dma.active.getLsbD ch = true → s.dma.used.getLsbD ch = true) ∧ CallsOwned s.log ∧
    s.log = [.granted 0, .granted 1, .called 1 8, .freed 1, .freed 0] := by
  have h : Run step Idle (start bare 0) _ := .of_isSome useOne (by decide +kernel)
  have hf : Run step free (start bare 0) _ := h.mono fun _ _ _ => trivial
  obtain ⟨hg, hi⟩ := channels_owned bare 0 (by decide +kernel) _ hf
  exact ⟨_, hf, hg, (hi h).1, (hi h).2, by decide +kernel⟩

/-- A channel freed while it is active keeps its active bit; freed with its interrupt pending it is called back without
an owner; and a partial configuration is refused with `DMA_ERR_CFG` also when all channels are owned. -/
theorem channel_freed_active :
    (∃ s, Run step free (start bare 0) s ∧
      ¬ ∀ ch, s.dma.active.getLsbD ch = true → s.dma.used.getLsbD ch = true) ∧
    (∃ s, Run step free (start bare 0) s ∧ ¬ CallsOwned s.log) ∧
    ∃ s cfg, Run step free (start bare 0) s ∧
      ¬ ((dmaRequest s.dma cfg).1 = errFull ↔ ∀ ch < s.dma.channels, ch ∈ owned s.log) := by
  refine ⟨?_, ?_, ?_⟩
  · have h : Run step free (start bare 0) _ :=
      .of_isSome [.request (copyCfg fAll 7), .enable 0, .free 0] (by decide +kernel)
    exact ⟨_, h, fun hall => absurd (hall 0 (by decide +kernel)) (by decide +kernel)⟩
  · have h : Run step free (start bare 0) _ :=
      .of_isSome [.request (copyCfg fAll 7), .enable 0, .finish 0 irqDone, .free 0, .isr, .isrNext] (by decide +kernel)
    exact ⟨_, h, fun hc => absurd (hc [.granted 0, .freed 0] [] 0 7 (by decide +kernel)) (by decide +kernel)⟩
  · have h : Run step free (start bare 0) _ :=
      .of_isSome (List.replicate 8 (.request (copyCfg fAll 7))) (by decide +kernel)
    refine ⟨_, copyCfg 1#32 7, h, fun hiff => ?_⟩
    exact absurd (hiff.mpr (by decide +kernel)) (by decide +kernel)

end Emlinux.Dma
