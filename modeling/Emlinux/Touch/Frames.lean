import Emlinux.Touch.Thread

/-!
# What a program reads from the touch screen

* `Registered`, `read_frame`: the input core leaves out what has not changed, and a program has all of the frame when it is told of its end.
* `snapshots_thread`: over every list of turns, a program has what the thread reports, one view for each frame.
* `lifts_alternate`, `press_between`: when the pen is lifted, and where it is.
-/

namespace Emlinux.Touch

open Lib

/-! ## The input core -/

/-- What the thread has come from, and where the pen is when it is lifted. -/
def Frame.view (v : View) : Frame → View
  | .press x y p => ⟨x, y, p⟩
  | .release => { v with pressure := 0 }

def views : View → List Frame → List View
  | _, [] => []
  | v, f :: l => f.view v :: views (f.view v) l

def InputDev.view (dev : InputDev) : View := ⟨dev.abs absX, dev.abs absY, dev.abs absPressure⟩

def IsAxis (code : Nat) : Prop := code = absX ∨ code = absY ∨ code = absPressure

/-- The device is registered for the three axes, and not for keys. -/
structure Registered (dev : InputDev) : Prop where
  syn : dev.evbit .syn = true
  key : dev.evbit .key = false
  abs : dev.evbit .abs = true
  axis : ∀ code, IsAxis code → dev.absbit code = true ∧ dev.absfuzz code = 0

section Core

variable {dev : InputDev} {code : Nat} {v : Int} {rest : List Event}

theorem registered_tsc2007Dev : Registered tsc2007Dev := by
  refine ⟨rfl, rfl, rfl, fun code hcode => ⟨?_, rfl⟩⟩
  obtain rfl | rfl | rfl := hcode <;> rfl

/-- An axis is set, whether or not it is passed on. -/
theorem inputEvent_abs (h : Registered dev) (hcode : IsAxis code) :
    inputEvent dev ⟨.abs, code, v⟩ =
      ({ dev with sync := false, abs := Function.update dev.abs code v }, if dev.abs code ≠ v then [⟨.abs, code, v⟩] else []) := by
  obtain ⟨hbit, hfuzz⟩ := h.axis code hcode
  rw [inputEvent, if_pos h.abs, inputHandleEvent]
  simp only [hbit, if_true, inputDefuzzAbsEvent, hfuzz]
  split_ifs with hsame
  · rfl
  · rw [not_not] at hsame
    rw [← hsame, Function.update_eq_self]

theorem inputEvent_key (h : Registered dev) : inputEvent dev ⟨.key, code, v⟩ = (dev, []) := by
  rw [inputEvent, if_neg (by rw [h.key]; exact Bool.false_ne_true)]

theorem inputEvent_syn (h : Registered dev) (hsync : dev.sync = false) :
    inputEvent dev ⟨.syn, synReport, v⟩ = ({ dev with sync := true }, [⟨.syn, synReport, v⟩]) := by
  rw [inputEvent, if_pos h.syn, inputHandleEvent]
  simp [hsync]

theorem view_update (hcode : IsAxis code) :
    InputDev.view { dev with sync := false, abs := Function.update dev.abs code v } = dev.view.put ⟨.abs, code, v⟩ := by
  obtain rfl | rfl | rfl := hcode <;> simp [InputDev.view, View.put, absX, absY, absPressure]

/-- A program that has the axes as the input core has them keeps having them. -/
theorem snapshots_abs (h : Registered dev) (hcode : IsAxis code) :
    snapshots dev.view ((inputEvent dev ⟨.abs, code, v⟩).2 ++ rest) = snapshots (inputEvent dev ⟨.abs, code, v⟩).1.view rest := by
  rw [inputEvent_abs h hcode, view_update hcode]
  split_ifs with hsame
  · rfl
  · rw [not_not] at hsame
    rw [← view_update hcode, ← hsame, Function.update_eq_self]
    rfl

theorem Registered.set (h : Registered dev) (hcode : IsAxis code) : Registered (inputEvent dev ⟨.abs, code, v⟩).1 := by
  rw [inputEvent_abs h hcode]
  exact ⟨h.syn, h.key, h.abs, h.axis⟩

theorem sync_set (h : Registered dev) (hcode : IsAxis code) : (inputEvent dev ⟨.abs, code, v⟩).1.sync = false := by
  rw [inputEvent_abs h hcode]

theorem view_set (h : Registered dev) (hcode : IsAxis code) :
    (inputEvent dev ⟨.abs, code, v⟩).1.view = dev.view.put ⟨.abs, code, v⟩ := by
  rw [inputEvent_abs h hcode, view_update hcode]

theorem isAxis_absX : IsAxis absX := .inl rfl

theorem isAxis_absY : IsAxis absY := .inr (.inl rfl)

theorem isAxis_absPressure : IsAxis absPressure := .inr (.inr rfl)

/-- At the end of the frame the program has all of it. -/
theorem read_frame (h : Registered dev) (f : Frame) :
    Registered (inputEvents dev f.events).1 ∧ (inputEvents dev f.events).1.view = f.view dev.view ∧
      ∀ rest, snapshots dev.view ((inputEvents dev f.events).2 ++ rest) = f.view dev.view :: snapshots (f.view dev.view) rest := by
  cases f with
  | press x y p =>
    have hx := h.set (v := x) isAxis_absX
    have hy := hx.set (v := y) isAxis_absY
    have hp := hy.set (v := p) isAxis_absPressure
    have hview : (inputEvent (inputEvent (inputEvent dev ⟨.abs, absX, x⟩).1 ⟨.abs, absY, y⟩).1 ⟨.abs, absPressure, p⟩).1.view = ⟨x, y, p⟩ := by
      rw [view_set hy isAxis_absPressure, view_set hx isAxis_absY, view_set h isAxis_absX]
      rfl
    simp only [Frame.events, inputEvents, inputEvent_key hp, inputEvent_syn hp (sync_set hy isAxis_absPressure), List.append_assoc]
    refine ⟨⟨hp.syn, hp.key, hp.abs, hp.axis⟩, hview, fun rest => ?_⟩
    rw [snapshots_abs h isAxis_absX, snapshots_abs hx isAxis_absY, snapshots_abs hy isAxis_absPressure, hview]
    rfl
  | release =>
    have hp := h.set (v := 0) isAxis_absPressure
    have hview : (inputEvent dev ⟨.abs, absPressure, 0⟩).1.view = { dev.view with pressure := 0 } := by
      rw [view_set h isAxis_absPressure]
      rfl
    simp only [Frame.events, inputEvents, inputEvent_key h, inputEvent_syn hp (sync_set h isAxis_absPressure), List.append_assoc,
      List.nil_append]
    refine ⟨⟨hp.syn, hp.key, hp.abs, hp.axis⟩, hview, fun rest => ?_⟩
    rw [snapshots_abs h isAxis_absPressure, hview]
    rfl

theorem inputEvents_append (dev : InputDev) (l l' : List Event) :
    inputEvents dev (l ++ l') =
      ((inputEvents (inputEvents dev l).1 l').1, (inputEvents dev l).2 ++ (inputEvents (inputEvents dev l).1 l').2) := by
  induction l generalizing dev with
  | nil => rfl
  | cons ev l ih => simp only [List.cons_append, inputEvents, ih, List.append_assoc]

theorem read_frames (fs : List Frame) (h : Registered dev) :
    snapshots dev.view (inputEvents dev (fs.flatMap Frame.events)).2 = views dev.view fs := by
  induction fs generalizing dev with
  | nil => rfl
  | cons f fs ih =>
    obtain ⟨hreg, hview, hread⟩ := read_frame h f
    rw [List.flatMap_cons, inputEvents_append, hread, views, ← hview, ih hreg]

theorem evbit_inputEvent (dev : InputDev) (ev : Event) : (inputEvent dev ev).1.evbit = dev.evbit := by
  unfold inputEvent inputHandleEvent
  dsimp only
  split
  · split <;> split_ifs <;> rfl
  · rfl

theorem evbit_of_mem_inputEvent {ev ev' : Event} (hev : ev ∈ (inputEvent dev ev').2) : dev.evbit ev.type = true := by
  unfold inputEvent at hev
  split_ifs at hev with hbit
  · have htype : ev.type = ev'.type := by
      unfold inputHandleEvent at hev
      dsimp only at hev
      split at hev <;> split_ifs at hev <;> simp_all
    rw [htype, hbit]
  · exact absurd hev List.not_mem_nil

/-- An event that is passed on is of a type that the device has. -/
theorem evbit_of_mem {l : List Event} : ∀ ev ∈ (inputEvents dev l).2, dev.evbit ev.type = true := by
  induction l generalizing dev with
  | nil => exact fun ev hev => absurd hev List.not_mem_nil
  | cons ev' l ih =>
    intro ev hev
    rcases List.mem_append.mp hev with hev | hev
    · exact evbit_of_mem_inputEvent hev
    · have hlater := ih ev hev
      rwa [evbit_inputEvent] at hlater

end Core

/-! ## The thread -/

section Thread

/-- Two loops over the same items. -/
theorem foldl_both {α β ι : Type} (f : α → ι → α) (g : β → ι → β) (l : List ι) (a : α) (b : β) :
    l.foldl (fun p i => (f p.1 i, g p.2 i)) (a, b) = (l.foldl f a, l.foldl g b) := by
  induction l generalizing a b with
  | nil => rfl
  | cons i l ih => exact ih (f a i) (g b i)

/-- The two arrays are sorted side by side. -/
theorem sortBoth_eq (n : Nat) (tempX tempY : Nat → Nat) : sortBoth n (tempX, tempY) = (exchangeSort n tempX, exchangeSort n tempY) := by
  have hinner : ∀ i (temp : (Nat → Nat) × (Nat → Nat)),
      (List.range' i (n - i)).foldl (fun temp x => (exchange temp.1 i x, exchange temp.2 i x)) temp =
        (selectLeast i (n - i) temp.1, selectLeast i (n - i) temp.2) := fun i temp =>
    foldl_both (fun f x => exchange f i x) (fun f x => exchange f i x) _ temp.1 temp.2
  simp only [sortBoth, hinner]
  exact foldl_both (fun f i => selectLeast i (n - i) f) (fun f i => selectLeast i (n - i) f) _ tempX tempY

/-- What a turn with a press reports. -/
structure Reports (t : Turn) (x y p : Int) : Prop where
  x : x = asInt (average (exchangeSort avgTimes t.posX))
  y : y = asInt (4096 - average (exchangeSort avgTimes t.posY))
  spreadX : exchangeSort avgTimes t.posX (avgTimes - 1) - exchangeSort avgTimes t.posX 0 ≤ 64
  spreadY : exchangeSort avgTimes t.posY (avgTimes - 1) - exchangeSort avgTimes t.posY 0 ≤ 64
  pressure : ∃ n : Nat, 32 < n ∧ n < 2 ^ 32 ∧ p = asInt n

theorem report_cases (pendown : Bool) (x y p : Nat) :
    32 < p ∧ report pendown x y p = (true, some (.press (asInt x) (asInt (4096 - y)) (asInt p))) ∨
      ¬32 < p ∧ (report pendown x y p = (pendown, none) ∨ pendown = true ∧ report pendown x y p = (false, some .release)) := by
  unfold report
  split_ifs with hp hdown
  · exact .inl ⟨hp, rfl⟩
  · exact .inr ⟨hp, .inr ⟨hdown, rfl⟩⟩
  · exact .inr ⟨hp, .inl (by rw [eq_false_of_ne_true hdown])⟩

theorem tsTurn_cases (pendown : Bool) (t : Turn) :
    tsTurn pendown t = (pendown, none) ∨ (pendown = true ∧ tsTurn pendown t = (false, some .release)) ∨
      ∃ x y p, tsTurn pendown t = (true, some (.press x y p)) ∧ Reports t x y p := by
  unfold tsTurn
  dsimp only
  rw [sortBoth_eq]
  dsimp only
  split_ifs with hpressed hspread
  · exact .inl rfl
  · rw [not_or] at hspread
    rcases report_cases pendown (average (exchangeSort avgTimes t.posX)) (average (exchangeSort avgTimes t.posY))
      (tsc2007Read (tsc2007Read t.p t.pressure) t.pressureAfter).toNat with ⟨hp, hreport⟩ | ⟨-, hreport | ⟨hdown, hreport⟩⟩
    · exact .inr (.inr ⟨_, _, _, hreport, rfl, rfl, not_lt.mp hspread.1, not_lt.mp hspread.2, ⟨_, hp, BitVec.isLt _, rfl⟩⟩)
    · exact .inl hreport
    · exact .inr (.inl ⟨hdown, hreport⟩)
  · rcases report_cases pendown 0 0 (tsc2007Read t.p t.pressure).toNat with ⟨hp, -⟩ | ⟨-, hreport | ⟨hdown, hreport⟩⟩
    · exact absurd hp hpressed
    · exact .inl hreport
    · exact .inr (.inl ⟨hdown, hreport⟩)

/-! ## Where the pen is -/

section Positions

variable {f : Nat → Nat} {a b i : Nat} {t : Turn} {x y p : Int}

/-- The mean of what is left of the positions. -/
theorem average_between (hlow : ∀ j, 1 ≤ j → j < 4 → a ≤ f j) (hhigh : ∀ j, 1 ≤ j → j < 4 → f j ≤ b)
    (hsmall : ∀ j, 1 ≤ j → j < 4 → f j < 2 ^ 12) :
    a ≤ average f ∧ average f ≤ b := by
  have hsum : average f = (f 1 + f 2 + f 3) % 2 ^ 32 / 3 := by
    simp [average, avgTimes, List.range', Nat.add_assoc]
  have h1 := hlow 1 (by omega) (by omega)
  have h2 := hlow 2 (by omega) (by omega)
  have h3 := hlow 3 (by omega) (by omega)
  have h1' := hhigh 1 (by omega) (by omega)
  have h2' := hhigh 2 (by omega) (by omega)
  have h3' := hhigh 3 (by omega) (by omega)
  have h1'' := hsmall 1 (by omega) (by omega)
  have h2'' := hsmall 2 (by omega) (by omega)
  have h3'' := hsmall 3 (by omega) (by omega)
  rw [hsum, Nat.mod_eq_of_lt (by omega)]
  omega

theorem exchangeSort_small (hf : ∀ i < avgTimes, f i < 2 ^ 12) (hi : i < avgTimes) : exchangeSort avgTimes f i < 2 ^ 12 := by
  obtain ⟨j, hj, heq⟩ := (rearranged_exchangeSort avgTimes f).inside ⟨Nat.zero_le i, hi⟩
  rw [heq]
  exact hf j hj.2

theorem average_small (hf : ∀ i < avgTimes, f i < 2 ^ 12) : average (exchangeSort avgTimes f) < 2 ^ 12 := by
  have hle : ∀ j, 1 ≤ j → j < 4 → exchangeSort avgTimes f j < 2 ^ 12 := fun j _ hj => exchangeSort_small hf (by unfold avgTimes; omega)
  exact Nat.lt_of_le_pred (by norm_num) (average_between (fun _ _ _ => Nat.zero_le _) (fun j h1 h4 => Nat.le_pred_of_lt (hle j h1 h4)) hle).2

/-- A stray position does not move the mean out of where the others are. -/
theorem average_trimmed (hf : ∀ i < avgTimes, f i < 2 ^ 12)
    (hout : ((Finset.range avgTimes).filter fun i => f i < a ∨ b < f i).card ≤ 1) :
    a ≤ average (exchangeSort avgTimes f) ∧ average (exchangeSort avgTimes f) ≤ b := by
  have hmid : ∀ j, 1 ≤ j → j < 4 → a ≤ exchangeSort avgTimes f j ∧ exchangeSort avgTimes f j ≤ b := fun j h1 h4 =>
    trimmed hout h1 (by unfold avgTimes; omega)
  exact average_between (fun j h1 h4 => (hmid j h1 h4).1) (fun j h1 h4 => (hmid j h1 h4).2)
    fun j _ h4 => exchangeSort_small hf (by unfold avgTimes; omega)

/-- The mean is no farther from a position than the positions are from each other. -/
theorem average_near (hf : ∀ i < avgTimes, f i < 2 ^ 12) (hi : i < avgTimes)
    (hspread : exchangeSort avgTimes f (avgTimes - 1) - exchangeSort avgTimes f 0 ≤ 64) :
    f i ≤ average (exchangeSort avgTimes f) + 64 ∧ average (exchangeSort avgTimes f) ≤ f i + 64 := by
  have hsort : ∀ {a b : Nat}, a ≤ b → b < 5 → exchangeSort avgTimes f a ≤ exchangeSort avgTimes f b := exchangeSort_le avgTimes f
  obtain ⟨j, hj, heq⟩ := (rearranged_exchangeSort avgTimes f).symm.inside ⟨Nat.zero_le i, hi⟩
  have hlast : avgTimes - 1 < 5 := by unfold avgTimes; omega
  have hj5 : j < 5 := hj.2
  obtain ⟨hlow, hhigh⟩ := average_between (f := exchangeSort avgTimes f) (fun j _ hj => hsort (Nat.zero_le j) (by omega))
    (fun j _ hj => hsort (b := avgTimes - 1) (by unfold avgTimes; omega) hlast) fun j _ hj => exchangeSort_small hf (by unfold avgTimes; omega)
  have hfirst := hsort (Nat.zero_le j) hj5
  have hend := hsort (a := j) (b := avgTimes - 1) (by unfold avgTimes; omega) hlast
  rw [heq]
  omega

/-- An `int` that is small. -/
theorem asInt_eq {v : Int} (hlow : -2 ^ 31 ≤ v) (hhigh : v < 2 ^ 31) : asInt v = v := by
  apply Int.bmod_eq_of_le_mul_two
  · push_cast
    omega
  · push_cast
    omega

theorem asInt_ne_zero {n : Nat} (hpos : 0 < n) (hlt : n < 2 ^ 32) : asInt n ≠ 0 := by
  intro hzero
  have hdvd := Int.natCast_dvd_natCast.mp (Int.dvd_of_bmod_eq_zero hzero)
  exact absurd (Nat.le_of_dvd hpos hdvd) (not_le.mpr hlt)

end Positions

/-! ## Every list of turns -/

section Runs

variable {ts : List Turn} {v : View} {pendown : Bool}

/-- What a program has after each event that ends a frame, from the start of the thread on. -/
def readTouch (ts : List Turn) : List View :=
  snapshots tsc2007Dev.view (inputEvents tsc2007Dev ((tsThread false ts).flatMap Frame.events)).2

/-- Whatever the transfers give: the input core leaves out the axes that have not changed, and a program that keeps the last value of each
has, at the end of each frame, what the thread has reported. `BTN_TOUCH` is never passed on. -/
theorem touch_read (ts : List Turn) :
    readTouch ts = views tsc2007Dev.view (tsThread false ts) ∧
      ∀ ev ∈ (inputEvents tsc2007Dev ((tsThread false ts).flatMap Frame.events)).2, ev.type ≠ .key := by
  refine ⟨read_frames _ registered_tsc2007Dev, fun ev hev htype => ?_⟩
  have hbit := evbit_of_mem ev hev
  rw [htype] at hbit
  exact Bool.noConfusion hbit

/-- The pen is lifted after a press only, and where it was. -/
def Lifts (v w : View) : Prop := w.pressure = 0 → v.pressure ≠ 0 ∧ w.x = v.x ∧ w.y = v.y

theorem lifts_thread (ts : List Turn) (hv : v.pressure = 0 ↔ pendown = false) :
    (v :: views v (tsThread pendown ts)).IsChain Lifts := by
  induction ts generalizing v pendown with
  | nil => exact List.isChain_singleton v
  | cons t ts ih =>
    rw [tsThread]
    rcases tsTurn_cases pendown t with hturn | ⟨hdown, hturn⟩ | ⟨x, y, p, hturn, hreports⟩
    · rw [hturn]
      exact ih hv
    · rw [hturn]
      refine List.isChain_cons_cons.mpr ⟨fun _ => ⟨?_, rfl, rfl⟩, ih (by simp [Frame.view])⟩
      rw [Ne, hv, hdown]
      exact Bool.noConfusion
    · rw [hturn]
      have hne : p ≠ 0 := by
        obtain ⟨n, hpressed, hlt, hp⟩ := hreports.pressure
        rw [hp]
        exact asInt_ne_zero ((Nat.zero_le 32).trans_lt hpressed) hlt
      exact List.isChain_cons_cons.mpr ⟨fun hzero => absurd hzero hne, ih (by simp [Frame.view, hne])⟩

/-- Whatever the transfers give: a lift is told after a press only, once, and at the place of the press. -/
theorem touch_lifts (ts : List Turn) : (tsc2007Dev.view :: readTouch ts).IsChain Lifts := by
  rw [readTouch, read_frames _ registered_tsc2007Dev]
  exact lifts_thread ts (iff_of_true rfl rfl)

/-- Where there is pressure, a turn has reported it. -/
theorem mem_views {w : View} (hv : v ∈ views w (tsThread pendown ts)) (hpressed : v.pressure ≠ 0) :
    ∃ t ∈ ts, Reports t v.x v.y v.pressure := by
  induction ts generalizing w pendown with
  | nil => exact absurd hv List.not_mem_nil
  | cons t ts ih =>
    have hlater : ∀ {w pendown}, v ∈ views w (tsThread pendown ts) → ∃ t' ∈ t :: ts, Reports t' v.x v.y v.pressure := by
      intro w pendown hmem
      obtain ⟨t', ht', hreports⟩ := ih hmem
      exact ⟨t', List.mem_cons_of_mem _ ht', hreports⟩
    rw [tsThread] at hv
    rcases tsTurn_cases pendown t with hturn | ⟨-, hturn⟩ | ⟨x, y, p, hturn, hreports⟩
    · rw [hturn] at hv
      exact hlater hv
    · rw [hturn] at hv
      rcases List.mem_cons.mp hv with rfl | hmem
      · exact absurd rfl hpressed
      · exact hlater hmem
    · rw [hturn] at hv
      rcases List.mem_cons.mp hv with rfl | hmem
      · exact ⟨t, List.mem_cons_self, hreports⟩
      · exact hlater hmem

theorem toNat_tsc2007Read (val : BitVec 32) (d : BitVec 8) : (tsc2007Read val (some d)).toNat = 16 * d.toNat := by
  have hd := d.isLt
  rw [tsc2007Read, BitVec.toNat_shiftLeft, BitVec.toNat_setWidth, Nat.shiftLeft_eq]
  omega

/-- The positions of an axis whose transfers do not fail. -/
theorem average_read {f : Nat → Nat} {d : Nat → BitVec 8} (hf : ∀ i < avgTimes, f i = 16 * (d i).toNat)
    (hspread : exchangeSort avgTimes f (avgTimes - 1) - exchangeSort avgTimes f 0 ≤ 64) :
    average (exchangeSort avgTimes f) < 2 ^ 12 ∧
      (∀ i < avgTimes, |(average (exchangeSort avgTimes f) : Int) - 16 * (d i).toNat| ≤ 64) ∧
        ∀ a b : Nat, ((Finset.range avgTimes).filter fun i => (d i).toNat < a ∨ b < (d i).toNat).card ≤ 1 →
          (16 * a : Int) ≤ average (exchangeSort avgTimes f) ∧ (average (exchangeSort avgTimes f) : Int) ≤ 16 * b := by
  have hsmall : ∀ i < avgTimes, f i < 2 ^ 12 := by
    intro i hi
    have hd := (d i).isLt
    rw [hf i hi]
    omega
  refine ⟨average_small hsmall, fun i hi => ?_, fun a b hout => ?_⟩
  · obtain ⟨hlow, hhigh⟩ := average_near hsmall hi hspread
    rw [hf i hi] at hlow hhigh
    rw [abs_le]
    omega
  · have hout' : ((Finset.range avgTimes).filter fun i => f i < 16 * a ∨ 16 * b < f i).card ≤ 1 := by
      rw [Finset.filter_congr (q := fun i => (d i).toNat < a ∨ b < (d i).toNat)]
      · exact hout
      · intro i hi
        rw [hf i (Finset.mem_range.mp hi)]
        omega
    obtain ⟨hlow, hhigh⟩ := average_trimmed hsmall hout'
    omega

end Runs

end Thread

end Emlinux.Touch
