import Mathlib.Tactic

/-!
# Guarded runs

A system is a partial step function `step : σ → α → Option σ`: the action `a` is possible in `s` when
`step s a` is some state. `Run step ok s t` says that `t` is reached from `s` by actions that all meet the guard
`ok` in the state before them; with the guard `free` these are all the runs of the system.

* `Run.invariant`: what holds at the start and is kept by every guarded step holds in every state reached.
* `Run.invariant_iff`: the runs under a guard that stay in an invariant, when it is known which steps keep it (`Run.invariant_iff_of`: in
  states that meet another one).
* `Run.of_play`: a list of actions that plays through is a run; `play_ends` evaluates one, `play_weighted` follows a count over it, and
  `play_length` bounds it by a measure.
* `foldl_each`: a loop over items, when each step makes something hold of its item and keeps it of the others.
* `every_iff`: for a step that is always possible, the lists of actions whose steps all have a property, when in an invariant it is known
  which steps have it.
-/

namespace Emlinux.Lib

variable {σ α : Type}

/-- `Run step ok s t`: from `s` to `t` by steps that all meet `ok`. -/
inductive Run (step : σ → α → Option σ) (ok : σ → α → Prop) (s : σ) : σ → Prop
  | start : Run step ok s s
  | next {t u : σ} {a : α} : Run step ok s t → ok t a → step t a = some u → Run step ok s u

/-- The guard that admits every action. -/
def free : σ → α → Prop := fun _ _ => True

variable {step : σ → α → Option σ} {ok : σ → α → Prop} {s t u : σ}

theorem Run.invariant {I : σ → Prop} (h₀ : I s) (hs : ∀ t a u, I t → ok t a → step t a = some u → I u)
    (h : Run step ok s t) : I t := by
  induction h with
  | start => exact h₀
  | next _ ha hu ih => exact hs _ _ _ ih ha hu

/-- When every step keeps `J`, and from states with `J` and `I` those that keep `I` are those that meet `C`, the runs under a guard stay in
`I` exactly when all their steps meet `C`. -/
theorem Run.invariant_iff_of {I J : σ → Prop} {C : σ → α → Prop} (hJ : J s) (h₀ : I s)
    (hs : ∀ {t a u}, J t → step t a = some u → J u ∧ (I t → (I u ↔ C t a))) :
    (∀ t, Run step ok s t → I t) ↔ ∀ t a u, Run step ok s t → ok t a → step t a = some u → C t a := by
  have hall : ∀ t, Run step ok s t → J t := fun t ht => ht.invariant hJ fun _ _ _ hj _ hu => (hs hj hu).1
  constructor
  · exact fun h t a u ht ha hu => ((hs (hall t ht) hu).2 (h t ht)).mp (h u (.next ht ha hu))
  · intro h t ht
    induction ht with
    | start => exact h₀
    | next ht ha hu ih => exact ((hs (hall _ ht) hu).2 ih).mpr (h _ _ _ ht ha hu)

theorem Run.invariant_iff {I : σ → Prop} {C : σ → α → Prop} (h₀ : I s)
    (hs : ∀ {t a u}, I t → step t a = some u → (I u ↔ C t a)) :
    (∀ t, Run step ok s t → I t) ↔ ∀ t a u, Run step ok s t → ok t a → step t a = some u → C t a :=
  Run.invariant_iff_of (J := fun _ => True) trivial h₀ fun _ hu => ⟨trivial, fun hi => hs hi hu⟩

theorem Run.trans (h : Run step ok s t) (h' : Run step ok t u) : Run step ok s u := by
  induction h' with
  | start => exact h
  | next _ ha hu ih => exact .next ih ha hu

theorem Run.mono {ok' : σ → α → Prop} (h : Run step ok s t) (hok : ∀ t a, ok t a → ok' t a) : Run step ok' s t := by
  induction h with
  | start => exact .start
  | next _ ha hu ih => exact .next ih (hok _ _ ha) hu

/-- The actions of the list, one after the other; `none` when one of them is not possible. -/
def play (step : σ → α → Option σ) : σ → List α → Option σ
  | s, [] => some s
  | s, a :: l => match step s a with
    | some t => play step t l
    | none => none

/-- Where no action is possible only the empty list plays through. -/
theorem play_stuck (h : ∀ a, step s a = none) {l : List α} (hl : play step s l = some t) : l = [] ∧ t = s := by
  cases l with
  | nil => exact ⟨rfl, (Option.some.inj hl).symm⟩
  | cons a l =>
    rw [play, h a] at hl
    cases hl

/-- What every step keeps, when the actions count with their weights. -/
theorem play_weighted {P : Nat → σ → Prop} (w : α → Nat) (hs : ∀ n s a t, P n s → step s a = some t → P (n + w a) t)
    (l : List α) : ∀ {n : Nat} {s : σ}, P n s → play step s l = some t → P (n + (l.map w).sum) t := by
  induction l with
  | nil =>
    intro n s h hl
    cases hl
    exact h
  | cons a l ih =>
    intro n s h hl
    unfold play at hl
    split at hl
    · next u hu =>
      rw [List.map_cons, List.sum_cons, ← Nat.add_assoc]
      exact ih (hs n s a u h hu) hl
    · cases hl

/-- When every action of a kind takes a measure down, no more of them play through than the measure says. -/
theorem play_length {I : σ → Prop} {P : α → Prop} (μ : σ → Nat) (hs : ∀ s a t, I s → P a → step s a = some t → I t ∧ μ t < μ s)
    (l : List α) : ∀ {s : σ}, I s → (∀ a ∈ l, P a) → play step s l = some t → I t ∧ l.length + μ t ≤ μ s := by
  induction l with
  | nil =>
    intro s h _ hl
    cases hl
    exact ⟨h, by simp⟩
  | cons a l ih =>
    intro s h hp hl
    unfold play at hl
    split at hl
    · next u hu =>
      obtain ⟨hinv, hlt⟩ := hs s a u h (hp a List.mem_cons_self) hu
      obtain ⟨hinv', hle⟩ := ih hinv (fun b hb => hp b (List.mem_cons_of_mem _ hb)) hl
      exact ⟨hinv', by rw [List.length_cons]; omega⟩
    · cases hl

/-- `step` restricted to the actions that meet the guard. -/
def guarded (step : σ → α → Option σ) (ok : σ → α → Prop) [∀ s a, Decidable (ok s a)] : σ → α → Option σ :=
  fun s a => if ok s a then step s a else none

theorem Run.of_play [∀ s a, Decidable (ok s a)] (l : List α) :
    ∀ {s : σ}, play (guarded step ok) s l = some t → Run step ok s t := by
  induction l with
  | nil =>
    intro s h
    cases h
    exact .start
  | cons a l ih =>
    intro s h
    unfold play at h
    split at h
    · next u hu =>
      unfold guarded at hu
      split_ifs at hu with ha
      exact Run.trans (.next .start ha hu) (ih h)
    · cases h

/-- A list of actions plays through to a state with `P`, when evaluating it says so. -/
theorem play_ends {P : σ → Prop} [DecidablePred P] (l : List α) (h : (play step s l).any (fun t => decide (P t)) = true) :
    ∃ t, play step s l = some t ∧ P t := by
  obtain ⟨t, ht, hp⟩ := (Option.any_eq_true _ _).mp h
  exact ⟨t, ht, of_decide_eq_true hp⟩

theorem Run.of_isSome [∀ s a, Decidable (ok s a)] (l : List α) (h : (play (guarded step ok) s l).isSome = true) :
    Run step ok s ((play (guarded step ok) s l).get h) :=
  .of_play l (Option.some_get h).symm

instance (s : σ) (a : α) : Decidable (free s a) := inferInstanceAs (Decidable True)

/-- What a step makes hold of its item and keeps of the others holds of all items after the loop. -/
theorem foldl_each {ι : Type} [DecidableEq ι] {P : σ → ι → Prop} {f : σ → ι → σ} (hsame : ∀ s i, P (f s i) i)
    (hother : ∀ s i j, j ≠ i → P s j → P (f s i) j) (s : σ) (l : List ι) : ∀ i ∈ l, P (l.foldl f s) i := by
  induction l using List.reverseRecOn with
  | nil => exact fun i hi => absurd hi List.not_mem_nil
  | append_singleton l j ih =>
    intro i hi
    rw [List.foldl_append, List.foldl_cons, List.foldl_nil]
    by_cases hij : i = j
    · rw [hij]
      exact hsame _ j
    · have hmem : i ∈ l := (List.mem_append.mp hi).resolve_right fun h => hij (List.mem_singleton.mp h)
      exact hother _ _ _ hij (ih i hmem)

/-- Every step of the list has the property `R` in the state before it. -/
def Every (next : σ → α → σ) (R : σ → α → Prop) : σ → List α → Prop
  | _, [] => True
  | s, a :: l => R s a ∧ Every next R (next s a) l

instance everyDecidable (next : σ → α → σ) (R : σ → α → Prop) [∀ s a, Decidable (R s a)] (s : σ) :
    ∀ l, Decidable (Every next R s l)
  | [] => inferInstanceAs (Decidable True)
  | a :: l => @instDecidableAnd _ _ _ (everyDecidable next R (next s a) l)

theorem every_free (next : σ → α → σ) (l : List α) : ∀ s : σ, Every next free s l := by
  induction l with
  | nil => exact fun _ => trivial
  | cons a l ih => exact fun s => ⟨trivial, ih (next s a)⟩

/-- When in an invariant the steps with `P` are those with `C`, and these keep it, the lists with `P` at every step are those with `C` at
every step. -/
theorem every_iff {next : σ → α → σ} {I : σ → Prop} {P C : σ → α → Prop} (hs : ∀ {t a}, I t → ok t a → (P t a ↔ C t a))
    (hI : ∀ {t a}, I t → ok t a → C t a → I (next t a)) (l : List α) :
    ∀ {s : σ}, I s → Every next ok s l → (Every next P s l ↔ Every next C s l) := by
  induction l with
  | nil => exact fun _ _ => Iff.rfl
  | cons a l ih =>
    intro s h hok
    constructor
    · intro hp
      have hc := (hs h hok.1).mp hp.1
      exact ⟨hc, (ih (hI h hok.1 hc) hok.2).mp hp.2⟩
    · intro hc
      exact ⟨(hs h hok.1).mpr hc.1, (ih (hI h hok.1 hc.1) hok.2).mpr hc.2⟩

end Emlinux.Lib
