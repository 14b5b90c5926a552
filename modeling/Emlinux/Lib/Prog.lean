import Mathlib.Tactic

/-!
# Logged programs and their contracts

`Prog ε σ ω` is the monad of the modelled C functions: a program reads and changes a state `σ`, may stop
with a fault `ε`, and leaves a log of events `ω`. The log survives a fault, and the log of a sequence is
the concatenation of the logs, so "before the first failure" is a statement about a prefix of the log.

* `Prog.loop`: a C `for` loop with `break`/`return` (`LoopFlow.brk`) and `continue` (`LoopFlow.next`).
* `Moves R m`: `m` moves the state along `R`, a reflexive and transitive relation.
* `Contract`: what a log may do to the state (`step`, closed under concatenation), and the events that
  excuse a program from its postcondition (`excused`).
* `Sat C m s Q`: from `s`, the program `m` either meets an excused event after a lawful prefix of its log, or
  returns with a lawful log and `Q`. The rules `Sat.bind`, `Sat.loop` and so on compose it.
* `FailsWith C m s e P`: the same for a program that stops with the fault `e`; `Fails` says nothing of the last state.
-/

namespace Emlinux.Lib

/-- What a program leaves behind: its value or fault, its last state, its log. -/
structure Out (ε σ ω α : Type) where
  res : Except ε α
  st : σ
  log : List ω

/-- A program with faults `ε`, state `σ` and events `ω`. -/
def Prog (ε σ ω α : Type) : Type := σ → Out ε σ ω α

/-- The control flow of one iteration of a loop body. -/
inductive LoopFlow (ρ β : Type) where
  | brk (r : ρ)
  | next (b : β)

namespace Prog

variable {ε σ ω α β ρ : Type}

def ret (a : α) : Prog ε σ ω α := fun s => ⟨.ok a, s, []⟩

def andThen (m : Prog ε σ ω α) (f : α → Prog ε σ ω β) : Prog ε σ ω β := fun s =>
  match m s with
  | ⟨.ok a, s', l⟩ => match f a s' with
    | ⟨r, s'', l'⟩ => ⟨r, s'', l ++ l'⟩
  | ⟨.error e, s', l⟩ => ⟨.error e, s', l⟩

instance : Monad (Prog ε σ ω) where
  pure := ret
  bind := andThen

def get : Prog ε σ ω σ := fun s => ⟨.ok s, s, []⟩

def modify (f : σ → σ) : Prog ε σ ω Unit := fun s => ⟨.ok (), f s, []⟩

def fault (e : ε) : Prog ε σ ω α := fun s => ⟨.error e, s, []⟩

def emit (w : ω) : Prog ε σ ω Unit := fun s => ⟨.ok (), s, [w]⟩

def lift (r : Except ε α) : Prog ε σ ω α := fun s => ⟨r, s, []⟩

/-- `for (i = lo; i < lo + n; i++) acc = body i acc`, left early by `LoopFlow.brk`. -/
def loop (body : Nat → β → Prog ε σ ω (LoopFlow ρ β)) : Nat → Nat → β → Prog ε σ ω (LoopFlow ρ β)
  | 0, _, acc => pure (.next acc)
  | n + 1, i, acc => do
    match ← body i acc with
    | .brk r => pure (.brk r)
    | .next acc' => loop body n (i + 1) acc'

/-- `Prog.loop` over the elements of a list. -/
def each (body : α → β → Prog ε σ ω (LoopFlow ρ β)) : List α → β → Prog ε σ ω (LoopFlow ρ β)
  | [], acc => pure (.next acc)
  | a :: l, acc => do
    match ← body a acc with
    | .brk r => pure (.brk r)
    | .next acc' => each body l acc'

theorem bind_ok (m : Prog ε σ ω α) (f : α → Prog ε σ ω β) {s s' : σ} {a : α} {l : List ω}
    (h : m s = ⟨.ok a, s', l⟩) :
    (m >>= f) s = ⟨(f a s').res, (f a s').st, l ++ (f a s').log⟩ := by
  show andThen m f s = _
  simp only [andThen, h]

theorem bind_error (m : Prog ε σ ω α) (f : α → Prog ε σ ω β) {s s' : σ} {e : ε} {l : List ω}
    (h : m s = ⟨.error e, s', l⟩) : (m >>= f) s = ⟨.error e, s', l⟩ := by
  show andThen m f s = _
  simp only [andThen, h]

/-- A sequence that returns has a first part that returns, and the log of the second part stays. -/
theorem bind_eq_ok {m : Prog ε σ ω α} {f : α → Prog ε σ ω β} {s : σ} {b : β} (h : ((m >>= f) s).res = .ok b) :
    ∃ a s' l, m s = ⟨.ok a, s', l⟩ ∧ (f a s').res = .ok b ∧ ∀ w ∈ (f a s').log, w ∈ ((m >>= f) s).log := by
  rcases hm : m s with ⟨res, s', l⟩
  cases res with
  | ok a =>
    rw [bind_ok m f hm] at h
    refine ⟨a, s', l, rfl, h, fun w hw => ?_⟩
    rw [bind_ok m f hm]
    exact List.mem_append_right _ hw
  | error e =>
    rw [bind_error m f hm] at h
    cases h

/-- The log of the first program stays. -/
theorem mem_log_bind (m : Prog ε σ ω α) (f : α → Prog ε σ ω β) {s : σ} {w : ω} (h : w ∈ (m s).log) : w ∈ ((m >>= f) s).log := by
  rcases hm : m s with ⟨res, s', l⟩
  rw [hm] at h
  cases res with
  | ok a =>
    rw [bind_ok m f hm]
    exact List.mem_append_left _ h
  | error e =>
    rw [bind_error m f hm]
    exact h

theorem bind_assoc {γ : Type} (m : Prog ε σ ω α) (f : α → Prog ε σ ω β) (g : β → Prog ε σ ω γ) :
    (m >>= f) >>= g = m >>= fun a => f a >>= g := by
  funext s
  show andThen (andThen m f) g s = andThen m (fun a => andThen (f a) g) s
  rcases hm : m s with ⟨res, s', l⟩
  cases res with
  | error e => simp only [andThen, hm]
  | ok a =>
    rcases hf : f a s' with ⟨res, s'', l'⟩
    cases res with
    | error e => simp only [andThen, hm, hf]
    | ok b => simp only [andThen, hm, hf, List.append_assoc]

theorem get_bind (f : σ → Prog ε σ ω β) (s : σ) : (get >>= f) s = f s s := rfl

theorem modify_bind (g : σ → σ) (f : Unit → Prog ε σ ω β) (s : σ) : (modify g >>= f) s = f () (g s) := rfl

/-- Whatever `m` returns, it moves the state along `R`. -/
def Moves (R : σ → σ → Prop) (m : Prog ε σ ω α) : Prop := ∀ s, R s (m s).st

section moves

variable {R : σ → σ → Prop} {m : Prog ε σ ω α}

theorem Moves.pure (hR : ∀ s, R s s) (a : α) : Moves R (Pure.pure a : Prog ε σ ω α) := hR

theorem Moves.get (hR : ∀ s, R s s) : Moves R (Prog.get : Prog ε σ ω σ) := hR

theorem Moves.modify {g : σ → σ} (hg : ∀ s, R s (g s)) : Moves R (Prog.modify g : Prog ε σ ω Unit) := hg

theorem Moves.bind (hR : ∀ {s s' s''}, R s s' → R s' s'' → R s s'') {f : α → Prog ε σ ω β} (h : Moves R m)
    (hf : ∀ a, Moves R (f a)) : Moves R (m >>= f) := by
  intro s
  have hs := h s
  rcases hm : m s with ⟨res, s', l⟩
  rw [hm] at hs
  cases res with
  | ok a => rw [bind_ok m f hm]; exact hR hs (hf a s')
  | error e => rw [bind_error m f hm]; exact hs

end moves

theorem pure_bind (a : α) (f : α → Prog ε σ ω β) : (pure a : Prog ε σ ω α) >>= f = f a := by
  funext s
  rfl

end Prog

/-- The lawful effects of a log on the state, and the events after which nothing is promised. -/
structure Contract (σ ω : Type) where
  excused : ω → Prop
  step : σ → List ω → σ → Prop
  step_nil : ∀ s, step s [] s
  step_append : ∀ {s s' s'' l l'}, step s l s' → step s' l' s'' → step s (l ++ l') s''

/-- Every effect is lawful, and the events of `ex` excuse. -/
def Contract.unless {σ ω : Type} (ex : ω → Prop) : Contract σ ω where
  excused := ex
  step _ _ _ := True
  step_nil _ := trivial
  step_append _ _ := trivial

variable {ε σ ω α β ρ : Type}

/-- The log meets an excused event, and was lawful up to it. -/
def Contract.Excuse (C : Contract σ ω) (s : σ) (log : List ω) : Prop :=
  ∃ l₁ e l₂ s₁, log = l₁ ++ e :: l₂ ∧ C.excused e ∧ C.step s l₁ s₁

theorem Contract.Excuse.append_right {C : Contract σ ω} {s : σ} {l : List ω} (h : C.Excuse s l)
    (l' : List ω) : C.Excuse s (l ++ l') := by
  obtain ⟨l₁, e, l₂, s₁, rfl, he, hs⟩ := h
  exact ⟨l₁, e, l₂ ++ l', s₁, by simp, he, hs⟩

theorem Contract.Excuse.append_left {C : Contract σ ω} {s s' : σ} {l l' : List ω} (hs : C.step s l s')
    (h : C.Excuse s' l') : C.Excuse s (l ++ l') := by
  obtain ⟨l₁, e, l₂, s₁, rfl, he, hs'⟩ := h
  exact ⟨l ++ l₁, e, l₂, s₁, by simp, he, C.step_append hs hs'⟩

/-- From `s`, the program returns lawfully with `Q`, unless an excused event comes first. -/
def Sat (C : Contract σ ω) (m : Prog ε σ ω α) (s : σ) (Q : α → σ → Prop) : Prop :=
  C.Excuse s (m s).log ∨ ∃ a, (m s).res = .ok a ∧ C.step s (m s).log (m s).st ∧ Q a (m s).st

namespace Sat

variable {C : Contract σ ω} {m : Prog ε σ ω α} {s : σ} {Q R : α → σ → Prop}

theorem mono (h : Sat C m s Q) (hQ : ∀ a s', Q a s' → R a s') : Sat C m s R := by
  rcases h with h | ⟨a, hr, hs, hq⟩
  · exact Or.inl h
  · exact Or.inr ⟨a, hr, hs, hQ a _ hq⟩

/-- A predicate that lawful steps keep may be added to the postcondition. -/
theorem with_inv {I : σ → Prop} (hI : ∀ s l s', C.step s l s' → I s → I s') (h : Sat C m s Q) (hs : I s) :
    Sat C m s (fun a s' => Q a s' ∧ I s') := by
  rcases h with h | ⟨a, hr, hst, hq⟩
  · exact Or.inl h
  · exact Or.inr ⟨a, hr, hst, hq, hI _ _ _ hst hs⟩

/-- A run that is known. -/
theorem of_run {a : α} {s' : σ} {l : List ω} (h : m s = ⟨.ok a, s', l⟩) (hs : C.step s l s') (hQ : Q a s') : Sat C m s Q := by
  refine Or.inr ⟨a, ?_, ?_, ?_⟩ <;> rw [h]
  · exact hs
  · exact hQ

theorem pure {a : α} (h : Q a s) : Sat C (Pure.pure a : Prog ε σ ω α) s Q :=
  Or.inr ⟨a, rfl, C.step_nil s, h⟩

theorem bind {f : α → Prog ε σ ω β} {R : β → σ → Prop} (h : Sat C m s Q)
    (hf : ∀ a s', Q a s' → Sat C (f a) s' R) : Sat C (m >>= f) s R := by
  rcases hm : m s with ⟨res, s', l⟩
  unfold Sat at h
  rw [hm] at h
  rcases h with h | ⟨a, hr, hs, hq⟩
  · left
    cases res with
    | ok a => rw [Prog.bind_ok m f hm]; exact h.append_right _
    | error e => rw [Prog.bind_error m f hm]; exact h
  · simp only at hr hs hq
    subst hr
    unfold Sat
    rw [Prog.bind_ok m f hm]
    rcases hf a s' hq with h' | ⟨b, hr', hs', hq'⟩
    · exact Or.inl (Contract.Excuse.append_left hs h')
    · exact Or.inr ⟨b, hr', C.step_append hs hs', hq'⟩

theorem get_bind {f : σ → Prog ε σ ω β} {R : β → σ → Prop} (h : Sat C (f s) s R) :
    Sat C (Prog.get >>= f) s R :=
  bind (Q := fun a s' => a = s ∧ s' = s) (Or.inr ⟨s, rfl, C.step_nil s, rfl, rfl⟩)
    (by rintro a s' ⟨rfl, rfl⟩; exact h)

theorem modify {g : σ → σ} {Q : Unit → σ → Prop} (hs : C.step s [] (g s)) (h : Q () (g s)) :
    Sat C (Prog.modify g : Prog ε σ ω Unit) s Q :=
  Or.inr ⟨(), rfl, hs, h⟩

theorem modify_bind {g : σ → σ} {f : Unit → Prog ε σ ω β} {R : β → σ → Prop} (hs : C.step s [] (g s))
    (h : Sat C (f ()) (g s) R) : Sat C (Prog.modify g >>= f) s R :=
  bind (Q := fun _ s' => s' = g s) (modify hs rfl) (by rintro _ _ rfl; exact h)

theorem lift_ok {r : Except ε α} {a : α} (hr : r = .ok a) (h : Q a s) :
    Sat C (Prog.lift r : Prog ε σ ω α) s Q :=
  Or.inr ⟨a, hr, C.step_nil s, h⟩

theorem lift_bind {r : Except ε α} {a : α} {f : α → Prog ε σ ω β} {R : β → σ → Prop} (hr : r = .ok a)
    (h : Sat C (f a) s R) : Sat C (Prog.lift r >>= f) s R :=
  bind (Q := fun x s' => x = a ∧ s' = s) (lift_ok hr ⟨rfl, rfl⟩) (by rintro _ _ ⟨rfl, rfl⟩; exact h)

/-- The invariant rule for `Prog.loop`: `I i acc s` holds before iteration `i`. -/
theorem loop {body : Nat → β → Prog ε σ ω (LoopFlow ρ β)} (I : Nat → β → σ → Prop)
    {Q : LoopFlow ρ β → σ → Prop} (n lo : Nat)
    (hbody : ∀ i acc s, lo ≤ i → i < lo + n → I i acc s → Sat C (body i acc) s (fun r s' => match r with
      | .brk r => Q (.brk r) s'
      | .next acc' => I (i + 1) acc' s'))
    (hend : ∀ acc s, I (lo + n) acc s → Q (.next acc) s) {acc : β} (h : I lo acc s) :
    Sat C (Prog.loop body n lo acc) s Q := by
  induction n generalizing lo acc s with
  | zero => exact pure (hend acc s h)
  | succ n ih =>
    refine bind (hbody lo acc s (le_refl _) (by omega) h) ?_
    rintro (r | acc') s' hr
    · exact pure hr
    · refine ih (lo + 1) (fun i acc s h1 h2 => hbody i acc s (by omega) (by omega)) ?_ hr
      intro acc s h'
      exact hend acc s (by rwa [show lo + (n + 1) = lo + 1 + n by omega])

/-- The invariant rule for `Prog.each`: `I l acc s` holds when `l` is still to be done. -/
theorem each {body : α → β → Prog ε σ ω (LoopFlow ρ β)} (I : List α → β → σ → Prop)
    {Q : LoopFlow ρ β → σ → Prop}
    (hbody : ∀ a l acc s, I (a :: l) acc s → Sat C (body a acc) s (fun r s' => match r with
      | .brk r => Q (.brk r) s'
      | .next acc' => I l acc' s'))
    (hend : ∀ acc s, I [] acc s → Q (.next acc) s) (l : List α) {acc : β} (h : I l acc s) :
    Sat C (Prog.each body l acc) s Q := by
  induction l generalizing acc s with
  | nil => exact pure (hend acc s h)
  | cons a l ih =>
    refine bind (hbody a l acc s h) ?_
    rintro (r | acc') s' hr
    · exact pure hr
    · exact ih hr

/-- Without excused events, the program returns with a lawful log and its postcondition. -/
theorem of_clean_step (h : Sat C m s Q) (hl : ∀ e ∈ (m s).log, ¬ C.excused e) :
    ∃ a, (m s).res = .ok a ∧ C.step s (m s).log (m s).st ∧ Q a (m s).st := by
  rcases h with ⟨l₁, e, l₂, -, hlog, he, -⟩ | h
  · exact absurd he (hl e (by rw [hlog]; simp))
  · exact h

theorem of_clean (h : Sat C m s Q) (hl : ∀ e ∈ (m s).log, ¬ C.excused e) : ∃ a, (m s).res = .ok a ∧ Q a (m s).st := by
  obtain ⟨a, hr, -, hq⟩ := h.of_clean_step hl
  exact ⟨a, hr, hq⟩

end Sat

/-- From `s`, the program stops lawfully with the fault `e` in a state of `P`, unless an excused event comes first. -/
def FailsWith (C : Contract σ ω) (m : Prog ε σ ω α) (s : σ) (e : ε) (P : σ → Prop) : Prop :=
  C.Excuse s (m s).log ∨ (m s).res = .error e ∧ C.step s (m s).log (m s).st ∧ P (m s).st

namespace FailsWith

variable {C : Contract σ ω} {m : Prog ε σ ω α} {s : σ} {e : ε} {Q : α → σ → Prop} {P : σ → Prop}

theorem bind {f : α → Prog ε σ ω β} (h : FailsWith C m s e P) : FailsWith C (m >>= f) s e P := by
  rcases hm : m s with ⟨res, s', l⟩
  unfold FailsWith at h
  rw [hm] at h
  rcases h with h | ⟨he, hs⟩
  · left
    cases res with
    | ok a => rw [Prog.bind_ok m f hm]; exact h.append_right _
    | error e => rw [Prog.bind_error m f hm]; exact h
  · simp only at he
    subst he
    right
    rw [Prog.bind_error m f hm]
    exact ⟨rfl, hs⟩

/-- The fault comes after a program that meets its postcondition. -/
theorem after {f : α → Prog ε σ ω β} (h : Sat C m s Q) (hf : ∀ a s', Q a s' → FailsWith C (f a) s' e P) :
    FailsWith C (m >>= f) s e P := by
  rcases hm : m s with ⟨res, s', l⟩
  unfold Sat at h
  rw [hm] at h
  rcases h with h | ⟨a, hr, hs, hq⟩
  · left
    cases res with
    | ok a => rw [Prog.bind_ok m f hm]; exact h.append_right _
    | error e => rw [Prog.bind_error m f hm]; exact h
  · simp only at hr hs hq
    subst hr
    unfold FailsWith
    rw [Prog.bind_ok m f hm]
    exact (hf a s' hq).imp (Contract.Excuse.append_left hs) fun h => ⟨h.1, C.step_append hs h.2.1, h.2.2⟩

theorem get_bind {f : σ → Prog ε σ ω β} (h : FailsWith C (f s) s e P) : FailsWith C (Prog.get >>= f) s e P :=
  after (Q := fun a s' => a = s ∧ s' = s) (Or.inr ⟨s, rfl, C.step_nil s, rfl, rfl⟩) (by rintro a s' ⟨rfl, rfl⟩; exact h)

theorem lift {r : Except ε α} (hr : r = .error e) (hP : P s) : FailsWith C (Prog.lift r : Prog ε σ ω α) s e P :=
  Or.inr ⟨hr, C.step_nil s, hP⟩

/-- Without excused events, the program stops lawfully with the fault. -/
theorem of_clean_step (h : FailsWith C m s e P) (hl : ∀ w ∈ (m s).log, ¬ C.excused w) :
    (m s).res = .error e ∧ C.step s (m s).log (m s).st ∧ P (m s).st := by
  rcases h with ⟨l₁, w, l₂, -, hlog, hw, -⟩ | h
  · exact absurd hw (hl w (by rw [hlog]; simp))
  · exact h

end FailsWith

/-- From `s`, the program stops lawfully with the fault `e`, unless an excused event comes first. -/
def Fails (C : Contract σ ω) (m : Prog ε σ ω α) (s : σ) (e : ε) : Prop :=
  C.Excuse s (m s).log ∨ (m s).res = .error e ∧ C.step s (m s).log (m s).st

namespace Fails

variable {C : Contract σ ω} {m : Prog ε σ ω α} {s : σ} {e : ε} {Q : α → σ → Prop}

theorem iff_with : Fails C m s e ↔ FailsWith C m s e (fun _ => True) := by
  simp only [Fails, FailsWith, and_true]

theorem bind {f : α → Prog ε σ ω β} (h : Fails C m s e) : Fails C (m >>= f) s e :=
  iff_with.mpr (iff_with.mp h).bind

/-- The fault comes after a program that meets its postcondition. -/
theorem after {f : α → Prog ε σ ω β} (h : Sat C m s Q) (hf : ∀ a s', Q a s' → Fails C (f a) s' e) :
    Fails C (m >>= f) s e :=
  iff_with.mpr (FailsWith.after h fun a s' hq => iff_with.mp (hf a s' hq))

theorem get_bind {f : σ → Prog ε σ ω β} (h : Fails C (f s) s e) : Fails C (Prog.get >>= f) s e :=
  iff_with.mpr (iff_with.mp h).get_bind

/-- Without excused events, the program stops lawfully with the fault. -/
theorem of_clean_step (h : Fails C m s e) (hl : ∀ w ∈ (m s).log, ¬ C.excused w) :
    (m s).res = .error e ∧ C.step s (m s).log (m s).st := by
  obtain ⟨hr, hs, -⟩ := (iff_with.mp h).of_clean_step hl
  exact ⟨hr, hs⟩

theorem of_clean (h : Fails C m s e) (hl : ∀ w ∈ (m s).log, ¬ C.excused w) : (m s).res = .error e :=
  (h.of_clean_step hl).1

theorem lift {r : Except ε α} (hr : r = .error e) : Fails C (Prog.lift r : Prog ε σ ω α) s e :=
  iff_with.mpr (FailsWith.lift hr trivial)

end Fails

end Emlinux.Lib
