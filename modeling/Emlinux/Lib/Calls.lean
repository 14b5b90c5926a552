import Emlinux.Lib.Prog

/-!
# Sequences of calls

A component is called again and again, each time with an operation `i : ι`; `results` are what the calls return
and `after` is the state they leave. `Along P` says that each call meets `P` in the state it starts from.

* `Along.keeps`: when every call keeps `J` and gives `R`, each call of a sequence gives `R`.
* `after_append`, `along_append`: one sequence after another.
* `Along.congr`, `Along.congr_of`: two conditions on the calls that agree, everywhere or on an invariant.
* `Along.lawful`: the logs of lawful calls (`trace`) are together a lawful log.
* `simulates`: when every call answers like an abstract machine and keeps the relation to its state, so does
  every sequence of calls; `simulates_map` is the case without abstract state.
-/

namespace Emlinux.Lib

variable {ε σ ω ι ρ A : Type} (call : ι → Prog ε σ ω ρ)

def results : List ι → σ → List (Except ε ρ)
  | [], _ => []
  | i :: is, s => (call i s).res :: results is (call i s).st

def after : List ι → σ → σ
  | [], s => s
  | i :: is, s => after is (call i s).st

/-- What the calls leave in the log. -/
def trace : List ι → σ → List ω
  | [], _ => []
  | i :: is, s => (call i s).log ++ trace is (call i s).st

def Along (P : σ → ι → Prop) : List ι → σ → Prop
  | [], _ => True
  | i :: is, s => P s i ∧ Along P is (call i s).st

/-- The answers of an abstract machine. -/
def answers (answer : A → ι → ρ) (next : A → ι → A) : List ι → A → List (Except ε ρ)
  | [], _ => []
  | i :: is, a => .ok (answer a i) :: answers answer next is (next a i)

variable {call} {P : σ → ι → Prop} {I : A → σ → Prop} {answer : A → ι → ρ} {next : A → ι → A}

theorem Along.keeps {J : σ → Prop} {R : σ → ι → Prop} (hstep : ∀ s i, J s → P s i → R s i ∧ J (call i s).st)
    {is : List ι} {s : σ} (h : J s) (hal : Along call P is s) : Along call R is s ∧ J (after call is s) := by
  induction is generalizing s with
  | nil => exact ⟨trivial, h⟩
  | cons i is ih =>
    obtain ⟨hR, hJ⟩ := hstep s i h hal.1
    obtain ⟨hrest, hend⟩ := ih hJ hal.2
    exact ⟨⟨hR, hrest⟩, hend⟩

theorem after_append (is js : List ι) (s : σ) : after call (is ++ js) s = after call js (after call is s) := by
  induction is generalizing s with
  | nil => rfl
  | cons i is ih => exact ih _

theorem along_append {is js : List ι} {s : σ} :
    Along call P (is ++ js) s ↔ Along call P is s ∧ Along call P js (after call is s) := by
  induction is generalizing s with
  | nil => exact ⟨fun h => ⟨trivial, h⟩, And.right⟩
  | cons i is ih => exact (and_congr_right fun _ => ih).trans and_assoc.symm

theorem Along.mono {Q : σ → ι → Prop} (hPQ : ∀ s i, P s i → Q s i) {is : List ι} {s : σ} (h : Along call P is s) :
    Along call Q is s := by
  induction is generalizing s with
  | nil => exact trivial
  | cons i is ih => exact ⟨hPQ s i h.1, ih h.2⟩

theorem Along.congr {Q : σ → ι → Prop} (hPQ : ∀ s i, P s i ↔ Q s i) (is : List ι) (s : σ) :
    Along call P is s ↔ Along call Q is s := by
  induction is generalizing s with
  | nil => exact Iff.rfl
  | cons i is ih => exact and_congr (hPQ s i) (ih _)

/-- The same when `P` and `Q` agree on the states that the calls that meet `P` lead to. -/
theorem Along.congr_of {J : σ → Prop} {Q : σ → ι → Prop} (hPQ : ∀ {s}, J s → ∀ i, (P s i ↔ Q s i) ∧ (P s i → J (call i s).st))
    (is : List ι) {s : σ} (h : J s) : Along call P is s ↔ Along call Q is s := by
  induction is generalizing s with
  | nil => exact Iff.rfl
  | cons i is ih =>
    obtain ⟨hiff, hstep⟩ := hPQ h i
    constructor
    · exact fun ⟨hp, hrest⟩ => ⟨hiff.mp hp, (ih (hstep hp)).mp hrest⟩
    · exact fun ⟨hq, hrest⟩ => ⟨hiff.mpr hq, (ih (hstep (hiff.mpr hq))).mpr hrest⟩

/-- Calls that are lawful each are lawful together. -/
theorem Along.lawful {C : Contract σ ω} {is : List ι} {s : σ}
    (h : Along call (fun s i => C.step s (call i s).log (call i s).st) is s) :
    C.step s (trace call is s) (after call is s) := by
  induction is generalizing s with
  | nil => exact C.step_nil s
  | cons i is ih => exact C.step_append h.1 (ih h.2)

theorem simulates (hstep : ∀ a s i, I a s → P s i → (call i s).res = .ok (answer a i) ∧ I (next a i) (call i s).st)
    {is : List ι} {a : A} {s : σ} (h : I a s) (hal : Along call P is s) :
    results call is s = answers answer next is a ∧ I (is.foldl next a) (after call is s) := by
  induction is generalizing a s with
  | nil => exact ⟨rfl, h⟩
  | cons i is ih =>
    obtain ⟨hp, hrest⟩ := hal
    obtain ⟨hres, hI⟩ := hstep a s i h hp
    obtain ⟨hall, hend⟩ := ih hI hrest
    exact ⟨by rw [results, hres, hall, answers], hend⟩

/-- Calls that keep `J` and answer by the operation alone. -/
theorem simulates_map {J : σ → Prop} {reply : ι → ρ}
    (hstep : ∀ s i, J s → P s i → (call i s).res = .ok (reply i) ∧ J (call i s).st) {is : List ι} {s : σ} (h : J s)
    (hal : Along call P is s) : results call is s = is.map (fun i => .ok (reply i)) ∧ J (after call is s) := by
  induction is generalizing s with
  | nil => exact ⟨rfl, h⟩
  | cons i is ih =>
    obtain ⟨hres, hJ⟩ := hstep s i h hal.1
    obtain ⟨hall, hend⟩ := ih hJ hal.2
    exact ⟨by rw [results, hres, hall, List.map_cons], hend⟩

end Emlinux.Lib
