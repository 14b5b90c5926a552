import Mathlib.Tactic

/-!
# Resources taken and given back

The events of a program take resources and give them back. `settle` goes through a log of events with what is held, and
fails when something is given back that is not held. `Settled`: at the end all that was taken has been given back, once.
-/

namespace Emlinux.Lib

/-- What an event does to the resources. -/
inductive Move (ρ : Type*) where
  | take (r : ρ)
  | give (r : ρ)
  | rest
deriving DecidableEq, Repr

section Ledger

variable {ρ ε : Type*} [DecidableEq ρ] (move : ε → Move ρ)

/-- What is held after a log. -/
def settle : List ρ → List ε → Option (List ρ)
  | held, [] => some held
  | held, e :: es =>
    match move e with
    | .take r => settle (r :: held) es
    | .give r => if r ∈ held then settle (held.erase r) es else none
    | .rest => settle held es

/-- Nothing was held before the log, and nothing is after it. -/
def Settled (l : List ε) : Prop := settle move [] l = some []

instance (l : List ε) : Decidable (Settled move l) := inferInstanceAs (Decidable (settle move [] l = some []))

variable {move}

theorem settle_append (l l' : List ε) (held : List ρ) :
    settle move held (l ++ l') = (settle move held l).bind fun h => settle move h l' := by
  induction l generalizing held with
  | nil => rfl
  | cons e es ih =>
    rw [List.cons_append, settle, settle]
    cases move e with
    | take r => exact ih _
    | rest => exact ih _
    | give r =>
      dsimp only
      split_ifs
      · exact ih _
      · rfl

theorem Settled.append {l l' : List ε} (h : Settled move l) : Settled move (l ++ l') ↔ Settled move l' := by
  unfold Settled at *
  rw [settle_append, h, Option.bind_some]

/-- A run of parts is settled after each of them exactly when each part is. -/
theorem settled_parts_iff (parts : List (List ε)) :
    (∀ k, Settled move (parts.take k).flatten) ↔ ∀ l ∈ parts, Settled move l := by
  constructor
  · intro h l hl
    obtain ⟨k, hk, rfl⟩ := List.mem_iff_getElem.mp hl
    have hnext := h (k + 1)
    rw [List.take_add_one, List.flatten_append, (h k).append, List.getElem?_eq_getElem hk] at hnext
    simpa using hnext
  · intro h k
    induction k with
    | zero => rfl
    | succ k ih =>
      rw [List.take_add_one, List.flatten_append, ih.append]
      cases hk : parts[k]? with
      | none => rfl
      | some l => simpa using h l (List.mem_of_getElem? hk)

end Ledger

end Emlinux.Lib
