import Emlinux.Lib.Run

/-!
# The books of a request queue

The ownership of requests, apart from the driver: each queue has its requests in the order they were taken, each hardware slot may refer to one of
them, and the log says when a request was taken and when it was given back. Slot `e` belongs to queue `e`; queue 0 has a second slot, 1.

`Book.Fair` is the invariant. It is kept when a request is taken (`Fair.take`), when the head of a queue is loaded in a free slot of it (`Fair.load`), when
a slot is cleared (`Fair.clear`) and when a request to which no slot refers is given back (`Fair.give`), with success only from the
head of its queue.
-/

namespace Emlinux.Gadget

open Lib

/-- The status of a request that is given back: 0, `-ECONNRESET`, `-ESHUTDOWN`. -/
inductive Status where
  | ok
  | connreset
  | shutdown
deriving DecidableEq, Repr

/-- A request is taken for a queue, with its serial number, or given back. -/
inductive Ev where
  | accepted (e r n : Nat)
  | completed (e r n : Nat) (st : Status)
deriving DecidableEq, Repr

/-- Follow one request through the log: is it out; `none` after it was taken twice or given back twice. -/
def trackStep (r : Nat) : Option Bool → Ev → Option Bool
  | some b, .accepted _ r' _ => if r' = r then (if b then none else some true) else some b
  | some b, .completed _ r' _ _ => if r' = r then (if b then some false else none) else some b
  | none, _ => none

def track (r : Nat) (log : List Ev) : Option Bool := log.foldl (trackStep r) (some false)

/-- The serial numbers of the requests of a queue that were given back with success, in the order of the log. -/
def okSerials (e : Nat) (log : List Ev) : List Nat :=
  log.filterMap fun
    | .completed e' _ n .ok => if e' = e then some n else none
    | _ => none

/-- The serial numbers of the requests that were taken. -/
def taken (log : List Ev) : List Nat :=
  log.filterMap fun
    | .accepted _ _ n => some n
    | _ => none

theorem track_snoc (r : Nat) (log : List Ev) (ev : Ev) : track r (log ++ [ev]) = trackStep r (track r log) ev := by
  unfold track
  rw [List.foldl_append]
  rfl

theorem okSerials_snoc_accepted (e e' r n : Nat) (log : List Ev) :
    okSerials e (log ++ [.accepted e' r n]) = okSerials e log := by
  unfold okSerials
  simp

theorem okSerials_snoc_completed (e e' r n : Nat) (st : Status) (log : List Ev) :
    okSerials e (log ++ [.completed e' r n st]) =
      okSerials e log ++ if st = .ok ∧ e' = e then [n] else [] := by
  unfold okSerials
  rw [List.filterMap_append]
  cases st with
  | ok => by_cases h : e' = e <;> simp [h]
  | connreset => simp
  | shutdown => simp

/-- A request in the books. -/
structure Item where
  queued : Bool
  ep : Nat
  serial : Nat
  status : Option Status

structure Book where
  queue : Nat → List Nat
  item : Nat → Item
  slot : Nat → Option Nat
  next : Nat
  log : List Ev

namespace Book

variable (b : Book)

def take (e r : Nat) : Book :=
  { b with
    queue := Function.update b.queue e (b.queue e ++ [r])
    item := Function.update b.item r ⟨true, e, b.next, none⟩
    next := b.next + 1
    log := b.log ++ [.accepted e r b.next] }

def give (e r : Nat) (st : Status) : Book :=
  { b with
    queue := Function.update b.queue e ((b.queue e).erase r)
    item := Function.update b.item r { b.item r with queued := false, status := some st }
    log := b.log ++ [.completed e r (b.item r).serial st] }

def load (i r : Nat) : Book := { b with slot := Function.update b.slot i (some r) }

def clear (i : Nat) : Book := { b with slot := Function.update b.slot i none }

def reset : Book := { b with slot := fun _ => none }

/-- Slot `i` belongs to queue `e`. -/
def Owns (e i : Nat) : Prop := i = e ∨ (e = 0 ∧ i = 1)

structure Fair : Prop where
  mem : ∀ e r, r ∈ b.queue e ↔ (b.item r).queued = true ∧ (b.item r).ep = e
  sorted : ∀ e, (b.queue e).Pairwise fun r r' => (b.item r).serial < (b.item r').serial
  fresh : ∀ r, (b.item r).queued = true → (b.item r).serial < b.next
  status : ∀ r, (b.item r).queued = true → (b.item r).status = none
  head : ∀ i r, b.slot i = some r → (b.queue (b.item r).ep).head? = some r ∧ Owns (b.item r).ep i
  single : b.slot 0 = none ∨ b.slot 1 = none
  out : ∀ r, track r b.log = some (b.item r).queued
  order : ∀ e, (okSerials e b.log).Pairwise (· < ·)
  past : ∀ e, ∀ n ∈ okSerials e b.log, n < b.next ∧ ∀ r ∈ b.queue e, n < (b.item r).serial
  numbers : taken b.log = List.range b.next
  origin : ∀ r, (b.item r).queued = true → .accepted (b.item r).ep r (b.item r).serial ∈ b.log
  matched : ∀ e r n st, .completed e r n st ∈ b.log → .accepted e r n ∈ b.log

namespace Fair

variable {b}

theorem nodup (h : b.Fair) (e : Nat) : (b.queue e).Nodup := by
  apply (h.sorted e).imp
  intro r r' hlt heq
  rw [heq] at hlt
  exact lt_irrefl _ hlt

theorem slot_queued (h : b.Fair) {i r : Nat} (hs : b.slot i = some r) : (b.item r).queued = true :=
  ((h.mem _ r).1 (List.mem_of_head? (h.head i r hs).1)).1

/-- A request is in at most one slot. -/
theorem slot_inj (h : b.Fair) {i j r : Nat} (hi : b.slot i = some r) (hj : b.slot j = some r) : i = j := by
  obtain ⟨-, hoi⟩ := h.head i r hi
  obtain ⟨-, hoj⟩ := h.head j r hj
  obtain hoi | ⟨h0, hoi⟩ := hoi
  · obtain hoj | ⟨h0, hoj⟩ := hoj
    · rw [hoi, hoj]
    · rw [h0] at hoi
      subst hoi hoj
      obtain hn | hn := h.single
      · rw [hn] at hi
        cases hi
      · rw [hn] at hj
        cases hj
  · obtain hoj | ⟨-, hoj⟩ := hoj
    · rw [h0] at hoj
      subst hoi hoj
      obtain hn | hn := h.single
      · rw [hn] at hj
        cases hj
      · rw [hn] at hi
        cases hi
    · rw [hoi, hoj]

theorem clear (h : b.Fair) (i : Nat) : (b.clear i).Fair := by
  refine ⟨h.mem, h.sorted, h.fresh, h.status, ?_, ?_, h.out, h.order, h.past, h.numbers, h.origin, h.matched⟩
  · intro j r hj
    by_cases hji : j = i
    · subst hji
      simp [Book.clear] at hj
    · simp only [Book.clear, Function.update_of_ne hji] at hj
      exact h.head j r hj
  · obtain h0 | h1 := h.single
    · left
      by_cases hi : 0 = i
      · simp [Book.clear, hi]
      · simp [Book.clear, Function.update_of_ne hi, h0]
    · right
      by_cases hi : 1 = i
      · simp [Book.clear, hi]
      · simp [Book.clear, Function.update_of_ne hi, h1]

theorem reset (h : b.Fair) : b.reset.Fair := by
  refine ⟨h.mem, h.sorted, h.fresh, h.status, ?_, .inl rfl, h.out, h.order, h.past, h.numbers, h.origin, h.matched⟩
  intro i r hn
  cases hn

/-- The head of a queue goes into a slot of it. -/
theorem load (h : b.Fair) {i e r : Nat} (hr : (b.queue e).head? = some r) (ho : Owns e i)
    (h0 : i = 0 → b.slot 1 = none) (h1 : i = 1 → b.slot 0 = none) : (b.load i r).Fair := by
  have hep : (b.item r).ep = e := ((h.mem e r).1 (List.mem_of_head? hr)).2
  refine ⟨h.mem, h.sorted, h.fresh, h.status, ?_, ?_, h.out, h.order, h.past, h.numbers, h.origin, h.matched⟩
  · intro j r' hj
    by_cases hji : j = i
    · subst hji
      simp only [Book.load, Function.update_self, Option.some.injEq] at hj
      subst hj
      show (b.queue (b.item r).ep).head? = some r ∧ Owns (b.item r).ep j
      rw [hep]
      exact ⟨hr, ho⟩
    · simp only [Book.load, Function.update_of_ne hji] at hj
      exact h.head j r' hj
  · by_cases hi0 : i = 0
    · right
      simp [Book.load, hi0, h0 hi0]
    · by_cases hi1 : i = 1
      · left
        simp [Book.load, hi1, h1 hi1]
      · have e0 : (b.load i r).slot 0 = b.slot 0 := Function.update_of_ne (Ne.symm hi0) _ _
        have e1 : (b.load i r).slot 1 = b.slot 1 := Function.update_of_ne (Ne.symm hi1) _ _
        rw [e0, e1]
        exact h.single

section taking

variable {e r : Nat}

theorem take_self : (b.take e r).item r = ⟨true, e, b.next, none⟩ :=
  Function.update_self _ _ _

theorem take_other {r' : Nat} (hn : r' ≠ r) : (b.take e r).item r' = b.item r' :=
  Function.update_of_ne hn _ _

theorem take_log : (b.take e r).log = b.log ++ [.accepted e r b.next] := rfl

theorem mem_take (e' r' : Nat) : r' ∈ (b.take e r).queue e' ↔ r' ∈ b.queue e' ∨ (r' = r ∧ e' = e) := by
  unfold Book.take
  by_cases he : e' = e
  · subst he
    simp
  · simp [he]

/-- A request goes to the end of its queue, so the heads stay. -/
theorem take_head {e' r' : Nat} (hh : (b.queue e').head? = some r') : ((b.take e r).queue e').head? = some r' := by
  unfold Book.take
  by_cases he : e' = e
  · subst he
    simp [hh]
  · simp [he, hh]

/-- A request that is out is not the one that is taken. -/
theorem ne_taken (hr : (b.item r).queued = false) {r' : Nat} (hq : (b.item r').queued = true) : r' ≠ r := by
  intro heq
  rw [heq, hr] at hq
  cases hq

theorem take_sorted (h : b.Fair) (hr : (b.item r).queued = false) (e' : Nat) :
    ((b.take e r).queue e').Pairwise fun x y => ((b.take e r).item x).serial < ((b.take e r).item y).serial := by
  have hold : (b.queue e').Pairwise fun x y => ((b.take e r).item x).serial < ((b.take e r).item y).serial := by
    apply (h.sorted e').imp_of_mem
    intro x y hx hy hlt
    rw [take_other (ne_taken hr ((h.mem e' x).1 hx).1), take_other (ne_taken hr ((h.mem e' y).1 hy).1)]
    exact hlt
  by_cases he : e' = e
  · subst he
    have hqe : (b.take e' r).queue e' = b.queue e' ++ [r] := Function.update_self _ _ _
    rw [hqe, List.pairwise_append]
    refine ⟨hold, List.pairwise_singleton _ _, ?_⟩
    intro x hx y hy
    have hxq := ((h.mem e' x).1 hx).1
    rw [List.mem_singleton.1 hy, take_self, take_other (ne_taken hr hxq)]
    exact h.fresh x hxq
  · have hq : (b.take e r).queue e' = b.queue e' := Function.update_of_ne he _ _
    rw [hq]
    exact hold

/-- A request that is not out is taken. -/
theorem take (h : b.Fair) (hr : (b.item r).queued = false) : (b.take e r).Fair where
  mem e' r' := by
    rw [mem_take]
    by_cases hrr : r' = r
    · subst hrr
      rw [take_self]
      have : r' ∉ b.queue e' := fun hm => ne_taken hr ((h.mem e' r').1 hm).1 rfl
      simp [this, eq_comm]
    · rw [take_other hrr, h.mem]
      simp [hrr]
  sorted := take_sorted h hr
  fresh r' hq' := by
    by_cases hrr : r' = r
    · rw [hrr, take_self]
      exact Nat.lt_succ_self _
    · rw [take_other hrr] at hq' ⊢
      exact Nat.lt_succ_of_lt (h.fresh r' hq')
  status r' hq' := by
    by_cases hrr : r' = r
    · rw [hrr, take_self]
    · rw [take_other hrr] at hq' ⊢
      exact h.status r' hq'
  head i r' hs := by
    obtain ⟨hh, ho⟩ := h.head i r' hs
    rw [take_other (ne_taken hr (h.slot_queued hs))]
    exact ⟨take_head hh, ho⟩
  single := h.single
  out r' := by
    rw [take_log, track_snoc, h.out r']
    by_cases hrr : r' = r
    · rw [hrr, take_self, hr]
      simp [trackStep]
    · rw [take_other hrr]
      simp [trackStep, Ne.symm hrr]
  order e' := by
    rw [take_log, okSerials_snoc_accepted]
    exact h.order e'
  past e' n hn := by
    rw [take_log, okSerials_snoc_accepted] at hn
    obtain ⟨hlt, hall⟩ := h.past e' n hn
    refine ⟨Nat.lt_succ_of_lt hlt, ?_⟩
    intro r' hr'
    by_cases hrr : r' = r
    · rw [hrr, take_self]
      exact hlt
    · rw [take_other hrr]
      obtain hm | ⟨hm, -⟩ := (mem_take e' r').1 hr'
      · exact hall r' hm
      · exact absurd hm hrr
  numbers := by
    show taken (b.log ++ [.accepted e r b.next]) = List.range (b.next + 1)
    rw [List.range_succ, ← h.numbers]
    unfold taken
    simp
  origin r' hq' := by
    rw [take_log]
    by_cases hrr : r' = r
    · rw [hrr, take_self]
      simp
    · rw [take_other hrr] at hq' ⊢
      exact List.mem_append_left _ (h.origin r' hq')
  matched e' r' n st hm := by
    rw [take_log] at hm ⊢
    obtain hm | hm := List.mem_append.1 hm
    · exact List.mem_append_left _ (h.matched e' r' n st hm)
    · simp at hm

end taking

section giving

variable {e r : Nat} {st : Status}

theorem give_self : (b.give e r st).item r = { b.item r with queued := false, status := some st } :=
  Function.update_self _ _ _

theorem give_other {r' : Nat} (hn : r' ≠ r) : (b.give e r st).item r' = b.item r' :=
  Function.update_of_ne hn _ _

theorem give_queue : (b.give e r st).queue e = (b.queue e).erase r :=
  Function.update_self _ _ _

theorem give_queue_other {e' : Nat} (hn : e' ≠ e) : (b.give e r st).queue e' = b.queue e' :=
  Function.update_of_ne hn _ _

theorem give_log : (b.give e r st).log = b.log ++ [.completed e r (b.item r).serial st] := rfl

/-- A request that is out after `give` is another one. -/
theorem ne_given {r' : Nat} (hq : ((b.give e r st).item r').queued = true) : r' ≠ r := by
  intro hrr
  rw [hrr, give_self] at hq
  cases hq

theorem give_sublist (e' : Nat) : ((b.give e r st).queue e').Sublist (b.queue e') := by
  by_cases he : e' = e
  · subst he
    rw [give_queue]
    exact List.erase_sublist
  · rw [give_queue_other he]

theorem mem_give (h : b.Fair) (hr : r ∈ b.queue e) (e' r' : Nat) :
    r' ∈ (b.give e r st).queue e' ↔ r' ∈ b.queue e' ∧ r' ≠ r := by
  by_cases he : e' = e
  · subst he
    rw [give_queue, (h.nodup e').mem_erase_iff, and_comm]
  · rw [give_queue_other he]
    constructor
    · intro hm
      refine ⟨hm, ?_⟩
      intro hrr
      rw [hrr] at hm
      exact he (((h.mem e' r).1 hm).2.symm.trans ((h.mem e r).1 hr).2)
    · exact fun hm => hm.1

/-- The head of a queue stays when another request is given back. -/
theorem give_head {e' r' : Nat} (hn : r' ≠ r) (hh : (b.queue e').head? = some r') :
    ((b.give e r st).queue e').head? = some r' := by
  by_cases he : e' = e
  · subst he
    obtain ⟨l, hl⟩ := List.head?_eq_some_iff.1 hh
    rw [give_queue, hl, List.erase_cons_tail (by simpa using hn)]
    rfl
  · rw [give_queue_other he]
    exact hh

/-- The others of a queue were taken after its head. -/
theorem head_lt (h : b.Fair) (hh : (b.queue e).head? = some r) {r' : Nat} (hm : r' ∈ b.queue e) (hn : r' ≠ r) :
    (b.item r).serial < (b.item r').serial := by
  have hsort := h.sorted e
  obtain ⟨l, hl⟩ := List.head?_eq_some_iff.1 hh
  rw [hl] at hsort hm
  exact (List.pairwise_cons.1 hsort).1 r' ((List.mem_cons.1 hm).resolve_left hn)

/-- A request of the queue that is in no slot is given back. -/
theorem give (h : b.Fair) (hr : r ∈ b.queue e) (hs : ∀ i, b.slot i ≠ some r)
    (hok : st = .ok → (b.queue e).head? = some r) : (b.give e r st).Fair where
  mem e' r' := by
    rw [mem_give h hr]
    by_cases hrr : r' = r
    · rw [hrr, give_self]
      simp
    · rw [give_other hrr, h.mem]
      simp [hrr]
  sorted e' := by
    apply List.Pairwise.imp_of_mem _ ((h.sorted e').sublist (give_sublist e'))
    intro x y hx hy hlt
    rw [give_other ((mem_give h hr e' x).1 hx).2, give_other ((mem_give h hr e' y).1 hy).2]
    exact hlt
  fresh r' hq' := by
    have hrr := ne_given hq'
    rw [give_other hrr] at hq' ⊢
    exact h.fresh r' hq'
  status r' hq' := by
    have hrr := ne_given hq'
    rw [give_other hrr] at hq' ⊢
    exact h.status r' hq'
  head i r' hs' := by
    have hrr : r' ≠ r := by
      intro heq
      rw [heq] at hs'
      exact hs i hs'
    obtain ⟨hh, ho⟩ := h.head i r' hs'
    rw [give_other hrr]
    exact ⟨give_head hrr hh, ho⟩
  single := h.single
  out r' := by
    rw [give_log, track_snoc, h.out r']
    by_cases hrr : r' = r
    · rw [hrr, give_self, ((h.mem e r).1 hr).1]
      simp [trackStep]
    · rw [give_other hrr]
      simp [trackStep, Ne.symm hrr]
  order e' := by
    rw [give_log, okSerials_snoc_completed]
    split
    · next hc =>
      rw [List.pairwise_append]
      refine ⟨h.order e', List.pairwise_singleton _ _, ?_⟩
      intro n hn m hm
      rw [List.mem_singleton.1 hm]
      obtain ⟨-, rfl⟩ := hc
      exact (h.past e n hn).2 r hr
    · rw [List.append_nil]
      exact h.order e'
  past e' n hn := by
    rw [give_log, okSerials_snoc_completed, List.mem_append] at hn
    obtain hn | hn := hn
    · obtain ⟨hlt, hall⟩ := h.past e' n hn
      refine ⟨hlt, ?_⟩
      intro r' hr'
      obtain ⟨hm, hrr⟩ := (mem_give h hr e' r').1 hr'
      rw [give_other hrr]
      exact hall r' hm
    · split at hn
      · next hc =>
        obtain ⟨hst, rfl⟩ := hc
        rw [List.mem_singleton.1 hn]
        refine ⟨h.fresh r ((h.mem e r).1 hr).1, ?_⟩
        intro r' hr'
        obtain ⟨hm, hrr⟩ := (mem_give h hr e r').1 hr'
        rw [give_other hrr]
        -- with success `r` was the head
        exact head_lt h (hok hst) hm hrr
      · cases hn
  numbers := by
    show taken (b.log ++ [.completed e r (b.item r).serial st]) = List.range b.next
    rw [← h.numbers]
    unfold taken
    simp
  origin r' hq' := by
    have hrr := ne_given hq'
    rw [give_other hrr] at hq' ⊢
    exact List.mem_append_left _ (h.origin r' hq')
  matched e' r' n st' hm := by
    rw [give_log] at hm ⊢
    apply List.mem_append_left
    obtain hm | hm := List.mem_append.1 hm
    · exact h.matched e' r' n st' hm
    · simp only [List.mem_singleton, Ev.completed.injEq] at hm
      obtain ⟨rfl, rfl, rfl, -⟩ := hm
      obtain ⟨hrq, hre⟩ := (h.mem e' r').1 hr
      have ho := h.origin r' hrq
      rw [hre] at ho
      exact ho

end giving

end Fair

end Book

end Emlinux.Gadget
