import Emlinux.Piu.Device

/-!
# The mailbox library of user space

`_piu_ctx` of `piulib.c` has an entry for each of the eight queues: `piu_register` writes one, and `piulib_sig`, which runs when the driver signals a
message, calls the callback that it finds in the entry of the message. The queue id comes from the DSP as a whole word. `piulib_sig` counts it
down by one and then compares it with `PIU_MAX_QUEUES`, where an index would have to be below it.

* `Kept.after`: the table and the count after any sequence of registrations and signals are those of the last registrations.
* `piulibSig_served`: what a signal does on such a table.
* `dispatch_exact_iff`: every message goes to the callback last registered for its id, and only the table is read, exactly when no message has
  the id behind the last queue.
-/

namespace Emlinux.Piu.UserLib

/-- `PIU_MAX_QUEUES`. -/
def maxQueues : Nat := 8

/-- `SIGRTMIN`. -/
def sigrtmin : Nat := 34

/-- `struct piu_ctx`, where a null pointer is no callback. -/
structure PiuCtx (F X : Type) where
  func : Option F
  ctx : X

/-- `struct piu_protl`. -/
structure PiuProtl where
  msg : Word
  msgBody : Msg
deriving DecidableEq

/-- The variables of the library. `piuCtx` is the memory from `_piu_ctx` on: its first eight entries are the table, and what lies behind
them is any memory. -/
structure PiuLib (F X : Type) where
  piuCtx : Nat → PiuCtx F X
  cNum : Word

/-- What `piulib_sig` finds: the signal, the file and the flag of the library, and what the ioctl `PIU_IOCTL_RX` gives. -/
structure Signal where
  sig : Nat
  hpiu : Int
  statusFlag : Bool
  rx : Option PiuProtl
deriving DecidableEq

/-- The entries of `_piu_ctx` that a signal reads, and the callback that it calls with what. -/
structure Handled (F X : Type) where
  reads : List Nat
  call : Option (F × X × Msg)
deriving DecidableEq

inductive Action (F X : Type) where
  | register (call : Option F) (id : Word) (ctx : X)
  | signal (e : Signal)
deriving DecidableEq

section model

variable {F X : Type}

namespace PiuLib

variable (s : PiuLib F X)

/-- After `piulib_init`, which clears the table. -/
def init (null : X) (behind : Nat → PiuCtx F X) : PiuLib F X where
  piuCtx i := if i < maxQueues then { func := none, ctx := null } else behind i
  cNum := 0

/-- `piu_register`. -/
def register (call : Option F) (id : Word) (ctx : X) : PiuLib F X :=
  let qId := (id - 1).toNat
  let func := (s.piuCtx qId).func
  let cNum := if func.isNone ∧ call.isSome then s.cNum + 1 else s.cNum
  let cNum := if func.isSome ∧ call.isNone then cNum - 1 else cNum
  { piuCtx := Function.update s.piuCtx qId { func := call, ctx := ctx }, cNum := cNum }

/-- `piulib_sig`. -/
def piulibSig (e : Signal) : Handled F X :=
  if e.sig ≠ sigrtmin then { reads := [], call := none }
  else if e.hpiu = 0 then { reads := [], call := none }
  else if e.statusFlag = false then { reads := [], call := none }
  else match e.rx with
    | none => { reads := [], call := none }
    | some m =>
      let q := (m.msg - 1).toNat
      if maxQueues < q then { reads := [], call := none }
      else match (s.piuCtx q).func with
        | some func => { reads := [q], call := some (func, (s.piuCtx q).ctx, m.msgBody) }
        | none => { reads := [q], call := none }

def step : Action F X → PiuLib F X
  | .register call id ctx => s.register call id ctx
  | .signal _ => s

def after (l : List (Action F X)) : PiuLib F X := l.foldl step s

end PiuLib

/-- The message that a signal receives. -/
def Signal.received (e : Signal) : Option PiuProtl :=
  if e.sig = sigrtmin ∧ e.hpiu ≠ 0 ∧ e.statusFlag = true then e.rx else none

/-! ## What the registrations ask for -/

/-- The registrations are for the ids of `piu_queue_e`. -/
def Action.InRange : Action F X → Prop
  | .register _ id _ => 1 ≤ id.toNat ∧ id.toNat ≤ maxQueues
  | .signal _ => True

instance (a : Action F X) : Decidable a.InRange := match a with
  | .register _ id _ => inferInstanceAs (Decidable (1 ≤ id.toNat ∧ id.toNat ≤ maxQueues))
  | .signal _ => inferInstanceAs (Decidable True)

/-- What the action registers for `id`. -/
def Action.registration (id : Word) : Action F X → Option (Option F × X)
  | .register call id' ctx => if id' = id then some (call, ctx) else none
  | .signal _ => none

/-- The callback last registered for `id` and its context. -/
def lastRegistered (l : List (Action F X)) (id : Word) : Option (F × X) :=
  (l.reverse.findSome? (Action.registration id)).bind fun r => r.1.map fun func => (func, r.2)

/-- The queues with a callback. -/
def registered (l : List (Action F X)) : Finset Nat :=
  (Finset.Icc 1 maxQueues).filter fun id => (lastRegistered l (BitVec.ofNat 32 id)).isSome

/-- The signal calls the callback last registered for the id of its message, or nothing, and reads only the table. -/
structure Dispatched (l : List (Action F X)) (e : Signal) (h : Handled F X) : Prop where
  call : h.call = e.received.bind fun m => (lastRegistered l m.msg).map fun r => (r.1, r.2, m.msgBody)
  reads : ∀ i ∈ h.reads, i < maxQueues

/-! ## One more action -/

section append

variable (l : List (Action F X)) (call : Option F) (id : Word) (ctx : X)

theorem lastRegistered_signal (e : Signal) : lastRegistered (l ++ [.signal e]) = lastRegistered l := by
  funext id
  unfold lastRegistered
  rw [List.reverse_append, List.reverse_singleton, List.singleton_append, List.findSome?_cons]
  rfl

theorem lastRegistered_register (id' : Word) : lastRegistered (l ++ [.register call id ctx]) id' =
    if id = id' then call.map fun func => (func, ctx) else lastRegistered l id' := by
  unfold lastRegistered
  rw [List.reverse_append, List.reverse_singleton, List.singleton_append, List.findSome?_cons]
  split_ifs with h
  · rw [show Action.registration id' (.register call id ctx) = some (call, ctx) from if_pos h]
    rfl
  · rw [show Action.registration id' (.register call id ctx) = none from if_neg h]

theorem registered_signal (e : Signal) : registered (l ++ [.signal e]) = registered l := by
  unfold registered
  rw [lastRegistered_signal]

variable {id}

/-- Two ids of queues are different numbers. -/
theorem ofNat_eq_iff {k : Nat} (hk : k ∈ Finset.Icc 1 maxQueues) : id = BitVec.ofNat 32 k ↔ k = id.toNat := by
  have hlt : k < 2 ^ 32 := lt_of_le_of_lt (Finset.mem_Icc.mp hk).2 (by decide)
  constructor
  · intro h
    rw [h, BitVec.toNat_ofNat, Nat.mod_eq_of_lt hlt]
  · intro h
    rw [h, BitVec.ofNat_toNat, BitVec.setWidth_eq]

theorem mem_registered_register {k : Nat} (hk : k ∈ Finset.Icc 1 maxQueues) :
    k ∈ registered (l ++ [.register call id ctx]) ↔ if k = id.toNat then call.isSome = true else k ∈ registered l := by
  unfold registered
  rw [Finset.mem_filter, lastRegistered_register, and_iff_right hk]
  by_cases h : k = id.toNat
  · rw [if_pos h, if_pos ((ofNat_eq_iff hk).mpr h)]
    cases call <;> simp
  · rw [if_neg h, if_neg fun h' => h ((ofNat_eq_iff hk).mp h'), Finset.mem_filter, and_iff_right hk]

theorem registered_set (hid : id.toNat ∈ Finset.Icc 1 maxQueues) (hc : call.isSome = true) :
    registered (l ++ [.register call id ctx]) = insert id.toNat (registered l) := by
  ext k
  by_cases hk : k ∈ Finset.Icc 1 maxQueues
  · rw [mem_registered_register l call ctx hk, Finset.mem_insert]
    split_ifs with h
    · exact iff_of_true hc (Or.inl h)
    · exact (or_iff_right h).symm
  · have hne : k ≠ id.toNat := fun h => hk (h ▸ hid)
    have hout : ∀ l : List (Action F X), k ∉ registered l := fun l h => hk (Finset.mem_filter.mp h).1
    exact iff_of_false (hout _) fun h => (Finset.mem_insert.mp h).elim hne (hout l)

theorem registered_clear : registered (l ++ [.register none id ctx]) = (registered l).erase id.toNat := by
  ext k
  by_cases hk : k ∈ Finset.Icc 1 maxQueues
  · rw [mem_registered_register l none ctx hk, Finset.mem_erase]
    split_ifs with h
    · exact iff_of_false (by simp) fun h' => h'.1 h
    · exact (and_iff_right h).symm
  · have hout : ∀ l : List (Action F X), k ∉ registered l := fun l h => hk (Finset.mem_filter.mp h).1
    exact iff_of_false (hout _) fun h => hout l (Finset.mem_of_mem_erase h)

end append

/-! ## The table -/

/-- The table and the count are those of the last registrations. -/
structure Kept (l : List (Action F X)) (s : PiuLib F X) : Prop where
  entry : ∀ id : Word, 1 ≤ id.toNat → id.toNat ≤ maxQueues →
    (s.piuCtx (id - 1).toNat).func.map (fun func => (func, (s.piuCtx (id - 1).toNat).ctx)) = lastRegistered l id
  count : s.cNum = BitVec.ofNat 32 (registered l).card

/-- The index of an id. -/
theorem toNat_sub_one {id : Word} (h : 1 ≤ id.toNat) : (id - 1).toNat = id.toNat - 1 := by
  bv_omega

theorem Kept.init (null : X) (behind : Nat → PiuCtx F X) : Kept [] (PiuLib.init null behind) where
  entry id h1 h8 := by
    have hlt : (id - 1).toNat < maxQueues := by
      rw [toNat_sub_one h1]
      omega
    have hentry : (PiuLib.init null behind).piuCtx (id - 1).toNat = { func := none, ctx := null } := if_pos hlt
    rw [hentry]
    rfl
  count := by
    have hnone : registered ([] : List (Action F X)) = ∅ := Finset.filter_eq_empty_iff.mpr fun _ _ h => by cases h
    rw [hnone]
    rfl

variable {l : List (Action F X)} {s : PiuLib F X}

/-- The queue has a callback exactly when its entry has one. -/
theorem Kept.mem_registered (h : Kept l s) {id : Word} (h1 : 1 ≤ id.toNat) (h8 : id.toNat ≤ maxQueues) :
    id.toNat ∈ registered l ↔ (s.piuCtx (id - 1).toNat).func.isSome = true := by
  unfold registered
  rw [Finset.mem_filter, and_iff_right (Finset.mem_Icc.mpr ⟨h1, h8⟩), BitVec.ofNat_toNat, BitVec.setWidth_eq,
    ← h.entry id h1 h8, Option.isSome_map]

theorem Kept.register (h : Kept l s) (call : Option F) {id : Word} (ctx : X) (h1 : 1 ≤ id.toNat)
    (h8 : id.toNat ≤ maxQueues) : Kept (l ++ [.register call id ctx]) (s.register call id ctx) where
  entry id' h1' h8' := by
    rw [lastRegistered_register]
    by_cases heq : id = id'
    · have hentry : (s.register call id ctx).piuCtx (id' - 1).toNat = { func := call, ctx := ctx } := by
        rw [← heq]
        exact Function.update_self _ _ _
      rw [hentry, if_pos heq]
    · have hne : (id' - 1).toNat ≠ (id - 1).toNat := by
        rw [toNat_sub_one h1, toNat_sub_one h1']
        intro h
        exact heq (BitVec.eq_of_toNat_eq (by omega))
      have hentry : (s.register call id ctx).piuCtx (id' - 1).toNat = s.piuCtx (id' - 1).toNat :=
        Function.update_of_ne hne _ _
      rw [hentry, if_neg heq]
      exact h.entry id' h1' h8'
  count := by
    have hmem := h.mem_registered h1 h8
    have hid : id.toNat ∈ Finset.Icc 1 maxQueues := Finset.mem_Icc.mpr ⟨h1, h8⟩
    unfold PiuLib.register
    dsimp only
    rw [h.count]
    cases hf : (s.piuCtx (id - 1).toNat).func with
    | some func =>
      have hm : id.toNat ∈ registered l := hmem.mpr (by rw [hf]; rfl)
      cases call with
      | some func' =>
        rw [registered_set l (some func') ctx hid rfl, Finset.insert_eq_of_mem hm]
        simp
      | none =>
        rw [registered_clear, ← Finset.card_erase_add_one hm, BitVec.ofNat_add]
        exact BitVec.add_sub_cancel _ _
    | none =>
      have hm : id.toNat ∉ registered l := fun hm => by
        have hsome := hmem.mp hm
        rw [hf] at hsome
        cases hsome
      cases call with
      | some func' =>
        rw [registered_set l (some func') ctx hid rfl, Finset.card_insert_of_notMem hm, BitVec.ofNat_add]
        simp
      | none =>
        rw [registered_clear, Finset.erase_eq_of_notMem hm]
        simp

theorem Kept.signal (h : Kept l s) (e : Signal) : Kept (l ++ [.signal e]) s where
  entry id h1 h8 := by
    rw [lastRegistered_signal]
    exact h.entry id h1 h8
  count := by
    rw [registered_signal]
    exact h.count

theorem Kept.after (null : X) (behind : Nat → PiuCtx F X) (l : List (Action F X)) (hl : ∀ a ∈ l, a.InRange) :
    Kept l ((PiuLib.init null behind).after l) := by
  induction l using List.reverseRecOn with
  | nil => exact Kept.init null behind
  | append_singleton l a ih =>
    have hkept := ih fun b hb => hl b (List.mem_append_left _ hb)
    have ha : a.InRange := hl a (List.mem_append_right _ (List.mem_singleton_self a))
    rw [PiuLib.after, List.foldl_append, List.foldl_cons, List.foldl_nil, ← PiuLib.after]
    cases a with
    | register call id ctx => exact hkept.register call ctx ha.1 ha.2
    | signal e => exact hkept.signal e

/-! ## A signal -/

theorem lastRegistered_outside (hl : ∀ a ∈ l, a.InRange) {id : Word} (hid : ¬ (1 ≤ id.toNat ∧ id.toNat ≤ maxQueues)) :
    lastRegistered l id = none := by
  induction l using List.reverseRecOn with
  | nil => rfl
  | append_singleton l a ih =>
    have hl' := ih fun b hb => hl b (List.mem_append_left _ hb)
    have ha : a.InRange := hl a (List.mem_append_right _ (List.mem_singleton_self a))
    cases a with
    | register call id' ctx =>
      have hne : id' ≠ id := fun h => hid (h ▸ ha)
      rw [lastRegistered_register, if_neg hne]
      exact hl'
    | signal e =>
      rw [lastRegistered_signal]
      exact hl'

theorem piulibSig_silent (s : PiuLib F X) {e : Signal} (he : e.received = none) :
    s.piulibSig e = { reads := [], call := none } := by
  unfold Signal.received at he
  unfold PiuLib.piulibSig
  by_cases hr : e.sig = sigrtmin ∧ e.hpiu ≠ 0 ∧ e.statusFlag = true
  · rw [if_pos hr] at he
    rw [he]
    simp
  · by_cases h1 : e.sig ≠ sigrtmin
    · rw [if_pos h1]
    · by_cases h2 : e.hpiu = 0
      · rw [if_neg h1, if_pos h2]
      · have h3 : e.statusFlag = false :=
          Bool.eq_false_iff.mpr fun h3 => hr ⟨not_not.mp h1, h2, h3⟩
        rw [if_neg h1, if_neg h2, if_pos h3]

theorem piulibSig_overflow (s : PiuLib F X) {e : Signal} {m : PiuProtl} (he : e.received = some m)
    (hq : maxQueues < (m.msg - 1).toNat) : s.piulibSig e = { reads := [], call := none } := by
  unfold Signal.received at he
  split_ifs at he with hr
  unfold PiuLib.piulibSig
  rw [if_neg (not_not.mpr hr.1), if_neg hr.2.1, if_neg (by simp [hr.2.2]), he]
  exact if_pos hq

theorem piulibSig_served (s : PiuLib F X) {e : Signal} {m : PiuProtl} (he : e.received = some m)
    (hq : (m.msg - 1).toNat ≤ maxQueues) : s.piulibSig e = { 
      reads := [(m.msg - 1).toNat]
      call := (s.piuCtx (m.msg - 1).toNat).func.map fun func => (func, (s.piuCtx (m.msg - 1).toNat).ctx, m.msgBody) } := by
  unfold Signal.received at he
  split_ifs at he with hr
  unfold PiuLib.piulibSig
  rw [if_neg (not_not.mpr hr.1), if_neg hr.2.1, if_neg (by simp [hr.2.2]), he]
  dsimp only
  rw [if_neg (not_lt.mpr hq)]
  cases hf : (s.piuCtx (m.msg - 1).toNat).func with
  | some func => rfl
  | none => rfl

/-- On a table that is kept, a signal is dispatched exactly when its message has not the id behind the last queue. -/
theorem Kept.dispatched_iff (h : Kept l s) (hl : ∀ a ∈ l, a.InRange) (e : Signal) :
    Dispatched l e (s.piulibSig e) ↔ ∀ m, e.received = some m → m.msg.toNat ≠ maxQueues + 1 := by
  cases he : e.received with
  | none =>
    rw [piulibSig_silent s he]
    refine iff_of_true ⟨?_, fun i hi => absurd hi List.not_mem_nil⟩ fun m hm => by cases hm
    rw [he]
    rfl
  | some m =>
    by_cases hin : 1 ≤ m.msg.toNat ∧ m.msg.toNat ≤ maxQueues
    · have hq := toNat_sub_one hin.1
      rw [piulibSig_served s he (by omega)]
      refine iff_of_true ⟨?_, fun i hi => ?_⟩ fun m' hm' => ?_
      · rw [he, Option.bind_some, ← h.entry m.msg hin.1 hin.2, Option.map_map]
        rfl
      · rw [List.mem_singleton.mp hi]
        omega
      · rw [← Option.some.inj hm']
        omega
    · have hnone := lastRegistered_outside hl hin
      by_cases hnine : m.msg.toNat = maxQueues + 1
      · have hq : (m.msg - 1).toNat = maxQueues := by
          rw [toNat_sub_one (by omega), hnine]
          rfl
        rw [piulibSig_served s he (le_of_eq hq)]
        refine iff_of_false (fun hd => ?_) fun hm => hm m rfl hnine
        have hlt := hd.reads _ (List.mem_singleton_self _)
        omega
      · have hq : maxQueues < (m.msg - 1).toNat := by
          unfold maxQueues at hin hnine ⊢
          bv_omega
        rw [piulibSig_overflow s he hq]
        refine iff_of_true ⟨?_, fun i hi => absurd hi List.not_mem_nil⟩ fun m' hm' => ?_
        · rw [he, Option.bind_some, hnone]
          rfl
        · rw [← Option.some.inj hm']
          exact hnine

/-- The count never wraps. -/
theorem Kept.count_toNat (h : Kept l s) : s.cNum.toNat = (registered l).card := by
  have hle : (registered l).card ≤ maxQueues := (Finset.card_filter_le _ _).trans (by decide)
  rw [h.count, BitVec.toNat_ofNat, Nat.mod_eq_of_lt (lt_of_le_of_lt hle (by decide))]

/-- Over any sequence of registrations and signals, whatever lies behind the table: the count is that of the queues with a callback, and every
message goes to the callback last registered for its id, exactly when no message has the id behind the last queue. -/
theorem dispatch_exact_iff (null : X) (behind : Nat → PiuCtx F X) (l : List (Action F X)) (hl : ∀ a ∈ l, a.InRange) :
    ((∀ pre post, l = pre ++ post → ((PiuLib.init null behind).after pre).cNum.toNat = (registered pre).card) ∧
      ∀ pre e post, l = pre ++ .signal e :: post →
        Dispatched pre e (((PiuLib.init null behind).after pre).piulibSig e)) ↔
      ∀ e, .signal e ∈ l → ∀ m, e.received = some m → m.msg.toNat ≠ maxQueues + 1 := by
  have hpre : ∀ {pre post}, l = pre ++ post → ∀ a ∈ pre, a.InRange :=
    fun h a ha => hl a (h ▸ List.mem_append_left _ ha)
  constructor
  · intro h e he
    obtain ⟨pre, post, hsplit⟩ := List.append_of_mem he
    exact ((Kept.after null behind pre (hpre hsplit)).dispatched_iff (hpre hsplit) e).mp (h.2 pre e post hsplit)
  · intro h
    constructor
    · intro pre post hsplit
      exact (Kept.after null behind pre (hpre hsplit)).count_toNat
    · intro pre e post hsplit
      have he : .signal e ∈ l := hsplit ▸ List.mem_append_right _ List.mem_cons_self
      exact ((Kept.after null behind pre (hpre hsplit)).dispatched_iff (hpre hsplit) e).mpr (h e he)

end model

/-! ## A table of one callback -/

/-- A signal that delivers a message without data for the id. -/
def message (id : Word) : Signal where
  sig := sigrtmin
  hpiu := 3
  statusFlag := true
  rx := some { msg := id, msgBody := { type := 0, len := 0, p := [] } }

/-- A callback for queue 2, then a message for it, one for an id of no queue, and one for id 0. -/
def served : List (Action Nat Nat) :=
  [.register (some 7) 2 5, .signal (message 2), .signal (message 3), .register none 2 0, .signal (message 0)]

theorem dispatch_exact_served :
    (∀ pre post, served = pre ++ post →
        ((PiuLib.init 0 fun _ => { func := some 9, ctx := 9 }).after pre).cNum.toNat = (registered pre).card) ∧
      ∀ pre e post, served = pre ++ .signal e :: post →
        Dispatched pre e (((PiuLib.init 0 fun _ => { func := some 9, ctx := 9 }).after pre).piulibSig e) :=
  (dispatch_exact_iff 0 (fun _ => { func := some 9, ctx := 9 }) served (by decide)).mpr (by
    intro e he m hm
    simp only [served, List.mem_cons, List.not_mem_nil, Action.signal.injEq, reduceCtorEq, false_or, or_false] at he
    obtain rfl | rfl | rfl := he
    all_goals
      cases hm
      decide)

/-- Nothing is registered, and a message with id 9 calls what lies behind the table. -/
theorem dispatch_behind_table : ¬ Dispatched ([] : List (Action Nat Nat)) (message 9)
    ((PiuLib.init 0 fun _ => { func := some 9, ctx := 9 }).piulibSig (message 9)) := by
  intro h
  have hlt : 8 < maxQueues := h.reads 8 (by decide)
  exact absurd hlt (by decide)

end Emlinux.Piu.UserLib
