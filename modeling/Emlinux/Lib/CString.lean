import Emlinux.Lib.Splice

/-!
# C strings

A string is its bytes before the NUL, and memory is a function on the naturals. `Holds mem o s` says that `s` lies at `o` with its NUL behind
it; it is then what `stringAt` reads there. `strcpy` writes into a buffer of a given size, or is `none` where it would write behind it.
`strncasecmp` is zero exactly when the parts that it compares are the same in lower case.
-/

namespace Emlinux.Lib

@[ext] structure CString where
  bytes : List (BitVec 8)
  nul : 0#8 ∉ bytes
deriving DecidableEq

namespace CString

variable (s t : CString)

def strlen : Nat := s.bytes.length

/-- `&s[n]`. -/
def drop (n : Nat) : CString where
  bytes := s.bytes.drop n
  nul h := s.nul (List.mem_of_mem_drop h)

def append : CString where
  bytes := s.bytes ++ t.bytes
  nul h := (List.mem_append.mp h).elim s.nul t.nul

instance : Append CString := ⟨append⟩

@[simp] theorem bytes_append : (s ++ t).bytes = s.bytes ++ t.bytes := rfl

@[simp] theorem strlen_append : (s ++ t).strlen = s.strlen + t.strlen := List.length_append

/-! ## Copies -/

/-- What lies in memory for the string. -/
def terminated : List (BitVec 8) := s.bytes ++ [0#8]

@[simp] theorem length_terminated : s.terminated.length = s.strlen + 1 := by
  rw [terminated, List.length_append]
  rfl

def Holds (mem : Nat → BitVec 8) (o : Nat) : Prop := slice mem o (s.strlen + 1) = s.terminated

/-- Copies the string to `o` in a buffer of `size` bytes. -/
def strcpy (size : Nat) (mem : Nat → BitVec 8) (o : Nat) : Option (Nat → BitVec 8) :=
  if o + s.strlen + 1 ≤ size then some (splice mem o s.terminated) else none

/-- The string at the start of a buffer of `size` bytes. -/
def stringAt (size : Nat) (mem : Nat → BitVec 8) : CString where
  bytes := (slice mem 0 size).takeWhile (fun c => c != 0#8)
  nul h := by
    have hne := List.all_eq_true.mp List.all_takeWhile _ h
    simp at hne

variable {s t} {mem : Nat → BitVec 8} {o size : Nat}

theorem holds_splice (mem : Nat → BitVec 8) (o : Nat) : s.Holds (splice mem o s.terminated) o := by
  unfold Holds
  rw [← length_terminated]
  exact slice_splice mem o s.terminated

/-- A copy over the NUL of a string appends to it. -/
theorem Holds.splice_append (h : s.Holds mem o) : (s ++ t).Holds (splice mem (o + s.strlen) t.terminated) o := by
  have hfront : slice (splice mem (o + s.strlen) t.terminated) o s.strlen = s.bytes := by
    have hsame : slice (splice mem (o + s.strlen) t.terminated) o s.strlen = slice mem o s.strlen :=
      slice_congr fun p _ hp => splice_of_lt hp
    have hsplit : slice mem o s.strlen ++ slice mem (o + s.strlen) 1 = s.terminated := by
      rw [slice_append]
      exact h
    rw [hsame]
    exact (List.append_inj hsplit (length_slice mem o s.strlen)).1
  have hback : slice (splice mem (o + s.strlen) t.terminated) (o + s.strlen) (t.strlen + 1) = t.terminated :=
    holds_splice mem (o + s.strlen)
  unfold Holds
  rw [strlen_append, Nat.add_assoc, ← slice_append, hfront, hback, terminated, terminated, bytes_append,
    List.append_assoc]

theorem Holds.stringAt (h : s.Holds mem 0) (hsize : s.strlen + 1 ≤ size) : stringAt size mem = s := by
  have hsplit : slice mem 0 size = s.bytes ++ (0#8 :: slice mem (s.strlen + 1) (size - (s.strlen + 1))) := by
    have h' : slice mem 0 (s.strlen + 1) = s.bytes ++ [0#8] := h
    rw [show size = (s.strlen + 1) + (size - (s.strlen + 1)) by omega, ← slice_append, h', Nat.zero_add,
      List.append_assoc, Nat.add_sub_cancel_left]
    rfl
  apply CString.ext
  show (slice mem 0 size).takeWhile (fun c => c != 0#8) = s.bytes
  rw [hsplit, List.takeWhile_append_of_pos, List.takeWhile_cons_of_neg, List.append_nil]
  · simp
  · intro c hc
    exact bne_iff_ne.mpr fun h0 => s.nul (h0 ▸ hc)

/-! ## Comparisons -/

/-- `tolower` of the C locale. -/
def tolower (c : BitVec 8) : BitVec 8 := if 65 ≤ c.toNat ∧ c.toNat ≤ 90 then c + 32 else c

/-- The bytes in lower case. -/
def lower (s : CString) : List (BitVec 8) := s.bytes.map tolower

/-- The difference at the first place, among the first `n`, where the two differ in lower case. -/
def caseDiff : Nat → List (BitVec 8) → List (BitVec 8) → Int
  | 0, _, _ => 0
  | n + 1, a, b =>
    let c := tolower (a.headD 0)
    let d := tolower (b.headD 0)
    if c = d then if c = 0 then 0 else caseDiff n a.tail b.tail else (c.toNat : Int) - d.toNat

def strncasecmp (s t : CString) (n : Nat) : Int := caseDiff n s.bytes t.bytes

theorem tolower_eq_zero {c : BitVec 8} : tolower c = 0 ↔ c = 0 := by
  unfold tolower
  split_ifs
  · bv_omega
  · exact Iff.rfl

theorem diff_ne_zero {c d : BitVec 8} (h : c ≠ d) : (c.toNat : Int) - d.toNat ≠ 0 :=
  fun h' => h (BitVec.eq_of_toNat_eq (by omega))

theorem caseDiff_eq_zero (n : Nat) (a b : List (BitVec 8)) (ha : 0#8 ∉ a) (hb : 0#8 ∉ b) :
    caseDiff n a b = 0 ↔ (a.map tolower).take n = (b.map tolower).take n := by
  induction n generalizing a b with
  | zero => simp [caseDiff]
  | succ n ih =>
    cases a with
    | nil =>
      cases b with
      | nil => simp [caseDiff, tolower]
      | cons d b =>
        have hd : tolower d ≠ tolower 0 := fun h => hb (List.mem_cons.mpr (Or.inl (tolower_eq_zero.mp h).symm))
        show (if tolower 0 = tolower d then _ else ((tolower 0).toNat : Int) - (tolower d).toNat) = 0 ↔ _
        rw [if_neg hd.symm]
        exact iff_of_false (diff_ne_zero hd.symm) (by simp)
    | cons c a =>
      have hc : tolower c ≠ 0 := fun h => ha (List.mem_cons.mpr (Or.inl (tolower_eq_zero.mp h).symm))
      cases b with
      | nil =>
        have hc0 : tolower c ≠ tolower 0 := hc
        show (if tolower c = tolower 0 then _ else ((tolower c).toNat : Int) - (tolower 0).toNat) = 0 ↔ _
        rw [if_neg hc0]
        exact iff_of_false (diff_ne_zero hc0) (by simp)
      | cons d b =>
        show (if tolower c = tolower d then if tolower c = 0 then 0 else caseDiff n a b
          else ((tolower c).toNat : Int) - (tolower d).toNat) = 0 ↔ _
        rw [List.map_cons, List.map_cons, List.take_succ_cons, List.take_succ_cons, List.cons.injEq]
        by_cases hcd : tolower c = tolower d
        · rw [if_pos hcd, if_neg hc, and_iff_right hcd]
          exact ih a b (fun h => ha (List.mem_cons_of_mem _ h)) (fun h => hb (List.mem_cons_of_mem _ h))
        · rw [if_neg hcd]
          exact iff_of_false (diff_ne_zero hcd) fun h => hcd h.1

theorem strncasecmp_eq_zero (s t : CString) (n : Nat) : s.strncasecmp t n = 0 ↔ s.lower.take n = t.lower.take n :=
  caseDiff_eq_zero n s.bytes t.bytes s.nul t.nul

/-- The string ends in `t`, ignoring case. -/
def EndsNocase (s t : CString) : Prop := t.lower <:+ s.lower

instance (s t : CString) : Decidable (s.EndsNocase t) := inferInstanceAs (Decidable (t.lower <:+ s.lower))

@[simp] theorem length_lower (s : CString) : s.lower.length = s.strlen := List.length_map _

theorem lower_drop (s : CString) (n : Nat) : (s.drop n).lower = s.lower.drop n := by
  unfold lower drop
  exact List.map_drop

theorem EndsNocase.strlen_le (h : s.EndsNocase t) : t.strlen ≤ s.strlen := by
  rw [← length_lower, ← length_lower]
  exact h.length_le

/-- The comparison of the last bytes with the whole of `t`. -/
theorem strncasecmp_tail (h : t.strlen ≤ s.strlen) :
    (s.drop (s.strlen - t.strlen)).strncasecmp t t.strlen = 0 ↔ s.EndsNocase t := by
  have hs : (s.lower.drop (s.strlen - t.strlen)).take t.strlen = s.lower.drop (s.strlen - t.strlen) :=
    List.take_of_length_le (by rw [List.length_drop, length_lower]; omega)
  have ht : t.lower.take t.strlen = t.lower := List.take_of_length_le (le_of_eq (length_lower t))
  rw [strncasecmp_eq_zero, lower_drop, hs, ht, EndsNocase, List.suffix_iff_eq_drop, length_lower, length_lower]
  exact eq_comm

end CString

end Emlinux.Lib
