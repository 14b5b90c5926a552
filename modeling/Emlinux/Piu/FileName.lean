import Emlinux.Piu.File

/-!
# The names of the program files

`handle_file` puts `DSP_BIN_PATH` before the names of program files, those without a slash that end in `.dlm` or `.dlist`. Its test takes the result
of `strncasecmp` for a truth value, which it is the other way round: it holds of the names without a slash that have five characters or
more, and of those of four that are not `.dlm`.

* `isDspFile_iff`: the names of which the test holds.
* `nameBuffer_holds`: the copies stay within the buffer, and leave the name that the test asks for.
* `fopenName_iff`: the names for which this is the right one.
-/

namespace Emlinux.Piu.File

open Lib

/-! ## The buffer -/

section buffer

variable (stack : Nat → Byte) (name : CString)

/-- The name with the path before it. -/
def withPath : CString := dspBinPath ++ slash ++ name

theorem strlen_withPath : (withPath name).strlen + 1 = nameSize name := by
  show (dspBinPath ++ slash ++ name).strlen + 1 = name.strlen + dspBinPath.strlen + 2
  rw [CString.strlen_append, CString.strlen_append, show slash.strlen = 1 from rfl]
  omega

theorem nameBuffer_holds : ∃ b, nameBuffer stack name = some b ∧
    (if isDspFile name = true then withPath name else name).Holds b 0 := by
  have hname : name.strcpy (nameSize name) stack 0 = some (splice stack 0 name.terminated) := by
    unfold CString.strcpy nameSize
    exact if_pos (by omega)
  unfold nameBuffer
  rw [hname, Option.bind_some]
  by_cases hdsp : isDspFile name = true
  · have hpath : ∀ b, dspBinPath.strcpy (nameSize name) b 0 = some (splice b 0 dspBinPath.terminated) := by
      intro b
      unfold CString.strcpy nameSize
      exact if_pos (by omega)
    have hslash : ∀ b, slash.strcpy (nameSize name) b dspBinPath.strlen =
        some (splice b dspBinPath.strlen slash.terminated) := by
      intro b
      unfold CString.strcpy nameSize
      exact if_pos (by rw [show slash.strlen = 1 from rfl]; omega)
    have hfile : ∀ b, name.strcpy (nameSize name) b (dspBinPath.strlen + 1) =
        some (splice b (dspBinPath.strlen + 1) name.terminated) := by
      intro b
      unfold CString.strcpy nameSize
      exact if_pos (by omega)
    rw [if_pos hdsp, if_pos hdsp, hpath, Option.bind_some, hslash, Option.bind_some, hfile]
    refine ⟨_, rfl, ?_⟩
    have h1 := CString.holds_splice (s := dspBinPath) (splice stack 0 name.terminated) 0
    have h2 := h1.splice_append (t := slash)
    have h3 := h2.splice_append (t := name)
    rw [Nat.zero_add, Nat.zero_add, CString.strlen_append] at h3
    exact h3
  · rw [if_neg hdsp, if_neg hdsp]
    exact ⟨_, rfl, CString.holds_splice stack 0⟩

theorem fopenName_eq : fopenName stack name = some (if isDspFile name = true then withPath name else name) := by
  obtain ⟨b, hb, hholds⟩ := nameBuffer_holds stack name
  unfold fopenName
  rw [hb, Option.map_some, hholds.stringAt]
  have hsize := strlen_withPath name
  split_ifs
  · omega
  · rw [nameSize]
    omega

end buffer

/-! ## The test -/

section test

variable {name : CString}

/-- A name cannot end in `.dlm` and in `.dlis`, so that from five characters on one of the comparisons is not zero. -/
theorem tail_differs (h : 5 ≤ name.strlen) : (name.drop (name.strlen - 4)).strncasecmp dlm 4 ≠ 0 ∨
    (name.drop (name.strlen - 5)).strncasecmp dlist 5 ≠ 0 := by
  by_contra hsame
  rw [not_or, not_not, not_not, CString.strncasecmp_eq_zero, CString.strncasecmp_eq_zero, CString.lower_drop,
    CString.lower_drop] at hsame
  have hlast : ∀ k l : List Byte, k = l → k.getLast? = l.getLast? := fun _ _ h => congrArg _ h
  have h4 : ((name.lower.drop (name.strlen - 4)).take 4).getLast? = name.lower.getLast? := by
    rw [List.take_of_length_le (by rw [List.length_drop, CString.length_lower]; omega), List.getLast?_drop,
      if_neg (by rw [CString.length_lower]; omega)]
  have h5 : ((name.lower.drop (name.strlen - 5)).take 5).getLast? = name.lower.getLast? := by
    rw [List.take_of_length_le (by rw [List.length_drop, CString.length_lower]; omega), List.getLast?_drop,
      if_neg (by rw [CString.length_lower]; omega)]
  have hm := (h4.symm.trans (hlast _ _ hsame.1)).symm.trans (h5.symm.trans (hlast _ _ hsame.2))
  exact absurd hm (by decide)

theorem isDspFile_iff (name : CString) : isDspFile name = true ↔
    ascii '/' ∉ name.bytes ∧ (5 ≤ name.strlen ∨ name.strlen = 4 ∧ ¬ name.EndsNocase dlm) := by
  have hdlm : 4 ≤ name.strlen → ((name.drop (name.strlen - 4)).strncasecmp dlm 4 = 0 ↔ name.EndsNocase dlm) :=
    fun h => CString.strncasecmp_tail (t := dlm) h
  unfold isDspFile
  simp only [Bool.and_eq_true, Bool.or_eq_true, decide_eq_true_eq]
  apply and_congr_right
  intro _
  constructor
  · rintro (⟨h4, hne⟩ | ⟨h5, -⟩)
    · by_cases h5 : 5 ≤ name.strlen
      · exact Or.inl h5
      · exact Or.inr ⟨by omega, fun h => hne ((hdlm h4).mpr h)⟩
    · exact Or.inl h5
  · rintro (h5 | ⟨h4, hne⟩)
    · obtain h | h := tail_differs h5
      · exact Or.inl ⟨by omega, h⟩
      · exact Or.inr ⟨h5, h⟩
    · exact Or.inl ⟨by omega, fun h => hne ((hdlm (by omega)).mp h)⟩

end test

/-! ## The right name -/

/-- A program file: a name without a slash that ends in `.dlm` or `.dlist`, ignoring case. -/
def ProgramFile (name : CString) : Prop := ascii '/' ∉ name.bytes ∧ (name.EndsNocase dlm ∨ name.EndsNocase dlist)

instance (name : CString) : Decidable (ProgramFile name) :=
  inferInstanceAs (Decidable (_ ∧ _))

/-- The name that the file is opened with. -/
def resolved (name : CString) : CString := if ProgramFile name then withPath name else name

theorem withPath_ne (name : CString) : withPath name ≠ name := by
  intro h
  have hlen := strlen_withPath name
  rw [h, nameSize] at hlen
  omega

/-- The copies stay within the buffer and the name is the right one exactly when it has a slash, is of less than four characters, or is of
more and ends in `.dlm` or `.dlist`. -/
theorem fopenName_iff (stack : Nat → Byte) (name : CString) : fopenName stack name = some (resolved name) ↔
    ascii '/' ∈ name.bytes ∨ name.strlen < 4 ∨ 4 < name.strlen ∧ (name.EndsNocase dlm ∨ name.EndsNocase dlist) := by
  have hle : name.EndsNocase dlm ∨ name.EndsNocase dlist → 4 ≤ name.strlen := by
    rintro (h | h)
    · exact h.strlen_le
    · exact le_trans (by decide) h.strlen_le
  have htest : fopenName stack name = some (resolved name) ↔ (isDspFile name = true ↔ ProgramFile name) := by
    rw [fopenName_eq, Option.some.injEq, resolved]
    by_cases hd : isDspFile name = true <;> by_cases hp : ProgramFile name
    · rw [if_pos hd, if_pos hp]
      exact iff_of_true rfl (iff_of_true hd hp)
    · rw [if_pos hd, if_neg hp]
      exact iff_of_false (withPath_ne name) fun h => hp (h.mp hd)
    · rw [if_neg hd, if_pos hp]
      exact iff_of_false (withPath_ne name).symm fun h => hd (h.mpr hp)
    · rw [if_neg hd, if_neg hp]
      exact iff_of_true rfl (iff_of_false hd hp)
  rw [htest, isDspFile_iff, ProgramFile]
  by_cases hslash : ascii '/' ∈ name.bytes
  · exact iff_of_true (iff_of_false (fun h => h.1 hslash) fun h => h.1 hslash) (Or.inl hslash)
  rw [and_iff_right hslash, and_iff_right hslash, or_iff_right hslash]
  obtain hlt | heq | hgt := lt_trichotomy name.strlen 4
  · refine iff_of_true (iff_of_false (fun h => ?_) fun h => ?_) (Or.inl hlt)
    · omega
    · exact absurd (hle h) (by omega)
  · have hlist : ¬ name.EndsNocase dlist := fun h => absurd h.strlen_le (by rw [heq]; decide)
    refine iff_of_false (fun h => ?_) (by omega)
    rw [or_iff_left hlist, or_iff_right (by omega), and_iff_right heq] at h
    exact iff_not_self h.symm
  · constructor
    · intro h
      exact Or.inr ⟨hgt, h.mp (Or.inl hgt)⟩
    · intro h
      have hends := h.resolve_left (by omega)
      exact iff_of_true (Or.inl hgt) hends.2

/-- A media file beside the player. -/
def songMp3 : CString where
  bytes := ['s', 'o', 'n', 'g', '.', 'm', 'p', '3'].map ascii
  nul := by decide

theorem song_gets_path : fopenName (fun _ => 0) songMp3 = some (withPath songMp3) ∧
    fopenName (fun _ => 0) songMp3 ≠ some (resolved songMp3) := by
  decide +kernel

end Emlinux.Piu.File
