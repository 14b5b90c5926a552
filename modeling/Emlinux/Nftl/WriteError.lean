import Emlinux.Nftl.FreeSearch

/-!
# Recovery from a failed program operation

`nftl_write_error` and `nftl_copyback_error` retry on one free block after the other until the pages before the
failed one are copied and the failed page is in place. Each failed candidate counts down `free_blkcnt` twice, once
as it is taken and once as it is marked bad, so the count can reach 0 while blocks are free.

* `attemptsFail`: that the first candidates fail, read off the pattern of program failures alone.
* `copyLoop_run`, `blockReplace_run`: how far the copy onto one candidate comes.
* `Since`: what has become of the device when some candidates have failed; `Since.retry`, `Since.relocated`.
-/

namespace Emlinux.Nftl

open Lib

/-! ## The pattern of failures -/

/-- What the last step of an attempt asks of the chip: whether it fails from a given call on, and how many calls it
makes. -/
structure PutPlan where
  fails : Nat → Bool
  calls : Nat

section attempts

variable (d : Device)

/-- Whether one of `n` page copies fails that start at call `t`, and the call after them. A copy is a read and a
program operation. -/
def copyAttempt : Nat → Nat → Bool × Nat
  | 0, t => (false, t)
  | n + 1, t => if d.progFail (t + 1) then (true, t + 2) else copyAttempt n (t + 2)

/-- Whether the attempt on one candidate fails that starts at call `t`, and the call after it. -/
def attempt (page : Nat) (pl : PutPlan) (t : Nat) : Bool × Nat :=
  if (copyAttempt d page (t + 2)).1 then copyAttempt d page (t + 2)
  else (pl.fails (copyAttempt d page (t + 2)).2, (copyAttempt d page (t + 2)).2 + pl.calls)

/-- The first `j` attempts from call `t` on all fail. -/
def attemptsFail (page : Nat) (pl : PutPlan) : Nat → Nat → Bool
  | 0, _ => true
  | j + 1, t => (attempt d page pl t).1 && attemptsFail page pl j (attempt d page pl t).2

/-- `nftl_write_error` programs the page that failed. -/
def writePlan : PutPlan := ⟨d.progFail, 1⟩

/-- `nftl_copyback_error` allocates, reads the source and programs; a source outside the chip cannot be read. -/
def copyPlan (srcBlk : Nat) : PutPlan :=
  if srcBlk < d.blks then ⟨fun t => d.progFail (t + 2), 3⟩ else ⟨fun _ => true, 1⟩

/-- The body of the copy loop in `nftl_block_replace`. -/
def replacePage (srcBlk dstBlk i : Nat) (buf : Page) : M (LoopFlow Int Page) := do
  let rd ← mtdRead d srcBlk i
  let buf := rd.getD buf
  let ret ← mtdWrite d dstBlk i buf
  if ret ≠ 0 then pure (LoopFlow.brk ret) else pure (LoopFlow.next buf)

end attempts

/-! ## The steps of an attempt -/

section steps

variable {d : Device} {s : St}

theorem mtdRead_run {b p : Nat} (hb : b < d.blks) (hp : p < d.pgs) : mtdRead d b p s =
    ⟨.ok (some (s.nand.read b p)), s.reflash s.nand.flash (d.corrected s.nand.tick) (s.nand.tick + 1), []⟩ := by
  simp [mtdRead, phys_of_lt hp, hb, St.reflash]

theorem mtdWrite_run {b p : Nat} (pg : Page) (hb : b < d.blks) (hp : p < d.pgs) : ∃ ret v l,
    mtdWrite d b p pg s = ⟨.ok ret, s.reflash (Function.update s.nand.flash b (Function.update (s.nand.flash b) p v))
      s.nand.ecc (s.nand.tick + 1), l⟩ ∧
    (ret ≠ 0 ↔ d.progFail s.nand.tick = true) ∧ (ret = 0 → v = some pg) := by
  cases hf : d.progFail s.nand.tick with
  | true =>
    refine ⟨-5, d.torn s.nand.tick, [.progFail b p], ?_, by decide, by simp⟩
    simp [mtdWrite, phys_of_lt hp, hb, hf, St.reflash]
  | false =>
    refine ⟨0, some pg, [.program b p pg], ?_, by decide, fun _ => rfl⟩
    simp [mtdWrite, phys_of_lt hp, hb, hf, St.reflash, Event.apply]

/-- The candidate got new content, and `t` calls were made. -/
def Filling (s : St) (b : Nat) (col : Nat → Option Page) (t : Nat) (s' : St) : Prop :=
  ∃ e, s' = s.reflash (Function.update s.nand.flash b col) e t

theorem Filling.refl (s : St) (b : Nat) (e t : Nat) : Filling s b (s.nand.flash b) t (s.reflash s.nand.flash e t) :=
  ⟨e, by rw [Function.update_eq_self]⟩

theorem Filling.trans {s₁ s₂ : St} {b t t' : Nat} {col col' : Nat → Option Page} (h : Filling s b col t s₁)
    (h' : Filling s₁ b col' t' s₂) : Filling s b col' t' s₂ := by
  obtain ⟨e, rfl⟩ := h
  obtain ⟨e', rfl⟩ := h'
  refine ⟨e', ?_⟩
  simp [St.reflash]

theorem Filling.read {s' : St} {b t x p : Nat} {col : Nat → Option Page} (h : Filling s b col t s') (hx : x ≠ b) :
    s'.nand.read x p = s.nand.read x p := by
  obtain ⟨e, rfl⟩ := h
  simp [St.reflash, Nand.read, Function.update_of_ne hx]

theorem Filling.flash {s' : St} {b t : Nat} {col : Nat → Option Page} (h : Filling s b col t s') :
    s'.nand.flash = Function.update s.nand.flash b col := by
  obtain ⟨e, rfl⟩ := h
  rfl

theorem Filling.tick {s' : St} {b t : Nat} {col : Nat → Option Page} (h : Filling s b col t s') : s'.nand.tick = t := by
  obtain ⟨e, rfl⟩ := h
  rfl

theorem Filling.bad {s' : St} {b t : Nat} {col : Nat → Option Page} (h : Filling s b col t s') :
    s'.nand.bad = s.nand.bad := by
  obtain ⟨e, rfl⟩ := h
  rfl

theorem Filling.al {s' : St} {b t : Nat} {col : Nat → Option Page} (h : Filling s b col t s') : s'.al = s.al := by
  obtain ⟨e, rfl⟩ := h
  rfl

theorem replacePage_run {src dst i : Nat} (buf : Page) (hs : src < d.blks) (hd : dst < d.blks) (hi : i < d.pgs) :
    ∃ r v s' l, replacePage d src dst i buf s = ⟨.ok r, s', l⟩ ∧
      Filling s dst (Function.update (s.nand.flash dst) i v) (s.nand.tick + 2) s' ∧
      (d.progFail (s.nand.tick + 1) = true → ∃ ret, r = .brk ret ∧ ret ≠ 0) ∧
      (d.progFail (s.nand.tick + 1) = false → r = .next (s.nand.read src i) ∧ v = some (s.nand.read src i)) := by
  obtain ⟨ret, v, l, hw, hfail, hval⟩ := mtdWrite_run (s := s.reflash s.nand.flash (d.corrected s.nand.tick)
    (s.nand.tick + 1)) (s.nand.read src i) hd hi
  have hrun := Prog.bind_ok _ (fun rd => mtdWrite d dst i (rd.getD buf) >>= fun ret =>
    if ret ≠ 0 then pure (LoopFlow.brk ret) else pure (LoopFlow.next (rd.getD buf))) (mtdRead_run (s := s) hs hi)
  have hfill : Filling s dst (Function.update (s.nand.flash dst) i v) (s.nand.tick + 2)
      ((s.reflash s.nand.flash (d.corrected s.nand.tick) (s.nand.tick + 1)).reflash
        (Function.update s.nand.flash dst (Function.update (s.nand.flash dst) i v)) (d.corrected s.nand.tick)
        (s.nand.tick + 2)) := ⟨_, rfl⟩
  by_cases hret : ret = 0
  · refine ⟨.next (s.nand.read src i), v, _, [] ++ (l ++ []), ?_, hfill, fun hf => absurd hret (hfail.mpr hf),
      fun _ => ⟨rfl, hval hret⟩⟩
    rw [replacePage, hrun]
    simp only [Option.getD_some]
    rw [Prog.bind_ok _ _ hw, if_neg (by simp [hret])]
    rfl
  · refine ⟨.brk ret, v, _, [] ++ (l ++ []), ?_, hfill, fun _ => ⟨ret, rfl, hret⟩, fun hf => ?_⟩
    · rw [replacePage, hrun]
      simp only [Option.getD_some]
      rw [Prog.bind_ok _ _ hw, if_pos hret]
      rfl
    · have := hfail.mp hret
      exact absurd (hf.symm.trans this) (by decide)

/-- The copy loop fails as the pattern says, and else copies its pages and no others. -/
theorem copyLoop_run {src dst : Nat} (hs : src < d.blks) (hd : dst < d.blks) (hne : src ≠ dst) (n i : Nat)
    (hi : i + n ≤ d.pgs) (buf : Page) (s : St) :
    ∃ r col s' l, Prog.loop (replacePage d src dst) n i buf s = ⟨.ok r, s', l⟩ ∧
      Filling s dst col (copyAttempt d n s.nand.tick).2 s' ∧
      ((copyAttempt d n s.nand.tick).1 = true → ∃ ret, r = .brk ret ∧ ret ≠ 0) ∧
      ((copyAttempt d n s.nand.tick).1 = false → (∃ buf, r = .next buf) ∧
        (∀ j, i ≤ j → j < i + n → col j = some (s.nand.read src j)) ∧
        ∀ j, j < i ∨ i + n ≤ j → col j = s.nand.flash dst j) := by
  induction n generalizing i buf s with
  | zero =>
    exact ⟨.next buf, s.nand.flash dst, s, [], rfl, Filling.refl s dst s.nand.ecc s.nand.tick, by simp [copyAttempt],
      fun _ => ⟨⟨buf, rfl⟩, fun j h1 h2 => by omega, fun _ _ => rfl⟩⟩
  | succ n ih =>
    obtain ⟨r, v, s₁, l, hrun, hfill, hbrk, hnext⟩ := replacePage_run (s := s) buf hs hd (show i < d.pgs by omega)
    have hloop : Prog.loop (replacePage d src dst) (n + 1) i buf s = _ := Prog.bind_ok _ _ hrun
    cases hf : d.progFail (s.nand.tick + 1) with
    | true =>
      obtain ⟨ret, rfl, hret⟩ := hbrk hf
      have hatt : copyAttempt d (n + 1) s.nand.tick = (true, s.nand.tick + 2) := by rw [copyAttempt, if_pos hf]
      rw [hatt]
      exact ⟨.brk ret, _, _, _, hloop, hfill, fun _ => ⟨ret, rfl, hret⟩, by simp⟩
    | false =>
      obtain ⟨rfl, rfl⟩ := hnext hf
      have hatt : copyAttempt d (n + 1) s.nand.tick = copyAttempt d n s₁.nand.tick := by
        rw [copyAttempt, if_neg (by simp [hf]), hfill.tick]
      obtain ⟨r, col, s', l', hrun', hfill', hbrk', hnext'⟩ := ih (i + 1) (by omega) (s.nand.read src i) s₁
      rw [hatt]
      refine ⟨r, col, s', l ++ l', ?_, hfill.trans hfill', hbrk', fun h => ?_⟩
      · rw [hloop]
        simp only [hrun']
      · obtain ⟨hbuf, hcopied, hrest⟩ := hnext' h
        have hself : s₁.nand.flash dst = Function.update (s.nand.flash dst) i (some (s.nand.read src i)) := by
          rw [hfill.flash, Function.update_self]
        refine ⟨hbuf, fun j h1 h2 => ?_, fun j hj => ?_⟩
        · by_cases hji : j = i
          · subst hji
            rw [hrest j (Or.inl (Nat.lt_succ_self j)), hself, Function.update_self]
          · rw [hcopied j (by omega) (by omega), hfill.read hne]
        · rw [hrest j (by omega), hself, Function.update_of_ne (by omega)]

/-- What `nftl_block_replace` returns after its loop. -/
def replaceReturn : LoopFlow Int Page → M Int
  | .brk ret => pure ret
  | .next _ => pure 0

/-- `nftl_block_replace`. -/
theorem blockReplace_run {src dst cnt : Nat} (hs : src < d.blks) (hd : dst < d.blks) (hne : src ≠ dst)
    (hc : cnt ≤ d.pgs) (s : St) :
    ∃ ret col s' l, nftlBlockReplace d src dst cnt s = ⟨.ok ret, s', l⟩ ∧
      Filling s dst col (copyAttempt d cnt (s.nand.tick + 2)).2 s' ∧
      (ret ≠ 0 ↔ (copyAttempt d cnt (s.nand.tick + 2)).1 = true) ∧
      (ret = 0 → ∀ j, j < cnt → col j = some (s.nand.read src j)) := by
  obtain ⟨r, col, s', l, hrun, hfill, hbrk, hnext⟩ := copyLoop_run hs hd hne cnt 0 (by omega)
    ⟨d.junk s.nand.tick, ⟨.badBlock, d.junkInfo (s.nand.tick + 1) % 2 ^ 32⟩⟩
    (s.reflash s.nand.flash s.nand.ecc (s.nand.tick + 2))
  have hfill' : Filling s dst col (copyAttempt d cnt (s.nand.tick + 2)).2 s' :=
    (Filling.refl s dst s.nand.ecc (s.nand.tick + 2)).trans hfill
  have hall : nftlBlockReplace d src dst cnt s = (Prog.loop (replacePage d src dst) cnt 0
      (⟨d.junk s.nand.tick, ⟨.badBlock, d.junkInfo (s.nand.tick + 1) % 2 ^ 32⟩⟩ : Page) >>= replaceReturn) (s.reflash s.nand.flash s.nand.ecc (s.nand.tick + 2)) := rfl
  cases hf : (copyAttempt d cnt (s.nand.tick + 2)).1 with
  | true =>
    obtain ⟨ret, rfl, hret⟩ := hbrk hf
    refine ⟨ret, col, s', l ++ [], ?_, hfill', by simp [hret], fun h => absurd h hret⟩
    rw [hall, Prog.bind_ok _ _ hrun]
    rfl
  | false =>
    obtain ⟨⟨buf, rfl⟩, hcopied, -⟩ := hnext hf
    refine ⟨0, col, s', l ++ [], ?_, hfill', by simp, fun _ j hj => hcopied j (Nat.zero_le j) (by omega)⟩
    rw [hall, Prog.bind_ok _ _ hrun]
    rfl

end steps

/-! ## The states of a recovery -/

/-- Only blocks of the chip are on the free list, and the counters are of their C types. -/
structure Alloc.Sound (d : Device) (al : Alloc) : Prop where
  free_lt : ∀ b, al.blockstatus b = true → b < d.blks
  last : al.lastfree < d.blks
  cnt : al.freeBlkcnt < 65536

/-- `nftl_set_block_bad`. -/
def Alloc.spoil (al : Alloc) (b : Nat) : Alloc :=
  { al with
    blockstatus := Function.update al.blockstatus b false
    freeBlkcnt := (al.freeBlkcnt + 65535) % 65536 }

/-- `mtd->block_markbad` and `nftl_set_block_bad`. -/
def St.spoil (s : St) (b : Nat) : St :=
  { s with nand := { s.nand with bad := Function.update s.nand.bad b true }, al := s.al.spoil b }

/-- What a retry loop has done to `s₀`: the candidates so far are bad and not free, everything else is as it was. -/
structure Since (d : Device) (s₀ s : St) : Prop where
  sound : s.al.Sound d
  free : ∀ b, s.al.blockstatus b = true → s₀.al.blockstatus b = true
  spoiled : ∀ b, s₀.al.blockstatus b = true → s.al.blockstatus b = false → s.nand.bad b = true
  frame : ∀ b, s.al.blockstatus b = s₀.al.blockstatus b →
    s.nand.flash b = s₀.nand.flash b ∧ s.nand.bad b = s₀.nand.bad b

/-- A recovery from a failure at page `page` of `block`, which moved the block to `r` and put `pg` there. The failed
candidates are the blocks that were free, are not free any more, and are not `r`. -/
structure Relocated (d : Device) (s₀ : St) (block page : Nat) (pg : Page) (r : Nat) (s : St) : Prop where
  lt : r < d.blks
  free : s₀.al.blockstatus r = true
  copied : ∀ j, j < page → s.nand.read r j = s₀.nand.read block j
  put : s.nand.flash r page = some pg
  taken : s.al.blockstatus r = false ∧ s.nand.bad r = s₀.nand.bad r
  failed : s.nand.bad block = true ∧ s.al.blockstatus block = false ∧ s.nand.flash block = s₀.nand.flash block
  spoiled : ∀ b, b ≠ r → s₀.al.blockstatus b = true → s.al.blockstatus b = false → s.nand.bad b = true
  fresh : ∀ b, s.al.blockstatus b = true → s₀.al.blockstatus b = true
  frame : ∀ b, b ≠ r → b ≠ block → s.al.blockstatus b = s₀.al.blockstatus b →
    s.nand.flash b = s₀.nand.flash b ∧ s.nand.bad b = s₀.nand.bad b

section states

variable {d : Device} {s₀ s : St} {b : Nat}

theorem Since.refl (h : s.al.Sound d) : Since d s s :=
  ⟨h, fun _ hb => hb, fun b h1 h2 => by simp [h1] at h2, fun _ _ => ⟨rfl, rfl⟩⟩

theorem Since.not_free (h : Since d s₀ s) (hb : s₀.al.blockstatus b = false) : s.al.blockstatus b = false := by
  by_contra hfree
  have := h.free b (by simpa using hfree)
  simp [hb] at this

/-- A block that was never on the free list is untouched. -/
theorem Since.untouched (h : Since d s₀ s) (hb : s₀.al.blockstatus b = false) : s.nand.flash b = s₀.nand.flash b :=
  (h.frame b (by rw [hb, h.not_free hb])).1

/-- A candidate was taken and filled, and is marked bad. -/
theorem Since.retry (h : Since d s₀ s) (hfree : s.al.blockstatus b = true) {col : Nat → Option Page} {t : Nat} {s' : St}
    (hfill : Filling { s with al := s.al.take b } b col t s') : Since d s₀ (s'.spoil b) := by
  have hlt := h.sound.free_lt b hfree
  have hst : ∀ x, (s'.spoil b).al.blockstatus x = if x = b then false else s.al.blockstatus x := by
    intro x
    by_cases hx : x = b
    · subst hx
      simp [St.spoil, Alloc.spoil]
    · simp [St.spoil, Alloc.spoil, hfill.al, Alloc.take, hx]
  refine ⟨⟨fun x hx => ?_, ?_, Nat.mod_lt _ (by decide)⟩, fun x hx => ?_, fun x h1 h2 => ?_, fun x hx => ?_⟩
  · rw [hst] at hx
    by_cases hxb : x = b
    · rw [hxb]
      exact hlt
    · rw [if_neg hxb] at hx
      exact h.sound.free_lt x hx
  · show s'.al.lastfree < d.blks
    rw [hfill.al]
    exact hlt
  · rw [hst] at hx
    by_cases hxb : x = b
    · simp [hxb] at hx
    · rw [if_neg hxb] at hx
      exact h.free x hx
  · by_cases hxb : x = b
    · subst hxb
      simp [St.spoil]
    · rw [hst, if_neg hxb] at h2
      have := h.spoiled x h1 h2
      simpa [St.spoil, hxb, hfill.bad] using this
  · have hxb : x ≠ b := by
      rintro rfl
      rw [hst, if_pos rfl, h.free x hfree] at hx
      exact Bool.noConfusion hx
    rw [hst, if_neg hxb] at hx
    obtain ⟨h1, h2⟩ := h.frame x hx
    refine ⟨?_, ?_⟩
    · show s'.nand.flash x = _
      rw [hfill.flash, Function.update_of_ne hxb]
      exact h1
    · simpa [St.spoil, hxb, hfill.bad] using h2

/-- A candidate was taken and filled, and the failed block is marked bad. -/
theorem Since.relocated (h : Since d s₀ s) (hfree : s.al.blockstatus b = true) {block page t : Nat}
    (hblock : s₀.al.blockstatus block = false) {col : Nat → Option Page} {s' : St} {pg : Page}
    (hfill : Filling { s with al := s.al.take b } b col t s')
    (hcopied : ∀ j, j < page → col j = some (s₀.nand.read block j)) (hput : col page = some pg) :
    Relocated d s₀ block page pg b (s'.spoil block) := by
  have hfree₀ := h.free b hfree
  have hne : block ≠ b := by
    rintro rfl
    simp [hblock] at hfree₀
  have hst : ∀ x, (s'.spoil block).al.blockstatus x
      = if x = block then false else if x = b then false else s.al.blockstatus x := by
    intro x
    by_cases hx : x = block
    · subst hx
      simp [St.spoil, Alloc.spoil]
    · by_cases hxb : x = b
      · subst hxb
        simp [St.spoil, Alloc.spoil, hfill.al, Alloc.take, hx]
      · simp [St.spoil, Alloc.spoil, hfill.al, Alloc.take, hx, hxb]
  have hflash : ∀ x, x ≠ b → (s'.spoil block).nand.flash x = s.nand.flash x := by
    intro x hx
    show s'.nand.flash x = _
    rw [hfill.flash, Function.update_of_ne hx]
  have hself : (s'.spoil block).nand.flash b = col := by
    show s'.nand.flash b = _
    rw [hfill.flash, Function.update_self]
  have hbad : ∀ x, x ≠ block → (s'.spoil block).nand.bad x = s.nand.bad x := by
    intro x hx
    simp [St.spoil, hx, hfill.bad]
  refine ⟨h.sound.free_lt b hfree, hfree₀, fun j hj => ?_, ?_, ⟨?_, ?_⟩, ⟨?_, ?_, ?_⟩, fun x hx h1 h2 => ?_, fun x hx => ?_,
    fun x hxb hx hs => ?_⟩
  · rw [Nand.read, hself, hcopied j hj]
    rfl
  · rw [hself, hput]
  · rw [hst, if_neg hne.symm, if_pos rfl]
  · rw [hbad b hne.symm]
    exact (h.frame b (hfree.trans hfree₀.symm)).2
  · simp [St.spoil]
  · rw [hst, if_pos rfl]
  · rw [hflash block hne]
    exact h.untouched hblock
  · have hxblock : x ≠ block := by
      rintro rfl
      simp [hblock] at h1
    rw [hst, if_neg hxblock, if_neg hx] at h2
    rw [hbad x hxblock]
    exact h.spoiled x h1 h2
  · rw [hst] at hx
    by_cases h1 : x = block
    · simp [h1] at hx
    · by_cases h2 : x = b
      · simp [h2] at hx
      · rw [if_neg h1, if_neg h2] at hx
        exact h.free x hx
  · rw [hst, if_neg hx, if_neg hxb] at hs
    rw [hflash x hxb, hbad x hx]
    exact h.frame x hs

end states

end Emlinux.Nftl
