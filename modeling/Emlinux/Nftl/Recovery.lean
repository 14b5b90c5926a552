import Emlinux.Nftl.WriteError

/-!
# Runs of the recovery from a failed program operation

The retry loop of `nftl_write_error` and `nftl_copyback_error` from any state of the free list, against any pattern of
program failures.

* `attempt_run`: the attempt on one candidate.
* `relocate_spec`: the three ways in which the loop ends, by induction on its rounds.
* `writeError_terminates`, `copybackError_terminates`: it ends.
* `recovery_iff`: when it does its work.
-/

namespace Emlinux.Nftl

open Lib

/-! ## One attempt -/

section attempt

variable {d : Device} {s₀ s : St} {block page b : Nat} {put : Nat → M Int} {pl : PutPlan} {pg : Page}

/-- On a block that was free in `s₀`, `put` puts `pg` at `page` and nothing else, or fails as its plan says. -/
def Puts (d : Device) (s₀ : St) (page : Nat) (put : Nat → M Int) (pl : PutPlan) (pg : Page) : Prop :=
  ∀ s b, b < d.blks → (∀ x, s₀.al.blockstatus x = false → s.nand.flash x = s₀.nand.flash x) →
    ∃ ret v s' l, put b s = ⟨.ok ret, s', l⟩ ∧
      Filling s b (Function.update (s.nand.flash b) page v) (s.nand.tick + pl.calls) s' ∧
      (ret ≠ 0 ↔ pl.fails s.nand.tick = true) ∧ (ret = 0 → v = some pg)

theorem puts_write (s₀ : St) (pg : Page) (hp : page < d.pgs) :
    Puts d s₀ page (fun backup => mtdWrite d backup page pg) (writePlan d) pg := by
  intro s b hb _
  obtain ⟨ret, v, l, hrun, hfail, hval⟩ := mtdWrite_run (s := s) pg hb hp
  exact ⟨ret, v, _, l, hrun, ⟨_, rfl⟩, hfail, hval⟩

/-- What `nftl_copyback` does with what it has read. -/
def copybackWrite (d : Device) (dst page : Nat) (ty : BlockState) : Option Page → M Int
  | none => pure eio
  | some pg => mtdWrite d dst page (copyPage ty pg)

theorem copyback_read {src spg dst : Nat} {ty : BlockState} {s₁ : St} {r : Option Page}
    (hread : mtdRead d src spg (s.reflash s.nand.flash s.nand.ecc (s.nand.tick + 1)) = ⟨.ok r, s₁, []⟩) :
    nftlCopyback d src spg dst page ty s = copybackWrite d dst page ty r s₁ := by
  have hrun : nftlCopyback d src spg dst page ty s =
      (mtdRead d src spg >>= copybackWrite d dst page ty) (s.reflash s.nand.flash s.nand.ecc (s.nand.tick + 1)) := rfl
  rw [hrun, Prog.bind_ok _ (copybackWrite d dst page ty) hread]
  rfl

theorem puts_copy {src spg : Nat} (ty : BlockState) (hsrc : s₀.al.blockstatus src = false) (hspg : spg < d.pgs)
    (hp : page < d.pgs) :
    Puts d s₀ page (fun backup => nftlCopyback d src spg backup page ty) (copyPlan d src)
      (copyPage ty (s₀.nand.read src spg)) := by
  intro s b hb hkeep
  have hrd : s.nand.read src spg = s₀.nand.read src spg := by
    simp only [Nand.read, hkeep src hsrc]
  by_cases hin : src < d.blks
  · have hplan : copyPlan d src = ⟨fun t => d.progFail (t + 2), 3⟩ := if_pos hin
    obtain ⟨ret, v, l, hrun, hfail, hval⟩ := mtdWrite_run (s := s.reflash s.nand.flash
      (d.corrected (s.nand.tick + 1)) (s.nand.tick + 2)) (copyPage ty (s₀.nand.read src spg)) hb hp
    rw [hplan]
    refine ⟨ret, v, _, l, ?_, ⟨d.corrected (s.nand.tick + 1), rfl⟩, hfail, hval⟩
    have hread := mtdRead_run (s := s.reflash s.nand.flash s.nand.ecc (s.nand.tick + 1)) hin hspg
    refine (copyback_read hread).trans ?_
    show mtdWrite d b page (copyPage ty (s.nand.read src spg)) _ = _
    rw [hrd]
    exact hrun
  · have hplan : copyPlan d src = ⟨fun _ => true, 1⟩ := if_neg hin
    have hread : mtdRead d src spg (s.reflash s.nand.flash s.nand.ecc (s.nand.tick + 1))
        = ⟨.ok none, s.reflash s.nand.flash 0 (s.nand.tick + 1), []⟩ := by
      simp [mtdRead, phys_of_lt hspg, hin, St.reflash]
    rw [hplan]
    refine ⟨eio, s.nand.flash b page, _, [], copyback_read hread, ⟨0, ?_⟩, by simp, by simp⟩
    rw [Function.update_eq_self, Function.update_eq_self]

/-- A block is marked bad on the chip and in the table. -/
theorem spoil_bind {α : Type} (hb : b < d.blks) (m : M α) (s : St) :
    (blockMarkbad d b >>= fun _ => nftlSetBlockBad d b >>= fun _ => m) s = m (s.spoil b) := by
  rw [blockMarkbad, nftlSetBlockBad, if_pos hb, if_neg (by omega)]
  rfl

/-- The pages before `page` are copied to candidate `b`, and the page is put there, or one of the two fails. -/
theorem attempt_run (hput : Puts d s₀ page put pl pg) (hs : Since d s₀ s) (hfree : s.al.blockstatus b = true)
    (hblk : block < d.blks) (hblock : s₀.al.blockstatus block = false) (hp : page < d.pgs)
    (hget : nftlGetFreeBlock d s = ⟨.ok b, { s with al := s.al.take b }, []⟩) (k : Nat) :
    ∃ s' col, Filling { s with al := s.al.take b } b col (attempt d page pl s.nand.tick).2 s' ∧
      ((attempt d page pl s.nand.tick).1 = true →
        (relocate d block page put (k + 1) s).res = (relocate d block page put k (s'.spoil b)).res ∧
        (relocate d block page put (k + 1) s).st = (relocate d block page put k (s'.spoil b)).st) ∧
      ((attempt d page pl s.nand.tick).1 = false →
        (relocate d block page put (k + 1) s).res = .ok b ∧
        (relocate d block page put (k + 1) s).st = s'.spoil block ∧
        (∀ j, j < page → col j = some (s₀.nand.read block j)) ∧ col page = some pg) := by
  have hb := hs.sound.free_lt b hfree
  have hne : block ≠ b := by
    rintro rfl
    simp [hs.not_free hblock] at hfree
  have hnb : ¬ b = noBlock := by
    have := d.blks_lt_noBlock
    omega
  obtain ⟨ret, col, s₁, l, hrep, hfill, hfail, hcopied⟩ := blockReplace_run hblk hb hne (le_of_lt hp)
    { s with al := s.al.take b }
  have hkeep : s.nand.flash block = s₀.nand.flash block := hs.untouched hblock
  have hunf : relocate d block page put (k + 1) s = _ := Prog.bind_ok (nftlGetFreeBlock d) _ hget
  rw [hunf]
  simp only [if_neg hnb]
  rw [Prog.bind_ok _ _ hrep]
  by_cases hret : ret = 0
  · have hcf : (copyAttempt d page (s.nand.tick + 2)).1 = false := by
      by_contra hc
      exact hfail.mpr (by simpa using hc) hret
    have hatt : attempt d page pl s.nand.tick = (pl.fails (copyAttempt d page (s.nand.tick + 2)).2,
        (copyAttempt d page (s.nand.tick + 2)).2 + pl.calls) := by
      rw [attempt, if_neg (by simp [hcf])]
    obtain ⟨ret', v, s₂, l', hrun, hfill', hfail', hval⟩ := hput s₁ b hb (fun x hx => by
      have hxb : x ≠ b := by
        rintro rfl
        simp [hs.not_free hx] at hfree
      rw [hfill.flash, Function.update_of_ne hxb]
      exact hs.untouched hx)
    have htick : s₁.nand.tick = (copyAttempt d page (s.nand.tick + 2)).2 := hfill.tick
    have hcol : s₁.nand.flash b = col := by rw [hfill.flash, Function.update_self]
    rw [htick, hcol] at hfill'
    rw [htick] at hfail'
    rw [if_neg (by simp [hret]), Prog.bind_ok _ _ hrun]
    refine ⟨s₂, Function.update col page v, by rw [hatt]; exact hfill.trans hfill', ?_, ?_⟩
    · intro ha
      rw [hatt] at ha
      have hret' : ret' ≠ 0 := hfail'.mpr ha
      simp only [if_neg hret', spoil_bind hb, and_self]
    · intro ha
      rw [hatt] at ha
      have hret' : ret' = 0 := by
        by_contra hc
        have := hfail'.mp hc
        simp [this] at ha
      simp only [if_pos hret', spoil_bind hblk]
      refine ⟨rfl, rfl, fun j hj => ?_, by rw [Function.update_self, hval hret']⟩
      rw [Function.update_of_ne (by omega), hcopied hret j hj]
      show some ((s.nand.flash block j).getD Page.erased) = some ((s₀.nand.flash block j).getD Page.erased)
      rw [hkeep]
  · have hcf : (copyAttempt d page (s.nand.tick + 2)).1 = true := hfail.mp hret
    have hatt : attempt d page pl s.nand.tick = copyAttempt d page (s.nand.tick + 2) := by
      rw [attempt, if_pos hcf]
    rw [if_pos hret]
    refine ⟨s₁, col, by rw [hatt]; exact hfill, fun _ => ?_, fun ha => ?_⟩
    · simp only [spoil_bind hb, and_self]
    · rw [hatt, hcf] at ha
      exact absurd ha (by decide)

end attempt

/-! ## The run -/

/-- The free blocks at or after `last`. -/
def freeFrom (bs : Nat → Bool) (last n : Nat) : Nat :=
  ((Finset.range n).filter fun b => last ≤ b ∧ bs b = true).card

/-- The pattern of failures leaves the recovery a way out: the count of free blocks does not reach 0 with a block left,
and the search does not run over the end of the table. -/
def WayOut (d : Device) (page : Nat) (pl : PutPlan) (s : St) : Prop :=
  ∀ j, attemptsFail d page pl j s.nand.tick = true →
    (s.al.freeBlkcnt = 2 * j → freeCount s.al.blockstatus d.blks ≤ j) ∧
    (d.blks = 4096 → freeFrom s.al.blockstatus s.al.lastfree d.blks ≤ j → ∃ i, i ≤ j ∧ s.al.freeBlkcnt = 2 * i)

section run

variable {d : Device} {s₀ s : St} {block page b : Nat} {put : Nat → M Int} {pl : PutPlan} {pg : Page}

theorem freeFrom_pos {bs : Nat → Bool} {last n : Nat} (hb : bs b = true) (hle : last ≤ b) (hlt : b < n) :
    0 < freeFrom bs last n :=
  Finset.card_pos.mpr ⟨b, by simp [hb, hle, hlt]⟩

theorem freeFrom_eq_zero {bs : Nat → Bool} {last n : Nat} (h : ∀ b, last ≤ b → b < n → bs b = false) :
    freeFrom bs last n = 0 := by
  rw [freeFrom, Finset.card_eq_zero, Finset.filter_eq_empty_iff]
  intro x hx
  simp only [Finset.mem_range] at hx
  rintro ⟨h1, h2⟩
  simp [h x h1 hx] at h2

/-- The first free block at or after `last` is taken, and the search goes on from there. -/
theorem freeFrom_take {bs : Nat → Bool} {last n : Nat} (hb : bs b = true) (hle : last ≤ b) (hlt : b < n)
    (hfirst : ∀ j, last ≤ j → j < b → bs j = false) :
    freeFrom (Function.update bs b false) b n + 1 = freeFrom bs last n := by
  have hset : (Finset.range n).filter (fun x => b ≤ x ∧ Function.update bs b false x = true)
      = ((Finset.range n).filter fun x => last ≤ x ∧ bs x = true).erase b := by
    ext x
    by_cases hx : x = b
    · subst hx
      simp
    · simp only [Finset.mem_filter, Finset.mem_range, Function.update_of_ne hx, Finset.mem_erase, ne_eq, hx,
        not_false_eq_true, true_and]
      constructor
      · rintro ⟨h1, h2, h3⟩
        exact ⟨h1, by omega, h3⟩
      · rintro ⟨h1, h2, h3⟩
        refine ⟨h1, ?_, h3⟩
        by_contra hlt'
        simp [hfirst x h2 (by omega)] at h3
  have hmem : b ∈ (Finset.range n).filter fun x => last ≤ x ∧ bs x = true := by simp [hb, hlt, hle]
  rw [freeFrom, hset, Finset.card_erase_add_one hmem, freeFrom]

/-- What a search finds: nothing as the count is 0, nothing as no block is free, the end of the array, or a block. -/
theorem getFreeBlock_cases (h : s.al.Sound d) :
    (((nftlGetFreeBlock d s).res = .ok noBlock ∧ (nftlGetFreeBlock d s).st = s) ∧
      (s.al.freeBlkcnt = 0 ∨ s.al.freeBlkcnt ≠ 0 ∧ d.blks < 4096 ∧ freeCount s.al.blockstatus d.blks = 0)) ∨
    (nftlGetFreeBlock d s = ⟨.error (.bounds .blockstatus 4096), s, []⟩ ∧ s.al.freeBlkcnt ≠ 0 ∧ d.blks = 4096 ∧
      freeFrom s.al.blockstatus s.al.lastfree d.blks = 0) ∨
    ∃ b, nftlGetFreeBlock d s = ⟨.ok b, { s with al := s.al.take b }, []⟩ ∧ s.al.blockstatus b = true ∧
      s.al.freeBlkcnt ≠ 0 ∧ (d.blks = 4096 → s.al.lastfree ≤ b ∧
        ∀ j, s.al.lastfree ≤ j → j < b → s.al.blockstatus j = false) := by
  have hlast := h.last
  have hblks := d.blks_le
  by_cases h0 : s.al.freeBlkcnt = 0
  · exact Or.inl ⟨getFreeBlock_zero h0, Or.inl h0⟩
  by_cases hup : ∃ b, s.al.lastfree ≤ b ∧ b < d.blks ∧ s.al.blockstatus b = true
  · obtain ⟨hle, hlt, hfree⟩ := Nat.find_spec hup
    have hfirst : ∀ j, s.al.lastfree ≤ j → j < Nat.find hup → s.al.blockstatus j = false := by
      intro j h1 h2
      by_contra hj
      exact Nat.find_min hup h2 ⟨h1, by omega, by simpa using hj⟩
    exact Or.inr (Or.inr ⟨_, (getFreeBlock_next h0 hfree hle hlt hfirst).1, hfree, h0, fun _ => ⟨hle, hfirst⟩⟩)
  have hnone : ∀ j, s.al.lastfree ≤ j → j ≤ d.blks → s.al.blockstatus j = false := by
    intro j h1 h2
    by_contra hj
    have hj : s.al.blockstatus j = true := by simpa using hj
    exact hup ⟨j, h1, h.free_lt j hj, hj⟩
  by_cases hd : d.blks = 4096
  · have hover := findFree_overrun hd (2 * d.blks - s.al.lastfree) s.al.lastfree (by omega) (by omega)
      (fun j h1 h2 => hnone j h1 (by omega))
    exact Or.inr (Or.inl ⟨getFreeBlock_error h0 (by omega) hover, h0, hd,
      freeFrom_eq_zero fun j h1 h2 => hnone j h1 (by omega)⟩)
  by_cases hdown : ∃ b, s.al.blockstatus b = true
  · have hfree := Nat.find_spec hdown
    have hfirst : ∀ j, j < Nat.find hdown → s.al.blockstatus j = false := by
      intro j hj
      by_contra hc
      exact Nat.find_min hdown hj (by simpa using hc)
    exact Or.inr (Or.inr ⟨_, (getFreeBlock_wrapped (by omega) h0 hlast hfree (h.free_lt _ hfree) hfirst hnone).2, hfree,
      h0, fun he => absurd he hd⟩)
  · have hall : ∀ j, s.al.blockstatus j = false := by
      intro j
      by_contra hj
      exact hdown ⟨j, by simpa using hj⟩
    refine Or.inl ⟨getFreeBlock_none h0 (by omega) ?_, Or.inr ⟨h0, by omega, freeCount_eq_zero.mpr fun b _ => hall b⟩⟩
    exact findFree_none (by omega) _ _ (by omega) (fun j _ => hall j)

theorem wayOut_dry (h : s.al.freeBlkcnt = 0) : WayOut d page pl s ↔ freeCount s.al.blockstatus d.blks = 0 := by
  constructor
  · intro hw
    have := (hw 0 rfl).1 (by omega)
    omega
  · intro h0 j _
    exact ⟨fun _ => by omega, fun _ _ => ⟨0, Nat.zero_le j, by omega⟩⟩

theorem wayOut_empty (h : freeCount s.al.blockstatus d.blks = 0) (hd : d.blks < 4096) : WayOut d page pl s :=
  fun j _ => ⟨fun _ => by omega, fun he => by omega⟩

theorem not_wayOut_overrun (h : s.al.freeBlkcnt ≠ 0) (hd : d.blks = 4096)
    (hu : freeFrom s.al.blockstatus s.al.lastfree d.blks = 0) : ¬ WayOut d page pl s := by
  intro hw
  obtain ⟨i, hi, hc⟩ := (hw 0 rfl).2 hd (by omega)
  omega

theorem wayOut_done (h : s.al.freeBlkcnt ≠ 0) (ha : (attempt d page pl s.nand.tick).1 = false)
    (hu : d.blks = 4096 → 0 < freeFrom s.al.blockstatus s.al.lastfree d.blks) : WayOut d page pl s := by
  intro j hj
  cases j with
  | zero =>
    refine ⟨fun hc => by omega, fun hd hle => ?_⟩
    have := hu hd
    omega
  | succ j =>
    rw [attemptsFail, ha] at hj
    exact absurd hj (by simp)

/-- A failed candidate leaves one block less, one block less up to the end of the table, and a count lower by 2. -/
theorem wayOut_retry {s' : St} (h : s.al.freeBlkcnt ≠ 0) (ha : (attempt d page pl s.nand.tick).1 = true)
    (htick : s'.nand.tick = (attempt d page pl s.nand.tick).2) (hlt : s.al.freeBlkcnt < 65536)
    (hcnt : s'.al.freeBlkcnt = (s.al.freeBlkcnt + 65534) % 65536)
    (hfree : freeCount s'.al.blockstatus d.blks + 1 = freeCount s.al.blockstatus d.blks)
    (hup : d.blks = 4096 → freeFrom s'.al.blockstatus s'.al.lastfree d.blks + 1
      = freeFrom s.al.blockstatus s.al.lastfree d.blks) : WayOut d page pl s ↔ WayOut d page pl s' := by
  have hN := freeCount_le s.al.blockstatus d.blks
  have hblks := d.blks_le
  have hsucc : ∀ j, attemptsFail d page pl (j + 1) s.nand.tick = attemptsFail d page pl j s'.nand.tick := by
    intro j
    rw [attemptsFail, ha, Bool.true_and, htick]
  constructor
  · intro hw j hj
    obtain ⟨h1, h2⟩ := hw (j + 1) (by rw [hsucc]; exact hj)
    refine ⟨fun hc => ?_, fun hd hle => ?_⟩
    · by_cases hone : s.al.freeBlkcnt = 1
      · omega
      · have := h1 (by omega)
        omega
    · have := hup hd
      obtain ⟨i, hi, hc⟩ := h2 hd (by omega)
      exact ⟨i - 1, by omega, by omega⟩
  · intro hw j hj
    cases j with
    | zero =>
      refine ⟨fun hc => by omega, fun hd hle => ?_⟩
      have := hup hd
      omega
    | succ j =>
      rw [hsucc] at hj
      obtain ⟨h1, h2⟩ := hw j hj
      refine ⟨fun hc => ?_, fun hd hle => ?_⟩
      · have := h1 (by omega)
        omega
      · have := hup hd
        obtain ⟨i, hi, hc⟩ := h2 hd (by omega)
        exact ⟨i + 1, by omega, by omega⟩

theorem relocate_stop (block page : Nat) (put : Nat → M Int) {r : Except Fault Nat} {s' : St} (k : Nat) (hres : (nftlGetFreeBlock d s).res = r)
    (hst : (nftlGetFreeBlock d s).st = s') (hr : r = .ok noBlock ∨ ∃ e, r = .error e) :
    (relocate d block page put (k + 1) s).res = r ∧ (relocate d block page put (k + 1) s).st = s' := by
  rcases hg : nftlGetFreeBlock d s with ⟨res, st, l⟩
  rw [hg] at hres hst
  obtain rfl : res = r := hres
  obtain rfl : st = s' := hst
  rcases hr with rfl | ⟨e, rfl⟩
  · have hunf : relocate d block page put (k + 1) s = _ := Prog.bind_ok (nftlGetFreeBlock d) _ hg
    rw [hunf]
    simp only [if_pos trivial]
    exact ⟨rfl, rfl⟩
  · have hunf : relocate d block page put (k + 1) s = _ := Prog.bind_error (nftlGetFreeBlock d) _ hg
    rw [hunf]
    exact ⟨rfl, rfl⟩

/-- The loop ends in one of four ways: with no block left or with the block moved when there is a way out, and else
with a free block left or behind the end of the table. The number of free blocks bounds its rounds. -/
theorem relocate_spec (hput : Puts d s₀ page put pl pg) (hblk : block < d.blks)
    (hblock : s₀.al.blockstatus block = false) (hp : page < d.pgs) (k : Nat) (s : St) (hs : Since d s₀ s)
    (hk : freeCount s.al.blockstatus d.blks < k) :
    (WayOut d page pl s ∧
      (((relocate d block page put k s).res = .ok noBlock ∧
        freeCount (relocate d block page put k s).st.al.blockstatus d.blks = 0) ∨
      ∃ r, (relocate d block page put k s).res = .ok r ∧
        Relocated d s₀ block page pg r (relocate d block page put k s).st)) ∨
    (¬ WayOut d page pl s ∧
      (((relocate d block page put k s).res = .ok noBlock ∧
        freeCount (relocate d block page put k s).st.al.blockstatus d.blks ≠ 0) ∨
      (relocate d block page put k s).res = .error (.bounds .blockstatus 4096))) := by
  induction k generalizing s with
  | zero => omega
  | succ k ih =>
    rcases getFreeBlock_cases hs.sound with ⟨⟨hres, hst⟩, hwhy⟩ | ⟨hget, h0, hd, hu⟩ | ⟨b, hget, hfree, h0, hup⟩
    · obtain ⟨h1, h2⟩ := relocate_stop block page put k hres hst (Or.inl rfl)
      rw [h1, h2]
      rcases hwhy with h0 | ⟨-, hd, hN⟩
      · by_cases hN : freeCount s.al.blockstatus d.blks = 0
        · exact Or.inl ⟨(wayOut_dry h0).mpr hN, Or.inl ⟨rfl, hN⟩⟩
        · exact Or.inr ⟨fun hw => hN ((wayOut_dry h0).mp hw), Or.inl ⟨rfl, hN⟩⟩
      · exact Or.inl ⟨wayOut_empty hN hd, Or.inl ⟨rfl, hN⟩⟩
    · obtain ⟨h1, -⟩ := relocate_stop block page put k (by rw [hget]) rfl
        (Or.inr ⟨.bounds .blockstatus 4096, rfl⟩)
      rw [h1]
      exact Or.inr ⟨not_wayOut_overrun h0 hd hu, Or.inr rfl⟩
    · have hb := hs.sound.free_lt b hfree
      obtain ⟨s', col, hfill, hfails, hdone⟩ := attempt_run hput hs hfree hblk hblock hp hget k
      cases ha : (attempt d page pl s.nand.tick).1 with
      | false =>
        obtain ⟨h1, h2, hcopied, hpg⟩ := hdone ha
        rw [h1, h2]
        exact Or.inl ⟨wayOut_done h0 ha fun hd => freeFrom_pos hfree (hup hd).1 hb,
          Or.inr ⟨b, rfl, hs.relocated hfree hblock hfill hcopied hpg⟩⟩
      | true =>
        obtain ⟨h1, h2⟩ := hfails ha
        rw [h1, h2]
        have hstat : (s'.spoil b).al.blockstatus = Function.update s.al.blockstatus b false := by
          simp [St.spoil, Alloc.spoil, hfill.al, Alloc.take]
        have hN : freeCount (s'.spoil b).al.blockstatus d.blks + 1 = freeCount s.al.blockstatus d.blks := by
          rw [hstat]
          exact freeCount_take hb hfree
        have hcnt : (s'.spoil b).al.freeBlkcnt = (s.al.freeBlkcnt + 65534) % 65536 := by
          show (s'.al.freeBlkcnt + 65535) % 65536 = _
          rw [hfill.al]
          show ((s.al.freeBlkcnt + 65535) % 65536 + 65535) % 65536 = _
          omega
        have hfrom : d.blks = 4096 → freeFrom (s'.spoil b).al.blockstatus (s'.spoil b).al.lastfree d.blks + 1
            = freeFrom s.al.blockstatus s.al.lastfree d.blks := by
          intro hd
          have hlast : (s'.spoil b).al.lastfree = b := by
            show s'.al.lastfree = b
            rw [hfill.al]
            rfl
          rw [hstat, hlast]
          exact freeFrom_take hfree (hup hd).1 hb (hup hd).2
        have htick : (s'.spoil b).nand.tick = (attempt d page pl s.nand.tick).2 := hfill.tick
        rw [wayOut_retry h0 ha htick hs.sound.cnt hcnt hN hfrom]
        exact ih (s'.spoil b) (hs.retry hfree hfill) (by omega)

end run

/-! ## The two callers -/

/-- What a recovery is to do: move the block, or say that no free block is left. -/
def Recovers (d : Device) (s : St) (block page : Nat) (pg : Page) (m : M Nat) : Prop :=
  ∃ r, (m s).res = .ok r ∧ (r ≠ noBlock → Relocated d s block page pg r (m s).st) ∧
    (r = noBlock → ∀ b, b < d.blks → (m s).st.al.blockstatus b = false)

section callers

variable {d : Device} {s : St} {block page : Nat} {put : Nat → M Int} {pl : PutPlan} {pg : Page}

theorem relocate_recovers_iff (hs : s.al.Sound d) (hput : Puts d s page put pl pg) (hblk : block < d.blks)
    (hblock : s.al.blockstatus block = false) (hp : page < d.pgs) :
    Recovers d s block page pg (relocate d block page put (d.blks + 2)) ↔ WayOut d page pl s := by
  have hN := freeCount_le s.al.blockstatus d.blks
  rcases relocate_spec hput hblk hblock hp (d.blks + 2) s (Since.refl hs) (by omega) with ⟨hw, hr⟩ | ⟨hw, hr⟩
  · refine iff_of_true ?_ hw
    rcases hr with ⟨hres, hzero⟩ | ⟨r, hres, hrel⟩
    · exact ⟨noBlock, hres, fun h => (h rfl).elim, fun _ => freeCount_eq_zero.mp hzero⟩
    · refine ⟨r, hres, fun _ => hrel, fun h => ?_⟩
      have h1 := hrel.lt
      have h2 := d.blks_lt_noBlock
      omega
  · refine iff_of_false ?_ hw
    rintro ⟨r, hres, -, hzero⟩
    rcases hr with ⟨hno, hleft⟩ | herr
    · obtain rfl : noBlock = r := Except.ok.inj (hno.symm.trans hres)
      exact hleft (freeCount_eq_zero.mpr (hzero rfl))
    · rw [hres] at herr
      simp at herr

theorem relocate_terminates (hs : s.al.Sound d) (hput : Puts d s page put pl pg) (hblk : block < d.blks)
    (hblock : s.al.blockstatus block = false) (hp : page < d.pgs) :
    (relocate d block page put (d.blks + 2) s).res ≠ .error .fuel := by
  have hN := freeCount_le s.al.blockstatus d.blks
  rcases relocate_spec hput hblk hblock hp (d.blks + 2) s (Since.refl hs) (by omega) with ⟨-, hr⟩ | ⟨-, hr⟩
  · rcases hr with ⟨hres, -⟩ | ⟨r, hres, -⟩ <;> rw [hres] <;> simp
  · rcases hr with ⟨hres, -⟩ | hres <;> rw [hres] <;> simp

theorem writeError_terminates (pg : Page) (hs : s.al.Sound d) (hblk : block < d.blks)
    (hblock : s.al.blockstatus block = false) (hp : page < d.pgs) :
    (nftlWriteError d block page pg s).res ≠ .error .fuel :=
  relocate_terminates hs (puts_write s pg hp) hblk hblock hp

theorem copybackError_terminates {src spg : Nat} (ty : BlockState) (hs : s.al.Sound d) (hblk : block < d.blks)
    (hblock : s.al.blockstatus block = false) (hsrc : s.al.blockstatus src = false) (hspg : spg < d.pgs)
    (hp : page < d.pgs) : (nftlCopybackError d src spg block page ty s).res ≠ .error .fuel :=
  relocate_terminates hs (puts_copy ty hsrc hspg hp) hblk hblock hp

/-- With the free blocks counted, on a chip that does not fill the table, the way out is lost exactly when the first
half of an even number of candidates fails. -/
theorem wayOut_iff_of_counted {pl : PutPlan} (hd : d.blks < 4096)
    (hcount : s.al.freeBlkcnt = freeCount s.al.blockstatus d.blks) :
    WayOut d page pl s ↔ ∀ j, 0 < j → s.al.freeBlkcnt = 2 * j → attemptsFail d page pl j s.nand.tick = false := by
  constructor
  · intro hw j hj hc
    by_contra hfail
    have := (hw j (by simpa using hfail)).1 hc
    omega
  · intro h j hj
    refine ⟨fun hc => ?_, fun he => by omega⟩
    by_cases h0 : 0 < j
    · have := h j h0 hc
      simp [this] at hj
    · omega

end callers

/-- Both recoveries work exactly when the pattern of program failures leaves a way out. -/
theorem recovery_iff (d : Device) (s : St) (block page : Nat) (hs : s.al.Sound d) (hblk : block < d.blks)
    (hblock : s.al.blockstatus block = false) (hp : page < d.pgs) :
    (∀ pg, Recovers d s block page pg (nftlWriteError d block page pg) ↔ WayOut d page (writePlan d) s) ∧
    ∀ src spg ty, s.al.blockstatus src = false → spg < d.pgs →
      (Recovers d s block page (copyPage ty (s.nand.read src spg)) (nftlCopybackError d src spg block page ty) ↔
        WayOut d page (copyPlan d src) s) :=
  ⟨fun pg => relocate_recovers_iff hs (puts_write s pg hp) hblk hblock hp,
    fun _ _ ty hsrc hspg => relocate_recovers_iff hs (puts_copy ty hsrc hspg hp) hblk hblock hp⟩

theorem freeState_sound {f : Nat → Bool} {free : List Nat} {cnt last : Nat} (hfree : ∀ b ∈ free, b < 4) (hlast : last < 4)
    (hcnt : cnt < 65536) : (freeState free cnt last).al.Sound (fourBlocks f) :=
  ⟨fun b hb => hfree b (by simpa [freeState] using hb), hlast, hcnt⟩

/-- Three free blocks, the first of which fails: page 1 of block 0 goes to another one. -/
theorem recovery_iff_three :
    Recovers (fourBlocks fun t => t == 3) (freeState [1, 2, 3] 3 0) 0 1 Page.erased
      (nftlWriteError (fourBlocks fun t => t == 3) 0 1 Page.erased) ∧
    Recovers (fourBlocks fun t => t == 3) (freeState [1, 2, 3] 3 0) 0 1
      (copyPage .data ((freeState [1, 2, 3] 3 0).nand.read 0 2))
      (nftlCopybackError (fourBlocks fun t => t == 3) 0 2 0 1 .data) := by
  have hiff := recovery_iff (fourBlocks fun t => t == 3) (freeState [1, 2, 3] 3 0) 0 1
    (freeState_sound (by decide) (by decide) (by decide)) (by decide) (by decide) (by decide)
  have hodd : ∀ pl, WayOut (fourBlocks fun t => t == 3) 1 pl (freeState [1, 2, 3] 3 0) := by
    intro pl
    apply (wayOut_iff_of_counted (by decide) (by decide)).mpr
    intro j hj hc
    have hc : 3 = 2 * j := hc
    omega
  exact ⟨(hiff.1 _).mpr (hodd _), (hiff.2 0 2 .data (by decide) (by decide)).mpr (hodd _)⟩

/-- Two free blocks, the first of which fails: the count is 0, and block 2 stays free as the recovery gives up. -/
theorem recovery_gives_up : (freeState [1, 2] 2 0).al.freeBlkcnt
      = freeCount (freeState [1, 2] 2 0).al.blockstatus (fourBlocks fun t => t == 2).blks ∧
    ¬ Recovers (fourBlocks fun t => t == 2) (freeState [1, 2] 2 0) 0 0 Page.erased
      (nftlWriteError (fourBlocks fun t => t == 2) 0 0 Page.erased) := by
  refine ⟨by decide, ?_⟩
  rintro ⟨r, hres, -, hno⟩
  have hr : (nftlWriteError (fourBlocks fun t => t == 2) 0 0 Page.erased (freeState [1, 2] 2 0)).res = .ok noBlock := rfl
  obtain rfl : noBlock = r := Except.ok.inj (hr.symm.trans hres)
  exact absurd (hno rfl 2 (by decide)) (by decide)

end Emlinux.Nftl
