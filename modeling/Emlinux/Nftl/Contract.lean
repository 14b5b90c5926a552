import Emlinux.Nftl.Mount

/-!
# The contract of a fault-free run

A log is lawful when it changes the flash as its events say, obeys the NAND discipline, keeps the counters of
the RAM tables inside their arrays, and has no failed operation. A failed program or erase operation excuses
a program from its postcondition, on a device that can fail so, and so does, when `E` holds, an allocation that
fails because no block is free. (An allocation that fails while a block is free does not.)

The rest of the file are the specifications of the MTD calls and of the copy loops over them, in the form
"the state changes to `Reflash s fl`": only the flash (and the counters of the chip) differ.
-/

namespace Emlinux.Nftl

open Lib

variable (d : Device) (E : Prop)

/-! ## The contract -/

def Event.Lawful : Event → Prop
  | .program _ _ _ => True
  | .erase _ => True
  | .tables dlBlkcnt dlPgcnt garBlkcnt mtlBlkcnt => dlBlkcnt ≤ dlMaxBlocks ∧ dlPgcnt ≤ dlMaxPages ∧
      garBlkcnt ≤ garbageMaxCnt ∧ mtlBlkcnt ≤ mtMaxBlocks
  | _ => False

/-- The events after which nothing is promised. -/
def Event.Excused : Event → Prop
  | .progFail _ _ => ∃ t, d.progFail t = true
  | .eraseFail _ => ∃ t, d.eraseFail t = true
  | .noFree left => E ∧ left = false
  | _ => False

/-- Every program and erase operation of the log succeeded, and every request for a free block was met. -/
def Event.ok : Event → Bool
  | .progFail _ _ => false
  | .eraseFail _ => false
  | .noFree _ => false
  | _ => true

variable {d E} in
theorem not_excused_of_ok {l : List Event} (h : l.all Event.ok = true) : ∀ e ∈ l, ¬ e.Excused d E := by
  intro e he hx
  have hok := List.all_eq_true.mp h e he
  cases e <;> simp_all [Event.ok, Event.Excused]

/-- No read of the chip corrects too many bits. -/
def Device.NoEcc : Prop := ∀ t, d.corrected t ≤ eccErrLimit

structure Step (s : St) (l : List Event) (s' : St) : Prop where
  flash : s'.nand.flash = replay d s.nand.flash l
  bad : s'.nand.bad = s.nand.bad
  ecc : d.NoEcc → s.nand.ecc ≤ eccErrLimit → s'.nand.ecc ≤ eccErrLimit
  disc : Disciplined d s.nand.flash l
  lawful : ∀ e ∈ l, e.Lawful

theorem disciplined_append (fl : Flash) (l l' : List Event) :
    Disciplined d fl (l ++ l') ↔ Disciplined d fl l ∧ Disciplined d (replay d fl l) l' := by
  induction l generalizing fl with
  | nil => simp [Disciplined, replay]
  | cons e l ih => simp only [List.cons_append, Disciplined, ih, replay, List.foldl_cons, and_assoc]

/-- The contract of the flash translation layer. -/
def contract : Contract St Event where
  excused := Event.Excused d E
  step := Step d
  step_nil _ := ⟨rfl, rfl, fun _ h => h, trivial, by simp⟩
  step_append := by
    rintro s s' s'' l l' ⟨h1, h2, h5, h3, h4⟩ ⟨g1, g2, g5, g3, g4⟩
    refine ⟨?_, g2.trans h2, fun hd hs => g5 hd (h5 hd hs), ?_, ?_⟩
    · rw [g1, h1, replay, replay, replay, List.foldl_append]
    · rw [disciplined_append]
      exact ⟨h3, h1 ▸ g3⟩
    · intro e he
      rcases List.mem_append.mp he with he | he
      · exact h4 e he
      · exact g4 e he

/-- RAM changes do not concern the contract. -/
theorem step_ram {s s' : St} (h : s'.nand = s.nand) : (contract d E).step s [] s' :=
  ⟨by rw [h]; rfl, by rw [h], fun _ hs => by rw [h]; exact hs, trivial, by simp⟩

/-- Calls that only count, or read. -/
theorem step_read {s s' : St} (hf : s'.nand.flash = s.nand.flash) (hb : s'.nand.bad = s.nand.bad)
    (he : d.NoEcc → s.nand.ecc ≤ eccErrLimit → s'.nand.ecc ≤ eccErrLimit) : (contract d E).step s [] s' :=
  ⟨by rw [hf]; rfl, hb, he, trivial, by simp⟩

theorem excuse_head {s : St} {e : Event} (he : e.Excused d E) (l : List Event) :
    (contract d E).Excuse s (e :: l) :=
  ⟨[], e, l, s, rfl, he, (contract d E).step_nil s⟩

/-! ## States that differ in the flash -/

/-- `s` with another flash content; the counters of the chip are arbitrary. -/
def St.reflash (s : St) (fl : Flash) (e t : Nat) : St := { s with nand := ⟨fl, s.nand.bad, e, t⟩ }

def Reflash (s : St) (fl : Flash) (s' : St) : Prop := ∃ e t, s' = s.reflash fl e t

theorem Reflash.trans {s s' s'' : St} {fl fl' : Flash} (h : Reflash s fl s') (h' : Reflash s' fl' s'') :
    Reflash s fl' s'' := by
  obtain ⟨e, t, rfl⟩ := h
  obtain ⟨e', t', rfl⟩ := h'
  exact ⟨e', t', rfl⟩

theorem Reflash.flash {s s' : St} {fl : Flash} (h : Reflash s fl s') : s'.nand.flash = fl := by
  obtain ⟨e, t, rfl⟩ := h; rfl

theorem Reflash.bad {s s' : St} {fl : Flash} (h : Reflash s fl s') : s'.nand.bad = s.nand.bad := by
  obtain ⟨e, t, rfl⟩ := h; rfl

theorem Reflash.al {s s' : St} {fl : Flash} (h : Reflash s fl s') : s'.al = s.al := by
  obtain ⟨e, t, rfl⟩ := h; rfl

theorem Reflash.mt {s s' : St} {fl : Flash} (h : Reflash s fl s') : s'.mt = s.mt := by
  obtain ⟨e, t, rfl⟩ := h; rfl

theorem Reflash.dl {s s' : St} {fl : Flash} (h : Reflash s fl s') : s'.dl = s.dl := by
  obtain ⟨e, t, rfl⟩ := h; rfl

/-- One page programmed. -/
def setPage (fl : Flash) (b p : Nat) (pg : Page) : Flash :=
  Function.update fl b (Function.update (fl b) p (some pg))

@[simp] theorem setPage_self (fl : Flash) (b p : Nat) (pg : Page) : setPage fl b p pg b p = some pg := by
  simp [setPage]

theorem setPage_block_ne (fl : Flash) {b x : Nat} (p : Nat) (pg : Page) (h : x ≠ b) :
    setPage fl b p pg x = fl x := by
  simp [setPage, h]

theorem setPage_page_ne (fl : Flash) (b : Nat) {p q : Nat} (pg : Page) (h : q ≠ p) :
    setPage fl b p pg b q = fl b q := by
  simp [setPage, h]

theorem setPage_eq (fl : Flash) {b p x y : Nat} (pg : Page) (h : x = b → y ≠ p) : setPage fl b p pg x y = fl x y := by
  by_cases hx : x = b
  · subst hx; exact setPage_page_ne _ _ _ (h rfl)
  · rw [setPage_block_ne _ _ _ hx]

theorem phys_of_lt {d : Device} {b p : Nat} (hp : p < d.pgs) : d.phys b p = (b, p) := by
  simp [Device.phys, Nat.div_eq_of_lt hp, Nat.mod_eq_of_lt hp]

variable {d E}

/-! ## The MTD calls -/

/-- A read within the chip, with what `ecc_stats.corrected` says after it. -/
theorem sat_mtdRead_ecc {s : St} {b p : Nat} (hb : b < d.blks) (hp : p < d.pgs) :
    Sat (contract d E) (mtdRead d b p) s (fun r s' => r = some (s.nand.read b p) ∧
      Reflash s s.nand.flash s' ∧ s'.nand.ecc = d.corrected s.nand.tick) := by
  have h : mtdRead d b p s = ⟨.ok (some (s.nand.read b p)),
      s.reflash s.nand.flash (d.corrected s.nand.tick) (s.nand.tick + 1), []⟩ := by
    simp [mtdRead, phys_of_lt hp, hb, St.reflash]
  refine Or.inr ⟨some (s.nand.read b p), by rw [h], ?_, rfl, ?_⟩
  · rw [h]; exact step_read d E rfl rfl (fun hd _ => hd _)
  · rw [h]; exact ⟨⟨_, _, rfl⟩, rfl⟩

theorem sat_mtdRead {s : St} {b p : Nat} (hb : b < d.blks) (hp : p < d.pgs) :
    Sat (contract d E) (mtdRead d b p) s
      (fun r s' => r = some (s.nand.read b p) ∧ Reflash s s.nand.flash s') :=
  (sat_mtdRead_ecc hb hp).mono fun _ _ h => ⟨h.1, h.2.1⟩

theorem sat_mtdWrite {s : St} {b p : Nat} (pg : Page) (hb : b < d.blks) (hp : p < d.pgs)
    (he : ∀ q, p ≤ q → q < d.pgs → s.nand.flash b q = none) :
    Sat (contract d E) (mtdWrite d b p pg) s
      (fun r s' => r = 0 ∧ Reflash s (setPage s.nand.flash b p pg) s') := by
  cases hf : d.progFail s.nand.tick with
  | true =>
    left
    have hlog : (mtdWrite d b p pg s).log = [.progFail b p] := by simp [mtdWrite, phys_of_lt hp, hb, hf]
    rw [hlog]
    exact excuse_head d E (show Event.Excused d E (.progFail b p) from ⟨_, hf⟩) []
  | false =>
    have h : mtdWrite d b p pg s = ⟨.ok 0,
        s.reflash (setPage s.nand.flash b p pg) s.nand.ecc (s.nand.tick + 1), [.program b p pg]⟩ := by
      simp [mtdWrite, phys_of_lt hp, hb, hf, St.reflash, Event.apply, setPage]
    refine Or.inr ⟨0, by rw [h], ?_, rfl, ?_⟩
    · rw [h]
      refine ⟨?_, rfl, fun _ h => h, ⟨⟨hb, hp, he⟩, trivial⟩, by simp [Event.Lawful]⟩
      simp [replay, Event.apply, phys_of_lt hp, setPage, St.reflash]
    · rw [h]; exact ⟨_, _, rfl⟩

/-- All pages of a block erased. -/
def eraseBlock (fl : Flash) (b : Nat) : Flash := Function.update fl b (fun _ => none)

theorem sat_mtdErase {s : St} {b : Nat} (hb : b < d.blks) :
    Sat (contract d E) (mtdErase d b) s
      (fun r s' => r = 0 ∧ Reflash s (eraseBlock s.nand.flash b) s') := by
  have h1 : ¬ d.blks < b := by omega
  have h2 : b ≠ d.blks := by omega
  cases hf : d.eraseFail s.nand.tick with
  | true =>
    left
    have hlog : (mtdErase d b s).log = [.eraseFail b] := by simp [mtdErase, h1, h2, hf]
    rw [hlog]
    exact excuse_head d E (show Event.Excused d E (.eraseFail b) from ⟨_, hf⟩) []
  | false =>
    have h : mtdErase d b s = ⟨.ok 0,
        s.reflash (eraseBlock s.nand.flash b) s.nand.ecc (s.nand.tick + 1), [.erase b]⟩ := by
      simp [mtdErase, h1, h2, hf, St.reflash, Event.apply, eraseBlock]
    refine Or.inr ⟨0, by rw [h], ?_, rfl, ?_⟩
    · rw [h]
      exact ⟨rfl, rfl, fun _ h => h, ⟨trivial, trivial⟩, by simp [Event.Lawful]⟩
    · rw [h]; exact ⟨_, _, rfl⟩

theorem sat_kmalloc {s : St} :
    Sat (contract d E) (kmalloc d) s (fun _ s' => Reflash s s.nand.flash s') :=
  Or.inr ⟨_, rfl, step_read d E rfl rfl (fun _ h => h), _, _, rfl⟩

theorem sat_stackInfo {s : St} :
    Sat (contract d E) (stackInfo d) s (fun r s' => r < 2 ^ 32 ∧ Reflash s s.nand.flash s') :=
  Or.inr ⟨_, rfl, step_read d E rfl rfl (fun _ h => h), Nat.mod_lt _ (by norm_num), _, _, rfl⟩

theorem sat_noteTables {s : St} {Q : Unit → St → Prop} (h1 : s.dl.blkcnt ≤ dlMaxBlocks)
    (h2 : s.dl.pgcnt ≤ dlMaxPages) (h3 : s.al.gar.length ≤ garbageMaxCnt)
    (h4 : s.mt.mtl.blkcnt ≤ mtMaxBlocks) (hQ : Q () s) : Sat (contract d E) noteTables s Q :=
  Or.inr ⟨(), rfl, ⟨rfl, rfl, fun _ h => h, ⟨trivial, trivial⟩, by
    intro e he
    have he : e ∈ ([] ++ [Event.tables s.dl.blkcnt s.dl.pgcnt s.al.gar.length s.mt.mtl.blkcnt] : List Event) := he
    simp only [List.nil_append, List.mem_singleton] at he
    subst he
    exact ⟨h1, h2, h3, h4⟩⟩, hQ⟩

/-! ## Copies -/

/-- The spare area written by `nftl_copyback`. -/
def copySpare (ty : BlockState) (sp : Spare) : Spare := if ty ≠ .free then { sp with blocktype := ty } else sp

def copyPage (ty : BlockState) (pg : Page) : Page := ⟨pg.data, copySpare ty pg.spare⟩

theorem sat_copyback {s : St} {src spg dst dpg : Nat} (ty : BlockState) (hs : src < d.blks)
    (hsp : spg < d.pgs) (hd : dst < d.blks) (hdp : dpg < d.pgs)
    (he : ∀ q, dpg ≤ q → q < d.pgs → s.nand.flash dst q = none) :
    Sat (contract d E) (nftlCopyback d src spg dst dpg ty) s (fun r s' => r = 0 ∧
      Reflash s (setPage s.nand.flash dst dpg (copyPage ty (s.nand.read src spg))) s') := by
  refine Sat.bind sat_kmalloc fun _ s₁ h₁ => ?_
  refine Sat.bind (sat_mtdRead hs hsp) ?_
  rintro r s₂ ⟨rfl, h₂⟩
  have hf : s₂.nand.flash = s.nand.flash := by rw [h₂.flash, h₁.flash]
  refine (sat_mtdWrite _ hd hdp (by rw [hf]; exact he)).mono ?_
  rintro r s₃ ⟨rfl, h₃⟩
  refine ⟨rfl, ?_⟩
  have := (h₁.trans h₂).trans h₃
  rw [hf] at this
  simpa only [Nand.read, h₁.flash, copyPage, copySpare] using this

/-- The pages before `i` of block `dst` hold `new`, the others are erased; other blocks are as in `fl₀`. -/
structure Filled (d : Device) (fl₀ : Flash) (dst : Nat) (new : Nat → Option Page) (i : Nat) (fl : Flash) :
    Prop where
  other : ∀ b, b ≠ dst → fl b = fl₀ b
  done : ∀ j, j < i → fl dst j = new j
  todo : ∀ j, i ≤ j → j < d.pgs → fl dst j = none

theorem Filled.zero {fl₀ : Flash} {dst : Nat} {new : Nat → Option Page}
    (h : ∀ j, j < d.pgs → fl₀ dst j = none) : Filled d fl₀ dst new 0 fl₀ :=
  ⟨fun _ _ => rfl, fun _ hj => absurd hj (Nat.not_lt_zero _), fun j _ hj => h j hj⟩

theorem Filled.put {fl₀ fl : Flash} {dst i : Nat} {new : Nat → Option Page} (h : Filled d fl₀ dst new i fl)
    {pg : Page} (hn : new i = some pg) : Filled d fl₀ dst new (i + 1) (setPage fl dst i pg) := by
  refine ⟨fun b hb => ?_, fun j hj => ?_, fun j hj hj' => ?_⟩
  · rw [setPage_block_ne _ _ _ hb, h.other b hb]
  · by_cases hji : j = i
    · subst hji; rw [setPage_self, hn]
    · rw [setPage_page_ne _ _ _ hji, h.done j (by omega)]
  · rw [setPage_page_ne _ _ _ (by omega), h.todo j (by omega) hj']

theorem Filled.skip {fl₀ fl : Flash} {dst i : Nat} {new : Nat → Option Page} (h : Filled d fl₀ dst new i fl)
    (hi : i < d.pgs) (hn : new i = none) : Filled d fl₀ dst new (i + 1) fl := by
  refine ⟨h.other, fun j hj => ?_, fun j hj hj' => h.todo j (by omega) hj'⟩
  by_cases hji : j = i
  · subst hji; rw [h.todo j (le_refl _) hi, hn]
  · exact h.done j (by omega)

theorem sat_mergePage {s : St} {src spg dst i : Nat} (ty : BlockState) (hs : src < d.blks)
    (hsp : spg < d.pgs) (hd : dst < d.blks) (hi : i < d.pgs) (he : ∀ q, i ≤ q → q < d.pgs → s.nand.flash dst q = none) :
    Sat (contract d E) (mergePage d src spg dst i ty) s (fun r s' => r = .next dst ∧
      Reflash s (setPage s.nand.flash dst i (copyPage ty (s.nand.read src spg))) s') := by
  refine Sat.bind (sat_copyback ty hs hsp hd hi he) ?_
  rintro r s' ⟨rfl, h⟩
  rw [if_neg (by decide), if_neg (by decide)]
  exact Sat.pure ⟨rfl, h⟩

/-- A block copied page by page: the new block holds what the old one reads as. -/
theorem sat_blockReplace {s : St} {src dst cnt : Nat} (hs : src < d.blks) (hd : dst < d.blks) (hne : src ≠ dst)
    (hc : cnt ≤ d.pgs) (he : ∀ q, q < d.pgs → s.nand.flash dst q = none) :
    Sat (contract d E) (nftlBlockReplace d src dst cnt) s (fun r s' => r = 0 ∧ ∃ fl, Reflash s fl s' ∧
      Filled d s.nand.flash dst (fun i => some (s.nand.read src i)) cnt fl) := by
  refine Sat.bind sat_kmalloc fun _ s₁ h₁ => ?_
  refine Sat.bind sat_stackInfo ?_
  rintro info s₂ ⟨-, h₂⟩
  have h₁₂ : Reflash s s.nand.flash s₂ := by
    have := h₁.trans h₂
    rwa [h₁.flash] at this
  refine Sat.bind (Q := fun r s' => (∃ buf, r = .next buf) ∧ ∃ fl, Reflash s fl s' ∧
      Filled d s.nand.flash dst (fun i => some (s.nand.read src i)) cnt fl) ?_ ?_
  · refine Sat.loop (fun i (_ : Page) s' => ∃ fl, Reflash s fl s' ∧
      Filled d s.nand.flash dst (fun i => some (s.nand.read src i)) i fl) cnt 0 ?_ ?_ ⟨_, h₁₂, Filled.zero he⟩
    · rintro i buf s₃ - hi ⟨fl, h₃, hfill⟩
      refine Sat.bind (sat_mtdRead hs (by omega)) ?_
      rintro r s₄ ⟨rfl, h₄⟩
      have hfl : s₄.nand.flash = fl := by rw [h₄.flash, h₃.flash]
      refine Sat.bind (sat_mtdWrite _ hd (by omega) (by rw [hfl]; exact hfill.todo)) ?_
      rintro r s₅ ⟨rfl, h₅⟩
      rw [if_neg (by decide)]
      refine Sat.pure ⟨setPage fl dst i (s.nand.read src i), ?_, hfill.put rfl⟩
      have hrd : s₃.nand.read src i = s.nand.read src i := by
        simp only [Nand.read, h₃.flash, hfill.other src hne]
      have := (h₃.trans h₄).trans h₅
      rwa [hfl, hrd] at this
    · intro buf s' h
      rw [Nat.zero_add] at h
      exact ⟨⟨buf, rfl⟩, h⟩
  · rintro r s' ⟨⟨buf, rfl⟩, h⟩
    exact Sat.pure ⟨rfl, h⟩

end Emlinux.Nftl
