import Emlinux.Nftl.LogList
import Emlinux.Nftl.Garbage

/-!
# Log blocks on the flash

MTLog and DataLog blocks are kept the same way: page `i` of the block of a log holds the `i`-th page of its
sequence, tagged in the spare area, and the pages behind are erased. `Logs` says this of a list of logs whose
blocks are the blocks of one kind of role, and the lemmas below it are the five ways in which such a list
changes: a new log, a page more, a log less, a log in another block, another order.
-/

namespace Emlinux.Nftl

open Lib

/-! ## Looking up a key -/

theorem lookupIn_of_mem {L : List Log} (hnd : (L.map Log.key).Nodup) {lg : Log} (hlg : lg ∈ L) (page : Nat) :
    lookupIn L lg.key page = (lookup lg.seq page).map fun ppa => (lg.pba, ppa) := by
  have hfind : L.find? (fun x => x.key = lg.key) = some lg := by
    induction L with
    | nil => simp at hlg
    | cons x L ih =>
      rw [List.map_cons, List.nodup_cons] at hnd
      rw [List.find?_cons]
      rcases List.mem_cons.mp hlg with rfl | hmem
      · simp
      · have hne : x.key ≠ lg.key := fun e => hnd.1 (e ▸ List.mem_map_of_mem hmem)
        simp [hne, ih hnd.2 hmem]
  rw [lookupIn, hfind, Option.bind_some]

theorem lookupIn_of_not_mem {L : List Log} {key : Nat} (h : ∀ lg ∈ L, lg.key ≠ key) (page : Nat) :
    lookupIn L key page = none := by
  have hfind : L.find? (fun x => x.key = key) = none := by
    rw [List.find?_eq_none]
    intro x hx
    simpa using h x hx
  rw [lookupIn, hfind, Option.bind_none]

/-- Logs other than that of `key` do not matter. -/
theorem lookupIn_congr {L L' : List Log} (hnd : (L.map Log.key).Nodup) (hnd' : (L'.map Log.key).Nodup)
    {key : Nat} (h : ∀ lg, lg.key = key → (lg ∈ L ↔ lg ∈ L')) (page : Nat) :
    lookupIn L key page = lookupIn L' key page := by
  by_cases hex : ∃ lg ∈ L, lg.key = key
  · obtain ⟨lg, hlg, hk⟩ := hex
    rw [← hk, lookupIn_of_mem hnd hlg, lookupIn_of_mem hnd' ((h lg hk).mp hlg)]
  · push Not at hex
    rw [lookupIn_of_not_mem hex, lookupIn_of_not_mem fun lg hlg hk => hex lg ((h lg hk).mpr hlg) hk]

theorem lookupIn_some {L : List Log} (hnd : (L.map Log.key).Nodup) {key page b p : Nat}
    (h : lookupIn L key page = some (b, p)) :
    ∃ lg ∈ L, lg.key = key ∧ lg.pba = b ∧ lookup lg.seq page = some p := by
  by_cases hex : ∃ lg ∈ L, lg.key = key
  · obtain ⟨lg, hlg, hk⟩ := hex
    rw [← hk, lookupIn_of_mem hnd hlg] at h
    simp only [Option.map_eq_some_iff, Prod.mk.injEq] at h
    obtain ⟨q, hq, hb, rfl⟩ := h
    exact ⟨lg, hlg, hk, hb, hq⟩
  · push Not at hex
    rw [lookupIn_of_not_mem hex] at h
    simp at h

theorem eq_of_key {L : List Log} (hnd : (L.map Log.key).Nodup) {lg lg' : Log} (h : lg ∈ L) (h' : lg' ∈ L)
    (hk : lg.key = lg'.key) : lg = lg' :=
  List.inj_on_of_nodup_map hnd h h' hk

theorem mem_middle {pre post : List Log} {lg x : Log} : x ∈ pre ++ lg :: post ↔ x = lg ∨ x ∈ pre ++ post := by
  simp only [List.mem_append, List.mem_cons]
  tauto

/-- After page `p` was written behind the pages of `lg`. -/
theorem lookupIn_put {pre post : List Log} {lg : Log} (hnd : ((pre ++ lg :: post).map Log.key).Nodup) {n p : Nat}
    (hp : p / n = lg.key) (q : Nat) :
    lookupIn (pre ++ ⟨lg.key, lg.pba, lg.seq ++ [p]⟩ :: post) (q / n) q
      = if q = p then some (lg.pba, lg.seq.length) else lookupIn (pre ++ lg :: post) (q / n) q := by
  have hnd' : ((pre ++ ⟨lg.key, lg.pba, lg.seq ++ [p]⟩ :: post).map Log.key).Nodup := by simpa using hnd
  by_cases hq : q / n = lg.key
  · have := lookupIn_of_mem hnd' (show (⟨lg.key, lg.pba, lg.seq ++ [p]⟩ : Log) ∈ _ by simp) q
    rw [hq, this, lookupIn_of_mem hnd (by simp), lookup_concat]
    split_ifs <;> rfl
  · have hqp : q ≠ p := fun e => hq (e ▸ hp)
    rw [if_neg hqp]
    refine lookupIn_congr hnd' hnd (fun x hx => ?_) q
    rw [mem_middle, mem_middle]
    constructor <;>
    · rintro (rfl | hx')
      · exact absurd hx.symm hq
      · exact Or.inr hx'

/-- After page `p` was written to page 0 of a new log. -/
theorem lookupIn_add {L : List Log} (hnd : (L.map Log.key).Nodup) {n p b : Nat} (hkey : ∀ x ∈ L, x.key ≠ p / n)
    (q : Nat) :
    lookupIn (L ++ [⟨p / n, b, [p]⟩]) (q / n) q = if q = p then some (b, 0) else lookupIn L (q / n) q := by
  have hnd' : ((L ++ [(⟨p / n, b, [p]⟩ : Log)]).map Log.key).Nodup := by
    rw [List.map_append, List.nodup_append]
    refine ⟨hnd, by simp, fun a ha c hc e => ?_⟩
    obtain ⟨x, hx, rfl⟩ := List.mem_map.mp ha
    have hc : c = p / n := by simpa using hc
    exact hkey x hx (e.trans hc)
  by_cases hq : q / n = p / n
  · have hnone : lookupIn L (q / n) q = none := lookupIn_of_not_mem (fun x hx => hq ▸ hkey x hx) q
    have := lookupIn_of_mem hnd' (show (⟨p / n, b, [p]⟩ : Log) ∈ _ by simp) q
    have hl : lookup [p] q = if q = p then some 0 else none := lookup_concat [] p q
    rw [hnone, hq, this, hl]
    split_ifs <;> rfl
  · have hqp : q ≠ p := fun e => hq (by rw [e])
    rw [if_neg hqp]
    refine lookupIn_congr hnd' hnd (fun x hx => ?_) q
    simp only [List.mem_append, List.mem_singleton, or_iff_left_iff_imp]
    rintro rfl
    exact absurd hx.symm hq

/-! ## The pages of a log -/

/-- The block of the log `lg` on the flash; `tag page` is what the spare area of `page` looks like. -/
structure LogPages (d : Device) (fl : Flash) (tag : Nat → Spare → Prop) (lg : Log) : Prop where
  done : ∀ i p, lg.seq[i]? = some p → ∃ pg, fl lg.pba i = some pg ∧ tag p pg.spare
  rest : ∀ i, lg.seq.length ≤ i → i < d.pgs → fl lg.pba i = none
  nonempty : lg.seq ≠ []
  fits : lg.seq.length ≤ d.pgs
  key : ∀ p ∈ lg.seq, p / d.pgs = lg.key

/-- The logs `L` have the blocks of role `role` and no others. -/
structure Logs (d : Device) (role : Nat → Role) (tag : Nat → Spare → Prop) (own : Own) (fl : Flash)
    (L : List Log) : Prop where
  nodup : (L.map Log.key).Nodup
  lt : ∀ lg ∈ L, lg.pba < d.blks
  owned : ∀ lg ∈ L, own lg.pba = role lg.key
  mem : ∀ b k, own b = role k → ∃ lg ∈ L, lg.key = k ∧ lg.pba = b
  pages : ∀ lg ∈ L, LogPages d fl tag lg

section logs

variable {d : Device} {role : Nat → Role} {tag : Nat → Spare → Prop} {own own' : Own} {fl fl' : Flash}
  {L pre post : List Log} {lg : Log}

theorem LogPages.congr (h : LogPages d fl tag lg) (hfl : fl' lg.pba = fl lg.pba) : LogPages d fl' tag lg :=
  ⟨fun i p hp => by rw [hfl]; exact h.done i p hp, fun i hi hi' => by rw [hfl]; exact h.rest i hi hi',
    h.nonempty, h.fits, h.key⟩

theorem LogPages.head (h : LogPages d fl tag lg) : ∃ pg p, fl lg.pba 0 = some pg ∧ tag p pg.spare := by
  obtain ⟨p, seq, hseq⟩ := List.exists_cons_of_ne_nil h.nonempty
  obtain ⟨pg, hpg, ht⟩ := h.done 0 p (by simp [hseq])
  exact ⟨pg, p, hpg, ht⟩

/-- The log takes one page more. -/
theorem LogPages.put (h : LogPages d fl tag lg) (hlen : lg.seq.length < d.pgs) {p : Nat} {pg : Page}
    (htag : tag p pg.spare) (hp : p / d.pgs = lg.key) :
    LogPages d (setPage fl lg.pba lg.seq.length pg) tag ⟨lg.key, lg.pba, lg.seq ++ [p]⟩ := by
  refine ⟨fun i q hq => ?_, fun i hi hi' => ?_, by simp, by simp; omega, fun q hq => ?_⟩
  · by_cases hi : i < lg.seq.length
    · rw [List.getElem?_append_left hi] at hq
      obtain ⟨pg', hpg', ht'⟩ := h.done i q hq
      exact ⟨pg', by rw [setPage_page_ne _ _ _ (by omega)]; exact hpg', ht'⟩
    · have hil : i = lg.seq.length := by
        have := (List.getElem?_eq_some_iff.mp hq).1
        simp only [List.length_append, List.length_singleton] at this
        omega
      subst hil
      have hqp : p = q := by simpa using hq
      exact ⟨pg, setPage_self _ _ _ _, hqp ▸ htag⟩
  · simp only [List.length_append, List.length_singleton] at hi
    rw [setPage_page_ne _ _ _ (by omega)]
    exact h.rest i (by omega) hi'
  · rcases List.mem_append.mp hq with hq | hq
    · exact h.key q hq
    · rw [List.mem_singleton.mp hq]; exact hp

/-- A log of one page. -/
theorem LogPages.single {b p : Nat} {pg : Page} (he : ∀ i, i < d.pgs → fl b i = none) (htag : tag p pg.spare) :
    LogPages d (setPage fl b 0 pg) tag ⟨p / d.pgs, b, [p]⟩ := by
  have hpgs := d.pgs_pos
  refine ⟨fun i q hq => ?_, fun i hi hi' => ?_, by simp, hpgs, fun q hq => ?_⟩
  · cases i with
    | zero =>
      have hqp : p = q := by simpa using hq
      exact ⟨pg, setPage_self _ _ _ _, hqp ▸ htag⟩
    | succ i => simp at hq
  · have hi0 : i ≠ 0 := by
      simp only [List.length_singleton] at hi
      omega
    rw [setPage_page_ne _ _ _ hi0]
    exact he i hi'
  · rw [List.mem_singleton.mp hq]

/-- The pages of the log copied to block `b`. -/
theorem LogPages.moved (h : LogPages d fl tag lg) {b : Nat}
    (hf : Filled d fl b (fun i => some ((fl lg.pba i).getD Page.erased)) lg.seq.length fl') :
    LogPages d fl' tag ⟨lg.key, b, lg.seq⟩ := by
  refine ⟨fun i p hp => ?_, fun i hi hi' => hf.todo i hi hi', h.nonempty, h.fits, h.key⟩
  obtain ⟨pg, hpg, ht⟩ := h.done i p hp
  refine ⟨pg, ?_, ht⟩
  rw [hf.done i (List.getElem?_eq_some_iff.mp hp).1, hpg]
  rfl

/-! ## Lists of logs -/

/-- The owners of one kind of role are the same but for block `b`. -/
def SameBut (role : Nat → Role) (own own' : Own) (b : Nat) : Prop :=
  ∀ x, x ≠ b → ∀ k, own' x = role k ↔ own x = role k

theorem Logs.congr (h : Logs d role tag own fl L) (ho : ∀ b k, own' b = role k ↔ own b = role k)
    (hfl : ∀ b k, own b = role k → fl' b = fl b) : Logs d role tag own' fl' L :=
  ⟨h.nodup, h.lt, fun lg hlg => (ho _ _).mpr (h.owned lg hlg), fun b k hb => h.mem b k ((ho b k).mp hb),
    fun lg hlg => (h.pages lg hlg).congr (hfl _ _ (h.owned lg hlg))⟩

theorem Logs.perm (h : Logs d role tag own fl L) {L' : List Log} (hp : L.Perm L') :
    Logs d role tag own fl L' :=
  ⟨(hp.map Log.key).nodup_iff.mp h.nodup, fun lg hlg => h.lt lg (hp.mem_iff.mpr hlg),
    fun lg hlg => h.owned lg (hp.mem_iff.mpr hlg),
    fun b k hb => by
      obtain ⟨lg, hlg, hx⟩ := h.mem b k hb
      exact ⟨lg, hp.mem_iff.mp hlg, hx⟩,
    fun lg hlg => h.pages lg (hp.mem_iff.mpr hlg)⟩

theorem Logs.key_ne (h : Logs d role tag own fl (pre ++ lg :: post)) {x : Log} (hx : x ∈ pre ++ post) :
    x.key ≠ lg.key := by
  have hnd := h.nodup
  rw [List.map_append, List.map_cons, List.nodup_middle] at hnd
  rw [List.nodup_cons, ← List.map_append] at hnd
  exact fun e => hnd.1 (e ▸ List.mem_map_of_mem hx)

theorem Logs.pba_ne (hinj : Function.Injective role) (h : Logs d role tag own fl (pre ++ lg :: post)) {x : Log}
    (hx : x ∈ pre ++ post) : x.pba ≠ lg.pba := by
  intro e
  have h1 := h.owned x (by simp at hx ⊢; tauto)
  have h2 := h.owned lg (by simp)
  rw [e] at h1
  exact h.key_ne hx (hinj (h1.symm.trans h2))

/-- One log is replaced by another of the same key. -/
theorem Logs.replace (hinj : Function.Injective role) (h : Logs d role tag own fl (pre ++ lg :: post)) {lg' : Log}
    (hk : lg'.key = lg.key) (hlt : lg'.pba < d.blks) (hown : own' lg'.pba = role lg.key)
    (hold : lg.pba = lg'.pba ∨ ∀ k, own' lg.pba ≠ role k)
    (ho : ∀ x, x ≠ lg.pba → x ≠ lg'.pba → ∀ k, own' x = role k ↔ own x = role k)
    (hnew : lg'.pba = lg.pba ∨ ∀ k, own lg'.pba ≠ role k)
    (hfl : ∀ x, x ≠ lg.pba → ∀ k, own x = role k → fl' x = fl x) (hp : LogPages d fl' tag lg') :
    Logs d role tag own' fl' (pre ++ lg' :: post) := by
  have hmap : (pre ++ lg' :: post).map Log.key = (pre ++ lg :: post).map Log.key := by simp [hk]
  have hother : ∀ x ∈ pre ++ post, x.pba ≠ lg.pba ∧ x.pba ≠ lg'.pba ∧ own x.pba = role x.key := by
    intro x hx
    have hown := h.owned x (mem_middle.mpr (Or.inr hx))
    refine ⟨h.pba_ne hinj hx, fun e => ?_, hown⟩
    rcases hnew with hn | hn
    · exact h.pba_ne hinj hx (e.trans hn)
    · exact hn x.key (e ▸ hown)
  refine ⟨hmap ▸ h.nodup, fun x hx => ?_, fun x hx => ?_, fun b k hb => ?_, fun x hx => ?_⟩
  · rcases mem_middle.mp hx with rfl | hx
    · exact hlt
    · exact h.lt x (mem_middle.mpr (Or.inr hx))
  · rcases mem_middle.mp hx with rfl | hx
    · rw [hk]; exact hown
    · obtain ⟨h1, h2, h3⟩ := hother x hx
      exact (ho _ h1 h2 _).mpr h3
  · by_cases hb' : b = lg'.pba
    · refine ⟨lg', by simp, ?_, hb'.symm⟩
      rw [hb', hown] at hb
      rw [hk]; exact hinj hb
    · by_cases hb'' : b = lg.pba
      · rcases hold with hold | hold
        · exact absurd (hb''.trans hold) hb'
        · exact absurd (hb'' ▸ hb) (hold k)
      · obtain ⟨x, hx, hxk, hxb⟩ := h.mem b k ((ho b hb'' hb' k).mp hb)
        rcases mem_middle.mp hx with rfl | hx
        · exact absurd hxb.symm hb''
        · exact ⟨x, mem_middle.mpr (Or.inr hx), hxk, hxb⟩
  · rcases mem_middle.mp hx with rfl | hx
    · exact hp
    · obtain ⟨h1, h2, h3⟩ := hother x hx
      exact (h.pages x (mem_middle.mpr (Or.inr hx))).congr (hfl _ h1 _ h3)

/-- A page is added to the log `lg`. -/
theorem Logs.put (hinj : Function.Injective role) (h : Logs d role tag own fl (pre ++ lg :: post))
    (hlen : lg.seq.length < d.pgs) {p : Nat} {pg : Page} (htag : tag p pg.spare) (hp : p / d.pgs = lg.key) :
    Logs d role tag own (setPage fl lg.pba lg.seq.length pg)
      (pre ++ ⟨lg.key, lg.pba, lg.seq ++ [p]⟩ :: post) :=
  h.replace hinj rfl (h.lt lg (by simp)) (h.owned lg (by simp)) (Or.inl rfl) (fun _ _ _ _ => Iff.rfl) (Or.inl rfl)
    (fun _ hx _ _ => setPage_block_ne _ _ _ hx) ((h.pages lg (by simp)).put hlen htag hp)

/-- A log is dropped; its block has another role. -/
theorem Logs.remove (hinj : Function.Injective role) (h : Logs d role tag own fl (pre ++ lg :: post))
    (hold : ∀ k, own' lg.pba ≠ role k) (ho : SameBut role own own' lg.pba)
    (hfl : ∀ x, x ≠ lg.pba → ∀ k, own x = role k → fl' x = fl x) :
    Logs d role tag own' fl' (pre ++ post) := by
  have hsub : ∀ x ∈ pre ++ post, x ∈ pre ++ lg :: post := fun x hx => mem_middle.mpr (Or.inr hx)
  have hnd := h.nodup
  rw [List.map_append, List.map_cons, List.nodup_middle, ← List.map_append] at hnd
  refine ⟨(List.nodup_cons.mp hnd).2, fun x hx => h.lt x (hsub x hx), fun x hx => ?_, fun b k hb => ?_, fun x hx => ?_⟩
  · exact (ho _ (h.pba_ne hinj hx) _).mpr (h.owned x (hsub x hx))
  · have hne : b ≠ lg.pba := fun e => hold k (e ▸ hb)
    obtain ⟨x, hx, hxk, hxb⟩ := h.mem b k ((ho b hne k).mp hb)
    rcases mem_middle.mp hx with rfl | hx
    · exact absurd hxb.symm hne
    · exact ⟨x, hx, hxk, hxb⟩
  · exact (h.pages x (hsub x hx)).congr (hfl _ (h.pba_ne hinj hx) _ (h.owned x (hsub x hx)))

/-- A new log. -/
theorem Logs.add (hinj : Function.Injective role) (h : Logs d role tag own fl L)
    (hkey : ∀ x ∈ L, x.key ≠ lg.key) (hlt : lg.pba < d.blks) (hnew : ∀ k, own lg.pba ≠ role k)
    (hown : own' lg.pba = role lg.key) (ho : SameBut role own own' lg.pba)
    (hfl : ∀ x, x ≠ lg.pba → ∀ k, own x = role k → fl' x = fl x) (hp : LogPages d fl' tag lg) :
    Logs d role tag own' fl' (L ++ [lg]) := by
  have hne : ∀ x ∈ L, x.pba ≠ lg.pba := fun x hx e => hnew x.key (e ▸ h.owned x hx)
  refine ⟨?_, fun x hx => ?_, fun x hx => ?_, fun b k hb => ?_, fun x hx => ?_⟩
  · rw [List.map_append, List.nodup_append]
    refine ⟨h.nodup, by simp, fun a ha b hb e => ?_⟩
    obtain ⟨x, hx, rfl⟩ := List.mem_map.mp ha
    have hb : b = lg.key := by simpa using hb
    exact hkey x hx (e.trans hb)
  · rcases List.mem_append.mp hx with hx | hx
    · exact h.lt x hx
    · rw [List.mem_singleton.mp hx]; exact hlt
  · rcases List.mem_append.mp hx with hx | hx
    · exact (ho _ (hne x hx) _).mpr (h.owned x hx)
    · rw [List.mem_singleton.mp hx]; exact hown
  · by_cases hb' : b = lg.pba
    · exact ⟨lg, by simp, hinj (hown.symm.trans (hb' ▸ hb)), hb'.symm⟩
    · obtain ⟨x, hx, hx'⟩ := h.mem b k ((ho b hb' k).mp hb)
      exact ⟨x, by simp [hx], hx'⟩
  · rcases List.mem_append.mp hx with hx | hx
    · exact (h.pages x hx).congr (hfl _ (hne x hx) _ (h.owned x hx))
    · rw [List.mem_singleton.mp hx]; exact hp

end logs

end Emlinux.Nftl
