import Emlinux.Nftl.ReadSpec

/-!
# Scanning a log block

The mount scan adds the pages of a log block one by one to the entry behind the last block of the table. With
that entry counted, the tables hold at every moment the logs found so far and the pages of the new log read so
far, so the scan ends with the log that the block holds.
-/

namespace Emlinux.Nftl

open Lib

/-! ## One page -/

/-- The table with the entry behind the last block counted. -/
def LogTab.counted (t : LogTab) : LogTab := { t with blkcnt := t.blkcnt + 1 }

section tab

variable {c : LogCap} {t : LogTab} {L : List Log} {lg : Log}

/-- The scan sets up an entry for block `pba`. -/
theorem scanStart_rep (h : Rep c t L) (hlt : L.length < c.maxBlocks) (key pba : Nat) :
    ∃ t', t.setBlock c t.blkcnt ⟨key, pba, 0, 0⟩ = .ok t' ∧ Rep c t'.counted (L ++ [⟨key, pba, []⟩]) := by
  rw [h.blkcnt]
  refine ⟨_, LogTab.setBlock_ok _ hlt, ⟨by simp [LogTab.counted, h.blkcnt], ?_, fun i => ?_, ?_, by simp; omega, ?_⟩⟩
  · simp [LogTab.counted, h.pgcnt, Log.items]
  · simp only [LogTab.counted]
    rw [List.map_append, List.getD_eq_getElem?_getD]
    rcases Nat.lt_trichotomy i L.length with hi | hi | hi
    · rw [Function.update_of_ne (by omega), h.blocks, List.getD_eq_getElem?_getD,
        List.getElem?_append_left (by simpa using hi)]
    · subst hi
      rw [Function.update_self, List.getElem?_append_right (by simp)]
      simp [Log.block, Log.items]
    · rw [Function.update_of_ne (by omega), h.blocks, List.getD_eq_getElem?_getD,
        List.getElem?_eq_none (by simp; omega), List.getElem?_eq_none (by simp; omega)]
  · simpa [LogTab.counted, Log.items] using h.items
  · simpa [Log.items] using h.pg_le

/-- The scan adds one page to the entry. -/
theorem scanPage_rep (h : Rep c t.counted (L ++ [lg])) (keyOf : LogBlock → Nat) (page : Nat)
    (hp : (flat L).length + (itemsOf (lg.seq ++ [page])).length ≤ c.maxPages) :
    ∃ t', t.scanPage c keyOf page = .ok t' ∧
      Rep c t'.counted (L ++ [⟨keyOf lg.block, lg.pba, lg.seq ++ [page]⟩]) := by
  obtain ⟨hpre, hmid, -⟩ := h.items_mid
  have hcnt : t.blkcnt = L.length := by
    have := h.blkcnt
    simp only [LogTab.counted, List.length_append, List.length_singleton] at this
    omega
  have hpgcnt : t.pgcnt = (flat L).length + lg.items.length := by
    have := h.pgcnt
    simpa [LogTab.counted] using this
  have hpg := h.pg_mid
  have hblk := h.mid_lt
  have hb : t.blocktab L.length = lg.block := h.block_mid
  have hfind : t.findItem c page lg.items.length (flat L).length
      = .ok ((flat L).length + lg.items.findIdx (fun it => it.page = page)) := findItem_rep page hmid (by omega)
  have hnew : Log.items ⟨keyOf lg.block, lg.pba, lg.seq ++ [page]⟩ = insertItem lg.items page lg.seq.length :=
    itemsOf_concat _ _
  have hblock : Log.block ⟨keyOf lg.block, lg.pba, lg.seq ++ [page]⟩
      = ⟨keyOf lg.block, lg.pba, lg.seq.length + 1, (insertItem lg.items page lg.seq.length).length⟩ := by
    show (⟨_, _, (lg.seq ++ [page]).length, (Log.items ⟨keyOf lg.block, lg.pba, lg.seq ++ [page]⟩).length⟩ : LogBlock) = _
    rw [hnew, List.length_append, List.length_singleton]
  rw [itemsOf_concat] at hp
  change (flat L).length + (insertItem lg.items page lg.seq.length).length ≤ c.maxPages at hp
  rw [LogTab.scanPage, hcnt]
  simp only [bind, Except.bind, LogTab.blockAt_ok hblk, hb]
  rw [show lg.block.valid = lg.items.length from rfl, show t.pgcnt - lg.items.length = (flat L).length by omega, hfind]
  simp only
  set k := lg.items.findIdx (fun it => it.page = page) with hk
  have hkle : k ≤ lg.items.length := List.findIdx_le_length
  have hblocks : ∀ b : LogBlock, b = Log.block ⟨keyOf lg.block, lg.pba, lg.seq ++ [page]⟩ → ∀ i,
      Function.update t.blocktab L.length b i = ((L ++ [(⟨keyOf lg.block, lg.pba, lg.seq ++ [page]⟩ : Log)]).map
        Log.block).getD i ⟨0, 0, 0, 0⟩ := fun b hb i => h.blocks_set _ hb i
  by_cases hlt : k < lg.items.length
  · have hset := insertItem_of_lt lg.seq.length hlt
    rw [← hk] at hset
    have hlen : (insertItem lg.items page lg.seq.length).length = lg.items.length := by rw [hset, List.length_set]
    rw [LogTab.setItem_ok _ (by omega)]
    simp only
    rw [if_neg (by omega), LogTab.setBlock_ok _ hblk]
    refine ⟨_, rfl, ⟨by simp [LogTab.counted, hcnt], ?_, hblocks _ ?_, ?_, by simpa using h.blk_le, ?_⟩⟩
    · simp [LogTab.counted, hpgcnt, hnew, hlen]
    · rw [hblock, hlen]; rfl
    · simp only [LogTab.counted]
      rw [flat_append, flat_cons, flat_nil, List.append_nil, agree_append, hnew, Nat.zero_add]
      refine ⟨hpre.congr fun i _ hi => ?_, ?_⟩
      · rw [Function.update_of_ne (by omega)]
        rfl
      · rw [hset]
        exact hmid.set hlt
    · simp only [flat_append, flat_cons, flat_nil, List.length_append, hnew, List.length_nil]
      omega
  · have hge := insertItem_of_ge lg.seq.length (show lg.items.length ≤ k by omega)
    rw [hge, List.length_append, List.length_singleton] at hp
    rw [LogTab.setItem_ok _ (by omega)]
    simp only
    rw [if_pos (by omega), LogTab.setBlock_ok _ hblk]
    refine ⟨_, rfl, ⟨by simp [LogTab.counted, hcnt], ?_, hblocks _ ?_, ?_, by simpa using h.blk_le, ?_⟩⟩
    · simp [LogTab.counted, hpgcnt, hnew, hge]
      omega
    · rw [hblock, hge, List.length_append]; rfl
    · simp only [LogTab.counted]
      rw [flat_append, flat_cons, flat_nil, List.append_nil, agree_append, hnew, hge, agree_append, Nat.zero_add]
      refine ⟨hpre.congr fun i _ hi => ?_, hmid.congr fun i _ hi => ?_, ?_⟩
      · rw [Function.update_of_ne (by omega)]
        rfl
      · rw [Function.update_of_ne (by omega)]
        rfl
      · rw [agree_singleton, show (flat L).length + k = (flat L).length + lg.items.length by omega]
        simp [Log.block]
    · simp only [flat_append, flat_cons, flat_nil, List.length_append, hnew, hge, List.length_nil, List.length_singleton]
      omega

theorem length_insertItem_ge (items : List LogItem) (page ppa : Nat) :
    items.length ≤ (insertItem items page ppa).length := by
  induction items with
  | nil => simp
  | cons it items ih =>
    simp only [insertItem]
    split_ifs
    · simp
    · simp only [List.length_cons]; omega

theorem length_itemsOf_take (seq : List Nat) (n : Nat) : (itemsOf (seq.take n)).length ≤ (itemsOf seq).length := by
  induction seq using List.reverseRecOn with
  | nil => simp
  | append_singleton seq p ih =>
    by_cases hn : n ≤ seq.length
    · rw [List.take_append_of_le_length hn, itemsOf_concat]
      exact ih.trans (length_insertItem_ge _ _ _)
    · rw [List.take_of_length_le (by simp; omega)]

end tab

/-! ## One block -/

section scanLog

variable {d : Device} {E : Prop} {c : LogCap} {tab : St → LogTab} {put : LogTab → M Unit} {upd : St → LogTab → St}
  {isFree : Spare → Bool} {page : Spare → Nat} {keyOf : Spare → LogBlock → Nat} {tag : Nat → Spare → Prop}
  {L : List Log} {lg : Log} {s : St} {key₀ : Nat}

/-- `tab` and `upd` read and write one of the two tables in the RAM, and `put` is the program that does it. -/
structure Slot (d : Device) (E : Prop) (c : LogCap) (s : St) (tab : St → LogTab) (put : LogTab → M Unit)
    (upd : St → LogTab → St) : Prop where
  self : upd s (tab s) = s
  get : ∀ s t, tab (upd s t) = t
  set : ∀ s t t', upd (upd s t) t' = upd s t'
  nand : ∀ s t, (upd s t).nand = s.nand
  comm : ∀ s t fl e k, (upd s t).reflash fl e k = upd (s.reflash fl e k) t
  put : ∀ e k t t', t'.blkcnt ≤ c.maxBlocks → t'.pgcnt ≤ c.maxPages →
    Sat (contract d E) (put t') (upd (s.reflash s.nand.flash e k) t)
      (fun _ s' => s' = upd (s.reflash s.nand.flash e k) t')

/-- The scan of the block of `lg` adds `lg` to the tables. -/
theorem sat_scanLog (hs : Slot d E c s tab put upd) (hp : LogPages d s.nand.flash tag lg) (hlt : lg.pba < d.blks)
    (hshort : lg.seq.length < d.pgs) (hfree : isFree Page.erased.spare = true)
    (htag : ∀ p sp, p ∈ lg.seq → tag p sp → isFree sp = false ∧ page sp = p)
    (hkey : ∀ n p sp valid, lg.seq[n]? = some p → tag p sp →
      keyOf sp ⟨if n = 0 then key₀ else lg.key, lg.pba, n, valid⟩ = lg.key)
    (hscan : Rep c (tab s).counted (L ++ [⟨key₀, lg.pba, []⟩])) (hroom : (flat L).length + lg.items.length ≤ c.maxPages) :
    Sat (contract d E) (scanLog d c tab put isFree page keyOf lg.pba) s (fun r s' => r = .next () ∧ ∃ e k t,
      s' = upd (s.reflash s.nand.flash e k) t ∧ Rep c t (L ++ [lg])) := by
  have hpos := List.length_pos_iff.mpr hp.nonempty
  -- the pages before `used` were read
  set I : Nat → St → Prop := fun used s' => used ≤ lg.seq.length ∧ ∃ e k t, s' = upd (s.reflash s.nand.flash e k) t ∧
    Rep c t.counted (L ++ [⟨if used = 0 then key₀ else lg.key, lg.pba, lg.seq.take used⟩]) with hI
  have hI0 : I 0 s := ⟨Nat.zero_le _, s.nand.ecc, s.nand.tick, tab s, hs.self.symm, by simpa using hscan⟩
  refine Sat.bind (Q := fun r s' => r = .brk (0 : Int) ∧ I lg.seq.length s') ?_ ?_
  · refine Sat.loop (fun used (_ : Unit) s' => I used s') d.pgs 0 ?_ (fun _ s' h => ?_) hI0
    · rintro used _ _ - hu ⟨hule, e, k, t, rfl, hrep⟩
      refine Sat.bind (sat_mtdRead hlt (by omega)) ?_
      rintro _ _ ⟨rfl, e', k', rfl⟩
      have hfl : (upd (s.reflash s.nand.flash e k) t).nand.flash = s.nand.flash := by rw [hs.nand]; rfl
      have hst : (upd (s.reflash s.nand.flash e k) t).reflash (upd (s.reflash s.nand.flash e k) t).nand.flash e' k'
          = upd (s.reflash s.nand.flash e' k') t := by rw [hfl, hs.comm]; rfl
      rw [hst, Nand.read, hfl]
      by_cases hul : used = lg.seq.length
      · rw [hp.rest used (by omega) (by omega), Option.getD_none]
        simp only [hfree, if_true]
        exact Sat.pure ⟨rfl, le_refl _, e', k', t, rfl, by rw [← hul]; exact hrep⟩
      · have hult : used < lg.seq.length := by omega
        obtain ⟨pg, hpg, ht⟩ := hp.done used _ (List.getElem?_eq_getElem hult)
        obtain ⟨h1, h2⟩ := htag _ _ (List.getElem_mem hult) ht
        rw [hpg, Option.getD_some]
        simp only [h1, Bool.false_eq_true, if_false]
        refine Sat.get_bind ?_
        rw [hs.get, h2]
        have htake : lg.seq.take (used + 1) = lg.seq.take used ++ [lg.seq[used]] := (List.take_append_getElem hult).symm
        have hlen : (lg.seq.take used).length = used := by rw [List.length_take]; omega
        obtain ⟨t', hsc, hrep'⟩ := scanPage_rep hrep (keyOf pg.spare) lg.seq[used] (by
          have := length_itemsOf_take lg.seq (used + 1)
          rw [htake] at this
          have : (itemsOf lg.seq).length = lg.items.length := rfl
          simp only
          omega)
        have hk : keyOf pg.spare (Log.block ⟨if used = 0 then key₀ else lg.key, lg.pba, lg.seq.take used⟩) = lg.key := by
          rw [Log.block, hlen]
          exact hkey used _ _ _ (List.getElem?_eq_getElem hult) ht
        rw [hk, ← htake] at hrep'
        refine Sat.lift_bind hsc ?_
        have hblk : t'.counted.blkcnt ≤ c.maxBlocks := by rw [hrep'.blkcnt]; exact hrep'.blk_le
        have hpg : t'.counted.pgcnt ≤ c.maxPages := by rw [hrep'.pgcnt]; exact hrep'.pg_le
        refine Sat.bind (hs.put e' k' t t' ((Nat.le_succ _).trans hblk) hpg) ?_
        rintro _ _ rfl
        exact Sat.pure ⟨by omega, e', k', t', rfl, by simpa using hrep'⟩
    · have := h.1
      omega
  rintro _ _ ⟨rfl, -, e, k, t, rfl, hrep⟩
  rw [List.take_length, if_neg (by omega)] at hrep
  simp only [ne_eq, not_true, if_false]
  refine Sat.get_bind ?_
  rw [hs.get]
  refine Sat.bind (hs.put e k t t.counted ?_ ?_) ?_
  · rw [hrep.blkcnt]; exact hrep.blk_le
  · rw [hrep.pgcnt]; exact hrep.pg_le
  rintro _ _ rfl
  exact Sat.pure ⟨rfl, e, k, t.counted, rfl, hrep⟩

end scanLog

end Emlinux.Nftl
