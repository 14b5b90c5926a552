import Mathlib.Data.List.GetD
import Emlinux.Nftl.Segments

/-!
# Log tables as lists of logs

A log block is a key, a physical block and the sequence `seq` of the logical pages written to it, one per
physical page. That sequence determines the rest: `used` is its length, and its translation items are
`itemsOf seq`, the last position of every page in order of first appearance.

`Rep c t L` says that the flat tables `t` hold the list of logs `L`: their segments are those of the logs, the entries behind
them are zero, and the arrays are not overrun (`rep_iff`). Each operation of `LogTab` is one list operation under `Rep`
(`append_rep`, `insert_rep`, `delete_rep`, `update_rep`), and the searches are list searches.
-/

namespace Emlinux.Nftl

/-- A log block, by the pages written to it so far. -/
structure Log where
  key : Nat
  pba : Nat
  seq : List Nat
deriving DecidableEq, Repr

/-! ## The items of a sequence of pages -/

/-- The items after the pages of `seq` were written to positions `0, 1, 2, …`. -/
def itemsOf (seq : List Nat) : List LogItem :=
  seq.zipIdx.foldl (fun items x => insertItem items x.1 x.2) []

/-- The last position of `page` in `seq`. -/
def lookup (seq : List Nat) (page : Nat) : Option Nat :=
  ((itemsOf seq).find? (fun it => it.page = page)).map LogItem.ppa

@[simp] theorem itemsOf_nil : itemsOf [] = [] := rfl

theorem itemsOf_concat (seq : List Nat) (p : Nat) :
    itemsOf (seq ++ [p]) = insertItem (itemsOf seq) p seq.length := by
  simp [itemsOf, List.zipIdx_append, List.foldl_append]

theorem lookup_concat (seq : List Nat) (q p : Nat) :
    lookup (seq ++ [q]) p = if p = q then some seq.length else lookup seq p := by
  simp only [lookup, itemsOf_concat, find_insertItem]
  split_ifs <;> rfl

@[simp] theorem lookup_nil (p : Nat) : lookup [] p = none := rfl

theorem itemsOf_nodup (seq : List Nat) : ((itemsOf seq).map LogItem.page).Nodup := by
  induction seq using List.reverseRecOn with
  | nil => simp
  | append_singleton seq p ih => rw [itemsOf_concat]; exact nodup_insertItem ih _ _

theorem length_itemsOf_le (seq : List Nat) : (itemsOf seq).length ≤ seq.length := by
  induction seq using List.reverseRecOn with
  | nil => simp
  | append_singleton seq p ih =>
    rw [itemsOf_concat, List.length_append, List.length_singleton]
    exact (length_insertItem_le _ _ _).trans (by omega)

theorem lookup_eq_none {seq : List Nat} {p : Nat} : lookup seq p = none ↔ p ∉ seq := by
  induction seq using List.reverseRecOn with
  | nil => simp
  | append_singleton seq q ih =>
    rw [lookup_concat]
    split_ifs with h
    · simp [h]
    · simp [ih, h]

theorem getElem?_of_lookup {seq : List Nat} {p i : Nat} (h : lookup seq p = some i) :
    seq[i]? = some p := by
  induction seq using List.reverseRecOn with
  | nil => simp at h
  | append_singleton seq q ih =>
    rw [lookup_concat] at h
    split_ifs at h with hp
    · cases h; simp [hp]
    · have hi := ih h
      have hlt : i < seq.length := (List.getElem?_eq_some_iff.mp hi).1
      rw [List.getElem?_append_left hlt]; exact hi

theorem lookup_lt {seq : List Nat} {p i : Nat} (h : lookup seq p = some i) : i < seq.length :=
  (List.getElem?_eq_some_iff.mp (getElem?_of_lookup h)).1

/-- The items hold every written page once, so distinct pages number at most `itemsOf seq`. -/
theorem mem_page_itemsOf {seq : List Nat} {p : Nat} : p ∈ (itemsOf seq).map LogItem.page ↔ p ∈ seq := by
  induction seq using List.reverseRecOn with
  | nil => simp
  | append_singleton seq q ih => rw [itemsOf_concat, mem_page_insertItem, ih]; simp; tauto

/-! ## The flat tables hold a list of logs -/

def Log.items (lg : Log) : List LogItem := itemsOf lg.seq

def Log.block (lg : Log) : LogBlock := ⟨lg.key, lg.pba, lg.seq.length, lg.items.length⟩

/-- The translation items of all logs, one log after the other. -/
def flat (L : List Log) : List LogItem := L.flatMap Log.items

@[simp] theorem flat_nil : flat [] = [] := rfl

@[simp] theorem flat_cons (lg : Log) (L : List Log) : flat (lg :: L) = lg.items ++ flat L := rfl

@[simp] theorem flat_append (L L' : List Log) : flat (L ++ L') = flat L ++ flat L' := by
  simp [flat]

theorem length_flat_le {L : List Log} {n : Nat} (h : ∀ lg ∈ L, lg.seq.length ≤ n) :
    (flat L).length ≤ L.length * n := by
  induction L with
  | nil => simp
  | cons lg L ih =>
    have h1 := length_itemsOf_le lg.seq
    have h2 := h lg (by simp)
    have h3 := ih fun x hx => h x (by simp [hx])
    rw [flat_cons, List.length_append, List.length_cons, Nat.succ_mul, Log.items]
    omega

/-- The first element that satisfies `p`, and the list around it. -/
theorem exists_split_findIdx {α : Type} {p : α → Bool} {L : List α} (h : ∃ x ∈ L, p x = true) :
    ∃ pre x post, L = pre ++ x :: post ∧ p x = true ∧ (∀ y ∈ pre, p y = false) ∧ L.findIdx p = pre.length := by
  induction L with
  | nil => simp at h
  | cons a L ih =>
    by_cases ha : p a = true
    · exact ⟨[], a, L, rfl, ha, by simp, by simp [List.findIdx_cons, ha]⟩
    · obtain ⟨x, hx, hpx⟩ := h
      have hxL : x ∈ L := by
        rcases List.mem_cons.mp hx with rfl | hx
        · exact absurd hpx ha
        · exact hx
      obtain ⟨pre, y, post, hL, hy, hpre, hidx⟩ := ih ⟨x, hxL, hpx⟩
      refine ⟨a :: pre, y, post, by rw [hL]; rfl, hy, fun z hz => ?_, ?_⟩
      · rcases List.mem_cons.mp hz with rfl | hz
        · simpa using ha
        · exact hpre z hz
      · simp [List.findIdx_cons, ha, hidx]

/-- The tables `t` hold the logs `L`, inside the bounds `c`. Entries past the end are still zero. -/
structure Rep (c : LogCap) (t : LogTab) (L : List Log) : Prop where
  blkcnt : t.blkcnt = L.length
  pgcnt : t.pgcnt = (flat L).length
  blocks : ∀ i, t.blocktab i = (L.map Log.block).getD i ⟨0, 0, 0, 0⟩
  items : Agree t.transtab 0 (flat L)
  blk_le : L.length ≤ c.maxBlocks
  pg_le : (flat L).length ≤ c.maxPages

theorem rep_zero (c : LogCap) : Rep c LogTab.zero [] :=
  ⟨rfl, rfl, fun _ => rfl, agree_nil _ _, Nat.zero_le _, Nat.zero_le _⟩

/-! ## Logs are segments -/

section rep

variable {c : LogCap} {t : LogTab} {L pre post : List Log} {lg : Log}

def Log.seg (lg : Log) : Seg := ⟨lg.block, lg.items⟩

@[simp] theorem segItems_map_seg (L : List Log) : segItems (L.map Log.seg) = flat L := by
  induction L with
  | nil => rfl
  | cons lg L ih => rw [List.map_cons, segItems_cons, flat_cons, ih, Log.seg]

/-- Logs are held as their segments, in clear tables inside the bounds. -/
theorem rep_iff : Rep c t L ↔
    Segs t (L.map Log.seg) ∧ t.Clear ∧ L.length ≤ c.maxBlocks ∧ (flat L).length ≤ c.maxPages := by
  constructor
  · intro h
    have hblocks : ∀ i sg, (L.map Log.seg)[i]? = some sg → t.blocktab i = sg.block := by
      intro i sg hi
      rw [List.getElem?_map] at hi
      obtain ⟨lg, hlg, rfl⟩ := Option.map_eq_some_iff.mp hi
      rw [h.blocks, List.getD_eq_getElem?_getD, List.getElem?_map, hlg]
      rfl
    have hvalid : ∀ sg ∈ L.map Log.seg, sg.block.valid = sg.items.length := by
      intro sg hsg
      obtain ⟨lg, -, rfl⟩ := List.mem_map.mp hsg
      rfl
    refine ⟨⟨by simpa using h.blkcnt, by simpa using h.pgcnt, hblocks, hvalid, by simpa using h.items⟩, fun i hi => ?_,
      h.blk_le, h.pg_le⟩
    rw [h.blocks, List.getD_eq_default _ _ (by rw [List.length_map, ← h.blkcnt]; exact hi)]
  · intro h
    obtain ⟨hs, hclear, hb, hp⟩ := h
    have hlen : t.blkcnt = L.length := by simpa using hs.blkcnt
    refine ⟨hlen, by simpa using hs.pgcnt, fun i => ?_, by simpa using hs.items, hb, hp⟩
    rw [List.getD_eq_getElem?_getD, List.getElem?_map]
    cases hi : L[i]? with
    | some lg => exact hs.blocks i lg.seg (by rw [List.getElem?_map, hi]; rfl)
    | none => exact hclear i (hlen ▸ List.getElem?_eq_none_iff.mp hi)

theorem Rep.segs (h : Rep c t L) : Segs t (L.map Log.seg) := (rep_iff.mp h).1

theorem Rep.clear (h : Rep c t L) : t.Clear := (rep_iff.mp h).2.1

theorem Rep.segs_mid (h : Rep c t (pre ++ lg :: post)) : Segs t (pre.map Log.seg ++ lg.seg :: post.map Log.seg) := by
  have hs := h.segs
  rwa [List.map_append, List.map_cons] at hs

theorem Rep.blkcnt_le (h : Rep c t L) : t.blkcnt ≤ c.maxBlocks := h.blkcnt ▸ h.blk_le

theorem Rep.pgcnt_le (h : Rep c t L) : t.pgcnt ≤ c.maxPages := h.pgcnt ▸ h.pg_le

theorem Rep.block_mid (h : Rep c t (pre ++ lg :: post)) : t.blocktab pre.length = lg.block := by
  have hb := h.segs_mid.block_mid
  rwa [List.length_map] at hb

/-- One entry of the block table changes to that of another log. -/
theorem Rep.blocks_set (h : Rep c t (pre ++ lg :: post)) (lg' : Log) {b : LogBlock} (hb : b = lg'.block)
    (i : Nat) : Function.update t.blocktab pre.length b i
      = ((pre ++ lg' :: post).map Log.block).getD i ⟨0, 0, 0, 0⟩ := by
  subst hb
  rcases Nat.lt_trichotomy i pre.length with hi | hi | hi
  · rw [Function.update_of_ne (by omega), h.blocks]
    simp [List.getD_eq_getElem?_getD, List.getElem?_append_left, hi]
  · subst hi
    simp [List.getD_eq_getElem?_getD]
  · rw [Function.update_of_ne (by omega), h.blocks]
    obtain ⟨m, rfl⟩ : ∃ m, i = pre.length + 1 + m := ⟨i - pre.length - 1, by omega⟩
    simp only [List.getD_eq_getElem?_getD, List.map_append, List.map_cons]
    rw [List.getElem?_append_right (by simp; omega), List.getElem?_append_right (by simp; omega),
      show pre.length + 1 + m - (pre.map Log.block).length = m + 1 by simp; omega]
    simp

theorem Rep.mid_lt (h : Rep c t (pre ++ lg :: post)) : pre.length < c.maxBlocks := by
  have := h.blk_le
  simp only [List.length_append, List.length_cons] at this
  omega

theorem Rep.items_mid (h : Rep c t (pre ++ lg :: post)) :
    Agree t.transtab 0 (flat pre) ∧ Agree t.transtab (flat pre).length lg.items ∧
      Agree t.transtab ((flat pre).length + lg.items.length) (flat post) := by
  have hi := h.segs_mid.items_mid
  rwa [segItems_map_seg, segItems_map_seg] at hi

theorem Rep.pg_mid (h : Rep c t (pre ++ lg :: post)) :
    (flat pre).length + lg.items.length + (flat post).length ≤ c.maxPages := by
  have hle := h.pg_le
  simp only [flat_append, flat_cons, List.length_append] at hle
  omega

/-- The offset loop sums the valid counts of the blocks before `index`. -/
theorem offset_rep (h : Rep c t (pre ++ post)) : t.offset c pre.length = .ok (flat pre).length := by
  have hs := h.segs
  rw [List.map_append] at hs
  have ho := offset_segs hs h.blkcnt_le
  rwa [List.length_map, segItems_map_seg] at ho

/-! ## The operations -/

theorem append_rep (h : Rep c t L) (key page pba : Nat) (hb : L.length < c.maxBlocks)
    (hp : (flat L).length < c.maxPages) :
    ∃ t', t.append c key page pba = .ok t' ∧ Rep c t' (L ++ [⟨key, pba, [page]⟩]) := by
  obtain ⟨t', ht', hs, hclear⟩ := append_segs (c := c) h.segs key page pba (h.blkcnt ▸ hb) (h.pgcnt ▸ hp)
  have hitems : Log.items ⟨key, pba, [page]⟩ = [⟨0, page⟩] := rfl
  refine ⟨t', ht', rep_iff.mpr ⟨?_, hclear h.clear, ?_, ?_⟩⟩
  · rw [List.map_append]
    exact hs
  · rw [List.length_append, List.length_singleton]
    exact hb
  · rw [flat_append, flat_cons, flat_nil, List.append_nil, hitems, List.length_append, List.length_singleton]
    exact hp

/-- Writing `page` to the log at `pre.length` extends its sequence. -/
theorem insert_rep (h : Rep c t (pre ++ lg :: post)) (page : Nat)
    (hp : page ∈ lg.seq ∨ (flat (pre ++ lg :: post)).length < c.maxPages) :
    ∃ t', t.insert c pre.length page = .ok t' ∧
      Rep c t' (pre ++ ⟨lg.key, lg.pba, lg.seq ++ [page]⟩ :: post) := by
  have hroom : page ∈ lg.seg.items.map LogItem.page ∨ t.pgcnt < c.maxPages :=
    hp.imp (fun hm => mem_page_itemsOf.mpr hm) fun hlt => h.pgcnt ▸ hlt
  obtain ⟨t', ht', hs, hclear⟩ := insert_segs (c := c) h.segs_mid page h.blkcnt_le h.pgcnt_le hroom
  rw [List.length_map] at ht'
  have hnew : Log.items ⟨lg.key, lg.pba, lg.seq ++ [page]⟩ = insertItem lg.items page lg.seq.length :=
    itemsOf_concat _ _
  have hseg : lg.seg.insert page = Log.seg ⟨lg.key, lg.pba, lg.seq ++ [page]⟩ := by
    simp [Seg.insert, Log.seg, Log.block, hnew]
  refine ⟨t', ht', rep_iff.mpr ⟨?_, hclear h.clear, ?_, ?_⟩⟩
  · rw [List.map_append, List.map_cons, ← hseg]
    exact hs
  · have hle := h.blk_le
    rwa [List.length_append, List.length_cons] at hle ⊢
  · have hpg := h.pg_mid
    have hlen := length_insertItem_le lg.items page lg.seq.length
    rw [flat_append, flat_cons, List.length_append, List.length_append, hnew]
    obtain hin | hlt := hp
    · have hsame : (insertItem lg.items page lg.seq.length).length = lg.items.length := by
        have hfound : lg.items.findIdx (fun it => it.page = page) < lg.items.length :=
          findIdx_lt_iff.mpr (mem_page_itemsOf.mpr hin)
        rw [insertItem_of_lt _ hfound, List.length_set]
      omega
    · rw [flat_append, flat_cons, List.length_append, List.length_append] at hlt
      omega

/-- Deleting reads one entry past the last block, so the block table must not be full. -/
theorem delete_rep (h : Rep c t (pre ++ lg :: post)) (hlt : (pre ++ lg :: post).length < c.maxBlocks) :
    ∃ t', t.delete c pre.length = .ok t' ∧ Rep c t' (pre ++ post) := by
  obtain ⟨t', ht', hs, hclear⟩ := delete_segs (c := c) h.segs_mid (h.blkcnt ▸ hlt) h.pgcnt_le
  rw [List.length_map] at ht'
  refine ⟨t', ht', rep_iff.mpr ⟨?_, hclear h.clear, ?_, ?_⟩⟩
  · rw [List.map_append]
    exact hs
  · rw [List.length_append, List.length_cons] at hlt
    rw [List.length_append]
    omega
  · have hpg := h.pg_mid
    rw [flat_append, List.length_append]
    omega

/-- In a full block table the last round reads behind the array. -/
theorem delete_full (h : Rep c t (pre ++ lg :: post)) (hfull : (pre ++ lg :: post).length = c.maxBlocks) :
    t.delete c pre.length = .error (.bounds c.blockArr c.maxBlocks) := by
  have hd := delete_overrun (c := c) h.segs_mid (h.blkcnt.trans hfull) h.pgcnt_le
  rwa [List.length_map] at hd

/-! ## The searches -/

theorem findBlock_rep (h : Rep c t (pre ++ post)) (p : LogBlock → Bool) :
    t.findBlock c p post.length pre.length = .ok (pre.length + post.findIdx (fun lg => p lg.block)) := by
  have hs := h.segs
  rw [List.map_append] at hs
  have hf := findBlock_segs hs h.blkcnt_le p
  rwa [List.length_map, List.length_map, List.findIdx_map] at hf

theorem update_rep (h : Rep c t (pre ++ lg :: post)) {p : LogBlock → Bool} (pba : Nat)
    (hpre : ∀ x ∈ pre, p x.block = false) (hp : p lg.block = true) :
    ∃ t', t.update c p pba = .ok (some lg.seq.length, t') ∧
      Rep c t' (pre ++ ⟨lg.key, pba, lg.seq⟩ :: post) := by
  have hpre' : ∀ x ∈ pre.map Log.seg, p x.block = false := by
    intro x hx
    obtain ⟨lg', hlg', rfl⟩ := List.mem_map.mp hx
    exact hpre lg' hlg'
  obtain ⟨t', ht', -, hs, hclear⟩ := update_segs (c := c) (p := p) h.segs_mid pba h.blkcnt_le hpre' hp
  have hflat : flat (pre ++ ⟨lg.key, pba, lg.seq⟩ :: post) = flat (pre ++ lg :: post) := by
    rw [flat_append, flat_append, flat_cons, flat_cons]
    rfl
  refine ⟨t', ht', rep_iff.mpr ⟨?_, hclear h.clear, ?_, ?_⟩⟩
  · rw [List.map_append, List.map_cons]
    exact hs
  · have hle := h.blk_le
    rwa [List.length_append, List.length_cons] at hle ⊢
  · rw [hflat]
    exact h.pg_le

/-- Where the page `page` of the log of `key` was last written. -/
def lookupIn (L : List Log) (key page : Nat) : Option (Nat × Nat) :=
  (L.find? (fun lg => lg.key = key)).bind fun lg => (lookup lg.seq page).map fun ppa => (lg.pba, ppa)

theorem segLookup_map_seg (L : List Log) (key page : Nat) : segLookup (L.map Log.seg) key page = lookupIn L key page := by
  unfold segLookup lookupIn lookup
  rw [List.find?_map]
  show ((L.find? fun lg => lg.key = key).map Log.seg).bind _ = _
  cases L.find? fun lg => lg.key = key with
  | none => rfl
  | some lg =>
    rw [Option.map_some, Option.bind_some, Option.bind_some, Option.map_map]
    rfl

theorem findPage_rep (h : Rep c t (pre ++ post)) (hnd : (post.map Log.key).Nodup) (key page : Nat) :
    t.findPage c key page post.length pre.length (flat pre).length = .ok (lookupIn post key page) := by
  have hs := h.segs
  rw [List.map_append] at hs
  have hkeys : ((post.map Log.seg).map fun sg => sg.block.key).Nodup := by
    rw [List.map_map]
    exact hnd
  have hf := findPage_segs hs h.blkcnt_le h.pgcnt_le hkeys key page
  rwa [List.length_map, List.length_map, segItems_map_seg, segLookup_map_seg] at hf

theorem factPpa_rep {items : List LogItem} {o page fact : Nat} (h : Agree t.transtab o items)
    (hle : o + items.length ≤ c.maxPages) (hnd : (items.map LogItem.page).Nodup) :
    t.factPpa c page items.length o fact
      = .ok (((items.find? (fun it => it.page = page)).map LogItem.ppa).getD fact) := by
  induction items generalizing o fact with
  | nil => rfl
  | cons it items ih =>
    rw [agree_cons] at h
    simp only [List.length_cons] at hle
    simp only [List.map_cons, List.nodup_cons, List.mem_map, not_exists, not_and] at hnd
    simp only [List.length_cons, LogTab.factPpa, bind, Except.bind,
      LogTab.itemAt_ok (show o < c.maxPages by omega), h.1]
    rw [ih h.2 (by omega) hnd.2, List.find?_cons]
    by_cases hp : it.page = page
    · have hnone : items.find? (fun it => it.page = page) = none := by
        rw [List.find?_eq_none]
        intro x hx
        simpa using fun e => hnd.1 x hx (by rw [e, hp])
      simp [hp, hnone]
    · simp [hp]

/-- `factppa` holds the last position of every page of the log at `pre.length`, `0xff` for the others. -/
theorem factPpas_rep (h : Rep c t (pre ++ lg :: post)) (start n : Nat) :
    t.factPpas c start pre.length n
      = .ok ((List.range n).map fun i => (lookup lg.seq (start + i)).getD 0xff) := by
  obtain ⟨-, hmid, -⟩ := h.items_mid
  have hpg := h.pg_mid
  induction n with
  | zero => rfl
  | succ n ih =>
    simp only [LogTab.factPpas, ih, bind, Except.bind, LogTab.blockAt_ok h.mid_lt, h.block_mid, offset_rep h]
    rw [show lg.block.valid = lg.items.length from rfl,
      factPpa_rep hmid (by omega) (itemsOf_nodup lg.seq), List.range_succ, List.map_append]
    rfl

end rep

end Emlinux.Nftl
