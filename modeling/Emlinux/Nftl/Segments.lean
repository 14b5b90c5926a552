import Emlinux.Nftl.LogTab

/-!
# Log tables as lists of segments

A block entry together with its stretch of the translation table is a `Seg`, whatever `used` and the items are, and nothing is said of
the entries behind the last one. `Segs t S` says that the flat tables `t` hold the segments `S`; `Clear` says that the entries
behind the last one are zero.

* `append_segs`, `insert_segs`, `delete_segs`, `update_segs`: each operation is one list operation, and keeps clear tables clear.
* `append_overrun`, `insert_overrun`, `delete_overrun`: and leaves its arrays when these are full.
* `findPage_segs`, `findBlock_segs`: the searches are list searches.
-/

namespace Emlinux.Nftl

/-! ## Items -/

/-- The item of `page` moves to `ppa`; a new page is added at the end. -/
def insertItem : List LogItem → Nat → Nat → List LogItem
  | [], page, ppa => [⟨ppa, page⟩]
  | it :: items, page, ppa =>
    if it.page = page then ⟨ppa, page⟩ :: items else it :: insertItem items page ppa

theorem insertItem_of_lt {items : List LogItem} {page : Nat} (ppa : Nat)
    (h : items.findIdx (fun it => it.page = page) < items.length) :
    insertItem items page ppa = items.set (items.findIdx (fun it => it.page = page)) ⟨ppa, page⟩ := by
  induction items with
  | nil => simp at h
  | cons it items ih =>
    rw [List.findIdx_cons] at h ⊢
    by_cases hp : it.page = page
    · simp [insertItem, hp]
    · simp only [hp, decide_false, cond_false, List.length_cons] at h ⊢
      rw [insertItem, if_neg hp, ih (by omega), List.set_cons_succ]

theorem insertItem_of_ge {items : List LogItem} {page : Nat} (ppa : Nat)
    (h : items.length ≤ items.findIdx (fun it => it.page = page)) :
    insertItem items page ppa = items ++ [⟨ppa, page⟩] := by
  induction items with
  | nil => rfl
  | cons it items ih =>
    rw [List.findIdx_cons] at h
    by_cases hp : it.page = page
    · simp [hp] at h
    · simp only [hp, decide_false, cond_false, List.length_cons] at h
      rw [insertItem, if_neg hp, ih (by omega), List.cons_append]

theorem find_insertItem (items : List LogItem) (page ppa p : Nat) :
    (insertItem items page ppa).find? (fun it => it.page = p)
      = if p = page then some ⟨ppa, page⟩ else items.find? (fun it => it.page = p) := by
  induction items with
  | nil => by_cases h : p = page <;> simp [insertItem, h, eq_comm]
  | cons it items ih =>
    simp only [insertItem]
    by_cases hit : it.page = page
    · by_cases h : p = page
      · simp [hit, h]
      · simp [hit, h, eq_comm]
    · rw [if_neg hit, List.find?_cons]
      by_cases h : it.page = p
      · have hne : p ≠ page := fun e => hit (h.trans e)
        simp [h, hne]
      · simp [h, ih]

theorem mem_page_insertItem (items : List LogItem) (page ppa p : Nat) :
    p ∈ (insertItem items page ppa).map LogItem.page ↔ p = page ∨ p ∈ items.map LogItem.page := by
  induction items with
  | nil => simp [insertItem]
  | cons it items ih =>
    simp only [insertItem]
    split_ifs with hit
    · subst hit; simp
    · simp only [List.map_cons, List.mem_cons, ih]
      tauto

theorem nodup_insertItem {items : List LogItem} (h : (items.map LogItem.page).Nodup) (page ppa : Nat) :
    ((insertItem items page ppa).map LogItem.page).Nodup := by
  induction items with
  | nil => simp [insertItem]
  | cons it items ih =>
    simp only [List.map_cons, List.nodup_cons] at h
    simp only [insertItem]
    split_ifs with hit
    · subst hit; simpa using h
    · simp only [List.map_cons, List.nodup_cons, mem_page_insertItem, not_or]
      exact ⟨⟨hit, h.1⟩, ih h.2⟩

theorem length_insertItem_le (items : List LogItem) (page ppa : Nat) :
    (insertItem items page ppa).length ≤ items.length + 1 := by
  induction items with
  | nil => simp [insertItem]
  | cons it items ih =>
    simp only [insertItem]
    split_ifs
    · simp
    · simp only [List.length_cons]; omega

theorem findIdx_lt_iff {items : List LogItem} {page : Nat} :
    items.findIdx (fun it => it.page = page) < items.length ↔ page ∈ items.map LogItem.page := by
  rw [List.findIdx_lt_length]
  simp

theorem findIdx_page (items : List LogItem) (page : Nat) :
    (∃ it, items[items.findIdx (fun it => it.page = page)]? = some it ∧
      items.find? (fun it => it.page = page) = some it) ∨
    (items.findIdx (fun it => it.page = page) = items.length ∧
      items.find? (fun it => it.page = page) = none) := by
  induction items with
  | nil => right; simp
  | cons it items ih =>
    rw [List.findIdx_cons, List.find?_cons]
    by_cases hp : it.page = page
    · left; exact ⟨it, by simp [hp], by simp [hp]⟩
    · simpa [hp] using ih

/-! ## Arrays that hold a list -/

/-- The array `f` holds the list `l` from index `o` on. -/
def Agree (f : Nat → LogItem) (o : Nat) (l : List LogItem) : Prop :=
  ∀ j it, l[j]? = some it → f (o + j) = it

theorem agree_append {f : Nat → LogItem} {o : Nat} {a b : List LogItem} :
    Agree f o (a ++ b) ↔ Agree f o a ∧ Agree f (o + a.length) b := by
  constructor
  · intro h
    refine ⟨fun j it hj => h j it ?_, fun j it hj => ?_⟩
    · have hlt : j < a.length := (List.getElem?_eq_some_iff.mp hj).1
      rwa [List.getElem?_append_left hlt]
    · rw [show o + a.length + j = o + (a.length + j) by omega]
      refine h _ it ?_
      rwa [List.getElem?_append_right (by omega), Nat.add_sub_cancel_left]
  · rintro ⟨ha, hb⟩ j it hj
    by_cases hlt : j < a.length
    · rw [List.getElem?_append_left hlt] at hj
      exact ha j it hj
    · rw [List.getElem?_append_right (by omega)] at hj
      have := hb _ it hj
      rwa [show o + a.length + (j - a.length) = o + j by omega] at this

theorem Agree.congr {f g : Nat → LogItem} {o : Nat} {l : List LogItem} (h : Agree f o l)
    (hfg : ∀ i, o ≤ i → i < o + l.length → g i = f i) : Agree g o l := by
  intro j it hj
  have hlt : j < l.length := (List.getElem?_eq_some_iff.mp hj).1
  rw [hfg _ (by omega) (by omega)]
  exact h j it hj

theorem Agree.shift {f g : Nat → LogItem} {o o' : Nat} {l : List LogItem} (h : Agree f o l)
    (hfg : ∀ j, j < l.length → g (o' + j) = f (o + j)) : Agree g o' l := by
  intro j it hj
  have hlt : j < l.length := (List.getElem?_eq_some_iff.mp hj).1
  rw [hfg j hlt]
  exact h j it hj

@[simp] theorem agree_nil (f : Nat → LogItem) (o : Nat) : Agree f o [] := by
  intro j it hj; simp at hj

theorem agree_singleton {f : Nat → LogItem} {o : Nat} {it : LogItem} : Agree f o [it] ↔ f o = it := by
  constructor
  · intro h; exact h 0 it rfl
  · rintro rfl j it hj
    cases j with
    | zero => simpa using hj
    | succ j => simp at hj

theorem agree_cons {f : Nat → LogItem} {o : Nat} {it : LogItem} {l : List LogItem} :
    Agree f o (it :: l) ↔ f o = it ∧ Agree f (o + 1) l := by
  rw [show it :: l = [it] ++ l from rfl, agree_append, agree_singleton]
  simp

theorem Agree.set {f : Nat → LogItem} {o k : Nat} {it : LogItem} {l : List LogItem} (h : Agree f o l) (hk : k < l.length) :
    Agree (Function.update f (o + k) it) o (l.set k it) := by
  intro j it' hj
  by_cases hjk : j = k
  · subst hjk
    rw [List.getElem?_set_self hk] at hj
    obtain rfl := Option.some.inj hj
    exact Function.update_self _ _ _
  · rw [List.getElem?_set_ne fun e => hjk e.symm] at hj
    rw [Function.update_of_ne (by omega)]
    exact h j it' hj

/-! ## Accesses and moves -/

namespace LogTab

variable {c : LogCap} {t : LogTab}

theorem blockAt_ok {i : Nat} (h : i < c.maxBlocks) : t.blockAt c i = .ok (t.blocktab i) := by
  simp [blockAt, h]

theorem itemAt_ok {i : Nat} (h : i < c.maxPages) : t.itemAt c i = .ok (t.transtab i) := by
  simp [itemAt, h]

theorem setBlock_ok {i : Nat} (b : LogBlock) (h : i < c.maxBlocks) :
    t.setBlock c i b = .ok { t with blocktab := Function.update t.blocktab i b } := by
  simp [setBlock, h]

theorem setItem_ok {i : Nat} (it : LogItem) (h : i < c.maxPages) :
    t.setItem c i it = .ok { t with transtab := Function.update t.transtab i it } := by
  simp [setItem, h]

end LogTab

section moves

variable {c : LogCap} {t : LogTab}

theorem findItem_rep {items : List LogItem} {o : Nat} (page : Nat) (h : Agree t.transtab o items)
    (hle : o + items.length ≤ c.maxPages) :
    t.findItem c page items.length o = .ok (o + items.findIdx (fun it => it.page = page)) := by
  induction items generalizing o with
  | nil => simp [LogTab.findItem]
  | cons it items ih =>
    rw [agree_cons] at h
    simp only [List.length_cons] at hle
    simp only [List.length_cons, LogTab.findItem, bind, Except.bind,
      LogTab.itemAt_ok (show o < c.maxPages by omega), h.1, List.findIdx_cons]
    by_cases hp : it.page = page
    · simp [hp, pure, Except.pure]
    · simp only [hp, if_false, decide_false, cond_false]
      rw [ih h.2 (by omega)]
      congr 1; omega

theorem moveDown_ok (stop k : Nat) (t : LogTab) (h : k = 0 ∨ stop + k < c.maxPages) :
    LogTab.moveDown c stop k t = .ok { t with
      transtab := fun i => if stop < i ∧ i ≤ stop + k then t.transtab (i - 1) else t.transtab i } := by
  induction k generalizing t with
  | zero =>
    rw [LogTab.moveDown]
    cases t
    congr 2
    funext i
    rw [if_neg (by omega)]
  | succ k ih =>
    have hlt : stop + (k + 1) < c.maxPages := by omega
    rw [LogTab.moveDown, LogTab.itemAt_ok (by omega)]
    simp only [bind, Except.bind]
    rw [LogTab.setItem_ok _ (by omega)]
    simp only
    rw [ih _ (by omega)]
    congr 2
    funext i
    dsimp only
    by_cases h1 : i = stop + k + 1
    · subst h1
      rw [if_neg (by omega), if_pos (by omega), Function.update_self, Nat.add_sub_cancel]
    · by_cases h2 : stop < i ∧ i ≤ stop + k
      · rw [if_pos h2, if_pos (by omega), Function.update_of_ne (by omega)]
      · rw [if_neg h2, if_neg (by omega), Function.update_of_ne h1]

/-- One value moved down, and the next `n` after it. -/
theorem shift_succ {α : Type} (f : Nat → α) (i n v : Nat) :
    (fun j => if i + 1 ≤ j ∧ j < i + 1 + n then Function.update f i (f (i + v)) (j + v) else Function.update f i (f (i + v)) j) =
      fun j => if i ≤ j ∧ j < i + (n + 1) then f (j + v) else f j := by
  funext j
  by_cases h1 : j = i
  · subst h1
    rw [if_neg (by omega), if_pos (by omega), Function.update_self]
  · by_cases h2 : i + 1 ≤ j ∧ j < i + 1 + n
    · rw [if_pos h2, if_pos (by omega), Function.update_of_ne (by omega)]
    · rw [if_neg h2, if_neg (by omega), Function.update_of_ne h1]

theorem moveUp_ok (v n i : Nat) (t : LogTab) (h : n = 0 ∨ i + n + v ≤ c.maxPages) :
    LogTab.moveUp c v n i t = .ok { t with
      transtab := fun j => if i ≤ j ∧ j < i + n then t.transtab (j + v) else t.transtab j } := by
  induction n generalizing i t with
  | zero =>
    rw [LogTab.moveUp]
    cases t
    congr 2
    funext j
    rw [if_neg (by omega)]
  | succ n ih =>
    have hle : i + (n + 1) + v ≤ c.maxPages := by omega
    rw [LogTab.moveUp, LogTab.itemAt_ok (by omega)]
    simp only [bind, Except.bind]
    rw [LogTab.setItem_ok _ (by omega)]
    simp only
    rw [ih _ _ (by omega)]
    congr 2
    exact shift_succ t.transtab i n v

theorem moveUpBlocks_ok (n i : Nat) (t : LogTab) (h : n = 0 ∨ i + n < c.maxBlocks) :
    LogTab.moveUpBlocks c n i t = .ok { t with
      blocktab := fun j => if i ≤ j ∧ j < i + n then t.blocktab (j + 1) else t.blocktab j } := by
  induction n generalizing i t with
  | zero =>
    rw [LogTab.moveUpBlocks]
    cases t
    congr 2
    funext j
    rw [if_neg (by omega)]
  | succ n ih =>
    have hlt : i + (n + 1) < c.maxBlocks := by omega
    rw [LogTab.moveUpBlocks, LogTab.blockAt_ok (by omega)]
    simp only [bind, Except.bind]
    rw [LogTab.setBlock_ok _ (by omega)]
    simp only
    rw [ih _ _ (by omega)]
    congr 2
    exact shift_succ t.blocktab i n 1

theorem moveUpBlocks_full (n i : Nat) (t : LogTab) (h : i + (n + 1) = c.maxBlocks) :
    LogTab.moveUpBlocks c (n + 1) i t = .error (.bounds c.blockArr c.maxBlocks) := by
  induction n generalizing i t with
  | zero =>
    rw [LogTab.moveUpBlocks, LogTab.blockAt, if_neg (by omega), ← h]
    rfl
  | succ n ih =>
    rw [LogTab.moveUpBlocks, LogTab.blockAt_ok (by omega)]
    simp only [bind, Except.bind]
    rw [LogTab.setBlock_ok _ (by omega)]
    exact ih _ _ (by omega)

end moves

/-! ## Segments -/

/-- A block entry, and its items. -/
structure Seg where
  block : LogBlock
  items : List LogItem
deriving DecidableEq, Repr

/-- The items of all segments, one segment after the other. -/
def segItems (S : List Seg) : List LogItem := S.flatMap Seg.items

@[simp] theorem segItems_nil : segItems [] = [] := rfl

@[simp] theorem segItems_cons (sg : Seg) (S : List Seg) : segItems (sg :: S) = sg.items ++ segItems S := rfl

@[simp] theorem segItems_append (S S' : List Seg) : segItems (S ++ S') = segItems S ++ segItems S' := by
  simp [segItems]

/-- The tables `t` hold the segments `S`. -/
structure Segs (t : LogTab) (S : List Seg) : Prop where
  blkcnt : t.blkcnt = S.length
  pgcnt : t.pgcnt = (segItems S).length
  blocks : ∀ i sg, S[i]? = some sg → t.blocktab i = sg.block
  valid : ∀ sg ∈ S, sg.block.valid = sg.items.length
  items : Agree t.transtab 0 (segItems S)

/-- The entries behind the last block are zero. -/
def LogTab.Clear (t : LogTab) : Prop := ∀ i, t.blkcnt ≤ i → t.blocktab i = ⟨0, 0, 0, 0⟩

/-- The `n` segments from block `i` on, whose items start at `ofs`. -/
def LogTab.segsFrom (t : LogTab) : Nat → Nat → Nat → List Seg
  | 0, _, _ => []
  | n + 1, i, ofs =>
    ⟨t.blocktab i, (List.range (t.blocktab i).valid).map fun j => t.transtab (ofs + j)⟩ ::
      t.segsFrom n (i + 1) (ofs + (t.blocktab i).valid)

/-- The segments of the tables. -/
def LogTab.segs (t : LogTab) : List Seg := t.segsFrom t.blkcnt 0 0

/-! ## The segments of a table -/

section segs

variable {t : LogTab}

theorem length_segsFrom (n i ofs : Nat) : (t.segsFrom n i ofs).length = n := by
  induction n generalizing i ofs with
  | zero => rfl
  | succ n ih => simp [LogTab.segsFrom, ih]

theorem agree_range (f : Nat → LogItem) (o n : Nat) : Agree f o ((List.range n).map fun j => f (o + j)) := by
  intro j it hj
  rw [List.getElem?_map] at hj
  obtain ⟨x, hx, rfl⟩ := Option.map_eq_some_iff.mp hj
  have : x = j := by
    have hlt := (List.getElem?_eq_some_iff.mp hx).1
    rw [List.getElem?_range (by simpa using hlt)] at hx
    exact (Option.some.inj hx).symm
  rw [this]

theorem agree_segsFrom (n i ofs : Nat) : Agree t.transtab ofs (segItems (t.segsFrom n i ofs)) := by
  induction n generalizing i ofs with
  | zero => exact agree_nil _ _
  | succ n ih =>
    rw [LogTab.segsFrom, segItems_cons, agree_append]
    refine ⟨agree_range _ _ _, ?_⟩
    simpa using ih (i + 1) (ofs + (t.blocktab i).valid)

theorem block_segsFrom (n i ofs k : Nat) (sg : Seg) (h : (t.segsFrom n i ofs)[k]? = some sg) :
    t.blocktab (i + k) = sg.block := by
  induction n generalizing i ofs k with
  | zero => simp [LogTab.segsFrom] at h
  | succ n ih =>
    cases k with
    | zero =>
      obtain rfl := Option.some.inj h
      rfl
    | succ k =>
      rw [show i + (k + 1) = i + 1 + k by omega]
      exact ih (i + 1) _ k h

theorem valid_segsFrom (n i ofs : Nat) : ∀ sg ∈ t.segsFrom n i ofs, sg.block.valid = sg.items.length := by
  induction n generalizing i ofs with
  | zero => simp [LogTab.segsFrom]
  | succ n ih =>
    intro sg hsg
    rcases List.mem_cons.mp hsg with rfl | hsg
    · simp
    · exact ih _ _ sg hsg

/-- Tables whose valid counts add up to `pgcnt` hold their segments. -/
theorem segs_segs (h : t.pgcnt = (segItems t.segs).length) : Segs t t.segs := by
  refine ⟨(length_segsFrom _ _ _).symm, h, fun i sg hi => ?_, valid_segsFrom _ _ _, agree_segsFrom _ _ _⟩
  have := block_segsFrom _ _ _ i sg hi
  rwa [Nat.zero_add] at this

theorem items_of_agree {f : Nat → LogItem} {o : Nat} {l : List LogItem} (h : Agree f o l) :
    (List.range l.length).map (fun j => f (o + j)) = l := by
  apply List.ext_getElem?
  intro j
  by_cases hj : j < l.length
  · rw [List.getElem?_map, List.getElem?_range hj, List.getElem?_eq_getElem hj]
    exact congrArg some (h j _ (List.getElem?_eq_getElem hj))
  · rw [List.getElem?_eq_none (by simpa using hj), List.getElem?_eq_none (by omega)]

theorem segsFrom_eq {S : List Seg} (i ofs : Nat) (hblocks : ∀ k sg, S[k]? = some sg → t.blocktab (i + k) = sg.block)
    (hvalid : ∀ sg ∈ S, sg.block.valid = sg.items.length) (hitems : Agree t.transtab ofs (segItems S)) :
    t.segsFrom S.length i ofs = S := by
  induction S generalizing i ofs with
  | nil => rfl
  | cons sg S ih =>
    have hb : t.blocktab i = sg.block := hblocks 0 sg rfl
    have hv := hvalid sg (by simp)
    rw [segItems_cons, agree_append] at hitems
    rw [List.length_cons, LogTab.segsFrom, hb, hv, items_of_agree hitems.1]
    rw [ih (i + 1) _ (fun k x hk => ?_) (fun x hx => hvalid x (by simp [hx])) hitems.2]
    rw [show i + 1 + k = i + (k + 1) by omega]
    exact hblocks (k + 1) x hk

/-- The tables determine what they hold. -/
theorem Segs.segs_eq {S : List Seg} (h : Segs t S) : t.segs = S := by
  rw [LogTab.segs, h.blkcnt]
  exact segsFrom_eq 0 0 (fun k sg hk => by rw [Nat.zero_add]; exact h.blocks k sg hk) h.valid h.items

end segs

/-! ## The operations -/

section ops

variable {c : LogCap} {t : LogTab} {S pre post : List Seg} {sg : Seg}

theorem Segs.block_mid (h : Segs t (pre ++ sg :: post)) : t.blocktab pre.length = sg.block :=
  h.blocks _ _ (by simp)

theorem Segs.valid_mid (h : Segs t (pre ++ sg :: post)) : sg.block.valid = sg.items.length :=
  h.valid sg (by simp)

theorem Segs.items_mid (h : Segs t (pre ++ sg :: post)) :
    Agree t.transtab 0 (segItems pre) ∧ Agree t.transtab (segItems pre).length sg.items ∧
      Agree t.transtab ((segItems pre).length + sg.items.length) (segItems post) := by
  have := h.items
  rw [segItems_append, segItems_cons, agree_append, agree_append] at this
  simpa using this

theorem Segs.pgcnt_mid (h : Segs t (pre ++ sg :: post)) :
    t.pgcnt = (segItems pre).length + sg.items.length + (segItems post).length := by
  have := h.pgcnt
  simp only [segItems_append, segItems_cons, List.length_append] at this
  omega

theorem Segs.blkcnt_mid (h : Segs t (pre ++ sg :: post)) : t.blkcnt = pre.length + 1 + post.length := by
  have := h.blkcnt
  simp only [List.length_append, List.length_cons] at this
  omega

/-- A write to the entry of a block keeps clear tables clear. -/
theorem LogTab.Clear.update (h : t.Clear) {i : Nat} (hi : i < t.blkcnt) (b : LogBlock) :
    ∀ j, t.blkcnt ≤ j → Function.update t.blocktab i b j = ⟨0, 0, 0, 0⟩ := by
  intro j hj
  rw [Function.update_of_ne (by omega)]
  exact h j hj

/-- One entry of the block table changes. -/
theorem Segs.blocks_set (h : Segs t (pre ++ sg :: post)) (sg' : Seg) (i : Nat) (x : Seg)
    (hi : (pre ++ sg' :: post)[i]? = some x) : Function.update t.blocktab pre.length sg'.block i = x.block := by
  rcases Nat.lt_trichotomy i pre.length with hlt | heq | hgt
  · rw [List.getElem?_append_left hlt] at hi
    rw [Function.update_of_ne (by omega)]
    apply h.blocks
    rw [List.getElem?_append_left hlt]
    exact hi
  · subst heq
    rw [Function.update_self]
    have : some sg' = some x := by simpa using hi
    rw [Option.some.inj this]
  · obtain ⟨m, rfl⟩ : ∃ m, i = pre.length + (m + 1) := ⟨i - pre.length - 1, by omega⟩
    rw [List.getElem?_append_right (by omega), Nat.add_sub_cancel_left, List.getElem?_cons_succ] at hi
    rw [Function.update_of_ne (by omega)]
    apply h.blocks
    rw [List.getElem?_append_right (by omega), Nat.add_sub_cancel_left, List.getElem?_cons_succ]
    exact hi

/-- The offset loop sums the valid counts of the blocks before `index`. -/
theorem offset_segs (h : Segs t (pre ++ post)) (hc : t.blkcnt ≤ c.maxBlocks) :
    t.offset c pre.length = .ok (segItems pre).length := by
  induction pre using List.reverseRecOn generalizing post with
  | nil => rfl
  | append_singleton pre sg ih =>
    rw [List.append_assoc, List.singleton_append] at h
    have hblk := h.blkcnt_mid
    rw [List.length_append, List.length_singleton, LogTab.offset, ih h]
    simp only [bind, Except.bind, LogTab.blockAt_ok (show pre.length < c.maxBlocks by omega), h.block_mid, pure,
      Except.pure, h.valid_mid]
    simp

theorem append_segs (h : Segs t S) (key page pba : Nat) (hb : t.blkcnt < c.maxBlocks) (hp : t.pgcnt < c.maxPages) :
    ∃ t', t.append c key page pba = .ok t' ∧ Segs t' (S ++ [⟨⟨key, pba, 1, 1⟩, [⟨0, page⟩]⟩]) ∧ (t.Clear → t'.Clear) := by
  rw [LogTab.append, LogTab.setBlock_ok _ hb]
  simp only [bind, Except.bind]
  rw [LogTab.setItem_ok _ hp]
  refine ⟨_, rfl, ⟨by simp [h.blkcnt], by simp [h.pgcnt], fun i sg hi => ?_, fun sg hsg => ?_, ?_⟩, fun hclear i hi => ?_⟩
  · simp only [h.blkcnt]
    by_cases hlt : i < S.length
    · rw [List.getElem?_append_left hlt] at hi
      rw [Function.update_of_ne (by omega)]
      exact h.blocks i sg hi
    · have hle := (List.getElem?_eq_some_iff.mp hi).1
      simp only [List.length_append, List.length_singleton] at hle
      obtain rfl : i = S.length := by omega
      rw [Function.update_self]
      have := Option.some.inj (by simpa using hi)
      rw [← this]
  · rcases List.mem_append.mp hsg with hsg | hsg
    · exact h.valid sg hsg
    · obtain rfl := List.mem_singleton.mp hsg
      rfl
  · rw [segItems_append, agree_append]
    simp only [segItems_cons, segItems_nil, List.append_nil, agree_singleton, h.pgcnt]
    refine ⟨h.items.congr fun i _ hi => ?_, by simp⟩
    rw [Function.update_of_ne (by omega)]
  · dsimp only at hi ⊢
    rw [Function.update_of_ne (by omega)]
    exact hclear i (by omega)

/-- A full table is overrun by a new entry. -/
theorem append_overrun (key page pba : Nat) (hfull : ¬ (t.blkcnt < c.maxBlocks ∧ t.pgcnt < c.maxPages)) :
    ∃ e, t.append c key page pba = .error e := by
  by_cases hb : t.blkcnt < c.maxBlocks
  · refine ⟨.bounds c.transArr t.pgcnt, ?_⟩
    rw [LogTab.append, LogTab.setBlock_ok _ hb]
    simp only [bind, Except.bind]
    rw [LogTab.setItem, if_neg (fun hp => hfull ⟨hb, hp⟩)]
  · refine ⟨.bounds c.blockArr t.blkcnt, ?_⟩
    rw [LogTab.append, LogTab.setBlock, if_neg hb]
    rfl

/-- The segment after `page` was written to its next physical page. -/
def Seg.insert (sg : Seg) (page : Nat) : Seg where
  block := { sg.block with
    used := sg.block.used + 1
    valid := (insertItem sg.items page sg.block.used).length }
  items := insertItem sg.items page sg.block.used

theorem insert_segs (h : Segs t (pre ++ sg :: post)) (page : Nat) (hc : t.blkcnt ≤ c.maxBlocks)
    (hm : t.pgcnt ≤ c.maxPages) (hp : page ∈ sg.items.map LogItem.page ∨ t.pgcnt < c.maxPages) :
    ∃ t', t.insert c pre.length page = .ok t' ∧ Segs t' (pre ++ sg.insert page :: post) ∧ (t.Clear → t'.Clear) := by
  obtain ⟨hpre, hmid, hpost⟩ := h.items_mid
  have hcnt := h.pgcnt_mid
  have hblk := h.blkcnt_mid
  have hval := h.valid_mid
  have hlt : pre.length < c.maxBlocks := by omega
  have hentry : pre.length < t.blkcnt := by omega
  have hfind := findItem_rep (c := c) page hmid (by omega)
  rw [LogTab.insert, offset_segs h hc]
  simp only [bind, Except.bind, LogTab.blockAt_ok hlt, h.block_mid]
  rw [hval, hfind]
  simp only
  set k := sg.items.findIdx (fun it => it.page = page) with hk
  have hvalid : ∀ x ∈ pre ++ sg.insert page :: post, x.block.valid = x.items.length := by
    intro x hx
    rcases List.mem_append.mp hx with hx | hx
    · exact h.valid x (by simp [hx])
    · rcases List.mem_cons.mp hx with rfl | hx
      · rfl
      · exact h.valid x (by simp [hx])
  by_cases hin : k < sg.items.length
  · -- the page is in the segment already, and its item is overwritten
    have hset := insertItem_of_lt sg.block.used hin
    rw [← hk] at hset
    have hlen : (insertItem sg.items page sg.block.used).length = sg.items.length := by
      rw [hset, List.length_set]
    have hblock : ({ sg.block with used := sg.block.used + 1, valid := sg.items.length } : LogBlock)
        = (sg.insert page).block := by
      rw [Seg.insert, hlen]
    rw [if_pos (by omega), LogTab.setItem_ok _ (by omega)]
    simp only
    rw [LogTab.setBlock_ok _ hlt, hblock]
    refine ⟨_, rfl, ⟨by simpa using h.blkcnt, ?_, fun i x hi => h.blocks_set _ i x hi, hvalid, ?_⟩, fun hclear => hclear.update hentry _⟩
    · simp only [segItems_append, segItems_cons, List.length_append, Seg.insert, hlen]
      omega
    · dsimp only
      rw [segItems_append, segItems_cons, agree_append, agree_append, Nat.zero_add]
      simp only [Seg.insert, hlen]
      refine ⟨hpre.congr fun i _ hi => ?_, ?_, hpost.congr fun i hi _ => ?_⟩
      · rw [Function.update_of_ne (by omega)]
      · rw [hset]
        exact hmid.set hin
      · rw [Function.update_of_ne (by omega)]
  · -- a new page: the items behind the segment move down
    have hge := insertItem_of_ge sg.block.used (show sg.items.length ≤ k by omega)
    have hklen : k = sg.items.length := by
      have : k ≤ sg.items.length := List.findIdx_le_length
      omega
    have hroom := hp.resolve_left (fun hm => hin (findIdx_lt_iff.mpr hm))
    have hblock : ({ sg.block with used := sg.block.used + 1, valid := sg.items.length + 1 } : LogBlock)
        = (sg.insert page).block := by
      simp [Seg.insert, hge]
    rw [if_neg (by omega), moveDown_ok _ _ _ (by omega)]
    simp only
    rw [LogTab.setItem_ok _ (by omega)]
    simp only
    rw [LogTab.setBlock_ok _ hlt, hblock]
    dsimp only
    refine ⟨_, rfl, ⟨by simpa using h.blkcnt, ?_, fun i x hi => h.blocks_set _ i x hi, hvalid, ?_⟩, fun hclear => hclear.update hentry _⟩
    · simp only [segItems_append, segItems_cons, List.length_append, Seg.insert, hge, List.length_singleton]
      omega
    · dsimp only
      rw [segItems_append, segItems_cons, agree_append, agree_append, Nat.zero_add]
      simp only [Seg.insert, hge, agree_append]
      refine ⟨hpre.congr fun i _ hi => ?_, ⟨hmid.congr fun i _ hi => ?_, ?_⟩, ?_⟩
      · rw [Function.update_of_ne (by omega), if_neg (by omega)]
      · rw [Function.update_of_ne (by omega), if_neg (by omega)]
      · rw [agree_singleton, Function.update_self]
      · refine hpost.shift fun j hj => ?_
        simp only [List.length_append, List.length_singleton]
        rw [Function.update_of_ne (by omega), if_pos (by omega)]
        congr 1
        omega

/-- A full translation table is overrun by a new page. -/
theorem insert_overrun (h : Segs t (pre ++ sg :: post)) (page : Nat) (hc : t.blkcnt ≤ c.maxBlocks)
    (hm : t.pgcnt = c.maxPages) (hnew : page ∉ sg.items.map LogItem.page) : ∃ e, t.insert c pre.length page = .error e := by
  obtain ⟨-, hmid, -⟩ := h.items_mid
  have hcnt := h.pgcnt_mid
  have hblk := h.blkcnt_mid
  have hval := h.valid_mid
  have hfind := findItem_rep (c := c) page hmid (by omega)
  have hk : ¬ sg.items.findIdx (fun it => it.page = page) < sg.items.length := fun hk => hnew (findIdx_lt_iff.mp hk)
  have hklen : sg.items.findIdx (fun it => it.page = page) = sg.items.length := by
    have : sg.items.findIdx (fun it => it.page = page) ≤ sg.items.length := List.findIdx_le_length
    omega
  rw [LogTab.insert, offset_segs h hc]
  simp only [bind, Except.bind, LogTab.blockAt_ok (show pre.length < c.maxBlocks by omega), h.block_mid]
  rw [hval, hfind, hklen]
  simp only [ne_eq, not_true, if_false]
  obtain ⟨n, hn⟩ : ∃ n, t.pgcnt - ((segItems pre).length + sg.items.length) = n := ⟨_, rfl⟩
  rw [hn]
  cases n with
  | zero =>
    refine ⟨.bounds c.transArr ((segItems pre).length + sg.items.length), ?_⟩
    simp only [LogTab.moveDown]
    rw [LogTab.setItem, if_neg (by omega)]
  | succ n =>
    refine ⟨.bounds c.transArr ((segItems pre).length + sg.items.length + n + 1), ?_⟩
    rw [LogTab.moveDown, LogTab.itemAt_ok (by omega)]
    simp only [bind, Except.bind]
    rw [LogTab.setItem, if_neg (by omega)]

/-- Deleting reads one entry past the last block, so the block table must not be full. -/
theorem delete_segs (h : Segs t (pre ++ sg :: post)) (hlt : t.blkcnt < c.maxBlocks) (hm : t.pgcnt ≤ c.maxPages) :
    ∃ t', t.delete c pre.length = .ok t' ∧ Segs t' (pre ++ post) ∧ (t.Clear → t'.Clear) := by
  obtain ⟨hpre, hmid, hpost⟩ := h.items_mid
  have hcnt := h.pgcnt_mid
  have hblk := h.blkcnt_mid
  have hval := h.valid_mid
  rw [LogTab.delete, offset_segs h (le_of_lt hlt)]
  simp only [bind, Except.bind, LogTab.blockAt_ok (show pre.length < c.maxBlocks by omega), h.block_mid]
  rw [hval, moveUp_ok _ _ _ _ (by omega)]
  simp only
  rw [moveUpBlocks_ok _ _ _ (by omega)]
  dsimp only
  refine ⟨_, rfl, ⟨by simp; omega, by simp; omega, fun i x hi => ?_, fun x hx => h.valid x ?_, ?_⟩, fun hclear i hi => ?_⟩
  · dsimp only
    by_cases hi' : i < pre.length
    · rw [List.getElem?_append_left hi'] at hi
      rw [if_neg (by omega)]
      apply h.blocks
      rw [List.getElem?_append_left hi']
      exact hi
    · have hle := (List.getElem?_eq_some_iff.mp hi).1
      rw [List.length_append] at hle
      rw [List.getElem?_append_right (by omega)] at hi
      rw [if_pos (by omega)]
      apply h.blocks
      rw [List.getElem?_append_right (by omega), show i + 1 - pre.length = i - pre.length + 1 by omega,
        List.getElem?_cons_succ]
      exact hi
  · rcases List.mem_append.mp hx with hx | hx <;> simp [hx]
  · dsimp only
    rw [segItems_append, agree_append, Nat.zero_add]
    refine ⟨hpre.congr fun i _ hi => ?_, hpost.shift fun j hj => ?_⟩
    · rw [if_neg (by omega)]
    · rw [if_pos (by omega)]
      congr 1
      omega
  · dsimp only at hi ⊢
    split_ifs
    · exact hclear (i + 1) (by omega)
    · exact hclear i (by omega)

/-- In a full block table the last round reads behind the array. -/
theorem delete_overrun (h : Segs t (pre ++ sg :: post)) (hfull : t.blkcnt = c.maxBlocks) (hm : t.pgcnt ≤ c.maxPages) :
    t.delete c pre.length = .error (.bounds c.blockArr c.maxBlocks) := by
  have hcnt := h.pgcnt_mid
  have hblk := h.blkcnt_mid
  have hval := h.valid_mid
  rw [LogTab.delete, offset_segs h (le_of_eq hfull)]
  simp only [bind, Except.bind, LogTab.blockAt_ok (show pre.length < c.maxBlocks by omega), h.block_mid]
  rw [hval, moveUp_ok _ _ _ _ (by omega)]
  simp only
  rw [show t.blkcnt - pre.length = post.length + 1 by omega, moveUpBlocks_full _ _ _ (by omega)]

theorem findBlock_segs (h : Segs t (pre ++ post)) (hc : t.blkcnt ≤ c.maxBlocks) (p : LogBlock → Bool) :
    t.findBlock c p post.length pre.length = .ok (pre.length + post.findIdx (fun sg => p sg.block)) := by
  induction post generalizing pre with
  | nil => simp [LogTab.findBlock]
  | cons sg post ih =>
    have hblk := h.blkcnt_mid
    simp only [List.length_cons, LogTab.findBlock, bind, Except.bind,
      LogTab.blockAt_ok (show pre.length < c.maxBlocks by omega), h.block_mid, List.findIdx_cons]
    cases hp : p sg.block with
    | true => simp [pure, Except.pure]
    | false =>
      have h' : Segs t ((pre ++ [sg]) ++ post) := by simpa using h
      have := ih h'
      simp only [List.length_append, List.length_singleton] at this
      simp only [Bool.false_eq_true, if_false, this, cond_false]
      congr 1
      omega

theorem update_segs (h : Segs t (pre ++ sg :: post)) {p : LogBlock → Bool} (pba : Nat) (hc : t.blkcnt ≤ c.maxBlocks)
    (hpre : ∀ x ∈ pre, p x.block = false) (hp : p sg.block = true) :
    ∃ t', t.update c p pba = .ok (some sg.block.used, t') ∧ t'.pgcnt = t.pgcnt ∧
      Segs t' (pre ++ ⟨{ sg.block with pba := pba }, sg.items⟩ :: post) ∧ (t.Clear → t'.Clear) := by
  have hblk := h.blkcnt_mid
  have hlt : pre.length < c.maxBlocks := by omega
  have hentry : pre.length < t.blkcnt := by omega
  have hidx : (pre ++ sg :: post).findIdx (fun sg => p sg.block) = pre.length := by
    rw [List.findIdx_append, if_neg, List.findIdx_cons]
    · simp [hp]
    · rw [List.findIdx_lt_length]
      rintro ⟨x, hx, hpx⟩
      simp [hpre x hx] at hpx
  have hfind : t.findBlock c p (pre ++ sg :: post).length 0 = .ok pre.length := by
    have := findBlock_segs (show Segs t ([] ++ (pre ++ sg :: post)) from h) hc p
    simpa [hidx] using this
  rw [LogTab.update, h.blkcnt, hfind]
  simp only [bind, Except.bind, List.length_append, List.length_cons]
  rw [if_pos (by omega), LogTab.blockAt_ok hlt]
  simp only
  rw [LogTab.setBlock_ok _ hlt, h.block_mid]
  refine ⟨_, rfl, rfl, ⟨by simpa using h.blkcnt, by simpa using h.pgcnt,
    fun i x hi => h.blocks_set ⟨{ sg.block with pba := pba }, sg.items⟩ i x hi, fun x hx => ?_, ?_⟩,
    fun hclear => hclear.update hentry _⟩
  · rcases List.mem_append.mp hx with hx | hx
    · exact h.valid x (by simp [hx])
    · rcases List.mem_cons.mp hx with rfl | hx
      · exact h.valid_mid
      · exact h.valid x (by simp [hx])
  · simpa using h.items

/-! ## The searches -/

theorem findPage_segs_other (h : Segs t (pre ++ post)) (hc : t.blkcnt ≤ c.maxBlocks) (key page ofs : Nat)
    (hk : ∀ sg ∈ post, sg.block.key ≠ key) : t.findPage c key page post.length pre.length ofs = .ok none := by
  induction post generalizing pre ofs with
  | nil => rfl
  | cons sg post ih =>
    have hblk := h.blkcnt_mid
    have h' : Segs t ((pre ++ [sg]) ++ post) := by simpa using h
    have := ih h' (ofs + sg.block.valid) (fun x hx => hk x (by simp [hx]))
    simp only [List.length_append, List.length_singleton] at this
    simp only [List.length_cons, LogTab.findPage, bind, Except.bind,
      LogTab.blockAt_ok (show pre.length < c.maxBlocks by omega), h.block_mid]
    rw [if_neg (hk sg (by simp)), this]

/-- Where `page` of the block of `key` is. -/
def segLookup (S : List Seg) (key page : Nat) : Option (Nat × Nat) :=
  (S.find? (fun sg => sg.block.key = key)).bind fun sg =>
    (sg.items.find? (fun it => it.page = page)).map fun it => (sg.block.pba, it.ppa)

theorem findPage_segs (h : Segs t (pre ++ post)) (hc : t.blkcnt ≤ c.maxBlocks) (hm : t.pgcnt ≤ c.maxPages)
    (hnd : (post.map fun sg => sg.block.key).Nodup) (key page : Nat) :
    t.findPage c key page post.length pre.length (segItems pre).length = .ok (segLookup post key page) := by
  induction post generalizing pre with
  | nil => rfl
  | cons sg post ih =>
    simp only [List.map_cons, List.nodup_cons, List.mem_map, not_exists, not_and] at hnd
    have h' : Segs t ((pre ++ [sg]) ++ post) := by simpa using h
    obtain ⟨-, hmid, -⟩ := h.items_mid
    have hcnt := h.pgcnt_mid
    have hblk := h.blkcnt_mid
    have hval := h.valid_mid
    simp only [List.length_cons, LogTab.findPage, bind, Except.bind,
      LogTab.blockAt_ok (show pre.length < c.maxBlocks by omega), h.block_mid]
    by_cases hk : sg.block.key = key
    · have hother := findPage_segs_other h' hc key page (segItems pre).length (fun x hx e => hnd.1 x hx (by omega))
      simp only [List.length_append, List.length_singleton] at hother
      rw [if_pos hk, hval, findItem_rep page hmid (by omega)]
      simp only [segLookup, List.find?_cons, hk, decide_true, Option.bind_some]
      rcases findIdx_page sg.items page with ⟨it, hget, hfind⟩ | ⟨hlen, hfind⟩
      · have hlt := (List.getElem?_eq_some_iff.mp hget).1
        rw [if_pos (by omega), LogTab.itemAt_ok (by omega), hmid _ it hget, hfind]
        rfl
      · rw [if_neg (by omega), hother, hfind]
        rfl
    · have := ih h' hnd.2
      simp only [List.length_append, List.length_singleton, segItems_append, segItems_cons, segItems_nil,
        List.append_nil] at this
      rw [if_neg hk, hval, this]
      simp [segLookup, hk]

end ops

end Emlinux.Nftl
