import Emlinux.Nftl.DataLog
import Emlinux.Nftl.Segments

/-!
# The DataLog tables as a map

What the DataLog tables are for: they map a logical block to its DataLog block, to the number of pages used there, and
to the physical page of each logical page in it (`LogEntry`). `LogTab.map` reads that map off the tables, and `DlWf`
says when tables are well formed.

* `updateDlRam`, `findLpaInDl`, `findLbaInDl`: the three functions of `nftlmount.c` on the tables alone;
  `nftlUpdateDlRam_eq` and the two after it are the link to the programs of `DataLog`.
* `append_refines`, `insert_refines`, `delete_refines`, `update_refines`: each operation is one update of the map.
* `dlTables_refine`: which is so exactly when there is room.
-/

namespace Emlinux.Nftl

open Lib

/-! ## The functions -/

/-- `nftl_update_dl_ram`; `lba` is a 16-bit variable. -/
def updateDlRam (pgs : Nat) (operation : RamOp) (index lpa pba : Nat) (t : LogTab) : Except Fault (Int × LogTab) :=
  let lba := lpa / pgs % 65536
  match operation with
  | .append => do
    let t ← t.append dlCap lba lpa pba
    pure (0, t)
  | .insert => do
    let t ← t.insert dlCap index lpa
    pure (0, t)
  | .delete => do
    let t ← t.delete dlCap index
    pure (0, t)
  | .update => do
    let r ← t.update dlCap (fun b => b.key = lba) pba
    pure (match r.1 with
      | some used => used
      | none => -1, r.2)

/-- `nftl_find_lpa_in_dl`: the block and the page, or `FIND_FAIL`. -/
def findLpaInDl (pgs targetlpa : Nat) (t : LogTab) : Except Fault (Option (Nat × Nat)) :=
  t.findPage dlCap (targetlpa / pgs % 65536) targetlpa t.blkcnt 0 0

/-- `nftl_find_lba_in_dl`: the index, or `dl_blkcnt` (`FIND_FAIL`). -/
def findLbaInDl (lba : Nat) (t : LogTab) : Except Fault Nat :=
  t.findBlock dlCap (fun b => b.key = lba) t.blkcnt 0

section link

variable (d : Device) (s : St)

/-- For the logical pages of a chip, whose logical blocks fit 16 bits, the program of the translation layer is this
function on its DataLog tables. -/
theorem nftlUpdateDlRam_eq (operation : RamOp) (index lpa pba : Nat) (h : lpa / d.pgs < 65536) :
    nftlUpdateDlRam d operation index lpa pba s
      = (Prog.lift (updateDlRam d.pgs operation index lpa pba s.dl) >>= fun r => setDl r.2 >>= fun _ => pure r.1) s := by
  cases operation with
  | append =>
    simp only [nftlUpdateDlRam, updateDlRam, Prog.get_bind, Nat.mod_eq_of_lt h]
    rcases s.dl.append dlCap (lpa / d.pgs) lpa pba with e | t <;> rfl
  | insert =>
    simp only [nftlUpdateDlRam, updateDlRam, Prog.get_bind]
    rcases s.dl.insert dlCap index lpa with e | t <;> rfl
  | delete =>
    simp only [nftlUpdateDlRam, updateDlRam, Prog.get_bind]
    rcases s.dl.delete dlCap index with e | t <;> rfl
  | update =>
    simp only [nftlUpdateDlRam, updateDlRam, Prog.get_bind, Nat.mod_eq_of_lt h]
    rcases s.dl.update dlCap (fun b => b.key = lpa / d.pgs) pba with e | t <;> rfl

theorem nftlFindLpaInDl_eq (lpa : Nat) (h : lpa / d.pgs < 65536) :
    nftlFindLpaInDl d lpa s = Prog.lift (findLpaInDl d.pgs lpa s.dl) s := by
  rw [findLpaInDl, Nat.mod_eq_of_lt h]
  rfl

theorem nftlFindLbaInDl_eq (lba : Nat) : nftlFindLbaInDl lba s = Prog.lift (findLbaInDl lba s.dl) s := rfl

end link

/-! ## The map -/

/-- What the tables say of a logical block: its DataLog block, the pages used there, and where its pages are. -/
structure LogEntry where
  pba : Nat
  used : Nat
  pages : Nat → Option Nat

def Seg.entry (sg : Seg) : LogEntry where
  pba := sg.block.pba
  used := sg.block.used
  pages lpa := (sg.items.find? (fun it => it.page = lpa)).map LogItem.ppa

def mapOf (S : List Seg) (lba : Nat) : Option LogEntry := (S.find? (fun sg => sg.block.key = lba)).map Seg.entry

/-- The map that the tables stand for. -/
def LogTab.map (t : LogTab) : Nat → Option LogEntry := mapOf t.segs

/-- A well-formed segment, of a chip with `pgs` pages a block. -/
structure Seg.Wf (pgs : Nat) (sg : Seg) : Prop where
  key_lt : sg.block.key < 65536
  pages : (sg.items.map LogItem.page).Nodup
  ppas : (sg.items.map LogItem.ppa).Nodup
  owned : ∀ it ∈ sg.items, it.page / pgs = sg.block.key
  below : ∀ it ∈ sg.items, it.ppa < sg.block.used
  used : sg.block.used ≤ pgs

/-- Well-formed DataLog tables, within their arrays. -/
structure DlWf (pgs : Nat) (t : LogTab) : Prop where
  blkcnt : t.blkcnt ≤ dlMaxBlocks
  pgcnt : t.pgcnt ≤ dlMaxPages
  sum : t.pgcnt = (t.segs.map fun sg => sg.block.valid).sum
  lbas : (t.segs.map fun sg => sg.block.key).Nodup
  segs : ∀ sg ∈ t.segs, sg.Wf pgs

section lists

variable {S pre post : List Seg} {sg : Seg} {pgs : Nat}

theorem length_segItems (h : ∀ sg ∈ S, sg.block.valid = sg.items.length) :
    (segItems S).length = (S.map fun sg => sg.block.valid).sum := by
  induction S with
  | nil => rfl
  | cons sg S ih =>
    have h1 := h sg (by simp)
    have h2 := ih fun x hx => h x (by simp [hx])
    rw [segItems_cons, List.length_append, List.map_cons, List.sum_cons, h1, h2]

theorem mapOf_eq_none {lba : Nat} : mapOf S lba = none ↔ ∀ sg ∈ S, sg.block.key ≠ lba := by
  simp [mapOf, List.find?_eq_none]

/-- The map of a list with a segment in the middle. -/
theorem mapOf_mid (hpre : ∀ x ∈ pre, x.block.key ≠ sg.block.key) :
    mapOf (pre ++ sg :: post) = Function.update (mapOf (pre ++ post)) sg.block.key (some sg.entry) := by
  funext lba
  by_cases h : lba = sg.block.key
  · subst h
    have hnone : pre.find? (fun x => x.block.key = sg.block.key) = none := by
      rw [List.find?_eq_none]
      intro x hx
      simpa using hpre x hx
    rw [Function.update_self, mapOf, List.find?_append, hnone]
    simp
  · rw [Function.update_of_ne h, mapOf, mapOf, List.find?_append, List.find?_append, List.find?_cons]
    simp [Ne.symm h]

/-- The keys of the other segments are different. -/
theorem keys_mid (h : ((pre ++ sg :: post).map fun sg => sg.block.key).Nodup) :
    (∀ x ∈ pre, x.block.key ≠ sg.block.key) ∧ ∀ x ∈ post, x.block.key ≠ sg.block.key := by
  rw [List.map_append, List.map_cons, List.nodup_append, List.nodup_cons] at h
  refine ⟨fun x hx e => ?_, fun x hx e => ?_⟩
  · exact h.2.2 _ (List.mem_map_of_mem hx) sg.block.key (by simp) e
  · exact h.2.1.1 (e ▸ List.mem_map_of_mem hx)

theorem mapOf_delete (h : ((pre ++ sg :: post).map fun sg => sg.block.key).Nodup) :
    mapOf (pre ++ post) = Function.update (mapOf (pre ++ sg :: post)) sg.block.key none := by
  obtain ⟨hpre, hpost⟩ := keys_mid h
  have hnone : mapOf (pre ++ post) sg.block.key = none := by
    rw [mapOf_eq_none]
    intro x hx
    rcases List.mem_append.mp hx with hx | hx
    · exact hpre x hx
    · exact hpost x hx
  rw [mapOf_mid hpre, Function.update_idem]
  exact (Function.update_eq_self_iff.mpr hnone.symm).symm

/-- A segment changes and keeps its key. -/
theorem mapOf_set (h : ((pre ++ sg :: post).map fun sg => sg.block.key).Nodup) {sg' : Seg}
    (hk : sg'.block.key = sg.block.key) :
    mapOf (pre ++ sg' :: post) = Function.update (mapOf (pre ++ sg :: post)) sg.block.key (some sg'.entry) := by
  obtain ⟨hpre, -⟩ := keys_mid h
  rw [mapOf_mid hpre, mapOf_mid (by rw [hk]; exact hpre), Function.update_idem, hk]

theorem mapOf_self (h : ((pre ++ sg :: post).map fun sg => sg.block.key).Nodup) :
    mapOf (pre ++ sg :: post) sg.block.key = some sg.entry := by
  rw [mapOf_mid (keys_mid h).1, Function.update_self]

theorem mem_insertItem {items : List LogItem} {page ppa : Nat} {it : LogItem} (h : it ∈ insertItem items page ppa) :
    it = ⟨ppa, page⟩ ∨ it ∈ items := by
  induction items with
  | nil => simpa [insertItem] using h
  | cons x items ih =>
    simp only [insertItem] at h
    split_ifs at h with hx
    · rcases List.mem_cons.mp h with h | h
      · exact Or.inl h
      · exact Or.inr (List.mem_cons_of_mem _ h)
    · rcases List.mem_cons.mp h with rfl | h
      · exact Or.inr (List.mem_cons_self ..)
      · rcases ih h with h | h
        · exact Or.inl h
        · exact Or.inr (List.mem_cons_of_mem _ h)

theorem nodup_ppa_insertItem {items : List LogItem} (h : (items.map LogItem.ppa).Nodup) (page : Nat) {ppa : Nat}
    (hnew : ∀ it ∈ items, it.ppa ≠ ppa) : ((insertItem items page ppa).map LogItem.ppa).Nodup := by
  induction items with
  | nil => simp [insertItem]
  | cons x items ih =>
    simp only [List.map_cons, List.nodup_cons, List.mem_map, not_exists, not_and] at h
    have hnew' : ∀ it ∈ items, it.ppa ≠ ppa := fun it hit => hnew it (by simp [hit])
    simp only [insertItem]
    split_ifs with hx
    · simp only [List.map_cons, List.nodup_cons, List.mem_map, not_exists, not_and]
      exact ⟨hnew', h.2⟩
    · simp only [List.map_cons, List.nodup_cons, List.mem_map, not_exists, not_and]
      refine ⟨fun it hit e => ?_, ih h.2 hnew'⟩
      rcases mem_insertItem hit with rfl | hit
      · exact hnew x (by simp) e.symm
      · exact h.1 it hit e

/-- Writing the next page of a segment keeps it well formed. -/
theorem Seg.Wf.insert (h : sg.Wf pgs) {lpa : Nat} (hk : sg.block.key = lpa / pgs) (hu : sg.block.used < pgs) :
    (sg.insert lpa).Wf pgs := by
  refine ⟨h.key_lt, nodup_insertItem h.pages _ _, nodup_ppa_insertItem h.ppas _ fun it hit => ?_, fun it hit => ?_,
    fun it hit => ?_, hu⟩
  · exact Nat.ne_of_lt (h.below it hit)
  · rcases mem_insertItem hit with rfl | hit
    · exact hk.symm
    · exact h.owned it hit
  · show it.ppa < sg.block.used + 1
    rcases mem_insertItem hit with rfl | hit
    · exact Nat.lt_succ_self _
    · exact Nat.lt_succ_of_lt (h.below it hit)

theorem entry_insert (sg : Seg) (lpa : Nat) : (sg.insert lpa).entry =
    { sg.entry with
      used := sg.entry.used + 1
      pages := Function.update sg.entry.pages lpa (some sg.entry.used) } := by
  simp only [Seg.entry, Seg.insert, LogEntry.mk.injEq, true_and]
  funext p
  rw [find_insertItem]
  by_cases h : p = lpa
  · subst h
    simp
  · simp [h]

theorem entry_pages_ne_none {lpa : Nat} : sg.entry.pages lpa ≠ none ↔ lpa ∈ sg.items.map LogItem.page := by
  simp [Seg.entry, List.find?_eq_none]

end lists

/-! ## The operations -/

/-- A call of `nftl_update_dl_ram`, with the arguments that it reads. -/
inductive DlOp where
  | append (lpa pba : Nat)
  | insert (index lpa : Nat)
  | delete (index : Nat)
  | update (lpa pba : Nat)

namespace DlOp

variable (pgs : Nat) (t : LogTab)

def run : DlOp → Except Fault (Int × LogTab)
  | append lpa pba => updateDlRam pgs .append 0 lpa pba t
  | insert index lpa => updateDlRam pgs .insert index lpa 0 t
  | delete index => updateDlRam pgs .delete index 0 0 t
  | update lpa pba => updateDlRam pgs .update 0 lpa pba t

/-- The calls that the translation layer makes: a log is opened where there is none, and what is written to, deleted or
moved is there. -/
def Legal : DlOp → Prop
  | append lpa _ => t.map (lpa / pgs) = none
  | insert index lpa => ∃ sg, t.segs[index]? = some sg ∧ sg.block.key = lpa / pgs ∧ sg.block.used < pgs
  | delete index => index < t.blkcnt
  | update lpa _ => t.map (lpa / pgs) ≠ none

/-- The map after a call: a page goes to the next physical page of its log, a log goes, or it moves. -/
def spec : DlOp → Nat → Option LogEntry
  | append lpa pba =>
    Function.update t.map (lpa / pgs) (some ⟨pba, 1, Function.update (fun _ => none) lpa (some 0)⟩)
  | insert _ lpa => Function.update t.map (lpa / pgs) ((t.map (lpa / pgs)).map fun e =>
      { e with used := e.used + 1, pages := Function.update e.pages lpa (some e.used) })
  | delete index => Function.update t.map (t.blocktab index).key none
  | update lpa pba => Function.update t.map (lpa / pgs) ((t.map (lpa / pgs)).map fun e => { e with pba := pba })

/-- The call keeps the tables well formed and does to the map what it should. -/
def Refines (op : DlOp) : Prop :=
  ∃ r t', op.run pgs t = .ok (r, t') ∧ DlWf pgs t' ∧ t'.map = op.spec pgs t

/-- There is an entry for what is added, the logical block fits its 16-bit field, and a deletion has an entry behind the
last one to copy. -/
def Room : DlOp → Prop
  | append lpa _ => t.blkcnt < dlMaxBlocks ∧ t.pgcnt < dlMaxPages ∧ lpa / pgs < 65536
  | insert _ lpa => (∃ e, t.map (lpa / pgs) = some e ∧ e.pages lpa ≠ none) ∨ t.pgcnt < dlMaxPages
  | delete _ => t.blkcnt < dlMaxBlocks
  | update _ _ => True

end DlOp

section refine

variable {pgs : Nat} {t : LogTab}

theorem DlWf.holds (h : DlWf pgs t) : Segs t t.segs := by
  apply segs_segs
  exact h.sum.trans (length_segItems (valid_segsFrom _ _ _)).symm

/-- Tables that hold well-formed segments. -/
theorem Segs.dlWf {S : List Seg} (h : Segs t S) (hb : t.blkcnt ≤ dlMaxBlocks) (hp : t.pgcnt ≤ dlMaxPages)
    (hk : (S.map fun sg => sg.block.key).Nodup) (hS : ∀ sg ∈ S, sg.Wf pgs) : DlWf pgs t ∧ t.map = mapOf S := by
  have heq := h.segs_eq
  refine ⟨⟨hb, hp, ?_, by rwa [heq], by rwa [heq]⟩, by rw [LogTab.map, heq]⟩
  rw [heq, ← length_segItems h.valid]
  exact h.pgcnt

theorem exists_split {S : List Seg} {i : Nat} {sg : Seg} (h : S[i]? = some sg) :
    ∃ pre post, S = pre ++ sg :: post ∧ pre.length = i := by
  obtain ⟨hlt, rfl⟩ := List.getElem?_eq_some_iff.mp h
  exact ⟨S.take i, S.drop (i + 1), by rw [List.getElem_cons_drop, List.take_append_drop], by simp; omega⟩

theorem append_refines (h : DlWf pgs t) (hpgs : 0 < pgs) {lpa : Nat} (pba : Nat) (hl : t.map (lpa / pgs) = none) :
    (DlOp.append lpa pba).Refines pgs t ↔ (DlOp.append lpa pba).Room pgs t := by
  constructor
  · rintro ⟨r, t', hrun, hwf, hmap⟩
    have hroom : t.blkcnt < dlCap.maxBlocks ∧ t.pgcnt < dlCap.maxPages := by
      by_contra hfull
      obtain ⟨e, he⟩ := append_overrun (c := dlCap) (lpa / pgs % 65536) lpa pba hfull
      simp [DlOp.run, updateDlRam, he, bind, Except.bind] at hrun
    refine ⟨hroom.1, hroom.2, ?_⟩
    obtain ⟨t₁, ht₁, hS, -⟩ := append_segs (c := dlCap) h.holds (lpa / pgs % 65536) lpa pba hroom.1 hroom.2
    have heq : (0, t₁) = (r, t') := by
      simpa [DlOp.run, updateDlRam, ht₁, bind, Except.bind, pure, Except.pure] using hrun
    obtain ⟨-, rfl⟩ := Prod.mk.inj heq
    -- the new segment owns its page, so its key is not a truncated one
    have hown := (hwf.segs ⟨⟨lpa / pgs % 65536, pba, 1, 1⟩, [⟨0, lpa⟩]⟩ (by rw [hS.segs_eq]; simp)).owned
      ⟨0, lpa⟩ (by simp)
    have hown : lpa / pgs = lpa / pgs % 65536 := hown
    omega
  · rintro ⟨hb, hp, hlt⟩
    obtain ⟨t', ht', hS, -⟩ := append_segs (c := dlCap) h.holds (lpa / pgs) lpa pba hb hp
    have hnew := mapOf_eq_none.mp hl
    have hcnt := h.holds.pgcnt
    obtain ⟨hwf, hmap⟩ : DlWf pgs t' ∧ t'.map = mapOf (t.segs ++ [⟨⟨lpa / pgs, pba, 1, 1⟩, [⟨0, lpa⟩]⟩]) := hS.dlWf
      (by have := hS.blkcnt
          have := h.holds.blkcnt
          simp only [List.length_append, List.length_singleton] at *
          omega)
      (by have := hS.pgcnt
          simp only [segItems_append, segItems_cons, segItems_nil, List.length_append, List.append_nil,
            List.length_singleton] at this
          omega)
      (by rw [List.map_append, List.nodup_append]
          refine ⟨h.lbas, by simp, fun a ha b hb e => ?_⟩
          obtain ⟨sg, hsg, rfl⟩ := List.mem_map.mp ha
          obtain rfl : b = lpa / pgs := by simpa using hb
          exact hnew sg hsg e)
      (fun sg hsg => by
        rcases List.mem_append.mp hsg with hsg | hsg
        · exact h.segs sg hsg
        · obtain rfl := List.mem_singleton.mp hsg
          exact ⟨hlt, by simp, by simp, by simp, by simp, hpgs⟩)
    refine ⟨0, t', ?_, hwf, ?_⟩
    · simp [DlOp.run, updateDlRam, Nat.mod_eq_of_lt hlt, ht', bind, Except.bind, pure, Except.pure]
    · rw [hmap, mapOf_mid hnew, List.append_nil]
      show Function.update t.map (lpa / pgs) _ = _
      rw [DlOp.spec]
      congr 2
      simp only [Seg.entry, LogEntry.mk.injEq, true_and]
      funext p
      by_cases hpl : p = lpa
      · subst hpl
        simp
      · simp [hpl, Ne.symm hpl]

theorem insert_refines (h : DlWf pgs t) {index lpa : Nat} (hl : (DlOp.insert index lpa).Legal pgs t) :
    (DlOp.insert index lpa).Refines pgs t ↔ (DlOp.insert index lpa).Room pgs t := by
  obtain ⟨sg, hget, hk, hu⟩ := hl
  obtain ⟨pre, post, hsplit, rfl⟩ := exists_split hget
  have hS : Segs t (pre ++ sg :: post) := hsplit ▸ h.holds
  have hkeys : ((pre ++ sg :: post).map fun sg => sg.block.key).Nodup := hsplit ▸ h.lbas
  have hmapt : t.map = mapOf (pre ++ sg :: post) := by rw [LogTab.map, hsplit]
  have hself : t.map (lpa / pgs) = some sg.entry := by rw [hmapt, ← hk, mapOf_self hkeys]
  have hroom : (DlOp.insert pre.length lpa).Room pgs t ↔ lpa ∈ sg.items.map LogItem.page ∨ t.pgcnt < dlMaxPages := by
    rw [DlOp.Room, hself, ← entry_pages_ne_none]
    simp
  rw [hroom]
  constructor
  · rintro ⟨r, t', hrun, -, -⟩
    by_contra hcon
    obtain ⟨hnew, hfull⟩ := not_or.mp hcon
    have := h.pgcnt
    obtain ⟨e, he⟩ := insert_overrun (c := dlCap) hS lpa h.blkcnt (show t.pgcnt = dlMaxPages by omega) hnew
    simp [DlOp.run, updateDlRam, he, bind, Except.bind] at hrun
  · intro hr
    obtain ⟨t', ht', hS', -⟩ := insert_segs (c := dlCap) hS lpa h.blkcnt h.pgcnt hr
    obtain ⟨hwf, hmap⟩ : DlWf pgs t' ∧ t'.map = mapOf (pre ++ sg.insert lpa :: post) := hS'.dlWf
      (by have h1 := hS'.blkcnt_mid
          have h2 := hS.blkcnt_mid
          have h3 := h.blkcnt
          omega)
      (by have h1 := hS'.pgcnt_mid
          have h2 := hS.pgcnt_mid
          have h3 := h.pgcnt
          have h4 := length_insertItem_le sg.items lpa sg.block.used
          simp only [Seg.insert] at h1
          rcases hr with hin | hlt
          · -- the page is there already, and no item is added
            have h5 := insertItem_of_lt sg.block.used (findIdx_lt_iff.mpr hin)
            rw [h5, List.length_set] at h1
            omega
          · show t'.pgcnt ≤ dlMaxPages
            omega)
      (by rw [List.map_append, List.map_cons] at hkeys ⊢
          exact hkeys)
      (fun x hx => by
        have hmem : ∀ y ∈ pre ++ sg :: post, y.Wf pgs := hsplit ▸ h.segs
        rcases List.mem_append.mp hx with hx | hx
        · exact hmem x (by simp [hx])
        · rcases List.mem_cons.mp hx with rfl | hx
          · exact (hmem sg (by simp)).insert hk hu
          · exact hmem x (by simp [hx]))
    refine ⟨0, t', ?_, hwf, ?_⟩
    · simp [DlOp.run, updateDlRam, ht', bind, Except.bind, pure, Except.pure]
    · rw [hmap, DlOp.spec, hself, hmapt, mapOf_set hkeys (show (sg.insert lpa).block.key = sg.block.key from rfl), hk,
        entry_insert]
      rfl

theorem delete_refines (h : DlWf pgs t) {index : Nat} (hl : index < t.blkcnt) :
    (DlOp.delete index).Refines pgs t ↔ (DlOp.delete index).Room pgs t := by
  have hlen : index < t.segs.length := by rw [← h.holds.blkcnt]; exact hl
  obtain ⟨pre, post, hsplit, rfl⟩ := exists_split (List.getElem?_eq_getElem hlen)
  generalize t.segs[pre.length] = sg at hsplit
  have hS : Segs t (pre ++ sg :: post) := hsplit ▸ h.holds
  have hkeys : ((pre ++ sg :: post).map fun sg => sg.block.key).Nodup := hsplit ▸ h.lbas
  constructor
  · rintro ⟨r, t', hrun, -, -⟩
    show t.blkcnt < dlMaxBlocks
    by_contra hfull
    have := h.blkcnt
    have he := delete_overrun (c := dlCap) hS (show t.blkcnt = dlMaxBlocks by omega) h.pgcnt
    simp [DlOp.run, updateDlRam, he, bind, Except.bind] at hrun
  · intro hroom
    obtain ⟨t', ht', hS', -⟩ := delete_segs (c := dlCap) hS hroom h.pgcnt
    obtain ⟨hwf, hmap⟩ : DlWf pgs t' ∧ t'.map = mapOf (pre ++ post) := hS'.dlWf
      (by have h1 := hS'.blkcnt
          have h2 := hS.blkcnt_mid
          have h3 := h.blkcnt
          rw [List.length_append] at h1
          omega)
      (by have h1 := hS'.pgcnt
          have h2 := hS.pgcnt_mid
          have h3 := h.pgcnt
          rw [segItems_append, List.length_append] at h1
          omega)
      (by rw [List.map_append, List.map_cons] at hkeys
          rw [List.map_append]
          exact (List.nodup_middle.mp hkeys).of_cons)
      (fun x hx => by
        have hmem : ∀ y ∈ pre ++ sg :: post, y.Wf pgs := hsplit ▸ h.segs
        rcases List.mem_append.mp hx with hx | hx <;> exact hmem x (by simp [hx]))
    refine ⟨0, t', ?_, hwf, ?_⟩
    · simp [DlOp.run, updateDlRam, ht', bind, Except.bind, pure, Except.pure]
    · rw [hmap, DlOp.spec, hS.block_mid, LogTab.map, hsplit]
      exact mapOf_delete hkeys

theorem exists_first {S : List Seg} {lba : Nat} (h : mapOf S lba ≠ none) :
    ∃ pre sg post, S = pre ++ sg :: post ∧ sg.block.key = lba ∧ ∀ x ∈ pre, x.block.key ≠ lba := by
  obtain ⟨e, he⟩ := Option.ne_none_iff_exists'.mp h
  obtain ⟨sg, hsg, -⟩ := Option.map_eq_some_iff.mp he
  obtain ⟨hkey, pre, post, hS, hpre⟩ := List.find?_eq_some_iff_append.mp hsg
  exact ⟨pre, sg, post, hS, by simpa using hkey, fun x hx => by simpa using hpre x hx⟩

theorem update_refines (h : DlWf pgs t) {lpa : Nat} (pba : Nat) (hl : t.map (lpa / pgs) ≠ none) :
    (DlOp.update lpa pba).Refines pgs t := by
  obtain ⟨pre, sg, post, hsplit, hk, hpre⟩ := exists_first hl
  have hS : Segs t (pre ++ sg :: post) := hsplit ▸ h.holds
  have hkeys : ((pre ++ sg :: post).map fun sg => sg.block.key).Nodup := hsplit ▸ h.lbas
  have hmem : ∀ y ∈ pre ++ sg :: post, y.Wf pgs := hsplit ▸ h.segs
  have hsg := hmem sg (by simp)
  have hlt : lpa / pgs < 65536 := hk ▸ hsg.key_lt
  obtain ⟨t', ht', hcnt, hS', -⟩ := update_segs (c := dlCap) (p := fun b => b.key = lpa / pgs) hS pba h.blkcnt
    (fun x hx => by simpa using hpre x hx) (by simpa using hk)
  obtain ⟨hwf, hmap⟩ : DlWf pgs t' ∧ t'.map = mapOf (pre ++ ⟨{ sg.block with pba := pba }, sg.items⟩ :: post) := hS'.dlWf
    (by have h1 := hS'.blkcnt_mid
        have h2 := hS.blkcnt_mid
        have h3 := h.blkcnt
        omega)
    (by rw [hcnt]
        exact h.pgcnt)
    (by rw [List.map_append, List.map_cons] at hkeys ⊢
        exact hkeys)
    (fun x hx => by
      rcases List.mem_append.mp hx with hx | hx
      · exact hmem x (by simp [hx])
      · rcases List.mem_cons.mp hx with rfl | hx
        · exact ⟨hsg.key_lt, hsg.pages, hsg.ppas, hsg.owned, hsg.below, hsg.used⟩
        · exact hmem x (by simp [hx]))
  refine ⟨sg.block.used, t', ?_, hwf, ?_⟩
  · simp [DlOp.run, updateDlRam, Nat.mod_eq_of_lt hlt, ht', bind, Except.bind, pure, Except.pure]
  · have hself : t.map (lpa / pgs) = some sg.entry := by rw [LogTab.map, hsplit, ← hk, mapOf_self hkeys]
    have hset : mapOf (pre ++ ⟨{ sg.block with pba := pba }, sg.items⟩ :: post) = _ := mapOf_set hkeys rfl
    rw [hmap, DlOp.spec, hself, hset, LogTab.map, hsplit, hk]
    rfl

/-- The search for a logical page is the lookup of the map. A page beyond the 16-bit logical blocks is looked for in the
segment of another block, which does not hold it. -/
theorem findLpaInDl_eq (h : DlWf pgs t) (lpa : Nat) :
    findLpaInDl pgs lpa t
      = .ok ((t.map (lpa / pgs)).bind fun e => (e.pages lpa).map fun ppa => (e.pba, ppa)) := by
  have hfind := findPage_segs (c := dlCap) (show Segs t ([] ++ t.segs) from h.holds) h.blkcnt h.pgcnt h.lbas
    (lpa / pgs % 65536) lpa
  rw [findLpaInDl, h.holds.blkcnt]
  refine hfind.trans ?_
  by_cases hlt : lpa / pgs < 65536
  · rw [Nat.mod_eq_of_lt hlt, segLookup, LogTab.map, mapOf]
    cases t.segs.find? (fun sg => sg.block.key = lpa / pgs) with
    | none => rfl
    | some sg => simp [Seg.entry, Option.map_map, Function.comp_def]
  · have hnone : t.map (lpa / pgs) = none := by
      rw [LogTab.map, mapOf_eq_none]
      intro sg hsg e
      have := (h.segs sg hsg).key_lt
      omega
    rw [hnone, segLookup]
    cases hsg : t.segs.find? (fun sg => sg.block.key = lpa / pgs % 65536) with
    | none => rfl
    | some sg =>
      have hmem := List.mem_of_find?_eq_some hsg
      have hitems : sg.items.find? (fun it => it.page = lpa) = none := by
        rw [List.find?_eq_none]
        intro it hit hpg
        have hown := (h.segs sg hmem).owned it hit
        have hkl := (h.segs sg hmem).key_lt
        rw [show it.page = lpa by simpa using hpg] at hown
        omega
      simp [hitems]

/-- The search for a logical block gives its entry, or `dl_blkcnt` when the map has none. -/
theorem findLbaInDl_eq (h : DlWf pgs t) (lba : Nat) :
    (t.map lba = none ∧ findLbaInDl lba t = .ok t.blkcnt) ∨
    ∃ i, findLbaInDl lba t = .ok i ∧ i < t.blkcnt ∧ (t.blocktab i).key = lba ∧
      ∃ e, t.map lba = some e ∧ e.pba = (t.blocktab i).pba ∧ e.used = (t.blocktab i).used := by
  have hfind := findBlock_segs (c := dlCap) (show Segs t ([] ++ t.segs) from h.holds) h.blkcnt (fun b => b.key = lba)
  have hfind : findLbaInDl lba t = .ok (t.segs.findIdx fun sg => sg.block.key = lba) := by
    rw [findLbaInDl, h.holds.blkcnt]
    simpa using hfind
  by_cases hnone : t.map lba = none
  · left
    refine ⟨hnone, hfind.trans ?_⟩
    rw [h.holds.blkcnt, List.findIdx_eq_length.mpr]
    intro sg hsg
    simpa using mapOf_eq_none.mp hnone sg hsg
  · right
    obtain ⟨pre, sg, post, hsplit, hk, hpre⟩ := exists_first hnone
    have hS : Segs t (pre ++ sg :: post) := hsplit ▸ h.holds
    have hkeys : ((pre ++ sg :: post).map fun sg => sg.block.key).Nodup := hsplit ▸ h.lbas
    have hidx : (pre ++ sg :: post).findIdx (fun sg => sg.block.key = lba) = pre.length := by
      rw [List.findIdx_append, if_neg, List.findIdx_cons]
      · simp [hk]
      · rw [List.findIdx_lt_length]
        rintro ⟨x, hx, hpx⟩
        exact hpre x hx (by simpa using hpx)
    have hblk := hS.blkcnt_mid
    rw [hsplit, hidx] at hfind
    refine ⟨pre.length, hfind, by omega, by rw [hS.block_mid, hk], sg.entry, ?_, by rw [hS.block_mid]; rfl,
      by rw [hS.block_mid]; rfl⟩
    rw [LogTab.map, hsplit, ← hk, mapOf_self hkeys]

end refine

/-- On well-formed tables every call that the translation layer makes acts on the map as it should, exactly when there is
room for it, and the searches are the lookups of the map. -/
theorem dlTables_refine (pgs : Nat) (t : LogTab) (hpgs : 0 < pgs) (h : DlWf pgs t) :
    (∀ op : DlOp, op.Legal pgs t → (op.Refines pgs t ↔ op.Room pgs t)) ∧
    (∀ lpa, findLpaInDl pgs lpa t
      = .ok ((t.map (lpa / pgs)).bind fun e => (e.pages lpa).map fun ppa => (e.pba, ppa))) ∧
    ∀ lba, (t.map lba = none ∧ findLbaInDl lba t = .ok t.blkcnt) ∨
      ∃ i, findLbaInDl lba t = .ok i ∧ i < t.blkcnt ∧ (t.blocktab i).key = lba ∧
        ∃ e, t.map lba = some e ∧ e.pba = (t.blocktab i).pba ∧ e.used = (t.blocktab i).used := by
  refine ⟨fun op hl => ?_, findLpaInDl_eq h, findLbaInDl_eq h⟩
  cases op with
  | append lpa pba => exact append_refines h hpgs pba hl
  | insert index lpa => exact insert_refines h hl
  | delete index => exact delete_refines h hl
  | update lpa pba => exact iff_of_true (update_refines h pba hl) trivial

/-! ## Tables of one page a segment -/

instance (pgs : Nat) (sg : Seg) : Decidable (sg.Wf pgs) :=
  decidable_of_iff (sg.block.key < 65536 ∧ (sg.items.map LogItem.page).Nodup ∧ (sg.items.map LogItem.ppa).Nodup ∧
      (∀ it ∈ sg.items, it.page / pgs = sg.block.key) ∧ (∀ it ∈ sg.items, it.ppa < sg.block.used) ∧ sg.block.used ≤ pgs)
    ⟨fun ⟨h1, h2, h3, h4, h5, h6⟩ => ⟨h1, h2, h3, h4, h5, h6⟩, fun ⟨h1, h2, h3, h4, h5, h6⟩ => ⟨h1, h2, h3, h4, h5, h6⟩⟩

/-- `n` DataLog blocks of a chip with two pages a block, each with page 0 of its logical block. -/
def oneEach (n : Nat) : LogTab := ⟨fun i => ⟨i, i, 1, 1⟩, n, fun i => ⟨0, 2 * i⟩, n⟩

theorem dlWf_two : DlWf 2 (oneEach 2) := ⟨by decide, by decide, by decide, by decide, by decide⟩

theorem dlWf_full : DlWf 2 (oneEach 128) :=
  ⟨by decide, by decide, by decide +kernel, by decide +kernel, by decide +kernel⟩

theorem dlTables_refine_two : (DlOp.append 4 9).Refines 2 (oneEach 2) ∧ (DlOp.insert 0 1).Refines 2 (oneEach 2) ∧
    (DlOp.delete 0).Refines 2 (oneEach 2) ∧ (DlOp.update 2 9).Refines 2 (oneEach 2) := by
  have hops := (dlTables_refine 2 (oneEach 2) (by decide) dlWf_two).1
  have hroom : 2 < dlMaxBlocks ∧ 2 < dlMaxPages := by decide
  exact ⟨(hops (.append 4 9) rfl).mpr ⟨hroom.1, hroom.2, by decide⟩,
    (hops (.insert 0 1) ⟨_, rfl, by decide, by decide⟩).mpr (Or.inr hroom.2),
    (hops (.delete 0) (show 0 < 2 by decide)).mpr hroom.1, (hops (.update 2 9) (Option.some_ne_none _)).mpr trivial⟩

/-- With 128 DataLog blocks a deletion reads the entry behind `dl_blocktab`. -/
theorem delete_reads_past_end : DlWf 2 (oneEach 128) ∧ (DlOp.delete 0).Legal 2 (oneEach 128) ∧
    ¬ (DlOp.delete 0).Refines 2 (oneEach 128) := by
  have hlegal : 0 < (oneEach 128).blkcnt := by decide
  refine ⟨dlWf_full, hlegal, fun hr => ?_⟩
  have hroom : 128 < dlMaxBlocks := (delete_refines dlWf_full hlegal).mp hr
  exact absurd hroom (by decide)

end Emlinux.Nftl
