import Emlinux.Lib.Run
import Emlinux.Piu.File

/-!
# The open files of the DSP

`filestatus` remembers ten handles, so that a close of a handle that is not there does not reach `fclose`. A handle that comes from `fopen` while
the table is full is not remembered, and is never closed; and a close of a handle that is not there is still answered with 1.
The C library is the set of its open files; `recorded` is the set of the handles that fit into ten slots.

* `Kept.next`: the table is the set of recorded handles, and a media file that is playing is open.
* `Kept.closedOnce_iff`: which messages are handled as they should.
* `closedOnce_every_iff`: all messages of a sequence, exactly when every close names 0 or a recorded handle.
-/

namespace Emlinux.Piu.File

open Lib

/-- `handle_file` with the C library: the files that are open, those among them that were opened under the name of the media file, and the
handles that fit into the table. -/
structure Desk where
  server : Server
  opened : Finset Word
  media : Finset Word
  recorded : Finset Word

/-- What a call does to the open files. -/
def libStep (m : Message) (o : Finset Word) : Call → Finset Word
  | .fopen _ _ => if m.libc.fopen = 0 then o else insert m.libc.fopen o
  | .fclose fd => o.erase fd
  | _ => o

namespace Message

variable (m : Message)

/-- The message opens a file. -/
def Opens : Prop := m.req.msgid = fileOpen ∧ m.libc.fopen ≠ 0

instance : Decidable m.Opens := inferInstanceAs (Decidable (_ ∧ _))

def Closes : Prop := m.req.msgid = fileClose

instance : Decidable m.Closes := inferInstanceAs (Decidable (_ = _))

/-- Of the handles opened and not closed, those that fit into ten slots: a handle comes in while there are less than ten. -/
def record (r : Finset Word) : Finset Word :=
  if m.Opens then if r.card < 10 then insert m.libc.fopen r else r
  else if m.Closes then r.erase m.cmd.fd
  else r

/-- The handles under which the media file was opened last. -/
def mediaFiles (f : Finset Word) : Finset Word :=
  if m.Opens then if m.cmd.name = m.gFilename then insert m.libc.fopen f else f.erase m.libc.fopen
  else f

end Message

namespace Desk

variable (w : Windows)

def start : Desk where
  server := .init
  opened := ∅
  media := ∅
  recorded := ∅

def next (d : Desk) (m : Message) : Desk where
  server := (d.server.handleFile m w).1
  opened := (d.server.handleFile m w).2.foldl (libStep m) d.opened
  media := m.mediaFiles d.media
  recorded := m.record d.recorded

/-- The message opens or closes a file, and `fopen` gives a handle that is not in use. -/
def Legal (d : Desk) (m : Message) : Prop :=
  (m.req.msgid = fileOpen ∧ m.libc.fopen ∉ d.opened ∧ m.libc.fopen ≠ emptySlot) ∨ m.Closes

instance (d : Desk) (m : Message) : Decidable (d.Legal m) := inferInstanceAs (Decidable (_ ∨ _))

/-- A close closes the file that it names, once, and no other; it is not answered with success when the file is not open; and what is playing is
the media file, open. -/
structure ClosedOnce (d : Desk) (m : Message) : Prop where
  closes : m.Closes → m.cmd.fd ∈ d.opened → fcloses (d.server.handleFile m w).2 = [m.cmd.fd]
  onlyOpen : ∀ fd ∈ fcloses (d.server.handleFile m w).2, fd ∈ d.opened
  refused : m.Closes → m.cmd.fd ∉ d.opened → ∀ x ∈ sent (d.server.handleFile m w).2, x.2.rep.ret ≠ 1
  playing : (d.next w m).server.isplaying ≠ 0 →
    (d.next w m).server.isplaying ∈ (d.next w m).opened ∧ (d.next w m).server.isplaying ∈ (d.next w m).media

/-- A close names 0 or a recorded handle. -/
def Known (d : Desk) (m : Message) : Prop := m.Closes → m.cmd.fd = 0 ∨ m.cmd.fd ∈ d.recorded

instance (d : Desk) (m : Message) : Decidable (d.Known m) := inferInstanceAs (Decidable (_ → _))

end Desk

/-- The table is the set of recorded handles, these are open, and what is playing is the media file, open. -/
structure Kept (d : Desk) : Prop where
  slots : Slots 10 emptySlot d.server.filestatus d.recorded
  opened : d.recorded ⊆ d.opened
  handles : ∀ fd ∈ d.opened, fd ≠ 0 ∧ fd ≠ emptySlot
  playing : d.server.isplaying ≠ 0 → d.server.isplaying ∈ d.opened ∧ d.server.isplaying ∈ d.media

theorem Kept.start : Kept .start where
  slots := Slots.empty fun _ _ => rfl
  opened := Finset.Subset.refl ∅
  handles _ h := absurd h (Finset.notMem_empty _)
  playing h := absurd rfl h

/-! ## The two messages -/

section messages

variable {w : Windows} {d : Desk} {m : Message}

theorem foldl_libStep (s : Server) (o : Finset Word) : (s.handleFile m w).2.foldl (libStep m) o =
    (s.serve m (m.cmdbuf w).1).2.foldl (libStep m) o := by
  rw [handleFile_calls, List.foldl_append, List.foldl_append, List.foldl_append]
  split_ifs <;> rfl

theorem not_closes (h : m.req.msgid = fileOpen) : ¬ m.Closes := fun h' => absurd (h.symm.trans h') (by decide)

theorem next_server : (d.next w m).server = (d.server.serve m (m.cmdbuf w).1).1 := rfl

theorem serve_open (s : Server) (ptr : Word) (h : m.req.msgid = fileOpen) : s.serve m ptr = s.openFile m := if_pos h

theorem serve_close (s : Server) (ptr : Word) (h : m.Closes) : s.serve m ptr = s.closeFile m := by
  have hne : m.req.msgid ≠ fileOpen := by
    rw [show m.req.msgid = fileClose from h]
    decide
  unfold Server.serve
  rw [if_neg hne]
  exact if_pos h

/-- An open that fails changes nothing but the reply. -/
theorem next_failed (h : m.req.msgid = fileOpen) (h0 : m.libc.fopen = 0) :
    (d.next w m).server.filestatus = d.server.filestatus ∧ (d.next w m).server.isplaying = d.server.isplaying ∧
      (d.next w m).opened = d.opened ∧ (d.next w m).media = d.media ∧ (d.next w m).recorded = d.recorded := by
  have hopens : ¬ m.Opens := fun h' => h'.2 h0
  have hserver : (d.next w m).server = (d.server.openFile m).1 :=
    next_server.trans (congrArg Prod.fst (serve_open d.server _ h))
  have hopened : (d.next w m).opened = (d.server.openFile m).2.foldl (libStep m) d.opened := by
    rw [← serve_open d.server (m.cmdbuf w).1 h]
    exact foldl_libStep d.server d.opened
  rw [hserver, hopened]
  unfold Server.openFile
  dsimp only [Desk.next]
  rw [Message.mediaFiles, Message.record, if_neg hopens, if_neg hopens, if_neg (not_closes h), if_neg (not_not.mpr h0)]
  exact ⟨rfl, rfl, if_pos h0, rfl, rfl⟩

theorem next_opens (h : m.Opens) :
    (d.next w m).server.filestatus = replaceFirst 10 d.server.filestatus emptySlot m.libc.fopen ∧
      (d.next w m).server.isplaying = (if m.cmd.name = m.gFilename then m.libc.fopen else d.server.isplaying) ∧
      (d.next w m).opened = insert m.libc.fopen d.opened := by
  have hserver : (d.next w m).server = (d.server.openFile m).1 :=
    next_server.trans (congrArg Prod.fst (serve_open d.server _ h.1))
  have hopened : (d.next w m).opened = (d.server.openFile m).2.foldl (libStep m) d.opened := by
    rw [← serve_open d.server (m.cmdbuf w).1 h.1]
    exact foldl_libStep d.server d.opened
  rw [hserver, hopened]
  unfold Server.openFile
  dsimp only
  rw [if_pos h.2]
  exact ⟨rfl, rfl, if_neg h.2⟩

theorem next_null (h : m.Closes) (h0 : m.cmd.fd = 0) :
    (d.next w m).server.filestatus = d.server.filestatus ∧ (d.next w m).server.isplaying = d.server.isplaying ∧
      (d.next w m).opened = d.opened ∧ fcloses (d.server.handleFile m w).2 = [] ∧
      (d.server.handleFile m w).1.r.rep.ret = -1 := by
  have hserve : d.server.serve m (m.cmdbuf w).1 = ((d.server.setRet (-1)).answer m, []) := by
    rw [serve_close d.server _ h, Server.closeFile]
    exact if_pos h0
  have hserver : (d.next w m).server = (d.server.setRet (-1)).answer m :=
    next_server.trans (congrArg Prod.fst hserve)
  have hopened : (d.next w m).opened = d.opened := by
    refine (foldl_libStep d.server d.opened).trans ?_
    rw [hserve]
    rfl
  have hret : (d.server.handleFile m w).1.r.rep.ret = -1 := by
    show (d.next w m).server.r.rep.ret = -1
    rw [hserver]
    rfl
  rw [fcloses_handleFile, hserve, hserver, hopened]
  exact ⟨rfl, rfl, rfl, rfl, hret⟩

/-- A close of a handle that is not null is answered with 1. -/
theorem next_closes (h : m.Closes) (h0 : m.cmd.fd ≠ 0) :
    (d.next w m).server.filestatus = replaceFirst 10 d.server.filestatus m.cmd.fd emptySlot ∧
      (d.next w m).server.isplaying = (if d.server.isplaying = m.cmd.fd then 0 else d.server.isplaying) ∧
      (d.next w m).opened =
        (if (firstSlot 10 d.server.filestatus m.cmd.fd).isSome then d.opened.erase m.cmd.fd else d.opened) ∧
      fcloses (d.server.handleFile m w).2 =
        (if (firstSlot 10 d.server.filestatus m.cmd.fd).isSome then [m.cmd.fd] else []) ∧
      (d.server.handleFile m w).1.r.rep.ret = 1 := by
  have hserve := serve_close d.server (m.cmdbuf w).1 h
  unfold Server.closeFile at hserve
  dsimp only at hserve
  rw [if_neg h0] at hserve
  have hserver := congrArg Prod.fst hserve
  have hret : (d.server.handleFile m w).1.r.rep.ret = 1 := by
    show (d.server.serve m (m.cmdbuf w).1).1.r.rep.ret = 1
    rw [hserver]
    rfl
  have hopened : (d.next w m).opened = (d.server.serve m (m.cmdbuf w).1).2.foldl (libStep m) d.opened :=
    foldl_libStep d.server d.opened
  rw [fcloses_handleFile, hopened, next_server, hserve]
  refine ⟨rfl, rfl, ?_, ?_, hret⟩
  · dsimp only
    split_ifs <;> rfl
  · dsimp only
    split_ifs <;> rfl

end messages

/-! ## One message -/

section step

variable {w : Windows} {d : Desk} {m : Message}

/-- A message of the right kind opens a file, fails to, or closes. -/
theorem Desk.Legal.kind (h : d.Legal m) : m.Opens ∨ m.req.msgid = fileOpen ∧ m.libc.fopen = 0 ∨ m.Closes := by
  obtain hopen | hclose := h
  · by_cases h0 : m.libc.fopen = 0
    · exact Or.inr (Or.inl ⟨hopen.1, h0⟩)
    · exact Or.inl ⟨hopen.1, h0⟩
  · exact Or.inr (Or.inr hclose)

/-- A handle that `fopen` gives is not in use. -/
theorem Desk.Legal.fresh (h : d.Legal m) (ho : m.Opens) : m.libc.fopen ∉ d.opened ∧ m.libc.fopen ≠ emptySlot := by
  obtain hopen | hclose := h
  · exact hopen.2
  · exact absurd hclose (not_closes ho.1)

/-- A message that opens and closes nothing. -/
theorem Kept.same {d' : Desk} (h : Kept d) (hslots : d'.server.filestatus = d.server.filestatus)
    (hplay : d'.server.isplaying = d.server.isplaying) (hopened : d'.opened = d.opened) (hmedia : d'.media = d.media)
    (hrec : d'.recorded = d.recorded) : Kept d' := by
  constructor
  · rw [hslots, hrec]
    exact h.slots
  · rw [hopened, hrec]
    exact h.opened
  · rw [hopened]
    exact h.handles
  · rw [hplay, hopened, hmedia]
    exact h.playing

theorem Kept.next_opens (h : Kept d) (hl : d.Legal m) (ho : m.Opens) : Kept (d.next w m) := by
  obtain ⟨hfresh, hmark⟩ := hl.fresh ho
  obtain ⟨hslots, hplay, hopened⟩ := File.next_opens (w := w) (d := d) ho
  have hnew : m.libc.fopen ∉ d.recorded := fun hr => hfresh (h.opened hr)
  have hrec : (d.next w m).recorded = if d.recorded.card < 10 then insert m.libc.fopen d.recorded else d.recorded :=
    if_pos ho
  have hmedia : (d.next w m).media =
      if m.cmd.name = m.gFilename then insert m.libc.fopen d.media else d.media.erase m.libc.fopen := if_pos ho
  constructor
  · rw [hslots, hrec]
    split_ifs with hroom
    · exact h.slots.put hnew hmark hroom
    · rw [h.slots.put_full _ hroom]
      exact h.slots
  · rw [hopened, hrec]
    split_ifs
    · exact Finset.insert_subset_insert _ h.opened
    · exact h.opened.trans (Finset.subset_insert _ _)
  · intro fd hfd
    rw [hopened, Finset.mem_insert] at hfd
    obtain rfl | hfd := hfd
    · exact ⟨ho.2, hmark⟩
    · exact h.handles fd hfd
  · rw [hplay, hopened, hmedia]
    split_ifs with hname
    · exact fun _ => ⟨Finset.mem_insert_self _ _, Finset.mem_insert_self _ _⟩
    · intro hne
      obtain ⟨hin, hmed⟩ := h.playing hne
      have hother : d.server.isplaying ≠ m.libc.fopen := fun heq => hfresh (heq ▸ hin)
      exact ⟨Finset.mem_insert_of_mem hin, Finset.mem_erase.mpr ⟨hother, hmed⟩⟩

theorem Kept.next_failed (h : Kept d) (ho : m.req.msgid = fileOpen) (h0 : m.libc.fopen = 0) : Kept (d.next w m) := by
  obtain ⟨hslots, hplay, hopened, hmedia, hrec⟩ := File.next_failed (w := w) (d := d) ho h0
  exact h.same hslots hplay hopened hmedia hrec

theorem Kept.next_null (h : Kept d) (hc : m.Closes) (h0 : m.cmd.fd = 0) : Kept (d.next w m) := by
  obtain ⟨hslots, hplay, hopened, -, -⟩ := File.next_null (w := w) (d := d) hc h0
  have hno : ¬ m.Opens := fun ho => not_closes ho.1 hc
  have hnot : m.cmd.fd ∉ d.recorded := fun hr => (h.handles _ (h.opened hr)).1 h0
  have hrec : (d.next w m).recorded = d.recorded := by
    show m.record d.recorded = d.recorded
    rw [Message.record, if_neg hno, if_pos hc, Finset.erase_eq_of_notMem hnot]
  have hmedia : (d.next w m).media = d.media := if_neg hno
  exact h.same hslots hplay hopened hmedia hrec

theorem Kept.next_closes (h : Kept d) (hc : m.Closes) (hr : m.cmd.fd ∈ d.recorded) : Kept (d.next w m) := by
  obtain ⟨h0, hne⟩ := h.handles _ (h.opened hr)
  obtain ⟨hslots, hplay, hopened, -, -⟩ := File.next_closes (w := w) (d := d) hc h0
  have hno : ¬ m.Opens := fun ho => not_closes ho.1 hc
  have hrec : (d.next w m).recorded = d.recorded.erase m.cmd.fd := by
    show m.record d.recorded = _
    rw [Message.record, if_neg hno, if_pos hc]
  have hmedia : (d.next w m).media = d.media := if_neg hno
  rw [if_pos ((h.slots.firstSlot_isSome_iff hne).mpr hr)] at hopened
  constructor
  · rw [hslots, hrec]
    exact h.slots.drop hr
  · rw [hopened, hrec]
    exact Finset.erase_subset_erase _ h.opened
  · rw [hopened]
    exact fun fd hfd => h.handles fd (Finset.mem_of_mem_erase hfd)
  · rw [hplay, hopened, hmedia]
    split_ifs with heq
    · exact fun hne => absurd rfl hne
    · intro hne
      obtain ⟨hin, hmed⟩ := h.playing hne
      exact ⟨Finset.mem_erase.mpr ⟨heq, hin⟩, hmed⟩

theorem Kept.next (h : Kept d) (hl : d.Legal m) (hk : d.Known m) : Kept (d.next w m) := by
  obtain ho | ⟨ho, h0⟩ | hc := hl.kind
  · exact h.next_opens hl ho
  · exact h.next_failed ho h0
  · obtain h0 | hr := hk hc
    · exact h.next_null hc h0
    · exact h.next_closes hc hr

/-- An open closes nothing. -/
theorem fcloses_open (s : Server) (h : m.req.msgid = fileOpen) : fcloses (s.handleFile m w).2 = [] := by
  rw [fcloses_handleFile, serve_open s _ h]
  rfl

/-- A message is handled as it should exactly when, if it is a close, it names 0 or a recorded handle. -/
theorem Kept.closedOnce_iff (h : Kept d) (hl : d.Legal m) : d.ClosedOnce w m ↔ d.Known m := by
  have hopen : m.req.msgid = fileOpen → Kept (d.next w m) → (d.ClosedOnce w m ↔ d.Known m) := by
    intro ho hkept
    refine iff_of_true ⟨fun hc => absurd hc (not_closes ho), ?_, fun hc => absurd hc (not_closes ho), hkept.playing⟩
      fun hc => absurd hc (not_closes ho)
    rw [fcloses_open d.server ho]
    exact fun fd hfd => absurd hfd List.not_mem_nil
  obtain ho | ⟨ho, h0⟩ | hc := hl.kind
  · exact hopen ho.1 (h.next_opens hl ho)
  · exact hopen ho (h.next_failed ho h0)
  by_cases h0 : m.cmd.fd = 0
  · obtain ⟨-, -, -, hcl, hret⟩ := File.next_null (w := w) (d := d) hc h0
    refine iff_of_true ⟨fun _ hin => absurd h0 (h.handles _ hin).1, ?_, fun _ _ x hx => ?_, (h.next_null hc h0).playing⟩
      fun _ => Or.inl h0
    · rw [hcl]
      exact fun fd hfd => absurd hfd List.not_mem_nil
    · rw [sent_handleFile, List.mem_singleton] at hx
      rw [hx, hret]
      decide
  · obtain ⟨-, -, -, hcl, hret⟩ := File.next_closes (w := w) (d := d) hc h0
    by_cases hr : m.cmd.fd ∈ d.recorded
    · have hin := h.opened hr
      rw [if_pos ((h.slots.firstSlot_isSome_iff (h.handles _ hin).2).mpr hr)] at hcl
      refine iff_of_true ⟨fun _ _ => hcl, ?_, fun _ hout => absurd hin hout, (h.next_closes hc hr).playing⟩ fun _ => Or.inr hr
      rw [hcl]
      exact fun fd hfd => List.mem_singleton.mp hfd ▸ hin
    · refine iff_of_false (fun hd => ?_) fun hk => (hk hc).elim h0 hr
      by_cases hin : m.cmd.fd ∈ d.opened
      · have hnone : ¬ (firstSlot 10 d.server.filestatus m.cmd.fd).isSome = true :=
          fun hs => hr ((h.slots.firstSlot_isSome_iff (h.handles _ hin).2).mp hs)
        have hclosed := hd.closes hc hin
        rw [hcl, if_neg hnone] at hclosed
        exact absurd hclosed (List.cons_ne_nil _ _).symm
      · refine hd.refused hc hin (fileQid, (d.server.handleFile m w).1.r) ?_ hret
        rw [sent_handleFile]
        exact List.mem_singleton_self _

end step

/-- In every sequence of opens and closes, every message is handled as it should, exactly when every close names 0 or a handle that is
recorded. -/
theorem closedOnce_every_iff (w : Windows) (l : List Message) (hl : Every (Desk.next w) Desk.Legal .start l) :
    Every (Desk.next w) (Desk.ClosedOnce w) .start l ↔ Every (Desk.next w) Desk.Known .start l :=
  every_iff (fun h hl => h.closedOnce_iff hl) (fun h hl hk => h.next hl hk) l Kept.start hl

/-! ## Two sequences -/

/-- A message without a request for data. -/
def message (msgid : Byte) (fopen fd : Word) (gFilename : CString) : Message where
  req := { msgid := msgid, addr := 0x1000, len := 0, fd := 0, bFileSeek := 0, offset := 0, whence := 0 }
  cmd := { mode := modeR, name := dlist, fd := fd, offset := 0, whence := 0 }
  libc := { devMem := true, mmap := 0, fopen := fopen, fread := 0, feof := false, ferror := false, fwrite := 0, ftell := 0 }
  gFilename := gFilename
  stack _ := 0

/-- The media file is opened and another one, a third cannot be, and both are closed. -/
def twoFiles : List Message :=
  [message fileOpen 0x1000 0 dlist, message fileOpen 0x2000 0 dlm, message fileOpen 0 0 dlm, message fileClose 0 0x1000 dlm,
    message fileClose 0 0 dlm, message fileClose 0 0x2000 dlm]

theorem closedOnce_two : Every (Desk.next ⟨0, 0, 0⟩) (Desk.ClosedOnce ⟨0, 0, 0⟩) .start twoFiles :=
  (closedOnce_every_iff ⟨0, 0, 0⟩ twoFiles (by decide +kernel)).mpr (by decide +kernel)

/-- Eleven files are opened and the last one is closed. -/
def elevenFiles : List Message :=
  (List.range 11).map (fun i => message fileOpen (BitVec.ofNat 32 (i + 1)) 0 dlm) ++ [message fileClose 0 11 dlm]

/-- The eleventh file stays open. -/
theorem eleventh_not_closed : Every (Desk.next ⟨0, 0, 0⟩) Desk.Legal .start elevenFiles ∧
    ¬ Every (Desk.next ⟨0, 0, 0⟩) (Desk.ClosedOnce ⟨0, 0, 0⟩) .start elevenFiles := by
  have hlegal : Every (Desk.next ⟨0, 0, 0⟩) Desk.Legal .start elevenFiles := by decide +kernel
  refine ⟨hlegal, fun h => ?_⟩
  have hknown : ¬ Every (Desk.next ⟨0, 0, 0⟩) Desk.Known .start elevenFiles := by decide +kernel
  exact hknown ((every_iff (fun h hl => h.closedOnce_iff hl) (fun h hl hk => h.next hl hk) _ Kept.start hlegal).mp h)

end Emlinux.Piu.File
