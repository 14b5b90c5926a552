import Emlinux.Lib.Run
import Emlinux.Piu.File

/-!
# The replies to the DSP and the mappings

Each message has one reply, put together in a static variable: an open writes its handle, the other kinds their result, and the field that a message
does not write is what an earlier one has left there. An unknown message sends the reply before it once more. The command of a message
with an address above `0x5FFFFF` lies where `mapm` maps it, and what `handle_file` unmaps are the commands from `0x420000` on.

* `remap_roundtrip`: what `mapm` maps, `unmapm` unmaps again.
* `serve_open_reply`, `serve_ret_reply`: the field that a message writes, and the one that it leaves.
* `Clean.fits_iff`: the messages that are answered on their own and leave the mapped addresses as they were.
* `answered_every_iff`: all messages of a sequence, exactly when all of them are known and outside the upper part of the windows, and they
  are all opens or none of them is.
-/

namespace Emlinux.Piu.File

open Lib

/-! ## Mappings -/

/-- What `mapm` returns, as the pointer and the length. -/
def mappings (l : List Call) : List (Word × Word) := l.filterMap fun
  | .mapm _ len ptr => some (ptr, len)
  | _ => none

/-- The regions that are passed to `unmapm`. -/
def unmappings (l : List Call) : List (Word × Word) := l.filterMap fun
  | .unmapm ptr len => some (ptr, len)
  | _ => none

/-- `mapm` succeeds: `/dev/mem` opens, and `mmap` gives whole pages that were not mapped. -/
structure Message.Maps (m : Message) (space : Word → Bool) : Prop where
  devMem : m.libc.devMem = true
  success : m.libc.mmap ≠ mapFailed
  aligned : m.libc.mmap &&& (pagesize - 1) = 0
  fresh : ∀ x, inPages m.libc.mmap (m.req.len + (m.req.addr &&& (pagesize - 1))) x = true → space x = false

section mappings

variable {m : Message} {space : Word → Bool}

theorem toNat_offset (x : Word) : (x &&& (pagesize - 1)).toNat = x.toNat % 4096 := by
  rw [BitVec.toNat_and]
  exact Nat.and_two_pow_sub_one_eq_mod x.toNat 12

theorem Message.Maps.mapm_eq (h : m.Maps space) : m.mapm = m.libc.mmap + (m.req.addr &&& (pagesize - 1)) := by
  unfold Message.mapm fmapm
  rw [if_neg (by simp [h.devMem]), if_neg h.success]

/-- The pointer of `mapm` has the offset of the address. -/
theorem Message.Maps.offset (h : m.Maps space) : m.mapm &&& (pagesize - 1) = m.req.addr &&& (pagesize - 1) := by
  apply BitVec.eq_of_toNat_eq
  have haligned : m.libc.mmap.toNat % 4096 = 0 := by
    rw [← toNat_offset, h.aligned]
    rfl
  have hoffset := toNat_offset m.req.addr
  rw [toNat_offset, h.mapm_eq, BitVec.toNat_add, hoffset]
  omega

/-- What `mapm` maps, `unmapm` unmaps again. -/
theorem remap_roundtrip (h : m.Maps space) :
    m.remap (m.remap space (.mapm m.req.addr m.req.len m.mapm)) (.unmapm m.mapm m.req.len) = space := by
  have hstart : m.mapm - (m.mapm &&& (pagesize - 1)) = m.libc.mmap := by
    rw [h.offset, h.mapm_eq, BitVec.add_sub_cancel]
  have hfail : ¬ (m.libc.devMem = false ∨ m.libc.mmap = mapFailed) := by
    rintro (hdev | hmap)
    · rw [h.devMem] at hdev
      cases hdev
    · exact h.success hmap
  funext x
  unfold Message.remap
  dsimp only
  rw [hstart, h.offset, if_neg hfail]
  cases hin : inPages m.libc.mmap (m.req.len + (m.req.addr &&& (pagesize - 1))) x with
  | true => rw [h.fresh x hin, Bool.not_true, Bool.and_false]
  | false => rw [Bool.or_false, Bool.not_false, Bool.and_true]

variable {l : List Call}

theorem remap_onFile (h : ∀ c ∈ l, c.onFile = true) : l.foldl m.remap space = space := by
  induction l generalizing space with
  | nil => rfl
  | cons c l ih =>
    have hc : m.remap space c = space := by
      have hfile := h c List.mem_cons_self
      cases c <;> first | rfl | exact absurd hfile (by simp [Call.onFile])
    rw [List.foldl_cons, hc]
    exact ih fun c hc => h c (List.mem_cons_of_mem _ hc)

end mappings

/-! ## Replies -/

section replies

variable {m : Message}

/-- The kinds of messages that are handled. -/
def kinds : List Byte := [fileOpen, fileClose, fileRead, fileSeek, fileTell, msfileName, fileWrite]

/-- An open writes the handle, or -1, and leaves the result as it is. -/
theorem serve_open_reply (h : m.req.msgid = fileOpen) : ∃ fd, fd ≠ 0 ∧ ∀ (s : Server) ptr,
    (s.serve m ptr).1.repmsg = { msgid := m.req.msgid, fd := fd, ret := s.repmsg.ret } ∧
      (s.serve m ptr).1.r = { type := piuRep, len := 12, rep := (s.serve m ptr).1.repmsg } := by
  by_cases h0 : m.libc.fopen = 0
  · refine ⟨-1, by decide, fun s ptr => ?_⟩
    have hserve : s.serve m ptr = s.openFile m := if_pos h
    rw [hserve, Server.openFile]
    dsimp only
    rw [if_neg (not_not.mpr h0)]
    exact ⟨rfl, rfl⟩
  · refine ⟨m.libc.fopen, h0, fun s ptr => ?_⟩
    have hserve : s.serve m ptr = s.openFile m := if_pos h
    rw [hserve, Server.openFile]
    dsimp only
    rw [if_pos h0]
    exact ⟨rfl, rfl⟩

/-- The result of a message of another kind. -/
def Message.ownRet (m : Message) : Word :=
  if m.req.msgid = fileClose then if m.cmd.fd = 0 then -1 else 1
  else if m.req.msgid = fileRead then if m.req.fd = 0 then -3 else m.libc.freadRet
  else if m.req.msgid = fileWrite then if m.req.fd = 0 then -3 else m.libc.fwriteRet
  else if m.req.msgid = fileSeek then if m.req.fd = 0 then -1 else 1
  else if m.req.msgid = fileTell then if m.req.fd = 0 then -1 else m.libc.ftellRet
  else 1

theorem ownRet_ne_zero (m : Message) : m.ownRet ≠ 0 := by
  unfold Message.ownRet Libc.freadRet Libc.fwriteRet Libc.ftellRet
  split_ifs <;> first | assumption | decide

/-- The other kinds write their result and leave the handle as it is. -/
theorem serve_ret_reply (hk : m.req.msgid ∈ kinds) (ho : m.req.msgid ≠ fileOpen) (s : Server) (ptr : Word) :
    (s.serve m ptr).1.repmsg = { msgid := m.req.msgid, fd := s.repmsg.fd, ret := m.ownRet } ∧
      (s.serve m ptr).1.r = { type := piuRep, len := 12, rep := (s.serve m ptr).1.repmsg } := by
  unfold Server.serve Message.ownRet
  rw [if_neg ho]
  by_cases hclose : m.req.msgid = fileClose
  · rw [if_pos hclose, if_pos hclose, Server.closeFile]
    dsimp only
    split_ifs <;> exact ⟨rfl, rfl⟩
  rw [if_neg hclose, if_neg hclose]
  by_cases hread : m.req.msgid = fileRead
  · rw [if_pos hread, if_pos hread, Server.readFile]
    split_ifs <;> exact ⟨rfl, rfl⟩
  rw [if_neg hread, if_neg hread]
  by_cases hwrite : m.req.msgid = fileWrite
  · rw [if_pos hwrite, if_pos hwrite, Server.writeFile]
    split_ifs <;> exact ⟨rfl, rfl⟩
  rw [if_neg hwrite, if_neg hwrite]
  by_cases hseek : m.req.msgid = fileSeek
  · rw [if_pos hseek, if_pos hseek, Server.seekFile]
    split_ifs <;> exact ⟨rfl, rfl⟩
  rw [if_neg hseek, if_neg hseek]
  by_cases htell : m.req.msgid = fileTell
  · rw [if_pos htell, if_pos htell, Server.tellFile]
    split_ifs <;> exact ⟨rfl, rfl⟩
  rw [if_neg htell, if_neg htell]
  have hname : m.req.msgid = msfileName := by
    simp only [kinds, List.mem_cons, List.not_mem_nil, ho, hclose, hread, hwrite, hseek, htell, false_or, or_false] at hk
    exact hk
  rw [if_pos hname]
  exact ⟨rfl, rfl⟩

theorem serve_unknown (h : m.req.msgid ∉ kinds) (s : Server) (ptr : Word) : s.serve m ptr = (s, []) := by
  have hne : ∀ k ∈ kinds, m.req.msgid ≠ k := fun k hk heq => h (heq ▸ hk)
  unfold Server.serve
  rw [if_neg (hne _ (by decide)), if_neg (hne _ (by decide)), if_neg (hne _ (by decide)), if_neg (hne _ (by decide)),
    if_neg (hne _ (by decide)), if_neg (hne _ (by decide)), if_neg (hne _ (by decide))]

end replies

/-! ## Sequences -/

/-- `handle_file` with the mapped addresses and the kinds of the messages so far. -/
structure Session where
  server : Server
  space : Word → Bool
  served : List Byte

namespace Session

variable (w : Windows)

def start (space : Word → Bool) : Session where
  server := .init
  space := space
  served := []

def next (s : Session) (m : Message) : Session where
  server := (s.server.handleFile m w).1
  space := (s.server.handleFile m w).2.foldl m.remap s.space
  served := m.req.msgid :: s.served

/-- `mapm` succeeds where it is called. -/
def Legal (s : Session) (m : Message) : Prop := 0x5FFFFF < m.req.addr → m.Maps s.space

/-- One reply is sent, to this message and with the fields that it would have if no message had come before; what is unmapped is what was
mapped for it, and the mapped addresses are as before. -/
structure Answered (s : Session) (m : Message) : Prop where
  reply : ∃ r, sent (s.server.handleFile m w).2 = [(fileQid, r)] ∧ r.type = piuRep ∧ r.rep.msgid = m.req.msgid ∧
    r.rep = (Server.init.handleFile m w).1.r.rep
  regions : unmappings (s.server.handleFile m w).2 = mappings (s.server.handleFile m w).2
  space : (s.next w m).space = s.space

/-- The message is of a known kind, its address is not in the upper part of the windows, and no message before it has written the field that it
leaves. -/
def Fits (s : Session) (m : Message) : Prop :=
  m.req.msgid ∈ kinds ∧ (m.req.addr < 0x420000 ∨ 0x5FFFFF < m.req.addr) ∧
    if m.req.msgid = fileOpen then ∀ id ∈ s.served, id = fileOpen else fileOpen ∉ s.served

instance (s : Session) (m : Message) : Decidable (s.Fits m) := inferInstanceAs (Decidable (_ ∧ _ ∧ _))

end Session

/-- Which fields of the reply have been written. -/
structure Clean (s : Session) : Prop where
  fd : s.server.repmsg.fd = 0 ↔ fileOpen ∉ s.served
  ret : s.server.repmsg.ret = 0 ↔ ∀ id ∈ s.served, id = fileOpen
  last : s.server.r.type = piuRep → s.server.r.rep.msgid ∈ kinds

theorem Clean.start (space : Word → Bool) : Clean (.start space) where
  fd := iff_of_true rfl List.not_mem_nil
  ret := iff_of_true rfl fun _ h => absurd h List.not_mem_nil
  last h := absurd (show (0 : Word) = piuRep from h) (by decide)

section sequences

variable {w : Windows} {s : Session} {m : Message}

theorem mappings_handleFile (s : Server) : mappings (s.handleFile m w).2 =
    if m.req.addr ≤ 0x5FFFFF then [] else [(m.mapm, m.req.len)] := by
  unfold mappings
  rw [handleFile_calls, List.filterMap_append, List.filterMap_append, List.filterMap_append,
    filterMap_onFile (fun c _ => by cases c <;> first | rfl | contradiction) (serve_onFile s m (m.cmdbuf w).1)]
  split_ifs <;> rfl

theorem unmappings_handleFile (s : Server) : unmappings (s.handleFile m w).2 =
    if 0x420000 ≤ m.req.addr then [((m.cmdbuf w).1, m.req.len)] else [] := by
  unfold unmappings
  rw [handleFile_calls, List.filterMap_append, List.filterMap_append, List.filterMap_append,
    filterMap_onFile (fun c _ => by cases c <;> first | rfl | contradiction) (serve_onFile s m (m.cmdbuf w).1)]
  split_ifs <;> rfl

theorem space_next : (s.next w m).space =
    (if 0x420000 ≤ m.req.addr then [Call.unmapm (m.cmdbuf w).1 m.req.len] else []).foldl m.remap
      ((if m.req.addr ≤ 0x5FFFFF then [] else [Call.mapm m.req.addr m.req.len m.mapm]).foldl m.remap s.space) := by
  show (s.server.handleFile m w).2.foldl m.remap s.space = _
  rw [handleFile_calls, List.foldl_append, List.foldl_append, List.foldl_append,
    remap_onFile (serve_onFile s.server m (m.cmdbuf w).1)]
  rfl

/-- Outside the upper part of the windows what is unmapped is what was mapped. -/
theorem regions_iff : unmappings (s.server.handleFile m w).2 = mappings (s.server.handleFile m w).2 ↔
    m.req.addr < 0x420000 ∨ 0x5FFFFF < m.req.addr := by
  rw [unmappings_handleFile, mappings_handleFile]
  by_cases hlow : m.req.addr < 0x420000
  · have hno : ¬ 0x420000 ≤ m.req.addr := by bv_omega
    have hwin : m.req.addr ≤ 0x5FFFFF := by bv_omega
    rw [if_neg hno, if_pos hwin]
    exact iff_of_true rfl (Or.inl hlow)
  · have hun : 0x420000 ≤ m.req.addr := by bv_omega
    rw [if_pos hun]
    by_cases hhigh : 0x5FFFFF < m.req.addr
    · have hext : ¬ m.req.addr ≤ 0x5FFFFF := by bv_omega
      have hptr : (m.cmdbuf w).1 = m.mapm := by
        unfold Message.cmdbuf
        rw [if_neg hext]
      rw [if_neg hext, hptr]
      exact iff_of_true rfl (Or.inr hhigh)
    · have hwin : m.req.addr ≤ 0x5FFFFF := by bv_omega
      rw [if_pos hwin]
      exact iff_of_false (List.cons_ne_nil _ _) fun h => h.elim hlow hhigh

theorem space_kept (hl : s.Legal m) (h : m.req.addr < 0x420000 ∨ 0x5FFFFF < m.req.addr) : (s.next w m).space = s.space := by
  rw [space_next]
  obtain hlow | hhigh := h
  · have hno : ¬ 0x420000 ≤ m.req.addr := by bv_omega
    have hwin : m.req.addr ≤ 0x5FFFFF := by bv_omega
    rw [if_neg hno, if_pos hwin]
    rfl
  · have hun : 0x420000 ≤ m.req.addr := by bv_omega
    have hext : ¬ m.req.addr ≤ 0x5FFFFF := by bv_omega
    have hptr : (m.cmdbuf w).1 = m.mapm := by
      unfold Message.cmdbuf
      rw [if_neg hext]
    rw [if_pos hun, if_neg hext, hptr]
    exact remap_roundtrip (hl hhigh)

/-- The reply of a known message is the one it would have as the first, exactly when the field that it leaves has not been written. -/
theorem Clean.reply_iff (h : Clean s) (hk : m.req.msgid ∈ kinds) :
    (s.server.handleFile m w).1.r.rep = (Server.init.handleFile m w).1.r.rep ↔
      if m.req.msgid = fileOpen then ∀ id ∈ s.served, id = fileOpen else fileOpen ∉ s.served := by
  show (s.server.serve m (m.cmdbuf w).1).1.r.rep = (Server.init.serve m (m.cmdbuf w).1).1.r.rep ↔ _
  by_cases ho : m.req.msgid = fileOpen
  · obtain ⟨fd, -, hrep⟩ := serve_open_reply ho
    rw [(hrep _ _).2, (hrep _ _).2, (hrep _ _).1, (hrep _ _).1, if_pos ho, ← h.ret]
    simp [Server.init]
  · have hrep := serve_ret_reply hk ho
    rw [(hrep _ _).2, (hrep _ _).2, (hrep _ _).1, (hrep _ _).1, if_neg ho, ← h.fd]
    simp [Server.init]

/-- A known message is answered with its own kind. -/
theorem known_reply (hk : m.req.msgid ∈ kinds) (s : Server) : (s.handleFile m w).1.r.type = piuRep ∧
    (s.handleFile m w).1.r.rep = (s.handleFile m w).1.repmsg ∧ (s.handleFile m w).1.repmsg.msgid = m.req.msgid := by
  show (s.serve m (m.cmdbuf w).1).1.r.type = piuRep ∧
    (s.serve m (m.cmdbuf w).1).1.r.rep = (s.serve m (m.cmdbuf w).1).1.repmsg ∧
    (s.serve m (m.cmdbuf w).1).1.repmsg.msgid = m.req.msgid
  by_cases ho : m.req.msgid = fileOpen
  · obtain ⟨fd, -, hrep⟩ := serve_open_reply ho
    rw [(hrep _ _).2, (hrep _ _).1]
    exact ⟨rfl, rfl, rfl⟩
  · have hrep := serve_ret_reply hk ho
    rw [(hrep _ _).2, (hrep _ _).1]
    exact ⟨rfl, rfl, rfl⟩

theorem Clean.fits_iff (h : Clean s) (hl : s.Legal m) : s.Answered w m ↔ s.Fits m := by
  by_cases hk : m.req.msgid ∈ kinds
  · obtain ⟨htype, hrep, hid⟩ := known_reply (w := w) hk s.server
    constructor
    · intro ha
      obtain ⟨r, hsent, -, -, heq⟩ := ha.reply
      rw [sent_handleFile, List.singleton_inj, Prod.mk.injEq] at hsent
      rw [← hsent.2] at heq
      exact ⟨hk, regions_iff.mp ha.regions, (h.reply_iff hk).mp heq⟩
    · intro hf
      refine ⟨⟨_, sent_handleFile _ _ _, htype, ?_, (h.reply_iff hk).mpr hf.2.2⟩, regions_iff.mpr hf.2.1, space_kept hl hf.2.1⟩
      rw [hrep, hid]
  · refine iff_of_false (fun ha => ?_) fun hf => hk hf.1
    obtain ⟨r, hsent, htype, hid, -⟩ := ha.reply
    have hserver : (s.server.handleFile m w).1 = s.server := congrArg Prod.fst (serve_unknown hk s.server (m.cmdbuf w).1)
    rw [sent_handleFile, List.singleton_inj, Prod.mk.injEq, hserver] at hsent
    rw [← hsent.2] at htype hid
    exact hk (hid ▸ h.last htype)

theorem Clean.next (h : Clean s) (hf : s.Fits m) : Clean (s.next w m) := by
  obtain ⟨-, hrep, hid⟩ := known_reply (w := w) hf.1 s.server
  have hlast : (s.next w m).server.r.rep.msgid ∈ kinds := by
    show (s.server.handleFile m w).1.r.rep.msgid ∈ kinds
    rw [hrep, hid]
    exact hf.1
  have hserved : (s.next w m).served = m.req.msgid :: s.served := rfl
  by_cases ho : m.req.msgid = fileOpen
  · obtain ⟨fd, hfd, hrep⟩ := serve_open_reply ho
    have hmsg : (s.next w m).server.repmsg = { msgid := m.req.msgid, fd := fd, ret := s.server.repmsg.ret } :=
      (hrep s.server (m.cmdbuf w).1).1
    refine ⟨?_, ?_, fun _ => hlast⟩
    · rw [hmsg, hserved, ho]
      exact iff_of_false hfd fun hn => hn List.mem_cons_self
    · rw [hmsg, hserved, ho, List.forall_mem_cons, and_iff_right rfl]
      exact h.ret
  · have hmsg : (s.next w m).server.repmsg = { msgid := m.req.msgid, fd := s.server.repmsg.fd, ret := m.ownRet } :=
      (serve_ret_reply hf.1 ho s.server (m.cmdbuf w).1).1
    refine ⟨?_, ?_, fun _ => hlast⟩
    · rw [hmsg, hserved, List.mem_cons, not_or, and_iff_right (Ne.symm ho)]
      exact h.fd
    · rw [hmsg, hserved, List.forall_mem_cons]
      exact iff_of_false (ownRet_ne_zero m) fun hn => ho hn.1

end sequences

/-- In every sequence of messages, each one is answered on its own and leaves the mapped addresses as they were, exactly when all are known
and outside the upper part of the windows, and they are all opens or none of them is. -/
theorem answered_every_iff (w : Windows) (space : Word → Bool) (l : List Message)
    (hl : Every (Session.next w) Session.Legal (.start space) l) :
    Every (Session.next w) (Session.Answered w) (.start space) l ↔ Every (Session.next w) Session.Fits (.start space) l :=
  every_iff (fun h hl => h.fits_iff hl) (fun h _ hf => h.next hf) l (Clean.start space) hl

/-! ## Two sequences -/

/-- A read of 16 bytes from handle 3 to the address. -/
def readTo (addr mmap : Word) : Message where
  req := { msgid := fileRead, addr := addr, len := 16, fd := 3, bFileSeek := 0, offset := 0, whence := 0 }
  cmd := { mode := modeR, name := dlm, fd := 0, offset := 0, whence := 0 }
  libc := { devMem := true, mmap := mmap, fopen := 0, fread := 16, feof := false, ferror := false, fwrite := 0, ftell := 0 }
  gFilename := dlm
  stack _ := 0

/-- A read into a window, then one into the external memory. -/
theorem answered_reads : Every (Session.next ⟨0, 0, 0⟩) (Session.Answered ⟨0, 0, 0⟩) (.start fun _ => false)
    [readTo 0x1000 0, readTo 0x800010 0x40000000] :=
  (answered_every_iff ⟨0, 0, 0⟩ (fun _ => false) [readTo 0x1000 0, readTo 0x800010 0x40000000]
    ⟨fun h => absurd h (by decide), fun _ => ⟨rfl, by decide, by decide, fun _ _ => rfl⟩, trivial⟩).mpr (by decide +kernel)

/-- A message in the upper part of the windows: the window is unmapped. -/
theorem window_unmapped : ¬ Every (Session.next ⟨0, 0, 0x41000000⟩) (Session.Answered ⟨0, 0, 0x41000000⟩) (.start fun _ => true)
    [readTo 0x430000 0] := by
  intro h
  have hregions : ([(0x41030000, 16)] : List (Word × Word)) = [] := h.1.regions
  cases hregions

end Emlinux.Piu.File
