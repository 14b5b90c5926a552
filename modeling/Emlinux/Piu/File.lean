import Emlinux.Lib.CString
import Emlinux.Lib.Slots
import Emlinux.Piu.Device

/-!
# The files of the DSP

`handle_file` of `file_piu.c` does the file operations that the DSP asks for, one message at a time, with `OPTIMIZE_FILEIO` set. A message
has a request, and for some kinds of it a command that lies in the memory of the DSP: in one of three windows that are mapped for good, or, from
the external memory on, where `mapm` maps it for this message. The request and the reply are static variables: what a message does not write
of the reply is what an earlier one left.

What the C library and the kernel answer is part of the message, and the calls that `handle_file` makes are a list. The mapped
addresses are those of the process.
-/

namespace Emlinux.Piu.File

open Lib

/-! ## Messages -/

/-- `PIUMSG_FILE_OPEN`. -/
def fileOpen : Byte := 0x21

/-- `PIUMSG_FILE_CLOSE`. -/
def fileClose : Byte := 0x22

/-- `PIUMSG_FILE_READ`. -/
def fileRead : Byte := 0x23

/-- `PIUMSG_FILE_SEEK`. -/
def fileSeek : Byte := 0x24

/-- `PIUMSG_FILE_TELL`. -/
def fileTell : Byte := 0x25

/-- `PIUMSG_MSFILE_NAME`. -/
def msfileName : Byte := 0x28

/-- `PIUMSG_FILE_WRITE`. -/
def fileWrite : Byte := 0x29

/-- `PIU_FILE_QID`. -/
def fileQid : Word := 1

/-- `PIU_REP`. -/
def piuRep : Word := 2

/-- `piufile_t`. -/
structure Piufile where
  msgid : Byte
  addr : Word
  len : Word
  fd : Word
  bFileSeek : Byte
  offset : Word
  whence : BitVec 16
deriving DecidableEq

/-- `piufile_rep_t`. -/
structure PiufileRep where
  msgid : Byte
  fd : Word
  ret : Word
deriving DecidableEq, Repr

/-- `file_piu_r`, with the `piufile_rep_t` at the start of its data. -/
structure Reply where
  type : Word
  len : Word
  rep : PiufileRep
deriving DecidableEq, Repr

/-- What lies at the address of the command: the fields that are read of `fopen_t`, of `fclose_t` and of `fseek_t`. -/
structure Command where
  mode : CString
  name : CString
  fd : Word
  offset : Word
  whence : Word

/-- The results of the calls of one message. -/
structure Libc where
  devMem : Bool
  mmap : Word
  fopen : Word
  fread : Word
  feof : Bool
  ferror : Bool
  fwrite : Word
  ftell : Word

namespace Libc

variable (c : Libc)

/-- The result of a read. -/
def freadRet : Word :=
  if c.fread ≠ 0 then c.fread else if c.feof = true then -1 else if c.ferror = true then -2 else -1

/-- The result of a write. -/
def fwriteRet : Word := if c.fwrite ≠ 0 then c.fwrite else -1

/-- The result of a tell. -/
def ftellRet : Word := if c.ftell = 0 then -1 else c.ftell

end Libc

/-- A message with what `handle_file` finds while it handles it; `stack` is what lies where the buffer of the name is. -/
structure Message where
  req : Piufile
  cmd : Command
  libc : Libc
  gFilename : CString
  stack : Nat → Byte

/-- The calls of `handle_file`; `mapm` with the pointer that it returns. -/
inductive Call where
  | mapm (addr len ptr : Word)
  | unmapm (ptr len : Word)
  | fopen (name : Option CString) (mode : CString)
  | fclose (fd : Word)
  | fseek (fd offset whence : Word)
  | fread (ptr len fd : Word)
  | fwrite (ptr len fd : Word)
  | ftell (fd : Word)
  | strcpy (ptr : Word) (s : CString)
  | tx (qid : Word) (r : Reply)
deriving DecidableEq

/-! ## Mappings -/

/-- `getpagesize()`. -/
def pagesize : Word := 4096

/-- `MAP_FAILED`, also `MAPM_ERR_MAP`. -/
def mapFailed : Word := -1

/-- `MAPM_ERR_FILE`. -/
def mapmErrFile : Word := -2

/-- `fmapm`. -/
def fmapm (mmap addr : Word) : Word := if mmap = mapFailed then mapFailed else mmap + (addr &&& (pagesize - 1))

namespace Message

variable (m : Message)

/-- `mapm`. -/
def mapm : Word := if m.libc.devMem = false then mapmErrFile else fmapm m.libc.mmap m.req.addr

end Message

/-- The addresses of the pages from `start` on that have one of the `len` bytes. -/
def inPages (start len x : Word) : Bool :=
  decide (start.toNat ≤ x.toNat ∧ x.toNat < start.toNat + (len.toNat + 4095) / 4096 * 4096)

/-- What a call does to the mapped addresses: `mmap` maps `len + ofs` bytes, and `munmap` takes the page of the pointer for their start. -/
def Message.remap (m : Message) (mapped : Word → Bool) : Call → Word → Bool
  | .mapm addr len _ => fun x =>
    if m.libc.devMem = false ∨ m.libc.mmap = mapFailed then mapped x
    else mapped x || inPages m.libc.mmap (len + (addr &&& (pagesize - 1))) x
  | .unmapm ptr len => fun x =>
    mapped x && !inPages (ptr - (ptr &&& (pagesize - 1))) (len + (ptr &&& (pagesize - 1))) x
  | _ => mapped

/-- `pL1`, `pL20` and `pL21`. -/
structure Windows where
  pL1 : Word
  pL20 : Word
  pL21 : Word

/-- Where the command lies, and the call that maps it. -/
def Message.cmdbuf (w : Windows) (m : Message) : Word × List Call :=
  if m.req.addr ≤ 0x5FFFFF then
    if m.req.addr < 0x100000 then (w.pL1 + m.req.addr, [])
    else if m.req.addr < 0x400000 then (w.pL20 + m.req.addr - 0x200000, [])
    else (w.pL21 + m.req.addr - 0x400000, [])
  else (m.mapm, [.mapm m.req.addr m.req.len m.mapm])

/-! ## The name of a program file -/

def ascii (c : Char) : Byte := BitVec.ofNat 8 c.toNat

/-- `DSP_BIN_PATH`. -/
def dspBinPath : CString where
  bytes := ['/', 'e', 'm', 'l', 'x', '-', 'a', 'p', 'p', '/', 'a', 'v', 'd', 's', 'p', '/', 'l', 'o', 'c', 'a', 'l', '/', 'b',
    'i', 'n'].map ascii
  nul := by decide

def slash : CString where
  bytes := [ascii '/']
  nul := by decide

def dlm : CString where
  bytes := ['.', 'd', 'l', 'm'].map ascii
  nul := by decide

def dlist : CString where
  bytes := ['.', 'd', 'l', 'i', 's', 't'].map ascii
  nul := by decide

def modeR : CString where
  bytes := [ascii 'r']
  nul := by decide

def modeRb : CString where
  bytes := ['r', 'b'].map ascii
  nul := by decide

def modeRt : CString where
  bytes := ['r', 't'].map ascii
  nul := by decide

/-- The size of `name`. -/
def nameSize (name : CString) : Nat := name.strlen + dspBinPath.strlen + 2

/-- The test for a program file; `strncasecmp` is zero for strings that are the same. -/
def isDspFile (name : CString) : Bool :=
  decide (ascii '/' ∉ name.bytes) &&
    ((decide (4 ≤ name.strlen) && decide ((name.drop (name.strlen - 4)).strncasecmp dlm 4 ≠ 0)) ||
      (decide (5 ≤ name.strlen) && decide ((name.drop (name.strlen - 5)).strncasecmp dlist 5 ≠ 0)))

/-- The buffer `name` after the copies, or `none` when one of them writes behind its end. -/
def nameBuffer (stack : Nat → Byte) (name : CString) : Option (Nat → Byte) :=
  (name.strcpy (nameSize name) stack 0).bind fun b =>
    if isDspFile name = true then
      (dspBinPath.strcpy (nameSize name) b 0).bind fun b =>
      (slash.strcpy (nameSize name) b dspBinPath.strlen).bind fun b =>
      name.strcpy (nameSize name) b (dspBinPath.strlen + 1)
    else some b

/-- The name that `fopen` is called with. -/
def fopenName (stack : Nat → Byte) (name : CString) : Option CString :=
  (nameBuffer stack name).map (CString.stringAt (nameSize name))

/-! ## The handler -/

/-- An empty slot of `filestatus`. -/
def emptySlot : Word := 0xffffffff

/-- The variables of `file_piu.c`. -/
structure Server where
  filestatus : Nat → Word
  isplaying : Word
  repmsg : PiufileRep
  r : Reply

namespace Server

variable (s : Server) (m : Message)

def init : Server where
  filestatus _ := emptySlot
  isplaying := 0
  repmsg := { msgid := 0, fd := 0, ret := 0 }
  r := { type := 0, len := 0, rep := { msgid := 0, fd := 0, ret := 0 } }

def setFd (fd : Word) : Server := { s with repmsg := { s.repmsg with fd := fd } }

def setRet (ret : Word) : Server := { s with repmsg := { s.repmsg with ret := ret } }

/-- The last lines of every case: the reply is put together. -/
def answer : Server :=
  let rep := { s.repmsg with msgid := m.req.msgid }
  { s with repmsg := rep, r := { type := piuRep, len := 12, rep := rep } }

/-- `PIUMSG_FILE_OPEN`. -/
def openFile : Server × List Call :=
  let mode := if m.cmd.mode = modeR ∨ m.cmd.mode = modeRb ∨ m.cmd.mode = modeRt then modeRb else m.cmd.mode
  let fd := m.libc.fopen
  let s := if fd ≠ 0 then
      { s.setFd fd with
        filestatus := replaceFirst 10 s.filestatus emptySlot fd
        isplaying := if m.cmd.name = m.gFilename then fd else s.isplaying }
    else s.setFd (-1)
  (s.answer m, [.fopen (fopenName m.stack m.cmd.name) mode])

/-- `PIUMSG_FILE_CLOSE`. -/
def closeFile : Server × List Call :=
  let fd := m.cmd.fd
  if fd = 0 then ((s.setRet (-1)).answer m, [])
  else
    let s := { s with isplaying := if s.isplaying = fd then 0 else s.isplaying }
    let calls := if (firstSlot 10 s.filestatus fd).isSome then [.fclose fd] else []
    let s := { s with filestatus := replaceFirst 10 s.filestatus fd emptySlot }
    ((s.setRet 1).answer m, calls)

/-- The `fseek` that a read or a tell is asked to do first. -/
def seekFirst : List Call :=
  if m.req.bFileSeek = 1 then [.fseek m.req.fd m.req.offset (m.req.whence.setWidth 32)] else []

/-- `PIUMSG_FILE_READ`. -/
def readFile (ptr : Word) : Server × List Call :=
  if m.req.fd = 0 then ((s.setRet (-3)).answer m, [])
  else ((s.setRet m.libc.freadRet).answer m, seekFirst m ++ [.fread ptr m.req.len m.req.fd])

/-- `PIUMSG_FILE_WRITE`. -/
def writeFile (ptr : Word) : Server × List Call :=
  if m.req.fd = 0 then ((s.setRet (-3)).answer m, [])
  else ((s.setRet m.libc.fwriteRet).answer m, [.fwrite ptr m.req.len m.req.fd])

/-- `PIUMSG_FILE_SEEK`. -/
def seekFile : Server × List Call :=
  if m.req.fd = 0 then ((s.setRet (-1)).answer m, [])
  else ((s.setRet 1).answer m, [.fseek m.req.fd m.cmd.offset m.cmd.whence])

/-- `PIUMSG_FILE_TELL`. -/
def tellFile : Server × List Call :=
  if m.req.fd = 0 then ((s.setRet (-1)).answer m, [])
  else ((s.setRet m.libc.ftellRet).answer m, seekFirst m ++ [.ftell m.req.fd])

/-- `PIUMSG_MSFILE_NAME`; `g_filename` is an array, so that it is not null. -/
def nameFile (ptr : Word) : Server × List Call := ((s.setRet 1).answer m, [.strcpy ptr m.gFilename])

/-- The switch. An unknown message leaves the reply as it is. -/
def serve (ptr : Word) : Server × List Call :=
  if m.req.msgid = fileOpen then s.openFile m
  else if m.req.msgid = fileClose then s.closeFile m
  else if m.req.msgid = fileRead then s.readFile m ptr
  else if m.req.msgid = fileWrite then s.writeFile m ptr
  else if m.req.msgid = fileSeek then s.seekFile m
  else if m.req.msgid = fileTell then s.tellFile m
  else if m.req.msgid = msfileName then s.nameFile m ptr
  else (s, [])

/-- `handle_file`. -/
def handleFile (w : Windows) : Server × List Call :=
  let (ptr, maps) := m.cmdbuf w
  let (s', calls) := s.serve m ptr
  let unmaps := if 0x420000 ≤ m.req.addr then [.unmapm ptr m.req.len] else []
  (s', maps ++ calls ++ unmaps ++ [.tx fileQid s'.r])

end Server

/-! ## The calls of a message -/

/-- The handles that are closed. -/
def fcloses (l : List Call) : List Word := l.filterMap fun
  | .fclose fd => some fd
  | _ => none

/-- The replies that are sent, with their queue. -/
def sent (l : List Call) : List (Word × Reply) := l.filterMap fun
  | .tx qid r => some (qid, r)
  | _ => none

/-- The call is one of the C library on files. -/
def Call.onFile : Call → Bool
  | .mapm _ _ _ | .unmapm _ _ | .tx _ _ => false
  | _ => true

section calls

variable (s : Server) (m : Message) (w : Windows)

/-- The window or `mapm` makes no other call. -/
theorem cmdbuf_calls : (m.cmdbuf w).2 = if m.req.addr ≤ 0x5FFFFF then [] else [.mapm m.req.addr m.req.len m.mapm] := by
  unfold Message.cmdbuf
  split_ifs <;> rfl

/-- The switch makes calls on files only. -/
theorem serve_onFile (ptr : Word) : ∀ c ∈ (s.serve m ptr).2, c.onFile = true := by
  have hseek : ∀ c ∈ Server.seekFirst m, c.onFile = true := by
    unfold Server.seekFirst
    split_ifs <;> simp [Call.onFile]
  unfold Server.serve
  split_ifs
  · simp [Server.openFile, Call.onFile]
  · unfold Server.closeFile
    dsimp only
    split_ifs <;> simp [Call.onFile]
  · unfold Server.readFile
    split_ifs
    · simp
    · intro c hc
      obtain hc | hc := List.mem_append.mp hc
      · exact hseek c hc
      · rw [List.mem_singleton.mp hc]
        rfl
  · unfold Server.writeFile
    split_ifs <;> simp [Call.onFile]
  · unfold Server.seekFile
    split_ifs <;> simp [Call.onFile]
  · unfold Server.tellFile
    split_ifs
    · simp
    · intro c hc
      obtain hc | hc := List.mem_append.mp hc
      · exact hseek c hc
      · rw [List.mem_singleton.mp hc]
        rfl
  · simp [Server.nameFile, Call.onFile]
  · simp

/-- The calls of a message: the mapping, those of the switch, the unmapping, and the reply. -/
theorem handleFile_calls : (s.handleFile m w).2 =
    (if m.req.addr ≤ 0x5FFFFF then [] else [.mapm m.req.addr m.req.len m.mapm]) ++ (s.serve m (m.cmdbuf w).1).2 ++
      (if 0x420000 ≤ m.req.addr then [.unmapm (m.cmdbuf w).1 m.req.len] else []) ++ [.tx fileQid (s.handleFile m w).1.r] := by
  rw [← cmdbuf_calls m w]
  rfl

theorem filterMap_onFile {β : Type} {f : Call → Option β} (hf : ∀ c, c.onFile = true → f c = none) {l : List Call}
    (h : ∀ c ∈ l, c.onFile = true) : l.filterMap f = [] := by
  apply List.filterMap_eq_nil_iff.mpr
  intro c hc
  exact hf c (h c hc)

/-- Every message has one reply. -/
theorem sent_handleFile : sent (s.handleFile m w).2 = [(fileQid, (s.handleFile m w).1.r)] := by
  unfold sent
  rw [handleFile_calls, List.filterMap_append, List.filterMap_append, List.filterMap_append,
    filterMap_onFile (fun c _ => by cases c <;> first | rfl | contradiction) (serve_onFile s m (m.cmdbuf w).1)]
  split_ifs <;> rfl

theorem fcloses_handleFile : fcloses (s.handleFile m w).2 = fcloses (s.serve m (m.cmdbuf w).1).2 := by
  unfold fcloses
  rw [handleFile_calls, List.filterMap_append, List.filterMap_append, List.filterMap_append]
  split_ifs <;> simp

end calls

end Emlinux.Piu.File
