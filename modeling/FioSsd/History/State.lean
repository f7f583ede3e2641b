import FioSsd.Seg2bitsmap.Map

/-! # The write history

A job remembers its completed writes as `io_piece`s until they have been read back. -/

namespace FioSsd

open Function

structure IoPiece where
  file : FileId
  (block nrBlk : Nat)
  uniqueVersion : FioUnique
  /-- `IP_F_ONRB` and the other flags. -/
  (onRb onList trimmed hashed : Bool)
  /-- The bucket `hash_list` is linked on. -/
  hashList : Option Nat
  trimList : Bool
  deriving DecidableEq, Repr

variable (ipo : IoPiece)

def IoPiece.offset : Nat := ipo.block

def IoPiece.len : Nat := ipo.nrBlk

def initIpo : IoPiece :=
  { file := 0, block := 0, nrBlk := 0, uniqueVersion := ⟨0, 0⟩, onRb := false, onList := false,
    trimmed := false, hashed := false, hashList := none, trimList := false }

structure IohistKey where
  file : FileId
  block : Nat
  deriving DecidableEq, Repr

abbrev KeyHash := IohistKey → Nat

def IoPiece.key : IohistKey := ⟨ipo.file, ipo.block⟩

instance : Inhabited Map2 := ⟨⟨0, by decide, fun _ => .empty⟩⟩

structure FioFile where
  (realFileSize fileOffset ioSize lastPos lastStart : BitVec 64 := 0)
  fileMap : Option (Nat → BitVec 64) := none
  fileMap2 : Map2 := default
  (numMaps lastFreeLookup failedRands : Nat := 0)
  references : Int := 0
  fdOpen : Bool := false
  /-- `FIO_FILE_open` and the other flags. -/
  (isOpen closing done : Bool := false)

instance : Inhabited FioFile := ⟨{}⟩

/-- `fio_file_reset` on a file of a job whose history has the given length: `clean_map` only empties
    the segment map of a job without history. -/
def FioFile.reset (file : FioFile) (ioHistLen : Int) : FioFile :=
  { file with
    lastFreeLookup := 0, failedRands := 0, lastPos := file.fileOffset, lastStart := -1
    fileMap := file.fileMap.map fun map i => if i < file.numMaps then 0 else map i
    fileMap2 :=
      if file.fileMap2.words ≠ 0 ∧ ioHistLen = 0 then file.fileMap2.clear (2 * file.numMaps)
      else file.fileMap2 }

/-- The history part of `struct thread_data`, with the heap of pieces and the job's files. -/
structure History where
  heap : Nat → Option IoPiece := fun _ => none
  /-- The next address `malloc` hands out. -/
  nextAddr : Nat := 0
  (ioHistTree ioHistList : List Nat := [])
  iohistHash : Nat → List Nat := fun _ => []
  ioHistLen : Int := 0
  trimList : List Nat := []
  (trimEntries nrOpenFiles : Int := 0)
  files : FileId → FioFile := fun _ => {}

instance : Inhabited History := ⟨{}⟩

namespace History

variable (h : History)

def deref (p : Nat) : Except Fault IoPiece :=
  match h.heap p with
  | some ipo => .ok ipo
  | none => .error .badPointer

def setPiece (p : Nat) (ipo : IoPiece) : History :=
  { h with heap := update h.heap p (some ipo) }

def malloc (ipo : IoPiece) : History :=
  { h with heap := update h.heap h.nextAddr (some ipo), nextAddr := h.nextAddr + 1 }

def freePiece (p : Nat) : History :=
  { h with heap := update h.heap p none }

variable (f : FileId)

def setMap2 (m : Map2) : History :=
  { h with files := update h.files f { h.files f with fileMap2 := m } }

def setBit (h : History) (f : FileId) (p : Pos) (stat : Blk) : Except Fault History := do
  let m ← (h.files f).fileMap2.setBit p stat
  return h.setMap2 f m

/-! ## The hash table

The bucket number is `jhash` over the key's bytes, which include the address of the file; it is a
parameter, and nothing below depends on it. -/

section Hash

variable (hash : KeyHash)

def hashFindIn (h : History) (key : IohistKey) : List Nat → Except Fault (Option Nat)
  | [] => .ok none
  | p :: rest => do
    let ipo ← h.deref p
    if ipo.key = key then return some p else h.hashFindIn key rest

def iohistHashFind (h : History) (key : IohistKey) : Except Fault (Option Nat) :=
  h.hashFindIn key (h.iohistHash (hash key))

def iohistHashDel (h : History) (p : Nat) : Except Fault History := do
  let ipo ← h.deref p
  if ipo.hashed then
    match ipo.hashList with
    | none => .error (.assertFailed .iohistHashDel)
    | some b =>
      return { h.setPiece p { ipo with hashed := false, hashList := none } with
        iohistHash := update h.iohistHash b ((h.iohistHash b).erase p) }
  else return h

/-- `iohist_hash_add`: a piece whose key is already in the table is left out of it. -/
def iohistHashAdd (h : History) (p : Nat) : Except Fault History := do
  let ipo ← h.deref p
  if ipo.hashed then return h
  else
    match ← h.iohistHashFind hash ipo.key with
    | some _ => return h.setPiece p { ipo with hashList := none }
    | none =>
      let b := hash ipo.key
      return { h.setPiece p { ipo with hashed := true, hashList := some b } with
        iohistHash := update h.iohistHash b (h.iohistHash b ++ [p]) }

end Hash

def removeTrimEntry (p : Nat) : Except Fault History := do
  let ipo ← h.deref p
  if ipo.trimList then
    return { h.setPiece p { ipo with trimList := false } with
      trimList := h.trimList.erase p, trimEntries := h.trimEntries - 1 }
  else return h

/-- How `td_io_open_file` can end: the engine's open fails, a step after it fails, or it succeeds. -/
inductive OpenOutcome
  | engineFails | failsLate | succeeds
  deriving DecidableEq, Repr

def fioFileReset : History :=
  { h with files := update h.files f ((h.files f).reset h.ioHistLen) }

def getFile (h : History) (f : FileId) : Except Fault History :=
  let file := h.files f
  if file.isOpen then
    .ok { h with files := update h.files f { file with references := file.references + 1 } }
  else .error (.assertFailed .getFile)

def tdIoOpenFile (h : History) (f : FileId) (outcome : OpenOutcome) :
    Except Fault (Bool × History) :=
  let file := h.files f
  if file.isOpen ∨ file.fdOpen then .error (.assertFailed .tdIoOpenFile)
  else match outcome with
    | .engineFails => .ok (true, h)
    | _ => do
      let h := h.fioFileReset f
      let file := { h.files f with isOpen := true, fdOpen := true, closing := false }
      let h := { h with files := update h.files f file, nrOpenFiles := h.nrOpenFiles + 1 }
      let h ← h.getFile f
      match outcome with
      | .failsLate =>
        let file := { h.files f with fdOpen := false }
        return (true, { h with files := update h.files f file })
      | _ => return (false, h)

end History

end FioSsd
