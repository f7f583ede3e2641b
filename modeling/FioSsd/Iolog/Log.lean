import FioSsd.Iolog.Replay
import FioSsd.Lib.Scan

/-! # The I/O log: writer and reader -/

namespace FioSsd

def ascii (cs : List Char) : List UInt8 := cs.map fun c => UInt8.ofNat c.toNat

def ddirAct : Ddir → List UInt8
  | .read => ascii ['r', 'e', 'a', 'd']
  | .write => ascii ['w', 'r', 'i', 't', 'e']
  | .sync => ascii ['s', 'y', 'n', 'c']
  | .datasync => ascii ['d', 'a', 't', 'a', 's', 'y', 'n', 'c']
  | .syncFileRange =>
    ascii ['s', 'y', 'n', 'c', '_', 'f', 'i', 'l', 'e', '_', 'r', 'a', 'n', 'g', 'e']
  | .wait => ascii ['w', 'a', 'i', 't']
  | .trim => ascii ['t', 'r', 'i', 'm']
  | .inval => []

inductive FileLog
  | add | opened | closed
  deriving DecidableEq

def FileLog.act : FileLog → List UInt8
  | .add => ascii ['a', 'd', 'd']
  | .opened => ascii ['o', 'p', 'e', 'n']
  | .closed => ascii ['c', 'l', 'o', 's', 'e']

structure LogName where
  bytes : FileName
  nonempty : bytes ≠ []
  short : bytes.length ≤ 256
  plain : ∀ c ∈ bytes, Scan.isSpace c = false ∧ c ≠ 0

inductive LogDdir
  | read | write | sync | datasync | syncFileRange | trim
  deriving DecidableEq

def LogDdir.ddir : LogDdir → Ddir
  | .read => .read
  | .write => .write
  | .sync => .sync
  | .datasync => .datasync
  | .syncFileRange => .syncFileRange
  | .trim => .trim

inductive LogEvent
  | file (name : LogName) (what : FileLog)
  | io (name : LogName) (ddir : LogDdir) (offset buflen : BitVec 64)

/-- The line that `log_file` or `log_io_u` prints, without its newline. -/
def LogEvent.line : LogEvent → List UInt8
  | .file name what => name.bytes ++ 32 :: what.act
  | .io name ddir offset buflen =>
    name.bytes ++ 32 :: (ddirAct ddir.ddir ++ 32 :: (Scan.decimal offset.toNat ++
      32 :: Scan.decimal buflen.toNat))

def logText (events : List LogEvent) : List UInt8 :=
  (events.map fun e => e.line ++ [10]).flatten

inductive Scanned
  | zero
  | one (fname : List UInt8)
  | two (fname act : List UInt8)
  | three (fname act : List UInt8) (offset : BitVec 64)
  | four (fname act : List UInt8) (offset bytes : BitVec 64)
  deriving DecidableEq

def scanIologLine (line : List UInt8) : Scanned :=
  match Scan.scanToken 256 (line.takeWhile fun c => c != 0) with
  | none => .zero
  | some (fname, rest) =>
    match Scan.scanToken 256 rest with
    | none => .one fname
    | some (act, rest) =>
      match Scan.scanUnsigned rest with
      | none => .two fname act
      | some (offset, rest) =>
        match Scan.scanUnsigned rest with
        | none => .three fname act offset
        | some (bytes, _) => .four fname act offset bytes

/-- `read_iolog2`: the direction of a line with four fields, or a bad action. -/
def actDdir (act : List UInt8) : Option Ddir :=
  if act = ddirAct .wait then some .wait
  else if act = ddirAct .read then some .read
  else if act = ddirAct .write then some .write
  else if act = ddirAct .sync then some .sync
  else if act = ddirAct .datasync then some .datasync
  else if act = ddirAct .trim then some .trim
  else none

def ddirIndex : Ddir → Int
  | .read => 0
  | .write => 1
  | .sync => 2
  | .datasync => 3
  | .syncFileRange => 4
  | .wait => 5
  | .trim => 6
  | .inval => -1

inductive TdDdir
  | read | write | rw
  deriving DecidableEq

structure IologRead where
  table : FileTable
  ioLogList : List LogPiece
  totalIoSize : BitVec 64
  optWords : Int → BitVec 32
  tdDdir : TdDdir
  offset : BitVec 64
  bytes : BitVec 32
  fileno : Int
  fileAction : FileAction
  (reads writes waits : Nat)
  maxBsUsed : List Int

namespace IologRead

variable (readOnly : Bool) (s : IologRead) (rw : Ddir)

def linePiece : LogPiece :=
  if rw = .wait then { LogPiece.initIpo with ddir := rw, aux := .delay s.offset }
  else
    { LogPiece.initIpo with
      ddir := rw, offset := s.offset, len := s.bytes.setWidth 64, fileno := s.fileno
      aux := .action s.fileAction }

/-- The update of `max_bs[rw]` with the length of a line in `read_iolog2`. -/
def noteMaxBs : IologRead :=
  if rw = .wait then s
  else
    { s with
      maxBsUsed := s.maxBsUsed ++ [ddirIndex rw]
      optWords :=
        if (s.optWords (ddirIndex rw)).toNat < s.bytes.toNat then
          Function.update s.optWords (ddirIndex rw) s.bytes
        else s.optWords }

/-- The end of the loop body of `read_iolog2`: "make note of file" and `queue_io_piece`. -/
def queueLine : IologRead :=
  let s' := s.noteMaxBs rw
  { s' with
    ioLogList := s.ioLogList ++ [s.linePiece rw]
    totalIoSize := s.totalIoSize + (s.linePiece rw).len }

/-- The middle of the loop body of `read_iolog2`: I/Os and waits are counted, writes are skipped in
    read-only mode, and other directions are refused. -/
def takeLine : IologRead :=
  match rw with
  | .read => { s with reads := s.reads + 1 }.queueLine rw
  | .write => if readOnly then s else { s with writes := s.writes + 1 }.queueLine rw
  | .wait => { s with waits := s.waits + 1 }.queueLine rw
  | .inval => s.queueLine rw
  | _ => if ddirSync rw then s.queueLine rw else s

/-- `read_iolog2` on a line with two fields: an added file is counted and nothing is queued. -/
def fileLine (fname act : List UInt8) : IologRead :=
  if act = FileLog.act .add then
    let added := { s.table with nrFiles := s.table.nrFiles + 1 }.addFile fname
    { s with table := added.2, fileno := added.1, fileAction := .addFile }
  else if act = FileLog.act .opened then
    { s with fileno := s.table.getFileno fname, fileAction := .openFile }.takeLine readOnly .inval
  else if act = FileLog.act .closed then
    { s with fileno := s.table.getFileno fname, fileAction := .closeFile }.takeLine readOnly .inval
  else s

def readLine (line : List UInt8) : IologRead :=
  match scanIologLine line with
  | .four _ act offset bytes =>
    let s := { s with offset := offset, bytes := bytes.setWidth 32 }
    match actDdir act with
    | some rw => s.takeLine readOnly rw
    | none => s
  | .two fname act => s.fileLine readOnly fname act
  | .three _ _ offset => { s with offset := offset }
  | _ => s

def freeReleaseFiles : IologRead := { s with table := { s.table with filesIndex := 0 } }

def readLines (lines : List (List UInt8)) : IologRead := lines.foldl (readLine readOnly) s

/-- The end of `read_iolog2`: the direction option and the return code. -/
def setTdDdir : IologRead × Nat :=
  let writes := if readOnly then 0 else s.writes
  if s.reads = 0 ∧ writes = 0 ∧ s.waits = 0 then (s, 1)
  else if s.reads ≠ 0 ∧ writes = 0 then ({ s with tdDdir := .read }, 0)
  else if s.reads = 0 ∧ writes ≠ 0 then ({ s with tdDdir := .write }, 0)
  else ({ s with tdDdir := .rw }, 0)

/-- `read_iolog2` on the text behind the version line; `fgets` has a buffer of 4096 bytes, one of them
    for the NUL. -/
def readIolog2 (text : List UInt8) : IologRead × Nat :=
  (s.freeReleaseFiles.readLines readOnly (Scan.bufLines 4095 [] text)).setTdDdir readOnly

/-- A job at the start of `read_iolog2`, whose `offset` and `bytes` are not initialised. -/
def start (table : FileTable) (totalIoSize : BitVec 64) (optWords : Int → BitVec 32)
    (tdDdir : TdDdir) (offset : BitVec 64) (bytes : BitVec 32) : IologRead :=
  { table := table, ioLogList := [], totalIoSize := totalIoSize, optWords := optWords
    tdDdir := tdDdir, offset := offset, bytes := bytes, fileno := 0, fileAction := .addFile
    reads := 0, writes := 0, waits := 0, maxBsUsed := [] }

lemma setTdDdir_fst : ∃ tdDdir, (s.setTdDdir readOnly).1 = { s with tdDdir := tdDdir } := by
  unfold setTdDdir
  dsimp only
  split_ifs <;> exact ⟨_, rfl⟩

end IologRead

end FioSsd
