import FioSsd.Backend.DoVerify
import FioSsd.Generator.Fill
import FioSsd.History.Unlink
import FioSsd.Verify.Populate

/-! # Handing out units

`get_io_u` decides what the next unit of the I/O loop does (`io_u.c`): read back an entry of the
history when `verify_backlog` says so, trim one, go on with a requeued request, or fill in a new
one. -/

namespace FioSsd

def TimeNumber.set (t : TimeNumber) (sec : BitVec 64) : FioUnique × TimeNumber :=
  let lastTime := if t.lastNumber = 0 then sec else t.lastTime
  (⟨lastTime, t.lastNumber.setWidth 64⟩, ⟨lastTime, t.lastNumber + 1⟩)

def UniqueOps.set (ops : UniqueOps) (t : TimeNumber) (now : FioUnique) : FioUnique × TimeNumber :=
  match ops with
  | .timeN => t.set now.tvSec
  | .time => (now, t)

structure FileTry where
  file : FileId
  opened : History.OpenOutcome
  /-- The error the engine reports when it cannot open the file. -/
  openError : Int

structure FilePick where
  tries : List FileTry
  draws : FillDraws
  /-- The results of closing the file: by `put_file_log` and by `td_io_close_file`. -/
  (close closed : Int)

variable (o : ThreadOptions)

structure Meets where
  waits : List (Others o)
  (verifyOpened trimOpened : History.OpenOutcome)
  openError : Int
  picks : List FilePick
  now : FioUnique
  /-- What `populate_verify_io_u` puts into the headers and the seed of the pattern. -/
  info : MetaInfo
  seed : BitVec 64
  prepFails : Bool
  close : Int

inductive Origin
  | verify | trim | requeued | generated
  deriving DecidableEq, Repr

namespace Td

variable (k : Checksums) (scale : Scale) (randMax : Nat) (noio : Bool)

/-- Whether `check_get_verify` looks for an entry: a batch is going on, or one starts. -/
def startsBatch (batch backlog len : Nat) (lastDdir : Ddir) : Bool :=
  batch ≠ 0 || (len % backlog = 0 && lastDdir ≠ .read)

/-- The batch counter `check_get_verify` and `check_get_trim` go on with; an `unsigned int`. -/
def batchOf (batch opt backlog : Nat) : Nat :=
  if batch ≠ 0 then batch else if opt ≠ 0 then opt else backlog % 2 ^ 32

variable (td : Td)

def noteError (failed : Bool) (err : Int) : Td :=
  if failed && err ≠ 0 then td.tdVerror err else td

def setVerifyBatch (batch : Nat) : Td :=
  { td with issue := { td.issue with verifyBatch := batch } }

def setTrimBatch (batch : Nat) : Td :=
  { td with issue := { td.issue with trimBatch := batch } }

variable (u : Nat)

/-- `check_get_verify`; the flag says that the unit reads an entry back. -/
def checkGetVerify (m : Meets o) : Except Fault (Bool × Td) :=
  if o.verifyBacklog ≠ 0 ∧ td.hist.ioHistLen ≠ 0 ∧
      startsBatch td.issue.verifyBatch o.verifyBacklog td.hist.ioHistLen.toNat td.issue.lastDdir then do
    let batch := batchOf td.issue.verifyBatch o.verifyBatch o.verifyBacklog
    let (failed, ioU, hist) ← td.hist.getNextVerify o (td.ioUs u) m.verifyOpened
    let td := ({ td with hist := hist }.setIoU u ioU).noteError failed m.openError
    return (!failed, td.setVerifyBatch (if failed then batch else dec32 batch))
  else .ok (false, td)

def checkGetTrim (m : Meets o) : Except Fault (Bool × Td) :=
  if o.trimBacklog ≠ 0 ∧ td.hist.trimEntries ≠ 0 ∧
      startsBatch td.issue.trimBatch o.trimBacklog td.hist.ioHistLen.toNat td.issue.lastDdir then do
    let batch := batchOf td.issue.trimBatch o.trimBatch o.trimBacklog
    let (failed, ioU, hist) ← td.hist.getNextTrim o (td.ioUs u) m.trimOpened
    let td := ({ td with hist := hist }.setIoU u ioU).noteError failed m.openError
    return (!failed, td.setTrimBatch (if td.issue.trimBatch ≠ 0 then dec32 batch else batch))
  else .ok (false, td)

/-- The loop of `get_next_file`: the first file that is not done and is or can be opened, unless it is
    about to be closed. -/
def tryFiles (td : Td) : List FileTry → Except Fault (Option FileId × Td)
  | [] => .ok (none, td)
  | t :: rest =>
    if (td.hist.files t.file).done then td.tryFiles rest
    else do
      let (failed, hist) ← td.hist.ensureOpen t.file t.opened
      let td := { td with hist := hist }.noteError failed t.openError
      if failed || (hist.files t.file).closing then td.tryFiles rest
      else return (some t.file, td)

def getNextFile (tries : List FileTry) : Except Fault (Option FileId × Td) :=
  if o.nrFiles ≤ td.issue.nrDoneFiles then .ok (none, td) else td.tryFiles tries

variable (f : FileId)

def tdIoCloseFile (closed : Int) : Except Fault Td := do
  let files := Function.update td.hist.files f { td.hist.files f with closing := true }
  let (_, hist) ← { td.hist with files := files }.putFile f closed
  return { td with hist := hist }

/-- The job with what `fill_io_u` made of the unit, the file and the counters. -/
def afterFill (s : Fill) : Td :=
  { td.setIoU u s.ioU with
    hist := { td.hist with files := Function.update td.hist.files f s.file }
    issue := { td.issue with ddirSeqNr := s.ddirSeqNr, zoneBytes := s.zoneBytes } }

/-- `set_io_u_file` for a file that has no room for the request: it is done. -/
def fileDone (pick : FilePick) : Except Fault Td := do
  let td ← td.putFileLog f pick.close
  let td ← td.tdIoCloseFile f pick.closed
  let td := td.setIoU u { td.ioUs u with file := none }
  return { td with
    hist := { td.hist with
      files := Function.update td.hist.files f { td.hist.files f with done := true } }
    issue := { td.issue with nrDoneFiles := td.issue.nrDoneFiles + 1 } }

def setIoUFile (td : Td) (u : Nat) : List FilePick → Except Fault (Bool × Td)
  | [] => .error .outOfFuel
  | pick :: rest => do
    match ← td.getNextFile o pick.tries with
    | (none, td) => return (true, td)
    | (some f, td) =>
      let hist ← td.hist.getFile f
      let td := { td with hist := hist }.setIoU u { td.ioUs u with file := some f }
      let (failed, s) ← fillIoU scale randMax o noio td.hist.ioHistLen
        ⟨td.ioUs u, td.hist.files f, td.issue.ddirSeqNr, td.issue.zoneBytes⟩ pick.draws
      let td := td.afterFill u f s
      if failed then (← td.fileDone u f pick).setIoUFile u rest
      else return (false, td)

def nextVersion (now : FioUnique) : FioUnique × TimeNumber :=
  if (td.ioUs u).randomagain then o.uniqueOps.set td.issue.timeN now
  else (td.issue.unique, td.issue.timeN)

def setVersion (now : FioUnique) : Td :=
  if o.verifyInner then
    let version := td.nextVersion o u now
    { td.setIoU u { td.ioUs u with uniqueVersion := o.uniqueOps.copy version.1 } with
      issue := { td.issue with unique := version.1, timeN := version.2 } }
  else td

def prepareWrite (m : Meets o) : Except Fault Td :=
  if (td.ioUs u).ddir = .write ∧ o.verify ≠ .verifyNone then do
    let td := td.setVersion o u m.now
    let ioU ← populateVerifyIoU k o m.info m.seed (td.ioUs u) ((td.ioUs u).buflen.toNat + 1)
    return td.setIoU u ioU
  else .ok td

def notePos (ioU : IoU) : Td :=
  let file := { td.hist.files f with lastStart := ioU.offset, lastPos := ioU.offset + ioU.buflen }
  { td with hist := { td.hist with files := Function.update td.hist.files f file } }

def prepareRw (m : Meets o) : Except Fault Td :=
  if ddirRw (td.ioUs u).ddir then (td.notePos f (td.ioUs u)).prepareWrite o k u m else .ok td

/-- `get_io_u` for a request that `set_io_u_file` has filled in; the flag says that it is dropped. -/
def finishRequest (m : Meets o) : Except Fault (Bool × Td) :=
  let ioU := td.ioUs u
  if !(td.hist.files f).isOpen then .error (.assertFailed .getReadyIoU)
  else if ddirRw ioU.ddir && ioU.buflen = 0 && !noio then .ok (true, td)
  else do
    let td ← td.prepareRw o k u f m
    return (false, td.setIoU u { td.ioUs u with xferBuf := 0, xferBuflen := (td.ioUs u).buflen })

/-- `get_io_u` for a unit without a request; the flag says that there is none. -/
def newRequest (m : Meets o) : Except Fault (Bool × Td) := do
  let (failed, td) ← td.setIoUFile o scale randMax noio u m.picks
  if failed then return (true, td)
  else
    match (td.ioUs u).file with
    | none => .error .badPointer
    | some f => td.finishRequest o k noio u f m

/-- The request of a unit that `__get_io_u` picked, if there is one. -/
def chooseRequest (m : Meets o) : Except Fault (Option Origin × Td) := do
  let (got, td) ← td.checkGetVerify o u m
  if got then return (some .verify, td)
  else
    let (got, td) ← td.checkGetTrim o u m
    if got then return (some .trim, td)
    else if (td.ioUs u).file.isSome then return (some .requeued, td)
    else
      let (failed, td) ← td.newRequest o k scale randMax noio u m
      return (if failed then none else some .generated, td)

def prepIoU (origin : Origin) (m : Meets o) :
    Except Fault (Option (Nat × Origin) × Td) :=
  if (td.ioUs u).file.isNone then .error (.assertFailed .getReadyIoU)
  else if m.prepFails then do return (none, ← td.putIoU u m.close)
  else .ok (some (u, origin), td)

def getReadyIoU (m : Meets o) : Except Fault (Option (Nat × Origin) × Td) := do
  match ← td.getIoUWait o m.waits with
  | (none, td) => return (none, td)
  | (some u, td) =>
    match ← td.chooseRequest o k scale randMax noio u m with
    | (none, td) => return (none, ← td.putIoU u m.close)
    | (some origin, td) => td.prepIoU o u origin m

end Td

end FioSsd
