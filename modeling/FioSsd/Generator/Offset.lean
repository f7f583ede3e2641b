import FioSsd.Generator.RandomMap

/-! # Where the next request goes -/

namespace FioSsd

variable (o : ThreadOptions)

def ThreadOptions.baOf (ddir : Ddir) : BitVec 32 :=
  if ddir = .read then o.readBa else o.ba

def ThreadOptions.minBsOf (ddir : Ddir) : BitVec 32 :=
  if ddir = .read then o.readMinBs else o.minBs

def ThreadOptions.maxBsOf (ddir : Ddir) : BitVec 32 :=
  if ddir = .read then o.readMaxBs else o.maxBs

def ThreadOptions.bssplitOf (ddir : Ddir) : List (BitVec 32 × Nat) :=
  if ddir = .read then o.readBssplit else o.bssplit

/-- How a random number is brought into a range: the bound and the number. -/
abbrev Scale := Nat → Nat → Nat

section

variable (scale : Scale) (o : ThreadOptions) (file : FioFile) (ddir : Ddir)

def lastBlock : Nat :=
  let maxSize := if file.realFileSize < file.ioSize then file.realFileSize else file.ioSize
  let maxSize := if o.zoneRange ≠ 0 then o.zoneRange else maxSize
  maxSize.toNat / (o.baOf ddir).toNat

def ffz (word : BitVec 64) : Nat :=
  ((List.range 64).find? fun i => !word.getLsbD i).getD 0

def freeBlockLoop (file : FioFile) (lastb : Nat) : Nat → Nat → Except Fault (Option Nat × FioFile)
  | 0, _ => .error .outOfFuel
  | fuel + 1, i =>
    let pos := i * 64 * o.rwMinBs.toNat % 2 ^ 64
    if pos < file.realFileSize.toNat ∧ pos < file.ioSize.toNat then do
      let word ← file.mapWord i
      if word ≠ BitVec.allOnes 64 then
        let block := i * 64 + ffz word
        if lastb < block then return (none, file)
        else return (some block, { file with lastFreeLookup := i })
      else freeBlockLoop file lastb fuel (i + 1)
    else .ok (none, file)

def getNextFreeBlock : Except Fault (Option Nat × FioFile) :=
  let lastb := lastBlock o file ddir
  if lastb = 0 then .ok (none, file)
  else freeBlockLoop o file lastb (file.numMaps + 1) file.lastFreeLookup

/-- The first loop of `get_next_rand_offset`, for the draws from `r i` on: a block that may be used. -/
def randTries (file : FioFile) (lastb : Nat) (r : Nat → Nat) : Nat → Nat → Except Fault (Option Nat)
  | 0, _ => .ok none
  | left + 1, i =>
    let b := scale (lastb - 1) (r i)
    if !History.fileRandommap o file || o.randomagain then .ok (some b)
    else do
      if ← file.randomMapFree b then return some b else randTries file lastb r left (i + 1)

def lookupTries (file : FioFile) (ddir : Ddir) (r : Nat → Nat) :
    Nat → Nat → Except Fault (Option Nat × FioFile)
  | 0, _ => .ok (none, file)
  | left + 1, i => do
    let start := scale (BitVec.ofNat 64 file.numMaps - 1).toNat (r i)
    match ← getNextFreeBlock o { file with lastFreeLookup := start } ddir with
    | (some b, file) => return (some b, file)
    | (none, file) => lookupTries file ddir r left (i + 1)

/-- The label `ffz`: search from the last free word on, then from the start. -/
def searchFree : Except Fault (Option Nat × FioFile) := do
  match ← getNextFreeBlock o file ddir with
  | (some b, file) => return (some b, file)
  | (none, file) => getNextFreeBlock o { file with lastFreeLookup := 0 } ddir

def getNextRandOffset (r : Nat → Nat) :
    Except Fault (Option Nat × FioFile) :=
  let lastb := lastBlock o file ddir
  if lastb = 0 then .ok (none, file)
  else if 200 ≤ file.failedRands then searchFree o file ddir
  else do
    match ← randTries scale o file lastb r 5 0 with
    | some b => return (some b, { file with failedRands := 0 })
    | none =>
      let file := { file with
        failedRands := (file.failedRands + 1) % 2 ^ 32
        lastFreeLookup := if file.failedRands = 0 then 0 else file.lastFreeLookup }
      -- the first search starts where the last draw of the loop above points
      match ← lookupTries scale o file ddir r 10 4 with
      | (some b, file) => return (some b, file)
      | (none, file) => searchFree o { file with lastFreeLookup := 0 } ddir

structure RandDraws where
  first : Nat → Nat
  /-- Those after the restart of the map. -/
  again : Nat → Nat

variable (ioHistLen : Int)

def getNextRandBlock (file : FioFile) (ddir : Ddir) (r : RandDraws) :
    Except Fault (Option Nat × FioFile) := do
  match ← getNextRandOffset scale o file ddir r.first with
  | (some b, file) => return (some b, file)
  | (none, file) =>
    if o.timeBased then getNextRandOffset scale o (file.reset ioHistLen) ddir r.again
    else return (none, file)

/-- `get_next_seq_offset`: the place behind the last request, counted from `file_offset`. -/
def getNextSeqOffset : Option (BitVec 64) × FioFile :=
  let file := if file.ioSize ≤ file.lastPos ∧ o.timeBased then
      { file with lastPos := file.lastPos - file.ioSize }
    else file
  if file.lastPos < file.realFileSize then
    let file := if file.lastPos = file.fileOffset ∧ o.ddirSeqAdd.slt 0 then
        { file with lastPos := file.realFileSize }
      else file
    let pos := file.lastPos - file.fileOffset
    (some (if pos ≠ 0 then pos + o.ddirSeqAdd else pos), file)
  else (none, file)

def seqOffset? : Option (BitVec 64) → Option (BitVec 64)
  | some offset => if offset = -1 then none else some offset
  | none => none

/-- The offset of the block `b` of `get_next_block`, where `-1ULL` stands for none. -/
def blockOffset? : Option Nat → Option (BitVec 64)
  | some b =>
    if BitVec.ofNat 64 b = -1 then none
    else some (BitVec.ofNat 64 b * (o.baOf ddir).setWidth 64)
  | none => none

/-- The offset of a further request of a `rw` postfix. -/
def furtherOffset (file : FioFile) (ddir : Ddir) (r : RandDraws) :
    Except Fault (Option (BitVec 64) × FioFile) :=
  match o.rwSeq with
  | .rwSeqSeq =>
    match getNextSeqOffset o file with
    | (some offset, file) => .ok (seqOffset? (some offset), file)
    | (none, file) => do
      let (b, file) ← getNextRandBlock scale o ioHistLen file ddir r
      return (blockOffset? o ddir b, file)
  | .rwSeqIdent =>
    .ok (seqOffset? (some (if file.lastStart ≠ -1 then file.lastStart - file.fileOffset else 0)), file)

def pickedOffset (file : FioFile) (ddir : Ddir) (r : RandDraws) :
    Except Fault (Option (BitVec 64) × FioFile) :=
  if o.ddirRand then do
    let (b, file) ← getNextRandBlock scale o ioHistLen file ddir r
    return (blockOffset? o ddir b, file)
  else
    let (offset, file) := getNextSeqOffset o file
    .ok (seqOffset? offset, file)

def blockOffset (file : FioFile) (ddir : Ddir) (rwSeq : Bool) (r : RandDraws) :
    Except Fault (Option (BitVec 64) × FioFile) :=
  if rwSeq then pickedOffset scale o ioHistLen file ddir r
  else furtherOffset scale o ioHistLen file ddir r

/-- What `fill_io_u` works on: the unit, its file, and the counters of the job. -/
structure Fill where
  ioU : IoU
  file : FioFile
  ddirSeqNr : BitVec 32
  zoneBytes : BitVec 64

def getNextBlock (s : Fill) (rwSeq : Bool) (r : RandDraws) :
    Except Fault (Bool × Fill) := do
  let ioU := { s.ioU with busyOk := s.ioU.busyOk || !rwSeq }
  match ← blockOffset scale o ioHistLen s.file s.ioU.ddir rwSeq r with
  | (none, file) => return (true, { s with ioU := ioU, file := file })
  | (some offset, file) =>
    return (false, { s with ioU := { ioU with offset := offset }, file := file })

def countSeq (ddirSeqNr : BitVec 32) : Bool × BitVec 32 :=
  if o.ddirSeqNr = 0 then (false, ddirSeqNr)
  else if ddirSeqNr - 1 = 0 then (true, BitVec.ofNat 32 o.ddirSeqNr)
  else (false, ddirSeqNr - 1)

def getNextOffset (s : Fill) (r : RandDraws) : Except Fault (Bool × Fill) := do
  let (hit, nr) := countSeq o s.ddirSeqNr
  let (failed, s) ← getNextBlock scale o ioHistLen { s with ddirSeqNr := nr } hit r
  if failed then return (true, s)
  else if s.file.ioSize ≤ s.ioU.offset then return (true, s)
  else
    let offset := s.ioU.offset + s.file.fileOffset
    return (s.file.realFileSize ≤ offset, { s with ioU := { s.ioU with offset := offset } })

end

end FioSsd
