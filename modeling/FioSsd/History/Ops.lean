import FioSsd.History.State

/-! # Logging writes and fetching them back -/

namespace FioSsd

namespace History

section

variable (hash : KeyHash) (o : ThreadOptions) (h : History) (p : Nat)

/-- Hash a piece and append it to the list: how `log_io_piece` and `overlap_divide` link a new
    segment. -/
def linkSegment : Except Fault History := do
  let h ← h.iohistHashAdd hash p
  let ipo ← h.deref p
  return { h.setPiece p { ipo with onList := true } with
    ioHistList := h.ioHistList ++ [p], ioHistLen := h.ioHistLen + 1 }

/-- `overlap_divide`: the segment of file `f` that starts at `block` gives way to the range of `len`
    blocks from `start` on. -/
def overlapDivide (h : History) (f : FileId) (block start len : Nat) : Except Fault History := do
  match ← h.iohistHashFind hash ⟨f, block⟩ with
  | none => .error (.assertFailed .overlapDivide)
  | some p =>
    let ipo ← h.deref p
    if start ≤ block then
      if start + len < block + ipo.nrBlk then
        -- the tail survives: move the segment's start behind the new range
        let h := h.setPiece p
          { ipo with nrBlk := block + ipo.nrBlk - (start + len), block := start + len }
        let h ← h.iohistHashDel p
        let h ← h.setBit f (.ofBlock (start + len)) .start
        h.iohistHashAdd hash p
      else
        let h ← h.iohistHashDel p
        let ipo ← h.deref p
        if ipo.onList then
          return { h.freePiece p with
            ioHistList := h.ioHistList.erase p, ioHistLen := h.ioHistLen - 1 }
        else .error (.assertFailed .overlapDivide)
    else
      let h ←
        if start + len < block + ipo.nrBlk then do
          -- both ends survive: the tail becomes a new piece
          let q := h.nextAddr
          let h := h.malloc { initIpo with
            file := f, block := start + len, nrBlk := block + ipo.nrBlk - (start + len),
            uniqueVersion := o.uniqueOps.copy ipo.uniqueVersion }
          let h ← h.setBit f (.ofBlock (start + len)) .start
          h.linkSegment hash q
        else pure h
      let ipo ← h.deref p
      return h.setPiece p { ipo with nrBlk := start - block }

section InsertSeg

variable (overlap : History → FileId → Nat → Nat → Nat → Except Fault History)

/-- The `while (finish < nr_blk)` loop of `insert_seg`, with the number of blocks left. -/
def insertSegLoop (f : FileId) (block nrBlk : Nat) : Nat → Pos → History → Except Fault History
  | 0, _, h => .ok h
  | left + 1, p, h => do
    let h ←
      if ← (h.files f).fileMap2.testBlk p .start then overlap h f p.blk block nrBlk else pure h
    let h ← h.setBit f p .inSeg
    insertSegLoop f block nrBlk left p.next h

def insertSeg (h : History) (f : FileId) (block nrBlk : Nat) : Except Fault History := do
  let p := Pos.ofBlock block
  let h ← match ← (h.files f).fileMap2.getBlk p with
    | .empty => pure h
    | .start => overlap h f block block nrBlk
    | .inSeg => do
      let q ← (h.files f).fileMap2.prevStart (block + 1) p
      overlap h f q.blk block nrBlk
    | .err => pure h
  let h ← h.setBit f p .start
  insertSegLoop overlap f block nrBlk (nrBlk - 1) p.next h

end InsertSeg

variable (file : FioFile)

def fileRandommap : Bool := !o.norandommap && file.fileMap.isSome

def segBranch : Bool :=
  ((o.randomagain || !fileRandommap o file) && o.minBs != o.maxBs) || decide (1 < o.ddirSeqNr)

variable (ioU : IoU)

def blockOf : Nat :=
  (ioU.offset - file.fileOffset).toNat / o.rwMinBs.toNat

def nrBlkOf : Nat :=
  (ioU.buflen + o.rwMinBs.setWidth 64 - 1).toNat / o.rwMinBs.toNat

/-- `io_u_should_trim` for the random draw `r` (`FRAND_MAX / 100` per percent). -/
def ioUShouldTrim (r : Nat) : Bool :=
  o.trimPercentage ≠ 0 && decide (r ≤ (2 ^ 32 - 1) / 100 * o.trimPercentage)

variable (ipo : IoPiece)

/-- The node of the tree with the key of `ipo`. -/
def treeFind (h : History) (ipo : IoPiece) : List Nat → Except Fault (Option Nat)
  | [] => .ok none
  | p :: rest => do
    let node ← h.deref p
    if node.file = ipo.file ∧ node.offset = ipo.offset then return some p
    else h.treeFind ipo rest

/-- Link `p` in front of the first node with a larger key. -/
def treeLink (h : History) (p : Nat) (ipo : IoPiece) : List Nat → Except Fault (List Nat)
  | [] => .ok [p]
  | q :: rest => do
    let node ← h.deref q
    if ipo.file < node.file ∨ ipo.file = node.file ∧ ipo.offset < node.offset then
      return p :: q :: rest
    else return q :: (← h.treeLink p ipo rest)

/-- The `restart` loop of `log_io_piece`: drop the node with the same key, then link the piece. -/
def treeInsert (p : Nat) : Nat → History → Except Fault History
  | 0, _ => .error .outOfFuel
  | fuel + 1, h => do
    let ipo ← h.deref p
    match ← h.treeFind ipo h.ioHistTree with
    | some q => do
      let old ← h.deref q
      if ipo.len = old.len then
        let h ← removeTrimEntry
          { h with ioHistLen := h.ioHistLen - 1, ioHistTree := h.ioHistTree.erase q } q
        treeInsert p fuel (h.freePiece q)
      else .error (.assertFailed .logIoPiece)
    | none => do
      let tree ← h.treeLink p ipo h.ioHistTree
      return { h.setPiece p { ipo with onRb := true } with
        ioHistTree := tree, ioHistLen := h.ioHistLen + 1 }

def useTree : Bool :=
  !((!o.ddirRand || !o.overwrite) && (fileRandommap o file || o.verify = .verifyNone) &&
      (!o.randomagain || o.verify = .verifyNone) && decide (o.ddirSeqNr < 2)) || o.verifysort

/-- The segment branch of `log_io_piece` for the freshly allocated piece `p` of file `f`. -/
def logSegment (f : FileId) (ioU : IoU) : Except Fault History := do
  let ipo ← h.deref p
  let ipo := { ipo with block := blockOf o (h.files f) ioU, nrBlk := nrBlkOf o ioU }
  let h := h.setPiece p ipo
  let h ← h.insertSeg (overlapDivide hash o) f ipo.block ipo.nrBlk
  h.linkSegment hash p

def drawTrim (r : Nat) : History :=
  if ioUShouldTrim o r then
    { h.setPiece p { ipo with trimList := true } with
      trimList := h.trimList ++ [p], trimEntries := h.trimEntries + 1 }
  else h

/-- Link a piece of file `f` on the sorted tree or the list. -/
def linkPiece (f : FileId) : Except Fault History :=
  if useTree o (h.files f) then treeInsert p (h.ioHistTree.length + 1) h
  else do
    let ipo ← h.deref p
    return { h.setPiece p { ipo with onList := true } with
      ioHistList := h.ioHistList ++ [p], ioHistLen := h.ioHistLen + 1 }

def logIoPiece (r : Nat) : Except Fault History :=
  match ioU.file with
  | none => .error .badPointer
  | some f => do
    let version := if o.verifyInner then o.uniqueOps.copy ioU.uniqueVersion else ⟨0, 0⟩
    let p := h.nextAddr
    let h := h.malloc { initIpo with file := f, uniqueVersion := version }
    if segBranch o (h.files f) then h.logSegment hash o p f ioU
    else
      let ipo ← h.deref p
      let ipo := { ipo with block := ioU.offset.toNat, nrBlk := ioU.buflen.toNat }
      ((h.setPiece p ipo).drawTrim o p ipo r).linkPiece o p f

/-- Unlink the first entry, of the tree, else of the list. -/
def takeNext : Except Fault (Option Nat × History) :=
  match h.ioHistTree, h.ioHistList with
  | p :: rest, _ => do
    let ipo ← h.deref p
    if ipo.onRb then
      return (some p, { h.setPiece p { ipo with onRb := false } with ioHistTree := rest })
    else .error (.assertFailed .getNextVerify)
  | [], p :: rest => do
    let ipo ← h.deref p
    if ipo.onList then
      let h := { h.setPiece p { ipo with onList := false } with ioHistList := rest }
      if ipo.hashed then
        let file := h.files ipo.file
        let m ← file.fileMap2.removeSeg file.numMaps ipo.block
        let h ← (h.setMap2 ipo.file m).iohistHashDel p
        let ipo ← h.deref p
        return (some p, h.setPiece p { ipo with
          block := (BitVec.ofNat 64 (ipo.block * o.rwMinBs.toNat) + file.fileOffset).toNat,
          nrBlk := (BitVec.ofNat 64 (ipo.nrBlk * o.rwMinBs.toNat)).toNat })
      else return (some p, h)
    else .error (.assertFailed .getNextVerify)
  | [], [] => .ok (none, h)

/-- Open a file unless it is open; the flag says that `td_io_open_file` failed. -/
def ensureOpen (f : FileId) (outcome : OpenOutcome) :
    Except Fault (Bool × History) :=
  if (h.files f).isOpen then .ok (false, h) else h.tdIoOpenFile f outcome

def fillVerify (ioU : IoU) (outcome : OpenOutcome) :
    Except Fault (Bool × IoU × History) := do
  let ipo ← h.deref p
  let h := { h with ioHistLen := h.ioHistLen - 1 }
  let version := if o.verifyInner then o.uniqueOps.copy ipo.uniqueVersion else ioU.uniqueVersion
  let ioU := { ioU with
    offset := BitVec.ofNat 64 ipo.offset, buflen := BitVec.ofNat 64 ipo.len,
    file := some ipo.file, uniqueVersion := version, verList := true,
    trimmed := ioU.trimmed || ipo.trimmed }
  let (failed, h) ← h.ensureOpen ipo.file outcome
  if failed then return (true, ioU, h)
  else
    let h ← h.getFile ipo.file
    if (h.files ipo.file).isOpen then
      let ioU := { ioU with ddir := .read, xferBuf := 0, xferBuflen := ioU.buflen }
      let h ← h.removeTrimEntry p
      return (false, ioU, h.freePiece p)
    else .error (.assertFailed .getNextVerify)

def getNextVerify (outcome : OpenOutcome) :
    Except Fault (Bool × IoU × History) :=
  if ioU.file.isSome then .ok (false, ioU, h)
  else do
    match ← h.takeNext o with
    | (none, h) => return (true, ioU, h)
    | (some p, h) => h.fillVerify o p ioU outcome

end

end History

end FioSsd
