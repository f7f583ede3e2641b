import FioSsd.Generator.Offset

/-! # Filling in a request -/

namespace FioSsd

section

variable (scale : Scale) (randMax : Nat) (o : ThreadOptions) (file : FioFile) (ioU : IoU)

def ioUFits (buflen : BitVec 32) : Bool :=
  ioU.offset + buflen.setWidth 64 ≤ file.ioSize + o.startOffset

def isPowerOf2 (val : BitVec 32) : Bool := val ≠ 0 && val &&& (val - 1) = 0

/-- The loop over `bssplit`: the first size whose percentage the draw falls under and that fits, else
    the last one. -/
def splitBuflen (file : FioFile) (ioU : IoU) (r : Nat) :
    Nat → BitVec 32 → List (BitVec 32 × Nat) → BitVec 32
  | _, buflen, [] => buflen
  | perc, _, (bs, p) :: rest =>
    if r ≤ randMax / 100 * (perc + p) ∧ ioUFits o file ioU bs then bs
    else splitBuflen file ioU r (perc + p) bs rest

/-- A length for the draw `r`. -/
def drawBuflen (r : Nat) : BitVec 32 :=
  let minbs := o.minBsOf ioU.ddir
  match o.bssplitOf ioU.ddir with
  | [] =>
    let buflen := 1 + BitVec.ofNat 32 (scale (o.maxBsOf ioU.ddir).toNat r)
    if buflen < minbs then minbs else buflen
  | split => splitBuflen randMax o file ioU r 0 0 split

def alignBuflen (ddir : Ddir) (buflen : BitVec 32) : BitVec 32 :=
  let minbs := o.minBsOf ddir
  if !o.bsUnaligned && isPowerOf2 minbs then (buflen + minbs - 1) &&& ~~~(minbs - 1) else buflen

def buflenLoop (file : FioFile) (ioU : IoU) : List Nat → Except Fault (BitVec 32)
  | [] => .error .outOfFuel
  | r :: rest =>
    let buflen := alignBuflen o ioU.ddir (drawBuflen scale randMax o file ioU r)
    if ioUFits o file ioU buflen then .ok buflen else buflenLoop file ioU rest

/-- `__get_next_buflen`: a multiple of the smallest block size, 0 if not even that fits. -/
def getNextBuflen (draws : List Nat) : Except Fault (BitVec 32) :=
  let minbs := o.minBsOf ioU.ddir
  if minbs = o.maxBsOf ioU.ddir then .ok minbs
  else if !ioUFits o file ioU minbs then .ok 0
  else do
    let buflen ← buflenLoop scale randMax o file ioU draws
    return buflen / minbs * minbs

structure FillDraws where
  /-- What `get_rw_ddir` picks, and whether the write is a barrier. -/
  ddir : Ddir
  barrier : Bool
  rand : RandDraws
  sizes : List Nat

def switchZone (s : Fill) : Fill :=
  if o.zoneSize ≤ s.zoneBytes ∧ o.zoneSkip ≠ 0 then
    let fileOffset := s.file.fileOffset + (o.zoneRange + o.zoneSkip)
    { s with
      zoneBytes := 0
      file := { s.file with fileOffset := fileOffset, lastPos := fileOffset } }
  else s

def takeBlocks : Except Fault (IoU × FioFile) :=
  if o.ddirRand && History.fileRandommap o file then markRandomMap o file ioU else .ok (ioU, file)

def markMaps : Except Fault (IoU × FioFile) :=
  if o.randomagain then markBitMap o file ioU
  else do
    let (ioU, file) ← takeBlocks o file ioU
    return ({ ioU with randomagain := ioU.randomagain || o.norandommap }, file)

def fillRw (ioHistLen : Int) (s : Fill) (d : FillDraws) : Except Fault (Bool × Fill) := do
  let (failed, s) ← getNextOffset scale o ioHistLen s d.rand
  if failed then return (true, s)
  else
    let buflen ← getNextBuflen scale randMax o s.file s.ioU d.sizes
    let s := { s with ioU := { s.ioU with buflen := buflen.setWidth 64 } }
    if buflen = 0 then return (true, s)
    else if s.file.realFileSize < s.ioU.offset + s.ioU.buflen then return (true, s)
    else
      let (ioU, file) ← markMaps o s.file s.ioU
      return (false, { s with ioU := ioU, file := file, zoneBytes := s.zoneBytes + ioU.buflen })

def fillIoU (noio : Bool) (ioHistLen : Int) (s : Fill) (d : FillDraws) : Except Fault (Bool × Fill) :=
  if noio then .ok (false, { s with zoneBytes := s.zoneBytes + s.ioU.buflen })
  else
    let s := { s with ioU := { s.ioU with ddir := d.ddir, barrier := s.ioU.barrier || d.barrier } }
    if ddirRw d.ddir then fillRw scale randMax o ioHistLen (switchZone o s) d
    else .ok (false, { s with zoneBytes := s.zoneBytes + s.ioU.buflen })

end

def exactScale (n r : Nat) : Nat := n * r / 2 ^ 32

end FioSsd
