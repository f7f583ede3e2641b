import FioSsd.Lib.Memory

/-! # Jobs, files and I/O units

The records the modelled functions read and write, field for field under the source's names
(`fio.h`, `file.h`, `ioengine.h`, `io_ddir.h`, `verify.h`, `unique.h`). -/

namespace FioSsd

inductive Ddir
  | read | write | sync | datasync | syncFileRange | wait | trim | inval
  deriving DecidableEq, Repr

def ddirRw : Ddir → Bool
  | .read | .write => true
  | _ => false

def ddirSync : Ddir → Bool
  | .sync | .datasync | .syncFileRange => true
  | _ => false

inductive VerifyType
  | verifyNone | verifyMd5 | verifyCrc64 | verifyCrc32 | verifyCrc32c | verifyCrc32cIntel
  | verifyCrc16 | verifyCrc7 | verifySha256 | verifySha512 | verifyMeta | verifySha1
  | verifyPattern | verifyNull
  deriving DecidableEq, Repr

def VerifyType.toNat : VerifyType → Nat
  | .verifyNone => 0 | .verifyMd5 => 1 | .verifyCrc64 => 2 | .verifyCrc32 => 3
  | .verifyCrc32c => 4 | .verifyCrc32cIntel => 5 | .verifyCrc16 => 6 | .verifyCrc7 => 7
  | .verifySha256 => 8 | .verifySha512 => 9 | .verifyMeta => 10 | .verifySha1 => 11
  | .verifyPattern => 12 | .verifyNull => 13

def VerifyType.ofNat? : Nat → Option VerifyType
  | 0 => some .verifyNone | 1 => some .verifyMd5 | 2 => some .verifyCrc64
  | 3 => some .verifyCrc32 | 4 => some .verifyCrc32c | 5 => some .verifyCrc32cIntel
  | 6 => some .verifyCrc16 | 7 => some .verifyCrc7 | 8 => some .verifySha256
  | 9 => some .verifySha512 | 10 => some .verifyMeta | 11 => some .verifySha1
  | 12 => some .verifyPattern | 13 => some .verifyNull | _ => none

@[simp] lemma VerifyType.ofNat?_toNat (t : VerifyType) : VerifyType.ofNat? t.toNat = some t := by
  cases t <;> rfl

lemma VerifyType.toNat_lt (t : VerifyType) : t.toNat < 256 ^ 2 := by
  cases t <;> decide

def eio : Nat := 5
def einval : Nat := 22
def enospc : Nat := 28
def eilseq : Nat := 84

inductive ErrorType
  | read | write | verify
  deriving DecidableEq, Repr

/-- The `continue_on_error` mask: the error classes the job goes on after. -/
structure ContinueOnError where
  (read write verify : Bool)
  deriving DecidableEq, Repr

def ContinueOnError.includes (c : ContinueOnError) : ErrorType → Bool
  | .read => c.read
  | .write => c.write
  | .verify => c.verify

def tdErrorType (ddir : Ddir) (err : Nat) : ErrorType :=
  if err = eilseq then .verify
  else if ddir = .read then .read
  else .write

def tdNonFatalError (e : Nat) : Bool :=
  e = eio ∨ e = eilseq

/-- `struct fio_unique`: the 16 bytes shared by `struct time_number` and `struct timeval`. -/
structure FioUnique where
  (tvSec word : BitVec 64)
  deriving DecidableEq, Repr

inductive UniqueOps
  | timeN | time
  deriving DecidableEq, Repr

def UniqueOps.copy (_ : UniqueOps) (usrc : FioUnique) : FioUnique := usrc

def UniqueOps.isMatch : UniqueOps → FioUnique → FioUnique → Bool
  | .timeN, u1, u2 => u1.tvSec = u2.tvSec ∧ u1.word.setWidth 32 = u2.word.setWidth 32
  | .time, u1, u2 => u1.tvSec = u2.tvSec ∧ u1.word = u2.word

@[simp] lemma UniqueOps.isMatch_self (ops : UniqueOps) (u : FioUnique) : ops.isMatch u u = true := by
  cases ops <;> simp [UniqueOps.isMatch]

def maxPatternSize : Nat := 512

/-- `rw_sequencer`: whether a further request of a `rw` postfix follows the last one or repeats it. -/
inductive RwSeq
  | rwSeqSeq | rwSeqIdent
  deriving DecidableEq, Repr

structure ThreadOptions where
  /-- `td_ddir` as its three bits. -/
  (ddirRead ddirWrite ddirRand : Bool)
  rwSeq : RwSeq
  ddirSeqNr : Nat
  (ddirSeqAdd size startOffset : BitVec 64)
  (nrFiles openFiles iodepth iodepthLow iodepthBatch iodepthBatchComplete : Nat)
  (bs readBs minBs readMinBs maxBs readMaxBs rwMinBs : BitVec 32)
  /-- Block sizes are at least one byte. -/
  bs_pos : 0 < bs.toNat
  readBs_pos : 0 < readBs.toNat
  rwMinBs_pos : 0 < rwMinBs.toNat
  (ba readBa : BitVec 32)
  bsUnaligned : Bool
  /-- The sizes of `bssplit` with their percentages. -/
  (bssplit readBssplit : List (BitVec 32 × Nat))
  verify : VerifyType
  (verifyInner doVerify verifysort : Bool)
  (verifyInterval verifyOffset : BitVec 32)
  verifyPattern : Nat → UInt8
  verifyPatternBytes : Nat
  (verifyFatal verifyAsync : Bool)
  (verifyBacklog verifyBatch : Nat)
  (randomagain norandommap softrandommap overwrite : Bool)
  timeout : BitVec 64
  timeBased : Bool
  (zoneRange zoneSize zoneSkip : BitVec 64)
  trimPercentage : Nat
  trimZero : Bool
  (trimBacklog trimBatch : Nat)
  fillDevice : Bool
  continueOnError : ContinueOnError
  uniqueOps : UniqueOps

/-- The option defaults (`options.c`), with 4k blocks. -/
def defaultOptions : ThreadOptions :=
  { ddirRead := true, ddirWrite := false, ddirRand := false, rwSeq := .rwSeqSeq, ddirSeqNr := 1
    ddirSeqAdd := 0, size := 0, startOffset := 0, nrFiles := 1, openFiles := 1, iodepth := 1
    iodepthLow := 1
    iodepthBatch := 1, iodepthBatchComplete := 1, bs := 4096, readBs := 4096, minBs := 4096
    readMinBs := 4096, maxBs := 4096, readMaxBs := 4096, rwMinBs := 4096, bs_pos := by decide
    readBs_pos := by decide, rwMinBs_pos := by decide, ba := 4096, readBa := 4096
    bsUnaligned := false, bssplit := [], readBssplit := [], verify := .verifyNone
    verifyInner := false, doVerify := true
    verifysort := true, verifyInterval := 0, verifyOffset := 0, verifyPattern := fun _ => 0
    verifyPatternBytes := 0, verifyFatal := false, verifyAsync := false, verifyBacklog := 0
    verifyBatch := 0, randomagain := false, norandommap := false, softrandommap := false
    overwrite := false, timeout := 0, timeBased := false, zoneRange := 0, zoneSize := 0
    zoneSkip := 0, trimPercentage := 0, trimZero := true, trimBacklog := 0, trimBatch := 0
    fillDevice := false, continueOnError := ⟨false, false, false⟩, uniqueOps := .timeN }

instance : Inhabited ThreadOptions := ⟨defaultOptions⟩

def ThreadOptions.tdRw (o : ThreadOptions) : Bool := o.ddirRead && o.ddirWrite

/-- A `struct fio_file *`: files are told apart (and ordered, in the history tree) by address. -/
abbrev FileId : Type := Nat

/-- The two completion handlers the verify paths install in `end_io`. -/
inductive EndIo
  | verifyIoU | verifyIoUAsync
  deriving DecidableEq, Repr

/-- `struct io_u`, by default as `init_io_u` leaves it. -/
structure IoU where
  buf : Mem := fun _ => 0
  (buflen offset randSeed xferBuf xferBuflen bufFilledLen : BitVec 64 := 0)
  resid : BitVec 32 := 0
  error : Nat := 0
  ddir : Ddir := .read
  file : Option FileId := none
  endIo : Option EndIo := none
  uniqueVersion : FioUnique := ⟨0, 0⟩
  randomagain : Bool := false
  /-- `IO_U_F_FREE` and the other flags. -/
  free : Bool := true
  (flight freeDef inCurDepth busyOk trimmed barrier verList : Bool := false)

instance : Inhabited IoU := ⟨{}⟩

/-- The functions whose `assert`s the model keeps. -/
inductive AssertSite
  | removeSeg | overlapDivide | iohistHashDel | logIoPiece | getNextVerify | getNextTrim | getFile
  | tdIoOpenFile | putFile | getIoU | tdIoQueue | ioCompleted | doVerify | populateHdr
  | markBitMap | markRandomMap | getReadyIoU | doIo
  deriving DecidableEq, Repr

/-- Ways a modelled function can fail to return normally. -/
inductive Fault
  /-- An `assert` of the given function fails. -/
  | assertFailed (site : AssertSite)
  /-- An access outside the words of a block map. -/
  | mapOverrun
  /-- A pointer that is null or refers to a freed object is followed. -/
  | badPointer
  /-- A loop that the fuel given to it does not finish. -/
  | outOfFuel
  deriving DecidableEq, Repr

section

variable {α β : Type} {run : Except Fault α} {next : α → Except Fault β} {b : β}

lemma bind_eq_ok :
    run >>= next = .ok b ↔ ∃ a, run = .ok a ∧ next a = .ok b := by
  cases run with
  | error e => simp [bind, Except.bind]
  | ok a => simp [bind, Except.bind]

lemma of_bind
    (h : run >>= next = .ok b) : ∃ a, run = .ok a ∧ next a = .ok b := bind_eq_ok.1 h

end

lemma ok_pair {α β : Type} {a a' : α} {b b' : β}
    (h : (.ok (a, b) : Except Fault (α × β)) = .ok (a', b')) : a = a' ∧ b = b' :=
  Prod.mk.inj (Except.ok.inj h)

def okAnd {α : Type} (run : Except Fault α) (test : α → Bool) : Bool :=
  match run with
  | .ok a => test a
  | .error _ => false

/-- Whether a run returns normally and its value has a property is decided by the run. -/
instance decidableOk {α : Type} (run : Except Fault α) (P : α → Prop) [DecidablePred P] :
    Decidable (∃ a, run = .ok a ∧ P a) :=
  match run with
  | .ok a => decidable_of_iff (P a) ⟨fun h => ⟨a, rfl, h⟩, fun ⟨_, rfl, h⟩ => h⟩
  | .error _ => isFalse nofun

instance decidableOkPair {α β : Type} (run : Except Fault (α × β)) (P : α → β → Prop)
    [∀ a b, Decidable (P a b)] : Decidable (∃ a b, run = .ok (a, b) ∧ P a b) :=
  decidable_of_iff (∃ r, run = .ok r ∧ P r.1 r.2)
    ⟨fun ⟨r, h⟩ => ⟨r.1, r.2, h⟩, fun ⟨a, b, h⟩ => ⟨(a, b), h⟩⟩

instance decidableOkWith {α β : Type} [DecidableEq α] (run : Except Fault (α × β)) (a : α)
    (P : β → Prop) [DecidablePred P] : Decidable (∃ b, run = .ok (a, b) ∧ P b) :=
  decidable_of_iff (∃ r, run = .ok r ∧ r.1 = a ∧ P r.2)
    ⟨fun ⟨r, hrun, ha, h⟩ => ⟨r.2, ha ▸ hrun, h⟩, fun ⟨b, hrun, h⟩ => ⟨(a, b), hrun, rfl, h⟩⟩

instance decidableError {α : Type} (run : Except Fault α) (e : Fault) : Decidable (run = .error e) :=
  match run with
  | .ok _ => isFalse nofun
  | .error e' => decidable_of_iff (e' = e) ⟨congrArg _, Except.error.inj⟩

end FioSsd
