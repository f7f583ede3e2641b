import FioSsd.History.Ops
import FioSsd.Verify.Check

/-! # The job and its I/O units

A job owns a fixed set of I/O units, each linked on one of its lists: free, busy (handed out),
waiting to be requeued, or waiting for a verifier thread. -/

namespace FioSsd

variable {close : Int} {u : Nat} {td td' : Td}

structure TimeNumber where
  lastTime : BitVec 64
  lastNumber : BitVec 32

/-- The part of `struct thread_data` that carries `get_io_u` from one call to the next. -/
structure IssueState where
  ddirSeqNr : BitVec 32 := 1
  zoneBytes : BitVec 64 := 0
  lastDdir : Ddir := .read
  (verifyBatch trimBatch nrDoneFiles : Nat := 0)
  unique : FioUnique := ⟨0, 0⟩
  timeN : TimeNumber := ⟨0, 0⟩

structure Td where
  hist : History := {}
  ioUs : Nat → IoU := fun _ => {}
  (ioUFreelist ioUBusylist ioURequeues verifyList : List Nat := [])
  (curDepth ioUQueued ioUInFlight : Nat := 0)
  (error firstError : Int := 0)
  totalErrCount : Nat := 0
  terminate : Bool := false
  nrVerifyThreads : Nat := 1
  issue : IssueState := {}

instance : Inhabited Td := ⟨{}⟩

def dec32 (n : Nat) : Nat := (n + (2 ^ 32 - 1)) % 2 ^ 32

namespace Td

variable (td)

def tdVerror (err : Int) : Td :=
  if td.error = 0 then { td with error := err } else td

def tdClearError : Td := { td with error := 0 }

def updateErrorCount (err : Int) : Td :=
  let count := (td.totalErrCount + 1) % 2 ^ 32
  { td with totalErrCount := count, firstError := if count = 1 then err else td.firstError }

lemma tdVerror_eq (err : Int) :
    td.tdVerror err = { td with error := (td.tdVerror err).error } := by
  unfold tdVerror
  split_ifs <;> rfl

lemma tdVerror_error_ne_zero {err : Int} (h : err ≠ 0) : (td.tdVerror err).error ≠ 0 := by
  unfold tdVerror
  by_cases hz : td.error = 0
  · rwa [if_pos hz]
  · rwa [if_neg hz]

variable {td}

end Td

/-- `put_file`: drop one reference, and close the file with the last one; `close` is what the file
    system returns then. -/
def History.putFile (h : History) (f : FileId) (close : Int) : Except Fault (Int × History) :=
  let file := h.files f
  if file.isOpen then
    if file.references = 0 then .error (.assertFailed .putFile)
    else if file.references - 1 ≠ 0 then
      .ok (0, { h with
        files := Function.update h.files f { file with references := file.references - 1 } })
    else
      .ok (close, { h with
        nrOpenFiles := h.nrOpenFiles - 1
        files := Function.update h.files f
          { file with references := 0, isOpen := false, fdOpen := false } })
  else if file.fdOpen then .error (.assertFailed .putFile)
  else .ok (0, h)

lemma History.putFile_pieces {h h' : History} {f : FileId} {ret : Int}
    (hr : h.putFile f close = .ok (ret, h')) :
    h'.heap = h.heap ∧ h'.ioHistTree = h.ioHistTree ∧ h'.ioHistList = h.ioHistList := by
  unfold History.putFile at hr
  simp only at hr
  split_ifs at hr <;> obtain ⟨-, rfl⟩ := ok_pair hr <;>
    exact ⟨rfl, rfl, rfl⟩

namespace Td

def putFileLog (td : Td) (f : FileId) (close : Int) : Except Fault Td := do
  let (ret, hist) ← td.hist.putFile f close
  let td := { td with hist := hist }
  return if ret ≠ 0 then td.tdVerror ret else td

lemma putFileLog_cases {f : FileId} (h : td.putFileLog f close = .ok td') :
    ∃ ret hist error, td.hist.putFile f close = .ok (ret, hist) ∧
      td' = { td with hist := hist, error := error } := by
  obtain ⟨⟨ret, hist⟩, hput, h⟩ := of_bind h
  cases h
  refine ⟨ret, hist, ?_⟩
  split_ifs
  · exact ⟨_, hput, tdVerror_eq _ _⟩
  · exact ⟨_, hput, rfl⟩

variable (td)

def setIoU (u : Nat) (ioU : IoU) : Td :=
  { td with ioUs := Function.update td.ioUs u ioU }

/-- `flist_del(&io_u->list)`: unlink the unit from the list it is on. -/
def unlink (u : Nat) : Td :=
  { td with
    ioUFreelist := td.ioUFreelist.erase u, ioUBusylist := td.ioUBusylist.erase u
    ioURequeues := td.ioURequeues.erase u, verifyList := td.verifyList.erase u }

def queueFull : Bool := td.ioUFreelist.isEmpty

def depthWithout (u : Nat) : Nat :=
  if (td.ioUs u).inCurDepth then dec32 td.curDepth else td.curDepth

def linkFree (u : Nat) : Td :=
  let depth := td.depthWithout u
  let td := td.setIoU u { td.ioUs u with file := none, freeDef := false, free := true }
  let td := td.unlink u
  { td with ioUFreelist := u :: td.ioUFreelist, curDepth := depth }

def putIoU (u : Nat) (close : Int) : Except Fault Td :=
  match (td.ioUs u).file with
  | none => .ok (td.linkFree u)
  | some f =>
    if (td.ioUs u).freeDef then .ok (td.linkFree u)
    else do
      let td ← td.putFileLog f close
      return td.linkFree u

variable {td}

lemma putIoU_split (h : td.putIoU u close = .ok td') :
    ((td.ioUs u).file = none ∨ (td.ioUs u).freeDef = true) ∧ td' = td.linkFree u ∨
      ∃ f td1, (td.ioUs u).file = some f ∧ (td.ioUs u).freeDef = false ∧
        td.putFileLog f close = .ok td1 ∧ td' = td1.linkFree u := by
  unfold putIoU at h
  cases hfl : (td.ioUs u).file with
  | none =>
    rw [hfl] at h
    cases h
    exact .inl ⟨.inl rfl, rfl⟩
  | some f =>
    simp only [hfl] at h
    split_ifs at h with hdef
    · cases h
      exact .inl ⟨.inr hdef, rfl⟩
    · obtain ⟨td1, hput, h⟩ := of_bind h
      cases h
      exact .inr ⟨f, td1, rfl, by simpa using hdef, hput, rfl⟩

variable (td)

def clearIoU (u : Nat) (close : Int) : Except Fault Td :=
  (td.setIoU u { td.ioUs u with flight := false }).putIoU u close

def requeueIoU (u : Nat) : Td :=
  let depth := td.depthWithout u
  let td := td.setIoU u { td.ioUs u with free := true, flight := false }
  let td := td.unlink u
  { td with ioURequeues := td.ioURequeues ++ [u], curDepth := depth }

def handOut (u : Nat) : Td :=
  let td := td.setIoU u { td.ioUs u with
    free := false, freeDef := false, trimmed := false, barrier := false, verList := false
    randomagain := false, error := 0, inCurDepth := true }
  let td := td.unlink u
  { td with ioUBusylist := u :: td.ioUBusylist, curDepth := (td.curDepth + 1) % 2 ^ 32 }

def takeIoU (u : Nat) : Except Fault Td :=
  if (td.ioUs u).free then .ok (td.handOut u) else .error (.assertFailed .getIoU)

def blankIoU (u : Nat) : Td :=
  td.setIoU u { td.ioUs u with buflen := 0, resid := 0, file := none, endIo := none }

/-- `__get_io_u` up to the wait for a verifier thread: a requeued unit first, as it is, else a free
    one with a blank request. -/
def getIoU : Except Fault (Option Nat × Td) :=
  match td.ioURequeues, td.ioUFreelist with
  | u :: _, _ => do return (some u, ← td.takeIoU u)
  | [], u :: _ => do return (some u, ← (td.blankIoU u).takeIoU u)
  | [], [] => .ok (none, td)

variable {td}

lemma getIoU_spec (h : td.getIoU = .ok (some u, td')) :
    td'.hist = td.hist ∧ td'.issue = td.issue ∧ td'.ioURequeues = td.ioURequeues.tail ∧
      (td.ioURequeues = [] → (td'.ioUs u).file = none) := by
  unfold getIoU takeIoU at h
  split at h
  · next v rest free hrqs =>
      obtain ⟨td1, htk, h⟩ := of_bind h
      obtain ⟨hv, rfl⟩ := ok_pair h
      cases hv
      split_ifs at htk
      cases htk
      refine ⟨rfl, rfl, ?_, fun hemp => nomatch hrqs.symm.trans hemp⟩
      simp [handOut, unlink, setIoU, hrqs]
  · next v rest hrqs hfr =>
      obtain ⟨td1, htk, h⟩ := of_bind h
      obtain ⟨hv, rfl⟩ := ok_pair h
      cases hv
      split_ifs at htk
      cases htk
      refine ⟨rfl, rfl, ?_, fun _ => ?_⟩
      · simp [handOut, unlink, setIoU, blankIoU, hrqs]
      · simp [handOut, unlink, setIoU, blankIoU]
  · cases h

lemma getIoU_none (h : td.getIoU = .ok (none, td')) : td' = td := by
  unfold getIoU at h
  split at h
  · obtain ⟨td1, -, h⟩ := of_bind h
    cases h
  · obtain ⟨td1, -, h⟩ := of_bind h
    cases h
  · exact (ok_pair h).2.symm

def handOver (td : Td) (u : Nat) : Td :=
  let depth := td.depthWithout u
  let td := td.setIoU u { td.ioUs u with inCurDepth := false, freeDef := true }
  let td := td.unlink u
  { td with verifyList := td.verifyList ++ [u], curDepth := depth }

/-- `verify_io_u_async`: hand a completed read over to the verifier threads. -/
def verifyIoUAsync (td : Td) (u : Nat) (close : Int) : Except Fault Td :=
  match (td.ioUs u).file with
  | none => .ok (td.handOver u)
  | some f => do
    let td ← td.putFileLog f close
    return td.handOver u

lemma verifyIoUAsync_split (h : td.verifyIoUAsync u close = .ok td') :
    (td.ioUs u).file = none ∧ td' = td.handOver u ∨
      ∃ f td1, (td.ioUs u).file = some f ∧ td.putFileLog f close = .ok td1 ∧ td' = td1.handOver u := by
  unfold verifyIoUAsync at h
  cases hfl : (td.ioUs u).file with
  | none =>
    rw [hfl] at h
    cases h
    exact .inl ⟨rfl, rfl⟩
  | some f =>
    rw [hfl] at h
    obtain ⟨td1, hput, h⟩ := of_bind h
    cases h
    exact .inr ⟨f, td1, rfl, hput, rfl⟩

def afterVerify (td : Td) (u : Nat) (res : VerifyResult) : Td :=
  { td.setIoU u { td.ioUs u with buf := res.buf } with
    terminate := td.terminate || res.terminate }

/-- The unit is in the hands of a verifier thread: its file is released, it does not count in
    `cur_depth`, and the I/O loop cannot take it. -/
structure WithVerifier (td : Td) (u : Nat) : Prop where
  freeDef : (td.ioUs u).freeDef = true
  inCurDepth : (td.ioUs u).inCurDepth = false
  requeues : u ∉ td.ioURequeues
  busy : u ∉ td.ioUBusylist

lemma WithVerifier.afterVerify (h : td.WithVerifier u) (res : VerifyResult) :
    (td.afterVerify u res).WithVerifier u :=
  ⟨by simpa [Td.afterVerify, setIoU] using h.freeDef,
    by simpa [Td.afterVerify, setIoU] using h.inCurDepth, h.requeues, h.busy⟩

lemma putIoU_of_freeDef (h : (td.ioUs u).freeDef = true) (close : Int) :
    td.putIoU u close = .ok (td.linkFree u) := by
  unfold putIoU
  cases (td.ioUs u).file with
  | none => rfl
  | some f => simp only [h, if_true]

end Td

end FioSsd
