import FioSsd.Backend.Pool

/-! # Queueing and completing I/O units -/

namespace FioSsd

variable (k : Checksums) (hash : KeyHash) (o : ThreadOptions)

/-- `FIO_Q_COMPLETED`, `FIO_Q_QUEUED` and `FIO_Q_BUSY`; an engine returns a negative error otherwise. -/
def fioQCompleted : Int := 0
@[inherit_doc fioQCompleted] def fioQQueued : Int := 1
@[inherit_doc fioQCompleted] def fioQBusy : Int := 2

structure Transfer where
  error : Nat
  resid : BitVec 32
  buf : Mem

structure QueueHook where
  ret : Int
  transfer : Transfer
  /-- The error the engine itself reports with `td_verror`, 0 for none. -/
  verror : Int
  /-- What the `commit` hook returns if `td_io_queue` calls it. -/
  commit : Int

/-- A unit that `getevents` hands back, with what its completion meets: the result of closing its
    file and the draw of `io_u_should_trim`. -/
structure Event where
  ioU : Nat
  transfer : Transfer
  close : Int
  draw : Nat

/-- What the hooks `commit` and `getevents` do in `td_io_getevents`. -/
inductive Reap
  | fails (err : Nat) (pos : 0 < err)
  | events (evs : List Event)

def IoU.transferred (ioU : IoU) (t : Transfer) : IoU :=
  { ioU with error := t.error, resid := t.resid, buf := t.buf }

namespace Td

variable (td : Td)

/-- `td_io_commit`; `ret` is what the `commit` hook returns, 0 without one. -/
def tdIoCommit (ret : Int) : Td :=
  if td.curDepth = 0 ∨ td.ioUQueued = 0 then td
  else
    let td := if ret ≠ 0 then td.tdVerror (-ret) else td
    { td with ioUInFlight := (td.ioUInFlight + td.ioUQueued) % 2 ^ 32, ioUQueued := 0 }

variable (u : Nat)

def callQueue (hook : QueueHook) : Td :=
  let td := td.setIoU u ({ td.ioUs u with flight := true }.transferred hook.transfer)
  if hook.verror ≠ 0 then td.tdVerror hook.verror else td

/-- What `td_io_queue` does behind the hook for a unit that is queued. -/
def countQueued (hook : QueueHook) : Td :=
  let td := if ddirRw (td.ioUs u).ddir then
      { td with ioUQueued := (td.ioUQueued + 1) % 2 ^ 32 }
    else td
  if o.iodepthBatch ≤ td.ioUQueued then td.tdIoCommit hook.commit else td

def tdIoQueue (td : Td) (u : Nat) (hook : QueueHook) : Except Fault Td :=
  match (td.ioUs u).file with
  | none => .error .badPointer
  | some f =>
    if (td.ioUs u).flight then .error (.assertFailed .tdIoQueue)
    else if !(td.hist.files f).isOpen then .error (.assertFailed .tdIoQueue)
    else if hook.ret = fioQQueued then .ok ((td.callQueue u hook).countQueued o u hook)
    else .ok (td.callQueue u hook)

variable {o} in
lemma tdIoQueue_completed {td td' : Td} {u : Nat} {hook : QueueHook}
    (hret : hook.ret = fioQCompleted) (h : td.tdIoQueue o u hook = .ok td') :
    td' = td.callQueue u hook := by
  unfold tdIoQueue at h
  cases hfl : (td.ioUs u).file with
  | none => simp [hfl] at h
  | some f =>
    simp only [hfl, hret] at h
    split_ifs at h with _ _ hq
    · cases hq
    · exact (Except.ok.inj h).symm

lemma callQueue_eq (h : QueueHook) : td.callQueue u h = { td.setIoU u
      ({ td.ioUs u with flight := true }.transferred h.transfer) with
      error := (td.callQueue u h).error } := by
  unfold callQueue
  by_cases hv : h.verror = 0
  · simp [hv]
  · simp only [hv, ne_eq, not_false_eq_true, if_true]
    exact tdVerror_eq _ _

def tdIoGetevents (minEvents : Nat) (reap : Reap) : Except Nat (List Event) × Td :=
  let maxEvents := max minEvents (min o.iodepthBatchComplete td.curDepth)
  match reap with
  | .fails err _ => if maxEvents = 0 then (.ok [], td) else (.error err, td.tdVerror (-err))
  | .events evs =>
    let evs := if maxEvents = 0 then [] else evs
    (.ok evs, { td with
      ioUInFlight := (td.ioUInFlight + 2 ^ 32 - evs.length % 2 ^ 32) % 2 ^ 32 })

def endIo (td : Td) (u : Nat) (close : Int) : Except Fault (Nat × Td) :=
  match (td.ioUs u).endIo with
  | none => .ok (0, td)
  | some .verifyIoU => do
    let res ← verifyIoU k o (td.ioUs u) ((td.ioUs u).buflen.toNat + 1)
    return (res.ret, td.afterVerify u res)
  | some .verifyIoUAsync => do return (0, ← td.verifyIoUAsync u close)

def ioULogError : Td :=
  if td.error = 0 then td.tdVerror (td.ioUs u).error else td

variable (icdError : Nat)

/-- The end of `io_completed`: count and clear an error that the job goes on after. -/
def settleError : Nat × Td :=
  let ioU := td.ioUs u
  if icdError ≠ 0 && tdNonFatalError icdError &&
      o.continueOnError.includes (tdErrorType ioU.ddir icdError) then
    (0, ((td.updateErrorCount icdError).tdClearError).setIoU u { ioU with error := 0 })
  else (icdError, td)

/-- The history behind `log_io_piece`, which `io_completed` calls for the writes to be verified. -/
def logWrite (draw : Nat) : Except Fault History :=
  if o.ddirWrite && (td.ioUs u).ddir = .write && o.doVerify && o.verify ≠ .verifyNone then
    td.hist.logIoPiece hash o (td.ioUs u) draw
  else .ok td.hist

variable (close : Int)

def rwCompleted (draw : Nat) :
    Except Fault (Nat × Td) := do
  let hist ← td.logWrite hash o u draw
  let (ret, td) ← { td with hist := hist }.endIo k o u close
  return td.settleError o u (if ret ≠ 0 && icdError = 0 then ret else icdError)

def land : Td :=
  td.setIoU u { td.ioUs u with flight := false, busyOk := false }

def setLastDdir (ddir : Ddir) : Td :=
  { td with issue := { td.issue with lastDdir := ddir } }

@[simp] lemma setLastDdir_ioUs (ddir : Ddir) : (td.setLastDdir ddir).ioUs = td.ioUs := rfl

def landed (draw : Nat) :
    Except Fault (Nat × Td) :=
  let ioU := td.ioUs u
  let next := td.setLastDdir ioU.ddir
  if ddirSync ioU.ddir then .ok (icdError, td)
  else if ioU.error = 0 && ddirRw ioU.ddir then next.rwCompleted k hash o u icdError close draw
  else if ioU.error ≠ 0 then .ok ((next.ioULogError u).settleError o u ioU.error)
  else .ok (next.settleError o u icdError)

/-- `io_completed`; `icdError` is the error the completion data holds before and after. -/
def ioCompleted (td : Td) (u : Nat) (icdError : Nat) (close : Int) (draw : Nat) :
    Except Fault (Nat × Td) :=
  if (td.ioUs u).flight then (td.land u).landed k hash o u icdError close draw
  else .error (.assertFailed .ioCompleted)

def completeIoU (draw : Nat) :
    Except Fault (Nat × Td) := do
  let (icdError, td) ← td.ioCompleted k hash o u icdError close draw
  if (td.ioUs u).freeDef then return (icdError, td)
  else return (icdError, ← td.putIoU u close)

def iosCompleted (td : Td) (icdError : Nat) : List Event → Except Fault (Nat × Td)
  | [] => .ok (icdError, td)
  | ev :: rest => do
    let td := td.setIoU ev.ioU ((td.ioUs ev.ioU).transferred ev.transfer)
    let (icdError, td) ← td.completeIoU k hash o ev.ioU icdError ev.close ev.draw
    td.iosCompleted icdError rest

def ioUSyncComplete (draw : Nat) : Except Fault (Int × Td) := do
  let (icdError, td) ← td.completeIoU k hash o u 0 close draw
  if icdError ≠ 0 then return (-1, td.tdVerror icdError) else return (0, td)

def ioUQueuedComplete (minEvents : Nat) (reap : Reap) : Except Fault (Int × Td) :=
  match td.tdIoGetevents o minEvents reap with
  | (.error err, td) => .ok (-err, td.tdVerror err)
  | (.ok evs, td) =>
    if evs.length = 0 then .ok (0, td)
    else do
      let (icdError, td) ← td.iosCompleted k hash o 0 evs
      if icdError ≠ 0 then return (-1, td.tdVerror icdError) else return (0, td)

end Td

/-! ## Short transfers

Both I/O loops resubmit the rest of a unit that the engine completed short. -/

def shortBytes (ioU : IoU) : BitVec 32 := (ioU.xferBuflen - ioU.resid.setWidth 64).setWidth 32

def IoU.advance (ioU : IoU) : IoU :=
  let bytes := (shortBytes ioU).signExtend 64
  { ioU with
    xferBuflen := ioU.resid.setWidth 64, xferBuf := ioU.xferBuf + bytes
    offset := ioU.offset + bytes }

inductive CompletedExit
  /-- The unit had an error and is back on the free list. -/
  | failed (error : Nat)
  | zero
  | requeued
  | done (ret : Int)

namespace Td

def syncDone (td : Td) (u : Nat) (close : Int) (draw : Nat) : Except Fault (CompletedExit × Td) := do
  let (ret, td) ← td.ioUSyncComplete k hash o u close draw
  return (.done ret, td)

/-- The case `FIO_Q_COMPLETED`, which `do_io` and `do_verify` share. -/
def queueCompleted (td : Td) (u : Nat) (close : Int) (draw : Nat) :
    Except Fault (CompletedExit × Td) :=
  let ioU := td.ioUs u
  if ioU.error ≠ 0 then do return (.failed ioU.error, ← td.clearIoU u close)
  else if ioU.resid ≠ 0 then
    if shortBytes ioU = 0 then do return (.zero, ← (td.tdVerror eio).putIoU u close)
    else
      let td := td.setIoU u ioU.advance
      match ioU.file with
      | none => .error .badPointer
      | some f =>
        if ioU.advance.offset = (td.hist.files f).realFileSize then
          td.syncDone k hash o u close draw
        else .ok (.requeued, td.requeueIoU u)
  else td.syncDone k hash o u close draw

end Td

namespace Td

/-- `break_on_this_error`: whether to leave the loop, and the value it leaves in `ret`. -/
def breakOnThisError (td : Td) (ddir : Ddir) (ret : Int) : Bool × Int × Td :=
  if ret < 0 ∨ td.error ≠ 0 then
    let err := if ret < 0 then -ret else td.error
    if !o.continueOnError.includes (tdErrorType ddir err.toNat) then (true, ret, td)
    else if tdNonFatalError err.toNat then (false, 0, (td.updateErrorCount err).tdClearError)
    else if o.fillDevice ∧ err = enospc then (true, ret, { td.tdClearError with terminate := true })
    else (true, ret, td.updateErrorCount err)
  else (false, ret, td)

end Td

end FioSsd
