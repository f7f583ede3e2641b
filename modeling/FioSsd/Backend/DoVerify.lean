import FioSsd.Backend.Complete
import FioSsd.Verify.Async

/-! # The verify phase -/

namespace FioSsd

variable (k : Checksums) (hash : KeyHash) (o : ThreadOptions)

abbrev Others : Type := { act : Td → Td // ∀ td, Rely o td (act td) }

namespace Td

variable (td : Td)

/-- `__get_io_u`: with verifier threads it waits until one of them puts a unit back. -/
def getIoUWait (td : Td) : List (Others o) → Except Fault (Option Nat × Td)
  | [] =>
    match td.getIoU with
    | .ok (none, td) => if o.verifyAsync then .error .outOfFuel else .ok (none, td)
    | r => r
  | w :: rest =>
    match td.getIoU with
    | .ok (none, td) => if o.verifyAsync then (w.1 td).getIoUWait rest else .ok (none, td)
    | r => r

variable {o} in
lemma getIoUWait_rely {I : Td → Prop} (hrl : ∀ {td td' : Td}, I td → Rely o td td' → I td')
    {ws : List (Others o)} {td td' : Td} {res : Option Nat} (hI : I td)
    (h : td.getIoUWait o ws = .ok (res, td')) : ∃ td0, I td0 ∧ td0.getIoU = .ok (res, td') := by
  induction ws generalizing td with
  | nil =>
    unfold getIoUWait at h
    split at h
    · next td1 hget =>
        split_ifs at h
        cases h
        exact ⟨td, hI, hget⟩
    · exact ⟨td, hI, h⟩
  | cons w rest ih =>
    unfold getIoUWait at h
    split at h
    · next td1 hget =>
        split_ifs at h
        · obtain rfl := getIoU_none hget
          exact ih (hrl hI (w.2 td1)) h
        · cases h
          exact ⟨td, hI, hget⟩
    · exact ⟨td, hI, h⟩

structure FileSync where
  waits : List (Others o)
  prepFails : Bool
  /-- The calls of the `queue` hook, until it is not busy. -/
  hooks : List QueueHook
  reap : Reap
  close : Int
  draw : Nat
  /-- What `file_invalidate_cache` reports, 0 for success. -/
  invalidate : Int

variable (u : Nat)

/-- `fio_io_sync` from the label `requeue` on; the flag is its nonzero result. -/
def ioSyncQueue (td : Td) (u : Nat) (s : FileSync o) : List QueueHook → Except Fault (Bool × Td)
  | [] => .error .outOfFuel
  | hook :: rest => do
    let td ← td.tdIoQueue o u hook
    let error := (td.ioUs u).error
    if hook.ret < 0 then return (true, ← (td.tdVerror error).putIoU u s.close)
    else if hook.ret = fioQQueued then
      let (ret, td) ← td.ioUQueuedComplete k hash o 1 s.reap
      return (ret < 0, td)
    else if hook.ret = fioQCompleted then
      if error ≠ 0 then return (true, td.tdVerror error)
      else
        let (ret, td) ← td.ioUSyncComplete k hash o u s.close s.draw
        return (ret < 0, td)
    else if hook.ret = fioQBusy then (td.tdIoCommit hook.commit).ioSyncQueue u s rest
    else return (false, td)

def fioIoSync (f : FileId) (s : FileSync o) : Except Fault (Bool × Td) := do
  match ← td.getIoUWait o s.waits with
  | (none, td) => return (true, td)
  | (some u, td) =>
    let td := td.setIoU u { td.ioUs u with ddir := .sync, file := some f }
    if s.prepFails then return (true, ← td.putIoU u s.close)
    else td.ioSyncQueue k hash o u s s.hooks

def syncFiles (td : Td) : List (FileId × FileSync o) → Except Fault Td
  | [] => .ok td
  | (f, s) :: rest =>
    if !(td.hist.files f).isOpen then td.syncFiles rest
    else do
      let (failed, td) ← td.fioIoSync k hash o f s
      if failed then return td
      else if (td.hist.files f).isOpen && s.invalidate ≠ 0 then return td.tdVerror s.invalidate
      else td.syncFiles rest

structure VerifyRound where
  /-- The other threads, up to the test of `terminate`. -/
  others : Others o
  (expired flow : Bool)
  waits : List (Others o)
  opened : History.OpenOutcome
  /-- The error the engine reports when it cannot open the file. -/
  openError : Int
  prepFails : Bool
  hook : QueueHook
  /-- What the `commit` hook returns if the engine was busy. -/
  (commit close : Int)
  draw : Nat
  reaps : List Reap

/-- How the `switch` on the result of `td_io_queue` is left: by `continue`, or by `break` with the
    value of `ret` and the pointer `io_u`. -/
inductive SwitchExit
  | continues
  | breaks (ret : Int) (ioU : Option Nat)

def verifyCompleted (r : VerifyRound o) : Except Fault (SwitchExit × Td) := do
  match ← td.queueCompleted k hash o u r.close r.draw with
  | (.failed _, td) => return (.continues, td)
  | (.zero, td) => return (.breaks 0 (some u), td)
  | (.requeued, td) => return (.continues, td)
  | (.done ret, td) => return (if ret < 0 then .breaks ret (some u) else .continues, td)

/-- The `switch`. -/
def verifySwitch (r : VerifyRound o) : Except Fault (SwitchExit × Td) :=
  if r.hook.ret = fioQCompleted then td.verifyCompleted k hash o u r
  else if r.hook.ret = fioQQueued then .ok (.breaks r.hook.ret (some u), td)
  else if r.hook.ret = fioQBusy then
    .ok (.breaks r.hook.ret none, (td.requeueIoU u).tdIoCommit r.commit)
  else if r.hook.ret < 0 then .ok (.breaks r.hook.ret (some u), td.tdVerror (-r.hook.ret))
  else .error (.assertFailed .doVerify)

def reapLoop (full : Bool) (minEvents : Nat) (ret : Int) (td : Td) :
    List Reap → Except Fault (Int × Td)
  | [] => .error .outOfFuel
  | reap :: rest => do
    let (r, td) ← td.ioUQueuedComplete k hash o minEvents reap
    if r < 0 then return (-1, td)
    else if full && decide (o.iodepthLow < td.curDepth) then reapLoop full minEvents ret td rest
    else return (ret, td)

/-- The rest of a round behind the `switch`; the flag says whether the loop goes on. -/
def verifyBehindSwitch (ret : Int) (ioU : Option Nat) (r : VerifyRound o) :
    Except Fault (Bool × Td) :=
  match ioU with
  | none => .error .badPointer
  | some u =>
    match td.breakOnThisError o (td.ioUs u).ddir ret with
    | (true, _, td) => .ok (false, td)
    | (false, ret, td) => do
      let full := td.queueFull || (ret = fioQBusy && td.curDepth ≠ 0)
      let (ret, td) ← if full || o.iodepthBatchComplete = 0 then
          let minEvents := min o.iodepthBatchComplete td.curDepth
          reapLoop k hash o full (if full && minEvents = 0 then 1 else minEvents) ret td r.reaps
        else pure (ret, td)
      return (0 ≤ ret, td)

/-- A call of `td_io_queue` by the loop: the job it finds, the unit and what the engine does. -/
structure Issue where
  td : Td
  ioU : Nat
  hook : QueueHook

/-- `get_next_verify` on a unit of the job; an engine that cannot open the file reports it. -/
def fetchVerify (r : VerifyRound o) : Except Fault (Bool × Td) := do
  let (failed, ioU, hist) ← td.hist.getNextVerify o (td.ioUs u) r.opened
  let td := { td.setIoU u ioU with hist := hist }
  return (failed,
    if failed && ioU.file.isSome && r.openError ≠ 0 then td.tdVerror r.openError else td)

def setVerifyHandler : Td :=
  td.setIoU u { td.ioUs u with
    endIo := some (if o.verifyAsync then .verifyIoUAsync else .verifyIoU) }

/-- Queue a read and deal with the result; the flag says whether the loop goes on. -/
def queueRead (r : VerifyRound o) : Except Fault (Bool × Td) := do
  let td ← td.tdIoQueue o u r.hook
  match ← td.verifySwitch k hash o u r with
  | (.continues, td) => return (true, td)
  | (.breaks ret ioU, td) => td.verifyBehindSwitch k hash o ret ioU r

def verifyFetched (r : VerifyRound o) :
    Except Fault (Bool × Td × Option Issue) := do
  let (failed, td) ← td.fetchVerify o u r
  if failed || r.prepFails then return (false, ← td.putIoU u r.close, none)
  else
    let (again, td') ← (td.setVerifyHandler o u).queueRead k hash o u r
    return (again, td', some ⟨td.setVerifyHandler o u, u, r.hook⟩)

/-- One round of the loop: whether it goes on, and the read the round issues. -/
def verifyRound (r : VerifyRound o) : Except Fault (Bool × Td × Option Issue) :=
  let td := r.others.1 td
  if td.terminate then .ok (false, td, none)
  else if r.expired then .ok (false, { td with terminate := true }, none)
  else if r.flow then .ok (true, td, none)
  else do
    match ← td.getIoUWait o r.waits with
    | (none, td) => return (false, td, none)
    | (some u, td) => td.verifyFetched k hash o u r

/-- The loop, with the reads it issues; it runs out of rounds while it is still running. -/
def verifyRounds (td : Td) : List (VerifyRound o) → Except Fault (Td × List Issue)
  | [] => .error .outOfFuel
  | r :: rest => do
    match ← td.verifyRound k hash o r with
    | (false, td, issue) => return (td, issue.toList)
    | (true, td, issue) =>
      let (td, issues) ← td.verifyRounds rest
      return (td, issue.toList ++ issues)

structure Cleanup where
  first : Reap
  /-- The `cancel` hook, if there is one: whether it fails on a unit. -/
  cancel : Option (Nat → Bool)
  close : Nat → Int
  last : Reap

def cancelLoop (td : Td) (fails : Nat → Bool) (close : Nat → Int) : List Nat → Except Fault Td
  | [] => .ok td
  | u :: rest =>
    if (td.ioUs u).flight && fails u then td.cancelLoop fails close rest
    else do (← td.putIoU u (close u)).cancelLoop fails close rest

def cancelBusy (c : Cleanup) : Except Fault Td :=
  match c.cancel with
  | none => .ok td
  | some fails => td.cancelLoop fails c.close td.ioUBusylist

def reapAll (reap : Reap) : Except Fault Td :=
  if td.curDepth ≠ 0 then do return (← td.ioUQueuedComplete k hash o td.curDepth reap).2
  else .ok td

def cleanupPendingAio (c : Cleanup) : Except Fault Td := do
  let (ret, td) ← td.ioUQueuedComplete k hash o 0 c.first
  if ret < 0 then return td
  else (← td.cancelBusy c).reapAll k hash o c.last

/-- The end of `do_verify`: wait for the reads in flight, or give them up after an error. -/
def verifyFinish (reap : Reap) (c : Cleanup) : Except Fault Td :=
  if td.error ≠ 0 then td.cleanupPendingAio k hash o c else td.reapAll k hash o reap

structure VerifyPhase where
  syncs : List (FileId × FileSync o)
  rounds : List (VerifyRound o)
  reap : Reap
  cleanup : Cleanup

def doVerify (e : VerifyPhase o) : Except Fault (Td × List Issue) := do
  let td ← td.syncFiles k hash o e.syncs
  if td.error ≠ 0 then return (td, [])
  else
    let (td, issues) ← td.verifyRounds k hash o e.rounds
    return (← td.verifyFinish k hash o e.reap e.cleanup, issues)

end Td

/-- `IO_U_F_FREE`, `IO_U_F_FREE_DEF`, `IO_U_F_IN_CUR_DEPTH` and `IO_U_F_FLIGHT`. -/
def IoU.links (ioU : IoU) : Bool × Bool × Bool × Bool :=
  (ioU.free, ioU.freeDef, ioU.inCurDepth, ioU.flight)

lemma getNextVerify_links {o : ThreadOptions} {h h' : History} {ioU ioU' : IoU}
    {outcome : History.OpenOutcome} {failed : Bool}
    (hr : h.getNextVerify o ioU outcome = .ok (failed, ioU', h')) : ioU'.links = ioU.links := by
  unfold History.getNextVerify at hr
  split_ifs at hr
  · obtain ⟨rfl, -⟩ := Prod.mk.inj (ok_pair hr).2
    rfl
  · obtain ⟨⟨p, h1⟩, -, hr⟩ := of_bind hr
    cases p with
    | none =>
      obtain ⟨rfl, -⟩ := Prod.mk.inj (ok_pair hr).2
      rfl
    | some p =>
      obtain ⟨ipo, -, hr⟩ := of_bind hr
      obtain ⟨⟨notOpen, h2⟩, -, hr⟩ := of_bind hr
      simp only at hr
      split at hr
      · obtain ⟨rfl, -⟩ := Prod.mk.inj (ok_pair hr).2
        rfl
      · obtain ⟨h3, -, hr⟩ := of_bind hr
        split at hr
        · obtain ⟨h4, -, hr⟩ := of_bind hr
          obtain ⟨rfl, -⟩ := Prod.mk.inj (ok_pair hr).2
          rfl
        · cases hr

end FioSsd
