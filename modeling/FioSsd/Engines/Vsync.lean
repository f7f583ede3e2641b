import FioSsd.Backend.Complete
import FioSsd.Lib.Slots

/-! # The vectored sync engine -/

namespace FioSsd

open Function

open Slots

structure SyncioData where
  (iovBase iovLen : Nat → BitVec 64)
  ioUs : Nat → Nat
  (queued events : Nat)
  (queuedBytes lastOffset : BitVec 64)
  lastFile : Option FileId
  lastDdir : Ddir

def fioVsyncioInit : SyncioData :=
  { iovBase := fun _ => 0, iovLen := fun _ => 0, ioUs := fun _ => 0, queued := 0, events := 0
    queuedBytes := 0, lastOffset := -1, lastFile := none, lastDdir := .read }

structure VecIo where
  lseek : Nat
  bytes : Except Nat Nat

namespace SyncioData

variable (sd : SyncioData)

def append (ioU : IoU) : Bool :=
  !ddirSync ioU.ddir &&
    (ioU.offset == sd.lastOffset && ioU.file == sd.lastFile && ioU.ddir == sd.lastDdir)

def setIov (u : Nat) (ioU : IoU) (idx : Nat) : SyncioData :=
  { iovBase := update sd.iovBase idx ioU.xferBuf
    iovLen := update sd.iovLen idx ioU.xferBuflen
    ioUs := update sd.ioUs idx u
    queued := sd.queued + 1
    events := sd.events
    queuedBytes := sd.queuedBytes + ioU.xferBuflen
    lastOffset := ioU.offset + ioU.xferBuflen
    lastFile := ioU.file
    lastDdir := ioU.ddir }

/-- `fio_io_end`: the unit after a call that returned `ret`, or failed with an error number. -/
def fioIoEnd (ioU : IoU) : Except Nat Nat → IoU
  | .error errno => { ioU with error := errno }
  | .ok ret =>
    if (ret : Int) ≠ (ioU.xferBuflen.setWidth 32).toInt then
      { ioU with resid := ioU.xferBuflen.setWidth 32 - BitVec.ofNat 32 ret, error := 0 }
    else ioU

/-- `fio_vsyncio_queue`, with what `do_io_u_sync` returns where it is called: the result, the unit
    and the engine's data. -/
def queue (o : ThreadOptions) (sd : SyncioData) (u : Nat) (ioU : IoU) (sync : Except Nat Nat) :
    Int × IoU × SyncioData :=
  if sd.append ioU = false then
    -- what cannot be appended has to wait for the batch that is being built
    if sd.queued ≠ 0 then (fioQBusy, ioU, sd)
    else if ddirSync ioU.ddir then (fioQCompleted, fioIoEnd ioU sync, sd)
    else (fioQQueued, ioU, { sd with queued := 0, queuedBytes := 0 }.setIov u ioU 0)
  else if sd.queued = o.iodepth then (fioQBusy, ioU, sd)
  else (fioQQueued, ioU, sd.setIov u ioU sd.queued)

/-- The entry that `fio_vsyncio_queue` stores the unit in, if it accepts it. -/
def slot (o : ThreadOptions) (sd : SyncioData) (ioU : IoU) : Option Nat :=
  if sd.append ioU = false then
    if sd.queued ≠ 0 then none else if ddirSync ioU.ddir then none else some 0
  else if sd.queued = o.iodepth then none
  else some sd.queued

variable (ioUs : Nat → IoU)

/-- One turn of the loop of `fio_vsyncio_end`, over the bytes that are left. -/
def endUnit (u : Nat) : Except Nat Nat → Except Nat Nat × (Nat → IoU)
  | .error errno => (.error errno, update ioUs u { ioUs u with error := errno })
  | .ok bytes =>
    let thisIo := min (bytes % 2 ^ 32) (ioUs u).xferBuflen.toNat
    (.ok (bytes - thisIo), update ioUs u
      { ioUs u with resid := (ioUs u).xferBuflen.setWidth 32 - BitVec.ofNat 32 thisIo, error := 0 })

def vsyncioEnd (bytes : Except Nat Nat) :
    Int × (Nat → IoU) :=
  match bytes with
  | .ok n =>
    if n = sd.queuedBytes.toNat then (0, ioUs)
    else (0, ((used sd.ioUs sd.queued).foldl
      (fun s u => endUnit s.2 u s.1) (.ok n, ioUs)).2)
  | .error errno =>
    (-errno, ((used sd.ioUs sd.queued).foldl
      (fun s u => endUnit s.2 u s.1) (.error errno, ioUs)).2)

/-- `fio_vsyncio_commit`; the batch is taken off before `fio_vsyncio_end` looks at it. -/
def commit (io : VecIo) : Int × (Nat → IoU) × SyncioData :=
  if sd.queued = 0 then (0, ioUs, sd)
  else if io.lseek ≠ 0 then (-io.lseek, ioUs, sd)
  else
    let sd := { sd with events := sd.queued, queued := 0 }
    let (ret, ioUs) := sd.vsyncioEnd ioUs io.bytes
    (ret, ioUs, sd)

/-- `fio_vsyncio_getevents`, with the units that `fio_vsyncio_event` then returns. -/
def getevents (minEvents : Nat) : List Nat × SyncioData :=
  if minEvents ≠ 0 then (used sd.ioUs sd.events, { sd with events := 0 })
  else ([], sd)

end SyncioData

structure VsyncJob where
  sd : SyncioData
  ioUs : Nat → IoU
  (curDepth ioUQueued : Nat)

namespace VsyncJob

def tdIoCommit (s : VsyncJob) (io : VecIo) : VsyncJob :=
  if s.curDepth = 0 ∨ s.ioUQueued = 0 then s
  else
    let (_, ioUs, sd) := s.sd.commit s.ioUs io
    { s with sd := sd, ioUs := ioUs, ioUQueued := 0 }

/-- `td_io_queue` behind its assertions: what the engine answers and the job. -/
def tdIoQueue (o : ThreadOptions) (s : VsyncJob) (u : Nat) (sync : Except Nat Nat) (io : VecIo) :
    Int × VsyncJob :=
  let ioU := { s.ioUs u with flight := true, error := 0, resid := 0 }
  let (ret, ioU, sd) := s.sd.queue o u ioU sync
  let s := { s with sd := sd, ioUs := update s.ioUs u ioU }
  if ret = fioQQueued then
    let s := if ddirRw ioU.ddir then { s with ioUQueued := s.ioUQueued + 1 } else s
    if o.iodepthBatch ≤ s.ioUQueued then (ret, s.tdIoCommit io) else (ret, s)
  else (ret, s)

def tdIoGetevents (s : VsyncJob) (minEvents maxEvents : Nat) (io : VecIo) : List Nat × VsyncJob :=
  let (r, ioUs, sd) := if 0 < minEvents then s.sd.commit s.ioUs io else (0, s.ioUs, s.sd)
  let s := { s with sd := sd, ioUs := ioUs }
  if r < 0 then ([], s)
  else if max minEvents (min maxEvents s.curDepth) = 0 then ([], s)
  else
    let (evs, sd) := s.sd.getevents minEvents
    (evs, { s with sd := sd })

end VsyncJob

inductive VsyncCall
  | queue (u : Nat) (sync : Except Nat Nat) (io : VecIo)
  | commit (io : VecIo)
  | getevents (minEvents maxEvents : Nat) (io : VecIo)
  | prepare (u : Nat) (ioU : IoU)
  | depth (n : Nat)

structure VsyncLedger where
  job : VsyncJob
  (accepted reported overwritten : List Nat)

namespace VsyncLedger

def start (ioUs : Nat → IoU) : VsyncLedger :=
  { job := { sd := fioVsyncioInit, ioUs := ioUs, curDepth := 0, ioUQueued := 0 }
    accepted := [], reported := [], overwritten := [] }

/-- One call. -/
def step (o : ThreadOptions) (l : VsyncLedger) : VsyncCall → VsyncLedger
  | .queue u sync io =>
    let (ret, job) := l.job.tdIoQueue o u sync io
    { l with
      job := job
      accepted := if ret = fioQQueued then l.accepted ++ [u] else l.accepted
      overwritten := l.overwritten ++ (l.job.sd.slot o (l.job.ioUs u)).toList.filter
        (fun i => i < max l.job.sd.queued l.job.sd.events) }
  | .commit io => { l with job := l.job.tdIoCommit io }
  | .getevents minEvents maxEvents io =>
    let (evs, job) := l.job.tdIoGetevents minEvents maxEvents io
    { l with job := job, reported := l.reported ++ evs }
  | .prepare u ioU => { l with job := { l.job with ioUs := update l.job.ioUs u ioU } }
  | .depth n => { l with job := { l.job with curDepth := n } }

def run (o : ThreadOptions) (l : VsyncLedger) (calls : List VsyncCall) : VsyncLedger :=
  calls.foldl (step o) l

end VsyncLedger

namespace SyncioData

def unreported (sd : SyncioData) : List Nat :=
  used sd.ioUs sd.events ++ used sd.ioUs sd.queued

def OnePurpose (sd : SyncioData) : Prop := sd.events = 0 ∨ sd.queued = 0

lemma commit_unreported {sd : SyncioData} (ioUs : Nat → IoU) (io : VecIo) (h : sd.OnePurpose) :
    (sd.commit ioUs io).2.2.unreported = sd.unreported ∧ (sd.commit ioUs io).2.2.OnePurpose := by
  unfold commit
  by_cases hq : sd.queued = 0
  · rw [if_pos hq]
    exact ⟨rfl, h⟩
  rw [if_neg hq]
  by_cases hsk : io.lseek ≠ 0
  · rw [if_pos hsk]
    exact ⟨rfl, h⟩
  rw [if_neg hsk]
  -- the batch becomes the events, and there were none
  have hev := h.resolve_right hq
  exact ⟨by simp [unreported, hev], .inr rfl⟩

lemma queue_cases (o : ThreadOptions) {sd : SyncioData} (u : Nat) (ioU : IoU)
    (sync : Except Nat Nat) (h : sd.events = 0 ∨ ddirSync ioU.ddir = true) :
    ((sd.queue o u ioU sync).1 = fioQQueued ∧ sd.events = 0 ∧ sd.slot o ioU = some sd.queued ∧
        (sd.queue o u ioU sync).2.2.unreported = sd.unreported ++ [u] ∧
        (sd.queue o u ioU sync).2.2.events = 0) ∨
      ((sd.queue o u ioU sync).1 ≠ fioQQueued ∧ sd.slot o ioU = none ∧
        (sd.queue o u ioU sync).2.2 = sd) := by
  unfold queue slot
  by_cases happ : sd.append ioU = false
  · rw [if_pos happ, if_pos happ]
    by_cases hq : sd.queued ≠ 0
    · rw [if_pos hq, if_pos hq]
      exact .inr ⟨by simp [fioQBusy, fioQQueued], rfl, rfl⟩
    rw [if_neg hq, if_neg hq]
    by_cases hsy : ddirSync ioU.ddir = true
    · rw [if_pos hsy, if_pos hsy]
      exact .inr ⟨by simp [fioQCompleted, fioQQueued], rfl, rfl⟩
    rw [if_neg hsy, if_neg hsy]
    have hev : sd.events = 0 := h.resolve_right hsy
    have hq0 := not_not.1 hq
    refine .inl ⟨rfl, hev, by rw [hq0], ?_, hev⟩
    have hst := used_update_succ sd.ioUs 0 u
    simpa [unreported, setIov, hev, hq0] using hst
  · -- the request goes on where the last one ended, and joins its vector
    rw [if_neg happ, if_neg happ]
    by_cases hfl : sd.queued = o.iodepth
    · rw [if_pos hfl, if_pos hfl]
      exact .inr ⟨by simp [fioQBusy, fioQQueued], rfl, rfl⟩
    rw [if_neg hfl, if_neg hfl]
    have hsy : ¬ ddirSync ioU.ddir = true := by
      intro hs
      simp [append, hs] at happ
    have hev := h.resolve_right hsy
    refine .inl ⟨rfl, hev, rfl, ?_, hev⟩
    have hst := used_update_succ sd.ioUs sd.queued u
    simpa [unreported, setIov, hev] using hst

end SyncioData

namespace VsyncJob

lemma tdIoCommit_unreported {s : VsyncJob} (io : VecIo) (h : s.sd.OnePurpose) :
    (s.tdIoCommit io).sd.unreported = s.sd.unreported ∧ (s.tdIoCommit io).sd.OnePurpose := by
  unfold tdIoCommit
  split_ifs with hsk
  · exact ⟨rfl, h⟩
  · exact SyncioData.commit_unreported s.ioUs io h

lemma tdIoQueue_unreported (o : ThreadOptions) (s : VsyncJob) (u : Nat)
    (sync : Except Nat Nat) (io : VecIo) :
    ∃ ioU, ioU = { s.ioUs u with flight := true, error := 0, resid := 0 } ∧
      (s.tdIoQueue o u sync io).1 = (s.sd.queue o u ioU sync).1 ∧
      ((s.sd.queue o u ioU sync).2.2.OnePurpose →
        (s.tdIoQueue o u sync io).2.sd.unreported = (s.sd.queue o u ioU sync).2.2.unreported ∧
          (s.tdIoQueue o u sync io).2.sd.OnePurpose) := by
  refine ⟨_, rfl, ?_, ?_⟩
  · unfold tdIoQueue
    simp only
    split_ifs <;> rfl
  · intro hone
    unfold tdIoQueue
    simp only
    split_ifs
    · exact tdIoCommit_unreported io hone
    · exact ⟨rfl, hone⟩
    · exact tdIoCommit_unreported io hone
    all_goals exact ⟨rfl, hone⟩

lemma tdIoGetevents_unreported {s : VsyncJob} (minEvents maxEvents : Nat) (io : VecIo)
    (h : s.sd.OnePurpose) : (s.tdIoGetevents minEvents maxEvents io).1 ++
        (s.tdIoGetevents minEvents maxEvents io).2.sd.unreported = s.sd.unreported ∧
      (s.tdIoGetevents minEvents maxEvents io).2.sd.OnePurpose := by
  have hcmt := SyncioData.commit_unreported s.ioUs io h
  by_cases hmin : 0 < minEvents
  · simp only [tdIoGetevents, hmin, if_true]
    split_ifs with hneg hmax
    · exact hcmt
    · exact hcmt
    · rw [SyncioData.getevents, if_pos (by omega)]
      refine ⟨?_, .inl rfl⟩
      rw [← hcmt.1]
      simp [SyncioData.unreported]
  · simp only [tdIoGetevents, hmin, if_false]
    split_ifs with hneg hmax
    · exact ⟨rfl, h⟩
    · exact ⟨rfl, h⟩
    · rw [SyncioData.getevents, if_neg (by omega)]
      exact ⟨rfl, h⟩

end VsyncJob

namespace VsyncLedger

structure Exact (l : VsyncLedger) : Prop where
  once : l.accepted = l.reported ++ l.job.sd.unreported
  kept : l.overwritten = []

/-- **A unit is queued only while no completed unit waits** to be reported, syncs apart. -/
def Ready (l : VsyncLedger) : VsyncCall → Prop
  | .queue u _ _ => l.job.sd.events = 0 ∨ ddirSync (l.job.ioUs u).ddir = true
  | _ => True

def ReadyRun (o : ThreadOptions) : VsyncLedger → List VsyncCall → Prop
  | _, [] => True
  | l, call :: calls => l.Ready call ∧ ReadyRun o (l.step o call) calls

lemma start_exact (ioUs : Nat → IoU) : (start ioUs).Exact := ⟨rfl, rfl⟩

variable (o : ThreadOptions)

lemma exact_step {l : VsyncLedger} {call : VsyncCall} (h : l.Exact)
    (hone : l.job.sd.OnePurpose) (hrd : l.Ready call) :
    (l.step o call).Exact ∧ (l.step o call).job.sd.OnePurpose := by
  cases call with
  | queue u sync io =>
    obtain ⟨ioU, hioU, hret, hjob⟩ := l.job.tdIoQueue_unreported o u sync io
    have hsl : l.job.sd.slot o (l.job.ioUs u) = l.job.sd.slot o ioU := by rw [hioU]; rfl
    have hddi : ddirSync ioU.ddir = ddirSync (l.job.ioUs u).ddir := by rw [hioU]
    rcases l.job.sd.queue_cases o u ioU sync (hddi ▸ hrd) with
      ⟨hq, hev, hat, hun, hev'⟩ | ⟨hq, hat, hsd⟩
    · obtain ⟨hun', hon'⟩ := hjob (.inl hev')
      refine ⟨⟨?_, ?_⟩, hon'⟩
      · simp only [step, hret, hq, if_true]
        rw [hun', hun, h.once, List.append_assoc]
      · simp [step, hsl, hat, hev, h.kept]
    · obtain ⟨hun', hon'⟩ := hjob (by rw [hsd]; exact hone)
      refine ⟨⟨?_, ?_⟩, hon'⟩
      · simp only [step, hret, hq, if_false]
        rw [hun', hsd, h.once]
      · simp [step, hsl, hat, h.kept]
  | commit io =>
    obtain ⟨hun, hon'⟩ := VsyncJob.tdIoCommit_unreported (s := l.job) io hone
    exact ⟨⟨by simp only [step]; rw [hun, h.once], h.kept⟩, hon'⟩
  | getevents minEvents maxEvents io =>
    obtain ⟨hun, hon'⟩ := VsyncJob.tdIoGetevents_unreported (s := l.job) minEvents maxEvents io hone
    exact ⟨⟨by simp only [step]; rw [List.append_assoc, hun, h.once], h.kept⟩, hon'⟩
  | prepare u ioU | depth n => exact ⟨⟨h.once, h.kept⟩, hone⟩

lemma exact_run (calls : List VsyncCall) {l : VsyncLedger} (hex : l.Exact)
    (hone : l.job.sd.OnePurpose) (h : ReadyRun o l calls) : (l.run o calls).Exact := by
  induction calls generalizing l with
  | nil => exact hex
  | cons call calls ih =>
    obtain ⟨hnow, hlat⟩ := h
    obtain ⟨hex', hon'⟩ := exact_step o hex hone hnow
    exact ih hex' hon' hlat

/-- **Exactly once.** Over every run that queues a unit only while no completed unit waits, each
    accepted unit is reported once or still waits, and no unreported entry is overwritten. -/
theorem vsync_exactly_once (ioUs : Nat → IoU) (calls : List VsyncCall)
    (hready : ReadyRun o (start ioUs) calls) : ((start ioUs).run o calls).Exact :=
  exact_run o calls (start_exact ioUs) (.inl rfl) hready

def twoDeep : ThreadOptions := { defaultOptions with iodepth := 2, iodepthBatch := 1 }

def readsAll : VecIo := ⟨0, .ok 4096⟩

def readBlock (block : Nat) : IoU :=
  { offset := BitVec.ofNat 64 (4096 * block), xferBuflen := 4096, file := some 0 }

theorem vsync_exactly_once_reapEach :
    ((start readBlock).run twoDeep
      [.depth 1, .queue 0 (.ok 0) readsAll, .getevents 1 1 readsAll,
        .queue 1 (.ok 0) readsAll, .getevents 1 1 readsAll]).Exact :=
  vsync_exactly_once _ _ _
    ⟨trivial, .inl rfl, trivial, .inl (by decide), trivial, trivial⟩

/-- Two reads at queue depth two with the default batch of one: the second one takes the entry of
    the first, and the one event that `getevents` then returns is the second. -/
theorem vsync_loses_first :
    let l := (start readBlock).run twoDeep
      [.depth 1, .queue 0 (.ok 0) readsAll, .depth 2, .queue 1 (.ok 0) readsAll,
        .getevents 1 1 readsAll]
    l.accepted = [0, 1] ∧ l.reported = [1] ∧ l.job.sd.unreported = [] ∧ l.overwritten = [0] ∧
      ¬ l.Exact := by
  refine ⟨by decide, by decide, by decide, by decide, ?_⟩
  intro hex
  exact absurd hex.kept (by decide)

end VsyncLedger

end FioSsd
