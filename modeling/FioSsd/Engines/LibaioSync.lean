import FioSsd.Engines.Libaio

/-! # Syncs in the libaio engine

`fio_libaio_queue` carries out a sync or a trim itself, and refuses it only while requests are
collected and not submitted (`iocbs_nr`). -/

namespace FioSsd

/-- The options that `do_io` goes by, as `fixup_options` leaves them. -/
structure DepthOpts where
  (iodepth iodepthLow iodepthBatch iodepthBatchComplete : Nat)
  depth_pos : 0 < iodepth
  batch_pos : 0 < iodepthBatch
  batch_le : iodepthBatch ≤ iodepth

/-- How a call of `fio_libaio_commit` ends: everything is accepted, or it fails behind a number of
    accepted requests. -/
inductive CommitEnd
  | all
  | fails (accepted : Nat)
  deriving DecidableEq

/-- How `fio_libaio_getevents` and the completion of its events end: a number of events, or an
    error. -/
inductive ReapEnd
  | events (n : Nat)
  | fails
  deriving DecidableEq

structure AioDepth where
  (iocbsNr inFlight lost ioUQueued curDepth free : Nat)
  requeued : Option Ddir
  stopped : Bool
  syncs : List Nat

/-- What a round of `do_io` meets: the direction of a new request, how the commits and reaps end, and
    whether an error makes it leave the loop. -/
structure AioRound where
  ddir : Ddir
  queueCommit : CommitEnd
  reaps : List (CommitEnd × ReapEnd)
  leaves : Bool

namespace AioDepth

variable (o : DepthOpts) (s : AioDepth)

def start : AioDepth :=
  { iocbsNr := 0, inFlight := 0, lost := 0, ioUQueued := 0, curDepth := 0, free := o.iodepth, requeued := none
    stopped := false, syncs := [] }

/-- `__get_io_u`: a requeued unit first, else a free one; without a unit the loop is left. -/
def take (ddir : Ddir) : Ddir × AioDepth :=
  match s.requeued with
  | some d => (d, { s with requeued := none, curDepth := s.curDepth + 1 })
  | none =>
    if s.free = 0 then (ddir, { s with stopped := true })
    else (ddir, { s with free := s.free - 1, curDepth := s.curDepth + 1 })

variable (c : CommitEnd)

def commit : Bool × AioDepth :=
  if s.iocbsNr = 0 then (false, s)
  else
    match c with
    | .all => (false, { s with iocbsNr := 0, inFlight := s.inFlight + s.iocbsNr })
    | .fails n =>
      let n := min n (s.iocbsNr - 1)
      (true, { s with
        iocbsNr := s.iocbsNr - n, inFlight := s.inFlight + n
        lost := s.lost + min n (s.iocbsNr - n) })

def tdIoCommit : AioDepth :=
  if s.curDepth = 0 ∨ s.ioUQueued = 0 then s else { (s.commit c).2 with ioUQueued := 0 }

def busy (ddir : Ddir) (c : CommitEnd) : AioDepth :=
  { s with requeued := some ddir, curDepth := s.curDepth - 1 }.tdIoCommit c

def syncNow : AioDepth :=
  { s with
    syncs := s.syncs ++ [s.iocbsNr + s.inFlight + s.lost], curDepth := s.curDepth - 1
    free := s.free + 1 }

/-- A request that is collected, and committed with the others once there are `iodepth_batch`. -/
def collect : AioDepth :=
  let s := { s with iocbsNr := s.iocbsNr + 1, ioUQueued := s.ioUQueued + 1 }
  if o.iodepthBatch ≤ s.ioUQueued then s.tdIoCommit c else s

/-- `td_io_queue` with `fio_libaio_queue`, and the `switch` of `do_io`; the flag is
    `FIO_Q_BUSY`. -/
def queue (ddir : Ddir) (c : CommitEnd) : Bool × AioDepth :=
  if s.iocbsNr = o.iodepth then (true, s.busy ddir c)
  else if ddirSync ddir ∨ ddir = .trim then
    if s.iocbsNr ≠ 0 then (true, s.busy ddir c) else (false, s.syncNow)
  else (false, s.collect o c)

def maxEvts (minEvts : Nat) : Nat := max (min o.iodepthBatchComplete s.curDepth) minEvts

/-- `io_u_queued_complete`; a call that waits for more events than are in flight does not
    return. -/
def reap (minEvts : Nat) (c : CommitEnd) (r : ReapEnd) : AioDepth :=
  let (failed, s) := if minEvts = 0 then (false, s) else s.commit c
  if failed then { s with stopped := true }
  else
    match r with
    | .fails => { s with stopped := true }
    | .events n =>
      if minEvts ≤ n ∧ n ≤ s.inFlight ∧ n ≤ s.maxEvts o minEvts then
        { s with inFlight := s.inFlight - n, curDepth := s.curDepth - n, free := s.free + n }
      else { s with stopped := true }

/-- The `do` loop of `do_io`: it goes on while the queue was full and is too deep. -/
def reapLoop (full : Bool) (minEvts : Nat) (s : AioDepth) : List (CommitEnd × ReapEnd) → AioDepth
  | [] => { s with stopped := true }
  | (c, r) :: rest =>
    let s := s.reap o minEvts c r
    if s.stopped = false ∧ full = true ∧ o.iodepthLow < s.curDepth then
      reapLoop full minEvts s rest
    else s

def minEvts (full : Bool) : Nat :=
  let n := min o.iodepthBatchComplete s.curDepth
  if full = true ∧ n = 0 then 1 else n

def reapRound (isBusy : Bool) (reaps : List (CommitEnd × ReapEnd)) : AioDepth :=
  let full : Bool := s.free = 0 ∨ (isBusy = true ∧ s.curDepth ≠ 0)
  if full = true ∨ o.iodepthBatchComplete = 0 then s.reapLoop o full (s.minEvts o full) reaps else s

def round (r : AioRound) : AioDepth :=
  if s.stopped then s
  else
    let taken := s.take r.ddir
    if taken.2.stopped then taken.2
    else
      let queued := taken.2.queue o taken.1 r.queueCommit
      if r.leaves then { queued.2 with stopped := true }
      else queued.2.reapRound o queued.1 r.reaps

def run (rounds : List AioRound) : AioDepth := rounds.foldl (round o) (start o)

def Ordered : Prop := ∀ n ∈ s.syncs, n = 0

end AioDepth

def CommitEnd.FailsFirst (c : CommitEnd) : Prop := c = .all ∨ c = .fails 0

def AioRound.FailsFirst (r : AioRound) : Prop :=
  r.queueCommit.FailsFirst ∧ ∀ reap ∈ r.reaps, reap.1.FailsFirst

def DepthOpts.Drains (o : DepthOpts) : Prop :=
  o.iodepthBatch = o.iodepth ∧ (o.iodepth ≤ o.iodepthBatchComplete ∨ o.iodepth = 1)

namespace AioDepth

variable {o : DepthOpts} {s : AioDepth}

def requeuedNr (s : AioDepth) : Nat := if s.requeued.isSome then 1 else 0

structure Idle (o : DepthOpts) (s : AioDepth) : Prop where
  inFlight : s.inFlight = 0
  lost : s.lost = 0
  depth : s.curDepth = s.iocbsNr
  queued : s.ioUQueued = s.iocbsNr
  units : s.free + s.iocbsNr + s.requeuedNr = o.iodepth
  room : s.iocbsNr < o.iodepth

structure Draining (o : DepthOpts) (s : AioDepth) : Prop where
  lost : s.lost = 0
  depth : s.curDepth = s.iocbsNr + s.inFlight
  pos : 0 < s.curDepth
  queued : s.ioUQueued = 0
  units : s.free + s.curDepth + s.requeuedNr = o.iodepth

variable {c : CommitEnd}

lemma commit_cases (h : c.FailsFirst) :
    s.commit c = (false, { s with iocbsNr := 0, inFlight := s.inFlight + s.iocbsNr }) ∨
      s.commit c = (true, s) := by
  unfold commit
  by_cases h0 : s.iocbsNr = 0
  · left
    rw [if_pos h0]
    obtain ⟨iocbsNr, inFlight, lost, ioUQueued, curDepth, free, requeued, stopped, syncs⟩ := s
    obtain rfl := h0
    rfl
  · rw [if_neg h0]
    rcases h with rfl | rfl
    · exact .inl rfl
    · right
      simp

lemma Draining.minEvts (hs : s.Draining o) (ho : o.Drains) {full : Bool} (h : full = true) :
    s.minEvts o full = s.curDepth := by
  have hun := hs.units
  have hpos := hs.pos
  simp only [AioDepth.minEvts, h, true_and]
  rcases ho.2 with hall | hone
  · rw [min_eq_right (by omega), if_neg (by omega)]
  · by_cases h0 : o.iodepthBatchComplete = 0
    · rw [h0, Nat.zero_min, if_pos rfl]
      omega
    · rw [min_eq_right (by omega), if_neg (by omega)]

lemma Draining.reap (h : s.Draining o) (hc : c.FailsFirst) (r : ReapEnd) :
    (s.reap o s.curDepth c r).syncs = s.syncs ∧ ((s.reap o s.curDepth c r).stopped = true ∨
        (s.reap o s.curDepth c r).Idle o ∧ (s.reap o s.curDepth c r).curDepth = 0) := by
  have hpos := h.pos
  have hdp := h.depth
  have hun := h.units
  rw [AioDepth.reap, if_neg (by omega)]
  rcases commit_cases (s := s) hc with hcmt | hcmt
  · rw [hcmt]
    simp only [Bool.false_eq_true, if_false]
    cases r with
    | fails => exact ⟨rfl, .inl rfl⟩
    | events n =>
      simp only []
      split_ifs with hn
      · refine ⟨rfl, .inr ⟨⟨?_, h.lost, ?_, h.queued, ?_, ?_⟩, ?_⟩⟩
        · change s.inFlight + s.iocbsNr - n = 0
          omega
        · change s.curDepth - n = 0
          omega
        · change s.free + n + 0 + s.requeuedNr = o.iodepth
          omega
        · exact o.depth_pos
        · change s.curDepth - n = 0
          omega
      · exact ⟨rfl, .inl rfl⟩
  · rw [hcmt]
    exact ⟨rfl, .inl rfl⟩

structure Kept (o : DepthOpts) (s : AioDepth) : Prop where
  ordered : s.Ordered
  idle : s.stopped = false → s.Idle o

variable {reaps : List (CommitEnd × ReapEnd)}

lemma Draining.reapRound (hs : s.Draining o) (ho : o.Drains) (hord : s.Ordered)
    {isBusy : Bool} (hfl : s.free = 0 ∨ isBusy = true)
    (hrp : ∀ reap ∈ reaps, reap.1.FailsFirst) : (s.reapRound o isBusy reaps).Kept o := by
  have hpos := hs.pos
  have hfl' : decide (s.free = 0 ∨ (isBusy = true ∧ s.curDepth ≠ 0)) = true := by
    rw [decide_eq_true_eq]
    rcases hfl with hfr | hbs
    · exact .inl hfr
    · exact .inr ⟨hbs, by omega⟩
  rw [AioDepth.reapRound, hfl', if_pos (.inl rfl), hs.minEvts ho rfl]
  cases reaps with
  | nil => exact ⟨hord, nofun⟩
  | cons reap rest =>
    obtain ⟨c, r⟩ := reap
    obtain ⟨hsy, hstp | ⟨hid, h0⟩⟩ := hs.reap (hrp _ (.head _)) r
    · rw [reapLoop, if_neg (by simp [hstp])]
      exact ⟨by rw [Ordered, hsy]; exact hord, fun h => by rw [hstp] at h; cases h⟩
    · rw [reapLoop, if_neg (by rw [h0]; simp)]
      exact ⟨by rw [Ordered, hsy]; exact hord, fun _ => hid⟩

structure Taken (o : DepthOpts) (s : AioDepth) : Prop where
  running : s.stopped = false
  inFlight : s.inFlight = 0
  lost : s.lost = 0
  depth : s.curDepth = s.iocbsNr + 1
  queued : s.ioUQueued = s.iocbsNr
  requeued : s.requeued = none
  units : s.free + s.iocbsNr + 1 = o.iodepth

lemma Idle.take (h : s.Idle o) (hr : s.stopped = false) (ddir : Ddir) :
    (s.take ddir).2.Taken o ∧ (s.take ddir).2.syncs = s.syncs := by
  have hun := h.units
  have hrm := h.room
  have hdp := h.depth
  unfold AioDepth.take
  unfold requeuedNr at hun
  cases hrqd : s.requeued with
  | some d =>
    rw [hrqd] at hun
    refine ⟨⟨hr, h.inFlight, h.lost, ?_, h.queued, rfl, hun⟩, rfl⟩
    change s.curDepth + 1 = s.iocbsNr + 1
    omega
  | none =>
    rw [hrqd] at hun
    simp only [Option.isSome_none, Bool.false_eq_true, if_false, add_zero] at hun
    rw [if_neg (by omega)]
    refine ⟨⟨hr, h.inFlight, h.lost, ?_, h.queued, rfl, ?_⟩, rfl⟩
    · change s.curDepth + 1 = s.iocbsNr + 1
      omega
    · change s.free - 1 + s.iocbsNr + 1 = o.iodepth
      omega

lemma tdIoCommit_draining (hc : c.FailsFirst) (hls : s.lost = 0)
    (hdp : s.curDepth = s.iocbsNr + s.inFlight) (hpos : 0 < s.curDepth) (hque : 0 < s.ioUQueued)
    (h : s.free + s.curDepth + s.requeuedNr = o.iodepth) :
    (s.tdIoCommit c).Draining o ∧ (s.tdIoCommit c).syncs = s.syncs ∧
      (s.tdIoCommit c).free = s.free := by
  rw [tdIoCommit, if_neg (by omega)]
  rcases commit_cases (s := s) hc with hcmt | hcmt
  · rw [hcmt]
    refine ⟨⟨hls, ?_, hpos, rfl, h⟩, rfl, rfl⟩
    change s.curDepth = 0 + (s.inFlight + s.iocbsNr)
    omega
  · rw [hcmt]
    exact ⟨⟨hls, hdp, hpos, rfl, h⟩, rfl, rfl⟩

lemma Idle.reapRound (hs : s.Idle o) (hord : s.Ordered) (hfr : s.free ≠ 0)
    (reaps : List (CommitEnd × ReapEnd)) : (s.reapRound o false reaps).Kept o := by
  unfold AioDepth.reapRound
  have hfl : decide (s.free = 0 ∨ (false = true ∧ s.curDepth ≠ 0)) = false := by
    simp [hfr]
  simp only []
  rw [hfl]
  by_cases hbc : o.iodepthBatchComplete = 0
  · rw [if_pos (.inr hbc)]
    have hmin : s.minEvts o false = 0 := by
      unfold AioDepth.minEvts
      simp [hbc]
    rw [hmin]
    cases reaps with
    | nil => exact ⟨hord, nofun⟩
    | cons reap rest =>
      simp only [reapLoop, AioDepth.reap, if_true, Bool.false_eq_true, if_false, false_and,
        and_false]
      cases reap.2 with
      | fails => exact ⟨hord, nofun⟩
      | events n =>
        simp only []
        split_ifs with hn
        · have hn0 : n = 0 := by
            have := hs.inFlight
            omega
          subst hn0
          exact ⟨hord, fun _ => ⟨hs.inFlight, hs.lost, hs.depth, hs.queued, hs.units, hs.room⟩⟩
        · exact ⟨hord, nofun⟩
  · rw [if_neg (by simp [hbc])]
    exact ⟨hord, fun _ => hs⟩

lemma Taken.queue (hs : s.Taken o) (ho : o.Drains) (h : s.Ordered) (ddir : Ddir) (hc : c.FailsFirst)
    (hrp : ∀ reap ∈ reaps, reap.1.FailsFirst) : (s.queue o ddir c).2.Ordered ∧
      ((s.queue o ddir c).2.reapRound o (s.queue o ddir c).1 reaps).Kept o := by
  have hun := hs.units
  have hdp := hs.depth
  have hflg := hs.inFlight
  have hque := hs.queued
  have hls := hs.lost
  rw [AioDepth.queue, if_neg (by omega)]
  by_cases hsyn : ddirSync ddir = true ∨ ddir = .trim
  · rw [if_pos hsyn]
    by_cases hnr : s.iocbsNr = 0
    · -- nothing is collected and nothing in flight: the sync is in order
      rw [if_neg (not_not.2 hnr)]
      have hor' : s.syncNow.Ordered := by
        intro n hn
        rcases List.mem_append.1 hn with hold | hnew
        · exact h n hold
        · rw [List.mem_singleton.1 hnew]
          omega
      refine ⟨hor', Idle.reapRound (s := s.syncNow) ⟨hflg, hls, ?_, hque, ?_, ?_⟩ hor' ?_ reaps⟩
      · change s.curDepth - 1 = s.iocbsNr
        omega
      · have hno : s.syncNow.requeuedNr = 0 := by
          rw [requeuedNr, syncNow, hs.requeued]
          rfl
        rw [hno]
        change s.free + 1 + s.iocbsNr + 0 = o.iodepth
        omega
      · change s.iocbsNr < o.iodepth
        omega
      · change s.free + 1 ≠ 0
        omega
    · rw [if_pos hnr]
      obtain ⟨hdraining, hsy, -⟩ := tdIoCommit_draining (o := o)
        (s := { s with requeued := some ddir, curDepth := s.curDepth - 1 }) hc hls
        (by change s.curDepth - 1 = s.iocbsNr + s.inFlight; omega)
        (by change 0 < s.curDepth - 1; omega) (by change 0 < s.ioUQueued; omega)
        (by change s.free + (s.curDepth - 1) + 1 = o.iodepth; omega)
      have hor' : (s.busy ddir c).Ordered := by
        rw [Ordered, busy, hsy]
        exact h
      exact ⟨hor', hdraining.reapRound ho hor' (.inr rfl) hrp⟩
  · rw [if_neg hsyn]
    have hno : s.requeuedNr = 0 := by
      rw [requeuedNr, hs.requeued]
      rfl
    unfold collect
    by_cases hbt : o.iodepthBatch ≤ s.ioUQueued + 1
    · rw [if_pos hbt]
      have hbta := ho.1
      obtain ⟨hdraining, hsy, hfr⟩ := tdIoCommit_draining (o := o)
        (s := { s with iocbsNr := s.iocbsNr + 1, ioUQueued := s.ioUQueued + 1 }) hc hls
        (by change s.curDepth = s.iocbsNr + 1 + s.inFlight; omega)
        (by change 0 < s.curDepth; omega) (Nat.succ_pos _)
        (by change s.free + s.curDepth + s.requeuedNr = o.iodepth; omega)
      have hor' : ({ s with iocbsNr := s.iocbsNr + 1, ioUQueued := s.ioUQueued + 1 } :
          AioDepth).tdIoCommit c |>.Ordered := by
        rw [Ordered, hsy]
        exact h
      refine ⟨hor', hdraining.reapRound ho hor' (.inl ?_) hrp⟩
      rw [hfr]
      change s.free = 0
      omega
    · rw [if_neg hbt]
      have hbta := ho.1
      refine ⟨h, Idle.reapRound
        (s := { s with iocbsNr := s.iocbsNr + 1, ioUQueued := s.ioUQueued + 1 })
        ⟨hflg, hls, hdp, ?_, ?_, ?_⟩ h ?_ reaps⟩
      · change s.ioUQueued + 1 = s.iocbsNr + 1
        omega
      · change s.free + (s.iocbsNr + 1) + s.requeuedNr = o.iodepth
        omega
      · change s.iocbsNr + 1 < o.iodepth
        omega
      · change s.free ≠ 0
        omega

lemma Kept.round (hs : s.Kept o) (ho : o.Drains) {r : AioRound} (hr : r.FailsFirst) :
    (s.round o r).Kept o := by
  unfold AioDepth.round
  by_cases hstp : s.stopped = true
  · rw [if_pos hstp]
    exact hs
  · rw [if_neg hstp]
    obtain ⟨htk, hsy⟩ := (hs.idle (by simpa using hstp)).take (by simpa using hstp) r.ddir
    rw [if_neg (by simp [htk.running])]
    have hord : (s.take r.ddir).2.Ordered := by
      rw [Ordered, hsy]
      exact hs.ordered
    obtain ⟨hqu, hrn⟩ := htk.queue ho hord (s.take r.ddir).1 hr.1 hr.2
    by_cases hlvs : r.leaves = true
    · rw [if_pos hlvs]
      exact ⟨hqu, nofun⟩
    · rw [if_neg hlvs]
      exact hrn

/-- **Syncs are in order while the queue drains as a whole**: requests are committed only when the
    queue is full and reaped all at once, and commits fail, if at all, before a request is accepted.
    -/
theorem run_ordered (o : DepthOpts) (ho : o.Drains) (rounds : List AioRound)
    (hrounds : ∀ r ∈ rounds, r.FailsFirst) : (run o rounds).Ordered := by
  have hkp : ∀ s : AioDepth, s.Kept o → (rounds.foldl (AioDepth.round o) s).Kept o := by
    induction rounds with
    | nil => exact fun s hs => hs
    | cons r rest ih =>
      intro s hs
      exact ih (fun r' hr' => hrounds r' (List.mem_cons_of_mem r hr')) _
        (hs.round ho (hrounds r (.head _)))
  have hst : (start o).Kept o :=
    ⟨(nofun), fun _ => ⟨rfl, rfl, rfl, rfl, rfl, o.depth_pos⟩⟩
  exact (hkp (start o) hst).ordered

def depthTwo (batch complete : Nat) (hpos : 0 < batch) (hle : batch ≤ 2) : DepthOpts :=
  { iodepth := 2, iodepthLow := 2, iodepthBatch := batch, iodepthBatchComplete := complete
    depth_pos := by decide, batch_pos := hpos, batch_le := hle }

def writeThenSync : List AioRound :=
  [⟨.write, .all, [], false⟩, ⟨.sync, .all, [(.all, .events 1)], false⟩]

/-- The sync finds the engine busy and is executed in a third round, with nothing in flight. -/
theorem run_ordered_two :
    (run (depthTwo 2 2 (by decide) (by decide))
      (writeThenSync ++ [⟨.write, .all, [], false⟩])).syncs = [0] ∧
    (run (depthTwo 2 2 (by decide) (by decide))
      (writeThenSync ++ [⟨.write, .all, [], false⟩])).Ordered := by
  refine ⟨by decide, run_ordered _ ⟨rfl, .inl le_rfl⟩ _ fun r hr => ?_⟩
  have hall : ∀ r ∈ writeThenSync ++ [⟨.write, .all, [], false⟩],
      r.queueCommit = .all ∧ ∀ reap ∈ r.reaps, reap.1 = .all := by decide
  exact ⟨.inl (hall r hr).1, fun reap hreap => .inl ((hall r hr).2 reap hreap)⟩

/-- With the default batch sizes a sync overtakes the write before it. -/
theorem sync_overtakes_write :
    ¬ (run (depthTwo 1 1 (by decide) (by decide)) writeThenSync).Ordered := by
  intro hord
  exact absurd (hord 1 (by decide)) (by decide)

end AioDepth

end FioSsd
