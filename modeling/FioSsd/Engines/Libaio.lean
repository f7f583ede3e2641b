import FioSsd.Backend.Complete
import FioSsd.Lib.Slots

/-! # Submission in the libaio engine -/

namespace FioSsd

open Slots

/-- `struct libaio_data`; a request is named by its unit in both arrays. -/
structure LibaioData where
  (iocbs ioUs : Nat → Nat)
  iocbsNr : Nat

/-- What `io_submit` returns: it accepts a number of the requests offered, from the first on, asks
    to be called again, or fails with another error. -/
inductive Submit
  | accepts (n : Nat)
  | eagain
  | eintr
  | fails (errno : Nat)
  deriving DecidableEq

/-- The engine's data with the account of its requests. -/
structure AioLedger where
  ld : LibaioData
  (pending accepted resubmitted : List Nat)
  hangs : Bool

namespace AioLedger

def start : AioLedger :=
  { ld := ⟨fun _ => 0, fun _ => 0, 0⟩, pending := [], accepted := [], resubmitted := []
    hangs := false }

/-- `fio_libaio_queue` of a unit in a direction; a sync or a trim is carried out at once. -/
def queue (o : ThreadOptions) (l : AioLedger) (u : Nat) (ddir : Ddir) : Int × AioLedger :=
  if l.ld.iocbsNr = o.iodepth then (fioQBusy, l)
  else if ddirSync ddir then
    if l.ld.iocbsNr ≠ 0 then (fioQBusy, l) else (fioQCompleted, l)
  else if ddir = .trim then
    if l.ld.iocbsNr ≠ 0 then (fioQBusy, l) else (fioQCompleted, l)
  else (fioQQueued, { l with
    ld := { iocbs := Function.update l.ld.iocbs l.ld.iocbsNr u
            ioUs := Function.update l.ld.ioUs l.ld.iocbsNr u
            iocbsNr := l.ld.iocbsNr + 1 }
    pending := l.pending ++ [u] })

variable (l : AioLedger)

/-- The requests that `io_submit` is given when the local pointers stand at entry `i`. -/
def offered (i : Nat) : List Nat := used (fun j => l.ld.iocbs (i + j)) l.ld.iocbsNr

/-- The account of a call of `io_submit`: which of its requests were accepted before and not
    queued again since. -/
def submits (i : Nat) : AioLedger :=
  { l with resubmitted := l.resubmitted ++
      (l.offered i).filter (fun u => u ∈ l.accepted ∧ u ∉ l.pending) }

def accept (i n : Nat) : AioLedger :=
  { l with
    ld := { l.ld with iocbsNr := l.ld.iocbsNr - n }
    pending := l.pending.diff ((l.offered i).take n)
    accepted := l.accepted ++ (l.offered i).take n }

/-- The loop of `fio_libaio_commit` with its pointers at entry `i`; one result for each call of
    `io_submit`, and what the function returns. -/
def commitLoop (l : AioLedger) (i : Nat) : List Submit → Int × AioLedger
  | [] => (0, { l with hangs := true })
  | .accepts n :: results =>
    let m := min n l.ld.iocbsNr
    if m = 0 then (l.submits i).commitLoop i results
    else
      let l := (l.submits i).accept i m
      if l.ld.iocbsNr = 0 then (0, l) else l.commitLoop (i + m) results
  | .eagain :: results => (l.submits i).commitLoop i results
  | .eintr :: results => (l.submits i).commitLoop i results
  | .fails errno :: _ => (-errno, l.submits i)

def commit (results : List Submit) : Int × AioLedger :=
  if l.ld.iocbsNr = 0 then (0, l) else l.commitLoop 0 results

end AioLedger

inductive AioCall
  | queue (u : Nat) (ddir : Ddir)
  | commit (results : List Submit)
  deriving DecidableEq

namespace AioLedger

variable (o : ThreadOptions)

def step (l : AioLedger) (call : AioCall) : AioLedger :=
  if l.hangs then l
  else
    match call with
    | .queue u ddir => (l.queue o u ddir).2
    | .commit results => (l.commit results).2

def run (l : AioLedger) (calls : List AioCall) : AioLedger :=
  calls.foldl (step o) l

structure At (l : AioLedger) (i : Nat) : Prop where
  iocbs : l.offered i = l.pending
  ioUs : used (fun j => l.ld.ioUs (i + j)) l.ld.iocbsNr = l.pending
  once : l.resubmitted = []

/-- Unless a `commit` is running, the first `iocbs_nr` entries of both arrays are the requests
    queued and not accepted, in order; and none was passed to `io_submit` again. -/
structure Exact (l : AioLedger) : Prop where
  iocbs : l.hangs = false → used l.ld.iocbs l.ld.iocbsNr = l.pending
  ioUs : l.hangs = false → used l.ld.ioUs l.ld.iocbsNr = l.pending
  once : l.resubmitted = []

variable {l : AioLedger}

lemma At.exact (h : l.At 0) : l.Exact := by
  refine ⟨fun _ => ?_, fun _ => ?_, h.once⟩
  · simpa [offered] using h.iocbs
  · simpa using h.ioUs

lemma Exact.at (h : l.Exact) (hrn : l.hangs = false) : l.At 0 := by
  refine ⟨?_, ?_, h.once⟩
  · simpa [offered] using h.iocbs hrn
  · simpa using h.ioUs hrn

variable {i : Nat}

lemma At.exact_of_none (h : l.At i) (hnr : l.ld.iocbsNr = 0) : l.Exact := by
  have hpnd : l.pending = [] := by
    rw [← h.iocbs, offered, hnr, used_zero]
  exact ⟨fun _ => by rw [hnr, hpnd, used_zero], fun _ => by rw [hnr, hpnd, used_zero], h.once⟩

lemma At.submits (h : l.At i) : (l.submits i).At i := by
  refine ⟨h.iocbs, h.ioUs, ?_⟩
  have hno : (l.offered i).filter (fun u => u ∈ l.accepted ∧ u ∉ l.pending) = [] := by
    rw [h.iocbs, List.filter_eq_nil_iff]
    intro u hu
    simp [hu]
  simp only [AioLedger.submits]
  rw [h.once, hno, List.append_nil]

lemma diff_take (us : List Nat) (n : Nat) : us.diff (us.take n) = us.drop n := by
  induction us generalizing n with
  | nil => simp
  | cons u us ih =>
    cases n with
    | zero => simp
    | succ n => simp [List.diff_cons, ih]

lemma At.accept {i n : Nat} (h : l.At i) (hn : n ≤ l.ld.iocbsNr) : (l.accept i n).At (i + n) := by
  have hcut (a : Nat → Nat) : used (fun j => a (i + j)) l.ld.iocbsNr =
      used (fun j => a (i + j)) n ++ used (fun j => a (i + n + j)) (l.ld.iocbsNr - n) := by
    have hadd := used_add (fun j => a (i + j)) n (l.ld.iocbsNr - n)
    rw [Nat.add_sub_cancel' hn] at hadd
    simpa [add_assoc] using hadd
  have hpnd : (l.accept i n).pending = l.pending.drop n := by
    simp only [AioLedger.accept]
    rw [h.iocbs, diff_take]
  refine ⟨?_, ?_, h.once⟩
  · have hdrop : l.pending.drop n = used (fun j => l.ld.iocbs (i + n + j)) (l.ld.iocbsNr - n) := by
      rw [← h.iocbs, offered, hcut, List.drop_left' (length_used _ _)]
    rw [hpnd, hdrop]
    rfl
  · have hdrop : l.pending.drop n = used (fun j => l.ld.ioUs (i + n + j)) (l.ld.iocbsNr - n) := by
      rw [← h.ioUs, hcut, List.drop_left' (length_used _ _)]
    rw [hpnd, hdrop]
    rfl

def NoFailure : Nat → List Submit → Prop
  | _, [] => True
  | nr, .accepts n :: results => n < nr → NoFailure (nr - n) results
  | nr, .eagain :: results => NoFailure nr results
  | nr, .eintr :: results => NoFailure nr results
  | _, .fails _ :: _ => False

/-- **`io_submit` fails only before it has accepted a request** of this commit: what it returns for
    `nr` requests. -/
def FailsFirst (nr : Nat) : List Submit → Prop
  | [] => True
  | .accepts n :: results => if n = 0 then FailsFirst nr results else
      n < nr → NoFailure (nr - n) results
  | .eagain :: results => FailsFirst nr results
  | .eintr :: results => FailsFirst nr results
  | .fails _ :: _ => True

lemma At.hanging (h : l.At i) : ({ l with hangs := true }).Exact :=
  ⟨nofun, nofun, h.once⟩

variable {l : AioLedger}

lemma commitLoop_of_noFailure (results : List Submit) (h : l.At i) (hnr : l.ld.iocbsNr ≠ 0)
    (hok : NoFailure l.ld.iocbsNr results) : (l.commitLoop i results).2.Exact := by
  induction results generalizing l i with
  | nil => exact h.hanging
  | cons result results ih =>
    cases result with
    | accepts n =>
      simp only [commitLoop]
      by_cases hm : min n l.ld.iocbsNr = 0
      · rw [if_pos hm]
        have hn : n = 0 := by omega
        subst hn
        exact ih h.submits hnr (hok (by omega))
      · rw [if_neg hm]
        have hat := h.submits.accept (min_le_right n l.ld.iocbsNr)
        by_cases hend : ((l.submits i).accept i (min n l.ld.iocbsNr)).ld.iocbsNr = 0
        · rw [if_pos hend]
          exact hat.exact_of_none hend
        · rw [if_neg hend]
          have hlf : l.ld.iocbsNr - min n l.ld.iocbsNr ≠ 0 := hend
          have hlt : n < l.ld.iocbsNr := by omega
          have hok' := hok hlt
          rw [min_eq_left hlt.le] at hat ⊢
          exact ih hat (by rw [min_eq_left hlt.le] at hend; exact hend) hok'
    | eagain | eintr => exact ih h.submits hnr hok
    | fails errno => exact hok.elim

lemma commitLoop_of_failsFirst (results : List Submit) (h : l.At 0) (hnr : l.ld.iocbsNr ≠ 0)
    (hok : FailsFirst l.ld.iocbsNr results) :
    (l.commitLoop 0 results).2.Exact := by
  induction results generalizing l with
  | nil => exact h.hanging
  | cons result results ih =>
    cases result with
    | accepts n =>
      by_cases hn : n = 0
      · subst hn
        simp only [FailsFirst, if_true] at hok
        simp only [commitLoop, Nat.zero_min, if_true]
        exact ih h.submits hnr hok
      · simp only [FailsFirst, if_neg hn] at hok
        exact commitLoop_of_noFailure (.accepts n :: results) h hnr hok
    | eagain | eintr => exact ih h.submits hnr hok
    | fails errno => exact h.submits.exact

lemma At.queue (h : l.At 0) (u : Nat) (ddir : Ddir) :
    (l.queue o u ddir).2.At 0 := by
  unfold AioLedger.queue
  split_ifs
  · exact h
  · exact h
  · exact h
  · exact h
  · exact h
  · refine ⟨?_, ?_, h.once⟩
    · have hic := h.iocbs
      simp only [offered, zero_add] at hic ⊢
      rw [used_update_succ, hic]
    · have hiou := h.ioUs
      simp only [zero_add] at hiou ⊢
      rw [used_update_succ, hiou]

def Ready (l : AioLedger) : AioCall → Prop
  | .queue _ _ => True
  | .commit results => FailsFirst l.ld.iocbsNr results

def ReadyRun (o : ThreadOptions) : AioLedger → List AioCall → Prop
  | _, [] => True
  | l, call :: calls => l.Ready call ∧ ReadyRun o (l.step o call) calls

lemma exact_step {call : AioCall} (hex : l.Exact) (h : l.Ready call) : (l.step o call).Exact := by
  unfold step
  split_ifs with hhn
  · exact hex
  have hat := hex.at (Bool.eq_false_iff.2 hhn)
  cases call with
  | queue u ddir => exact (hat.queue o u ddir).exact
  | commit results =>
    simp only [commit]
    split_ifs with hnr
    · exact hex
    · exact commitLoop_of_failsFirst results hat hnr h

lemma exact_run (calls : List AioCall) (hex : l.Exact) (h : ReadyRun o l calls)
    : (l.run o calls).Exact := by
  induction calls generalizing l with
  | nil => exact hex
  | cons call calls ih => exact ih (exact_step o hex h.1) h.2

lemma start_exact : start.Exact := ⟨fun _ => rfl, fun _ => rfl, rfl⟩

/-- **The queue is exact** over every run in which `io_submit` fails only before it has accepted a
    request of the same commit. -/
theorem libaio_queue_exact (o : ThreadOptions) (calls : List AioCall)
    (hready : ReadyRun o start calls) : (start.run o calls).Exact :=
  exact_run o calls start_exact hready

def twoRequests : ThreadOptions := { defaultOptions with iodepth := 2, iodepthBatch := 2 }

theorem libaio_queue_exact_partial :
    (start.run twoRequests
      [.queue 7 .write, .queue 8 .write, .commit [.eagain, .accepts 1, .eintr, .accepts 1],
        .queue 7 .read, .commit [.fails 5]]).Exact := by
  refine libaio_queue_exact _ _ ⟨trivial, trivial, ?_, trivial, ?_, trivial⟩
  · simp [Ready, FailsFirst, NoFailure]
  · simp [Ready, FailsFirst]

/-- The kernel accepts the first of two writes and then fails with `EINVAL`: the first entry still
    names the accepted request 7, and the next commit passes it to `io_submit` again. -/
theorem libaio_submits_twice :
    let l := start.run twoRequests
      [.queue 7 .write, .queue 8 .write, .commit [.accepts 1, .fails 22]]
    let l' := l.step twoRequests (.commit [.accepts 1])
    l.accepted = [7] ∧ l.pending = [8] ∧ used l.ld.iocbs l.ld.iocbsNr = [7] ∧
      l'.accepted = [7, 7] ∧ l'.resubmitted = [7] ∧ ¬ l.Exact ∧ ¬ l'.Exact := by
  refine ⟨by decide, by decide, by decide, by decide, by decide, ?_, ?_⟩
  · intro hex
    exact absurd (hex.iocbs (by decide)) (by decide)
  · intro hex
    exact absurd hex.once (by decide)

end AioLedger

end FioSsd
