import FioSsd.Backend.FileService
import FioSsd.Backend.References

/-! # The main loop of a job

`thread_main` runs `do_io` and `do_verify` in turn, once for each of the `loops` of the job. -/

namespace FioSsd

variable {closed : FileId → Int} {pick : FilePick} {loops : Nat}

open Finset Td

namespace Td

variable (o : ThreadOptions) (scale : Scale) (randMax : Nat) (noio : Bool)

/-- `reset_io_counters`; the counters of bytes, blocks and rates are left out. -/
def resetIoCounters (loops : Nat) (td : Td) : Td :=
  { td with issue := { td.issue with
    zoneBytes := 0
    nrDoneFiles := if o.timeBased || loops ≠ 0 then 0 else td.issue.nrDoneFiles } }

def closeFiles (closed : FileId → Int) (td : Td) : List FileId → Except Fault Td
  | [] => .ok td
  | f :: rest =>
    if (td.hist.files f).isOpen then do (← td.tdIoCloseFile f (closed f)).closeFiles closed rest
    else td.closeFiles closed rest

def clearDone (n : Nat) (td : Td) : Td :=
  { td with hist := { td.hist with
    files := fun f => if f < n then { td.hist.files f with done := false } else td.hist.files f } }

/-- `clear_io_state`; the seeds of the random generators are left out. -/
def clearIoState (loops : Nat) (closed : FileId → Int) (td : Td) : Except Fault Td := do
  let td ← (td.resetIoCounters o loops).closeFiles closed (List.range o.nrFiles)
  return td.clearDone o.nrFiles

def keepRunning (loops : Nat) (done short : Bool) : Option Nat :=
  if done then none
  else if o.timeBased then some loops
  else if loops ≠ 0 then some (loops - 1)
  else if short then some loops
  else none

/-- Fill in a unit with a request for the file; the flag says that there is no room for one. -/
def fillFile (td : Td) (u : Nat) (f : FileId) (draws : FillDraws) : Except Fault (Bool × Td) := do
  let hist ← td.hist.getFile f
  let td := { td with hist := hist }.setIoU u { td.ioUs u with file := some f }
  let (failed, s) ← fillIoU scale randMax o noio td.hist.ioHistLen
    ⟨td.ioUs u, td.hist.files f, td.issue.ddirSeqNr, td.issue.zoneBytes⟩ draws
  return (failed, td.afterFill u f s)

variable {o scale randMax noio} {td td' : Td} {u : Nat} {f : FileId}

lemma tdIoCloseFile_sameDone {closed : Int} (h : td.tdIoCloseFile f closed = .ok td') :
    SameDone td td' := by
  obtain ⟨⟨ret, hist⟩, hput, h⟩ := of_bind h
  cases h
  refine ⟨fun g => ?_, rfl⟩
  have hdn := putFile_done hput g
  by_cases hg : g = f
  · subst hg
    simpa using hdn
  · simpa [hg] using hdn

lemma closeFiles_sameDone {files : List FileId} :
    ∀ {td : Td}, td.closeFiles closed files = .ok td' → SameDone td td' := by
  induction files with
  | nil =>
    intro td hr
    cases hr
    exact .of_eq rfl rfl
  | cons f rest ih =>
    intro td hr
    unfold closeFiles at hr
    split_ifs at hr
    · obtain ⟨td1, hcl, hr⟩ := of_bind hr
      exact (tdIoCloseFile_sameDone hcl).trans (ih hr)
    · exact ih hr

lemma clearIoState_spec (h : td.clearIoState o loops closed = .ok td') :
    (∀ g, g < o.nrFiles → (td'.hist.files g).done = false) ∧
      td'.issue.nrDoneFiles = if o.timeBased || loops ≠ 0 then 0 else td.issue.nrDoneFiles := by
  obtain ⟨td1, hcl, h⟩ := of_bind h
  cases h
  refine ⟨fun g hg => ?_, ?_⟩
  · simp [clearDone, hg]
  · exact (closeFiles_sameDone hcl).count

lemma fillFile_sameDone {draws : FillDraws} {failed : Bool}
    (h : td.fillFile o scale randMax noio u f draws = .ok (failed, td')) : SameDone td td' := by
  obtain ⟨hist, hget, h⟩ := of_bind h
  obtain ⟨⟨failed1, s⟩, hfil, h⟩ := of_bind h
  cases h
  have hfl := fillIoU_flags hfil
  have hdn : s.file.done = (hist.files f).done := by
    simp only [FioFile.flags, Prod.mk.injEq] at hfl
    exact hfl.2.2.2.1
  have htk := History.getFile_done hget
  refine ⟨fun g => ?_, rfl⟩
  by_cases hg : g = f
  · subst hg
    have heq := htk g
    simp only [afterFill, setIoU, Function.update_self]
    exact hdn.trans heq
  · have heq := htk g
    simp only [afterFill, setIoU, Function.update_of_ne hg]
    exact heq

lemma fileDone_done (h : td.fileDone u f pick = .ok td') :
    (∀ g, g ≠ f → (td'.hist.files g).done = (td.hist.files g).done) ∧
      (td'.hist.files f).done = true ∧ (td'.hist.files f).closing = true ∧
      td'.issue.nrDoneFiles = td.issue.nrDoneFiles + 1 := by
  obtain ⟨-, -, -, -, hoth, hdn, -⟩ := fileDone_spec h
  refine ⟨fun g hg => by rw [hoth g hg], hdn, ?_⟩
  obtain ⟨td1, hput, h⟩ := of_bind h
  obtain ⟨td2, hcl, h⟩ := of_bind h
  cases h
  obtain ⟨ret, hist, error, -, rfl⟩ := putFileLog_cases hput
  have hcls := (tdIoCloseFile_puts hcl).1.closing
  have hcnt := (tdIoCloseFile_sameDone hcl).count
  refine ⟨?_, congrArg (· + 1) hcnt⟩
  simpa [setIoU] using hcls

/-- `nr_done_files` is the number of the job's files that are done. -/
def Counted (n : Nat) (td : Td) : Prop := td.issue.nrDoneFiles = (td.doneFiles n).card

def Fresh (n : Nat) (td : Td) (s : Service) : Prop :=
  ∀ f, s.file = some f → (td.hist.files f).done = true → n ≤ td.issue.nrDoneFiles

variable {n : Nat} {s : Service}

lemma Fresh.heldFresh (h : Fresh n td s) : HeldFresh n td s :=
  fun f hhl hdn => h f (held_eq_some hhl).1 hdn

lemma SameDone.counted (h : SameDone td td') (hc : Counted n td) : Counted n td' := by
  rw [Counted, h.doneFiles_eq n, h.count]
  exact hc

lemma SameDone.fresh (h : SameDone td td') (hf : Fresh n td s) : Fresh n td' s := by
  intro f hfl hdn
  rw [h.count]
  exact hf f hfl ((h.files f).symm.trans hdn)

lemma counted_of_none (h : ∀ f, f < n → (td.hist.files f).done = false)
    (h0 : td.issue.nrDoneFiles = 0) : Counted n td := by
  rw [Counted, doneFiles, h0, filter_false_of_mem, card_empty]
  intro f hf
  rw [h f (mem_range.1 hf)]
  simp

lemma Counted.fileDone (hc : Counted n td) (hf : f < n) (h : (td.hist.files f).done = false)
    (hr : td.fileDone u f pick = .ok td') : Counted n td' := by
  obtain ⟨hoth, hdn, -, hcnt⟩ := fileDone_done hr
  have hins : td'.doneFiles n = insert f (td.doneFiles n) := by
    ext g
    by_cases hg : g = f
    · subst hg
      simp [doneFiles, hf, hdn]
    · simp [doneFiles, hoth g hg, hg]
  have hnot : f ∉ td.doneFiles n := by simp [doneFiles, h]
  rw [Counted, hins, card_insert_of_notMem hnot, hcnt, hc]

lemma Counted.all_done (hc : Counted n td) (h : n ≤ td.issue.nrDoneFiles) :
    ∀ f, f < n → (td.hist.files f).done = true := by
  intro f hf
  have hsub : td.doneFiles n ⊆ Finset.range n := filter_subset _ _
  have hall : td.doneFiles n = Finset.range n := by
    refine eq_of_subset_of_card_le hsub ?_
    rw [card_range, ← hc]
    exact h
  have hmem : f ∈ td.doneFiles n := hall ▸ mem_range.2 hf
  exact (mem_filter.1 hmem).2

end Td

/-- Where the job stands in `thread_main`: at the head of the loop, behind `keep_running`, with
    `clear_state`, in `do_io`, in `set_io_u_file` before and with a file, or in `do_verify`. -/
inductive Phase
  | top (clearState : Bool)
  | started (clearState : Bool)
  | io
  | selecting (u : Nat)
  | filling (u : Nat) (f : FileId)
  | verifying
  deriving DecidableEq

/-- A job with the state of the file service, `td->o.loops` and `ramp_time_over`. -/
structure LoopJob where
  td : Td
  service : Service
  loops : Nat
  rampTimeOver : Bool
  phase : Phase

/-- The calls of `reset_io_counters` that matter for a phase of `do_io`. -/
inductive JobAct
  | restart | rampOver | other
  deriving DecidableEq

namespace LoopJob

variable (o : ThreadOptions) (svc : FileService) (scale : Scale) (randMax : Nat)
  (noio : Bool)

inductive Step : JobAct → LoopJob → LoopJob → Prop
  | goOn {td s loops ramp cs done short loops'} : Td.keepRunning o loops done short = some loops' →
      Step .other ⟨td, s, loops, ramp, .top cs⟩ ⟨td, s, loops', ramp, .started cs⟩
  | first {td s loops ramp} :
      Step .other ⟨td, s, loops, ramp, .started false⟩ ⟨td, s, loops, ramp, .io⟩
  | restart {td s loops ramp closed td'} : td.clearIoState o loops closed = .ok td' →
      Step .restart ⟨td, s, loops, ramp, .started true⟩ ⟨td', s, loops, ramp, .io⟩
  | enter {td s loops ramp} (u : Nat) :
      Step .other ⟨td, s, loops, ramp, .io⟩ ⟨td, s, loops, ramp, .selecting u⟩
  | giveUp {td s loops ramp u m td' s'} : td.serveFile o svc s m = .ok (none, td', s') →
      Step .other ⟨td, s, loops, ramp, .selecting u⟩ ⟨td', s', loops, ramp, .io⟩
  | select {td s loops ramp u m f td' s'} : td.serveFile o svc s m = .ok (some f, td', s') →
      Step .other ⟨td, s, loops, ramp, .selecting u⟩ ⟨td', s', loops, ramp, .filling u f⟩
  | fill {td s loops ramp u f draws td'} :
      td.fillFile o scale randMax noio u f draws = .ok (false, td') →
      Step .other ⟨td, s, loops, ramp, .filling u f⟩ ⟨td', s, loops, ramp, .io⟩
  | fileDone {td s loops ramp u f draws td₁ pick td₂} :
      td.fillFile o scale randMax noio u f draws = .ok (true, td₁) →
      td₁.fileDone u f pick = .ok td₂ →
      Step .other ⟨td, s, loops, ramp, .filling u f⟩ ⟨td₂, s, loops, ramp, .selecting u⟩
  -- The rest of `do_io` and `do_verify`: only `set_io_u_file` makes a file done.
  | work {td s loops ramp phase td'} : phase = .io ∨ phase = .verifying → td.SameDone td' →
      Step .other ⟨td, s, loops, ramp, phase⟩ ⟨td', s, loops, ramp, phase⟩
  -- The verifier threads put back units whose files they do not hold.
  | beside {td s loops ramp phase td'} : td'.hist.files = td.hist.files →
      td'.issue.nrDoneFiles = td.issue.nrDoneFiles →
      Step .other ⟨td, s, loops, ramp, phase⟩ ⟨td', s, loops, ramp, phase⟩
  -- `ramp_time_over` in `io_completed`: `reset_all_stats` keeps the done flags.
  | rampOver {td s loops phase} : phase = .io ∨ phase = .verifying →
      Step .rampOver ⟨td, s, loops, false, phase⟩ ⟨td.resetIoCounters o loops, s, loops, true, phase⟩
  | skip {td s loops ramp} :
      Step .other ⟨td, s, loops, ramp, .io⟩ ⟨td, s, loops, ramp, .top true⟩
  | verify {td s loops ramp closed td'} : td.clearIoState o loops closed = .ok td' →
      Step .other ⟨td, s, loops, ramp, .io⟩ ⟨td', s, loops, ramp, .verifying⟩
  | verified {td s loops ramp} :
      Step .other ⟨td, s, loops, ramp, .verifying⟩ ⟨td, s, loops, ramp, .top true⟩

inductive Runs (C : LoopJob → JobAct → Prop) (j : LoopJob) : LoopJob → Prop
  | refl : Runs C j j
  | tail {j' j'' : LoopJob} {act : JobAct} : Runs C j j' → C j' act →
      Step o svc scale randMax noio act j' j'' → Runs C j j''

/-- What keeps the count right: `clear_io_state` starts a phase with loops left, in a time based job
    or with no file counted as done, and the ramp time does not end in a phase with files that are
    done. -/
def KeepsCount (j : LoopJob) : JobAct → Prop
  | .restart => o.timeBased = true ∨ j.loops ≠ 0 ∨ j.td.issue.nrDoneFiles = 0
  | .rampOver => j.phase = .verifying ∨ (o.timeBased = false ∧ j.loops = 0) ∨
      j.td.issue.nrDoneFiles = 0
  | .other => True

structure Starts (j : LoopJob) : Prop where
  phase : j.phase = .top false
  service : Td.ServesJob o.nrFiles j.service
  done : ∀ f, f < o.nrFiles → (j.td.hist.files f).done = false
  count : j.td.issue.nrDoneFiles = 0

def PhaseInv (td : Td) (s : Service) : Phase → Prop
  | .top true | .started true | .verifying => True
  | .top false | .started false | .io => td.Counted o.nrFiles ∧ td.Fresh o.nrFiles s
  | .selecting _ => td.Counted o.nrFiles ∧ td.HeldFresh o.nrFiles s
  | .filling _ f => td.Counted o.nrFiles ∧ s.file = some f ∧ f < o.nrFiles ∧
      (td.hist.files f).done = false

structure Inv (j : LoopJob) : Prop where
  serves : Td.ServesJob o.nrFiles j.service
  phase : PhaseInv o j.td j.service j.phase

variable {o svc scale randMax noio} {j j' : LoopJob} {act : JobAct}

lemma Starts.inv (h : Starts o j) : Inv o j := by
  refine ⟨h.service, ?_⟩
  rw [h.phase]
  refine ⟨counted_of_none h.done h.count, fun f hfl hdn => ?_⟩
  have hnot := h.done f (h.service.file f hfl)
  cases hnot.symm.trans hdn

lemma PhaseInv.beside {td td' : Td} {s : Service} {phase : Phase} (h : PhaseInv o td s phase)
    (hfl : td'.hist.files = td.hist.files) (hcnt : td'.issue.nrDoneFiles = td.issue.nrDoneFiles)
    : PhaseInv o td' s phase := by
  have heq : td.SameDone td' := ⟨fun g => by rw [hfl], hcnt⟩
  cases phase with
  | top cs | started cs =>
    cases cs with
    | true => trivial
    | false => exact ⟨heq.counted h.1, heq.fresh h.2⟩
  | io => exact ⟨heq.counted h.1, heq.fresh h.2⟩
  | selecting u =>
    refine ⟨heq.counted h.1, fun f hhl hdn => ?_⟩
    rw [hcnt]
    refine h.2 f ?_ ((heq.files f).symm.trans hdn)
    unfold Service.held at hhl ⊢
    rw [hfl] at hhl
    exact hhl
  | filling u f => exact ⟨heq.counted h.1, h.2.1, h.2.2.1, (heq.files f).trans h.2.2.2⟩
  | verifying => trivial

lemma clearIoState_inv {td td' : Td} {s : Service} (hs : Td.ServesJob o.nrFiles s)
    (h : o.timeBased = true ∨ loops ≠ 0 ∨ td.issue.nrDoneFiles = 0)
    (hr : td.clearIoState o loops closed = .ok td') : PhaseInv o td' s .io := by
  obtain ⟨hno, hcnt⟩ := clearIoState_spec hr
  have h0 : td'.issue.nrDoneFiles = 0 := by
    rw [hcnt]
    rcases h with htm | hlp | h0
    · simp [htm]
    · simp [hlp]
    · simp [h0]
  refine ⟨counted_of_none hno h0, fun f hfl hdn => ?_⟩
  cases (hno f (hs.file f hfl)).symm.trans hdn

lemma Inv.step (h : Inv o j) (hkp : KeepsCount o j act)
    (hst : Step o svc scale randMax noio act j j') : Inv o j' := by
  obtain ⟨hs, hph⟩ := h
  cases hst with
  | @goOn td s loops ramp cs =>
    cases cs with
    | true => exact ⟨hs, trivial⟩
    | false => exact ⟨hs, hph⟩
  | first => exact ⟨hs, hph⟩
  | restart hr => exact ⟨hs, clearIoState_inv hs hkp hr⟩
  | enter u => exact ⟨hs, hph.1, hph.2.heldFresh⟩
  | giveUp hr =>
    rcases serveFile_spec hs hph.2 hr with ⟨hful, -, rfl, rfl⟩ | ⟨-, hchs⟩
    · exact ⟨hs, hph.1, fun _ _ _ => hful⟩
    · have heq := hchs.tries.spec.1
      refine ⟨hchs.serves, heq.counted hph.1, fun f hfl => ?_⟩
      cases hchs.atFile.symm.trans hfl
  | select hr =>
    rcases serveFile_spec hs hph.2 hr with ⟨-, hno, -⟩ | ⟨-, hchs⟩
    · cases hno
    · obtain ⟨heq, hsp⟩ := hchs.tries.spec
      obtain ⟨hlt, hdn⟩ := hsp _ rfl
      exact ⟨hchs.serves, heq.counted hph.1, hchs.atFile, hlt, (heq.files _).trans hdn⟩
  | fill hr =>
    obtain ⟨hcnt, hfl, -, hnot⟩ := hph
    have heq := fillFile_sameDone hr
    refine ⟨hs, heq.counted hcnt, fun g hg hdn => ?_⟩
    cases hfl.symm.trans hg
    cases ((heq.files _).trans hnot).symm.trans hdn
  | fileDone hfill hr =>
    obtain ⟨hcnt, hfl, hlt, hnot⟩ := hph
    have heq := fillFile_sameDone hfill
    have hnt1 := (heq.files _).trans hnot
    refine ⟨hs, (heq.counted hcnt).fileDone hlt hnt1 hr, fun g hhl _ => ?_⟩
    -- The file that is given up is about to be closed, so the service does not go on with it.
    obtain ⟨hg, -, hopn⟩ := held_eq_some hhl
    cases hfl.symm.trans hg
    obtain ⟨-, -, hcls, -⟩ := fileDone_done hr
    cases hcls.symm.trans hopn
  | work hwh heq =>
    rcases hwh with rfl | rfl
    · exact ⟨hs, heq.counted hph.1, heq.fresh hph.2⟩
    · exact ⟨hs, trivial⟩
  | beside hfil hcou => exact ⟨hs, hph.beside hfil hcou⟩
  | @rampOver td s loops phase hwh =>
    rcases hwh with rfl | rfl
    · -- the end of the ramp resets the counters in the middle of `do_io`, with the files as they are
      have heq : (td.resetIoCounters o loops).issue.nrDoneFiles = td.issue.nrDoneFiles := by
        rcases hkp with hoth | ⟨htm, hlp⟩ | h0
        · cases hoth
        · have hlp : loops = 0 := hlp
          simp [resetIoCounters, htm, hlp]
        · have h0 : td.issue.nrDoneFiles = 0 := h0
          simp [resetIoCounters, h0]
      exact ⟨hs, PhaseInv.beside hph rfl heq⟩
    · exact ⟨hs, trivial⟩
  | skip => exact ⟨hs, trivial⟩
  | verify _ => exact ⟨hs, trivial⟩
  | verified => exact ⟨hs, trivial⟩

lemma Inv.runs (h : Inv o j) (hr : Runs o svc scale randMax noio (KeepsCount o) j j') :
    Inv o j' := by
  induction hr with
  | refl => exact h
  | tail _ hkp hst ih => exact ih.step hkp hst

/-- **The count of done files is right** whenever a file is chosen, in a run whose resets keep it;
    if `get_next_file` gives up, all files are done. -/
theorem doneFiles_counted (hstart : Starts o j)
    (hrun : Runs o svc scale randMax noio (KeepsCount o) j j') {u : Nat}
    (hphase : j'.phase = .selecting u) :
    j'.td.issue.nrDoneFiles = (j'.td.doneFiles o.nrFiles).card ∧
      (o.nrFiles ≤ j'.td.issue.nrDoneFiles →
        ∀ f, f < o.nrFiles → (j'.td.hist.files f).done = true) := by
  have hinv := (hstart.inv.runs hrun).phase
  rw [hphase] at hinv
  exact ⟨hinv.1, hinv.1.all_done⟩

/-- A job reads a file of 6144 bytes in blocks of 4096, `loops` times. -/
def oddJob (loops : Nat) : LoopJob :=
  let file := { realFileSize := 6144, ioSize := 6144 }
  ⟨{ hist := { files := fun _ => file } }, ⟨0, none, 0⟩, loops, true, .top false⟩

def opensAll : ServiceMeets (default : ThreadOptions).nrFiles :=
  ⟨fun _ => (.succeeds, 0), [], by simp⟩

def readDraws : FillDraws := ⟨.read, false, ⟨fun _ => 0, fun _ => 0⟩, []⟩

def OddRuns (C : LoopJob → JobAct → Prop) : LoopJob → LoopJob → Prop :=
  Runs default ⟨.rr, 1⟩ exactScale 0 false C

def donePick : FilePick := ⟨[], readDraws, 0, 0⟩

set_option synthInstance.maxSize 500 in
lemma oddJob_firstLoop {C : LoopJob → JobAct → Prop} (hC : ∀ j, C j .other) :
    ∃ td s td', OddRuns C (oddJob 2) ⟨td, s, 1, true, .selecting 0⟩ ∧
      td.issue.nrDoneFiles = 1 ∧ td.clearIoState default 0 (fun _ => 0) = .ok td' ∧
      td'.issue.nrDoneFiles = 1 ∧ (td'.hist.files 0).done = false := by
  obtain ⟨⟨td1, s1⟩, hsr, td2, hfl, td3, hput, ⟨td4, s2⟩, hsr', td5, hfl', td6, hdn, hcnt, td7, hcl,
      hst, hclr⟩ :
      ∃ r, (oddJob 2).td.serveFile default ⟨.rr, 1⟩ (oddJob 2).service opensAll = .ok (some 0, r) ∧
      ∃ td2, r.1.fillFile default exactScale 0 false 0 0 readDraws = .ok (false, td2) ∧
      ∃ td3, (td2.notePos 0 (td2.ioUs 0)).putIoU 0 0 = .ok td3 ∧
      ∃ r', td3.serveFile default ⟨.rr, 1⟩ r.2 opensAll = .ok (some 0, r') ∧
      ∃ td5, r'.1.fillFile default exactScale 0 false 0 0 readDraws = .ok (true, td5) ∧
      ∃ td6, td5.fileDone 0 0 donePick = .ok td6 ∧ td6.issue.nrDoneFiles = 1 ∧
      ∃ td7, td6.clearIoState default 0 (fun _ => 0) = .ok td7 ∧
        td7.issue.nrDoneFiles = 1 ∧ (td7.hist.files 0).done = false := by decide +kernel
  have step : ∀ {j j' : LoopJob}, OddRuns C (oddJob 2) j →
      Step default ⟨.rr, 1⟩ exactScale 0 false .other j j' → OddRuns C (oddJob 2) j' :=
    fun hrn hste => hrn.tail (hC _) hste
  have hgo : keepRunning default 2 false true = some 1 := rfl
  have hent := step (step (step .refl (.goOn hgo)) .first) (.enter 0)
  have hread := step (step hent (.select hsr)) (.fill hfl)
  have hnt := step hread (.work (.inl rfl) (notePos_sameDone td2 0 (td2.ioUs 0)))
  have hbc := step hnt (.work (.inl rfl) (putIoU_sameDone hput))
  have hag := step (step hbc (.enter 0)) (.select hsr')
  exact ⟨td6, s2, td7, step hag (.fileDone hfl' hdn), hcnt, hcl, hst, hclr⟩

theorem doneFiles_counted_odd :
    ∃ td s, OddRuns (KeepsCount default) (oddJob 2) ⟨td, s, 1, true, .selecting 0⟩ ∧
      td.issue.nrDoneFiles = 1 ∧ (td.doneFiles 1).card = 1 := by
  obtain ⟨td, s, -, hr, hcnt, -⟩ := oddJob_firstLoop (C := KeepsCount default) fun _ => trivial
  have hst : Starts default (oddJob 2) :=
    ⟨rfl, ⟨fun f hf => absurd hf (by simp [oddJob]), fun _ => Nat.zero_lt_one⟩, fun _ _ => rfl, rfl⟩
  have hcou := (doneFiles_counted hst hr rfl).1
  exact ⟨td, s, hr, hcnt, hcou.symm.trans hcnt⟩

/-- The second loop of two starts with `loops` at 0: the file is no longer done but still counted, and
    `get_next_file` gives up at once. -/
theorem doneFiles_stale :
    ∃ td s, OddRuns (fun _ _ => True) (oddJob 2) ⟨td, s, 0, true, .selecting 0⟩ ∧
      td.issue.nrDoneFiles = 1 ∧ td.doneFiles 1 = ∅ ∧
      td.serveFile default ⟨.rr, 1⟩ s opensAll = .ok (none, td, s) := by
  obtain ⟨td, s, td', hr, hcnt, hcl, hst, hclr⟩ :=
    oddJob_firstLoop (C := fun _ _ => True) fun _ => trivial
  have hfl : ∀ {td : Td}, td.issue.nrDoneFiles = 1 →
      td.serveFile default ⟨.rr, 1⟩ s opensAll = .ok (none, td, s) := by
    intro td hone
    refine if_pos ?_
    rw [hone]
    exact le_refl 1
  have step : ∀ {j j' : LoopJob} {act : JobAct}, OddRuns (fun _ _ => True) (oddJob 2) j →
      Step default ⟨.rr, 1⟩ exactScale 0 false act j j' → OddRuns (fun _ _ => True) (oddJob 2) j' :=
    fun hrn hste => hrn.tail trivial hste
  have hgo : Td.keepRunning default 1 false true = some 0 := rfl
  have htop := step (step hr (.giveUp (hfl hcnt))) .skip
  have hstr := step (step htop (.goOn hgo)) (.restart hcl)
  refine ⟨td', s, step hstr (.enter 0), hst, ?_, hfl hst⟩
  simp [Td.doneFiles, hclr]

end LoopJob

end FioSsd
