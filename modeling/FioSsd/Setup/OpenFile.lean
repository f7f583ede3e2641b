import FioSsd.Backend.Pool

/-! # Opening a file, step by step

`td_io_open_file` (`ioengines.c`) with each of its points of failure. -/

namespace FioSsd

inductive FioFiletype
  | fioTypeFile | fioTypeBd | fioTypeChar | fioTypePipe
  deriving DecidableEq, Repr

/-- What `td_io_open_file` meets: the engine's hooks and flags, the file's type and disk, the job's
    options, and which of the calls fail. -/
structure OpenCall where
  engineFails : Bool
  /-- The engine's `open_file` leaves a descriptor in `f->fd`. -/
  (opensFd closeFile disklessio : Bool)
  filetype : FioFiletype
  (du tdRandom invalidateCache invalidateFails fadviseHint fadviseFails : Bool)
  deriving DecidableEq, Repr

structure OpenState where
  hist : History
  users : Int

namespace OpenCall

/-- The steps behind the engine's `open_file`: random I/O on a pipe, `file_invalidate_cache`,
    `posix_fadvise`. -/
def laterStepFails (c : OpenCall) : Bool :=
  if c.filetype = .fioTypePipe ∧ c.tdRandom = true then true
  else if c.disklessio then false
  else if c.invalidateCache ∧ c.invalidateFails then true
  else c.fadviseHint ∧ (c.filetype = .fioTypeBd ∨ c.filetype = .fioTypeFile) ∧ c.fadviseFails

end OpenCall

namespace OpenState

variable (s : OpenState)

def diskUtilMod (c : OpenCall) (val : Int) : OpenState :=
  if c.du then { s with users := s.users + val } else s

/-- The open flag, the reference and the counts that `td_io_open_file` sets once the engine has
    opened the file. -/
def setOpen (f : FileId) (c : OpenCall) : Except Fault OpenState := do
  let h := s.hist.fioFileReset f
  let file := { h.files f with fdOpen := c.opensFd, isOpen := true, closing := false }
  let h := { h with files := Function.update h.files f file }
  let s := { s with hist := h }.diskUtilMod c 1
  let h := { s.hist with nrOpenFiles := s.hist.nrOpenFiles + 1 }
  return { s with hist := ← h.getFile f }

def tdIoOpenFile (s : OpenState) (f : FileId) (c : OpenCall) : Except Fault (Bool × OpenState) :=
  if (s.hist.files f).isOpen ∨ (s.hist.files f).fdOpen then .error (.assertFailed .tdIoOpenFile)
  else if c.engineFails then .ok (true, s)
  else do
    let s ← s.setOpen f c
    if c.laterStepFails then
      -- the label `err`: the open flag, `nr_open_files` and the reference stay
      let s := s.diskUtilMod c (-1)
      let file := { s.hist.files f with fdOpen := c.opensFd && !c.closeFile }
      return (true, { s with
        hist := { s.hist with files := Function.update s.hist.files f file } })
    else return (false, s)

structure Untouched (s s' : OpenState) (f : FileId) : Prop where
  isOpen : (s'.hist.files f).isOpen = (s.hist.files f).isOpen
  references : (s'.hist.files f).references = (s.hist.files f).references
  fdOpen : (s'.hist.files f).fdOpen = (s.hist.files f).fdOpen
  nrOpenFiles : s'.hist.nrOpenFiles = s.hist.nrOpenFiles
  users : s'.users = s.users

/-- A later `td_io_open_file` or `put_file` of the file trips no assertion. -/
structure Usable (s : OpenState) (f : FileId) : Prop where
  opens : ∀ c, ∃ r, s.tdIoOpenFile f c = .ok r
  closes : ∀ close, ∃ r, s.hist.putFile f close = .ok r

structure Closed (s : OpenState) (f : FileId) : Prop where
  isOpen : (s.hist.files f).isOpen = false
  fdOpen : (s.hist.files f).fdOpen = false

lemma setOpen_spec (f : FileId) (c : OpenCall) :
    ∃ s', s.setOpen f c = .ok s' ∧ (s'.hist.files f).isOpen = true ∧
      (s'.hist.files f).references = (s.hist.files f).references + 1 ∧
      s'.hist.nrOpenFiles = s.hist.nrOpenFiles + 1 := by
  by_cases hdu : c.du = true <;>
    simp [setOpen, diskUtilMod, hdu, History.getFile, History.fioFileReset, FioFile.reset,
      bind, Except.bind, pure, Except.pure]

lemma Closed.usable {s : OpenState} {f : FileId} (h : s.Closed f) : s.Usable f := by
  constructor
  · intro c
    obtain ⟨s', hset, -⟩ := s.setOpen_spec f c
    rw [tdIoOpenFile, if_neg (by simp [h.isOpen, h.fdOpen])]
    by_cases heng : c.engineFails = true
    · exact ⟨_, if_pos heng⟩
    · rw [if_neg heng, hset]
      by_cases hlat : c.laterStepFails = true
      · exact ⟨_, if_pos hlat⟩
      · exact ⟨_, if_neg hlat⟩
  · intro close
    simp only [History.putFile, h.isOpen, h.fdOpen, Bool.false_eq_true, if_false]
    exact ⟨_, rfl⟩

lemma tdIoOpenFile_late {s : OpenState} {f : FileId} {c : OpenCall} (h : s.Closed f)
    (heng : c.engineFails = false) (hlat : c.laterStepFails = true) :
    ∃ s', s.tdIoOpenFile f c = .ok (true, s') ∧ (s'.hist.files f).isOpen = true := by
  obtain ⟨s1, hset, hopn, -⟩ := s.setOpen_spec f c
  rw [tdIoOpenFile, if_neg (by simp [h.isOpen, h.fdOpen]), if_neg (by simp [heng]), hset]
  refine ⟨_, if_pos hlat, ?_⟩
  by_cases hdu : c.du = true <;> simp [diskUtilMod, hdu, hopn]

/-- **A failed open leaves no trace exactly when the engine's open is what failed**: if and only if
    no step behind a successful engine open fails. -/
theorem failed_open_untouched_iff (s : OpenState) (f : FileId) (c : OpenCall)
    (hclosed : s.Closed f) :
    (∀ s', s.tdIoOpenFile f c = .ok (true, s') → s.Untouched s' f ∧ s'.Usable f) ↔
      (c.engineFails = true ∨ c.laterStepFails = false) := by
  constructor
  · intro hunt
    by_contra hcn
    obtain ⟨heng, hlat⟩ : c.engineFails = false ∧ c.laterStepFails = true := by
      simpa using hcn
    obtain ⟨s', hr, hopn⟩ := tdIoOpenFile_late hclosed heng hlat
    have heq := (hunt s' hr).1.isOpen
    rw [hopn, hclosed.isOpen] at heq
    cases heq
  · intro hcn s' hr
    rw [tdIoOpenFile, if_neg (by simp [hclosed.isOpen, hclosed.fdOpen])] at hr
    by_cases heng : c.engineFails = true
    · rw [if_pos heng] at hr
      cases hr
      exact ⟨⟨rfl, rfl, rfl, rfl, rfl⟩, hclosed.usable⟩
    · -- without a later failure the call does not return nonzero
      have hlat := hcn.resolve_left heng
      obtain ⟨s1, hset, -⟩ := s.setOpen_spec f c
      rw [if_neg heng, hset] at hr
      simp only [bind, Except.bind, hlat, Bool.false_eq_true, if_false, pure, Except.pure] at hr
      exact absurd (ok_pair hr).1 (by decide)

def allClosed : OpenState := ⟨default, 0⟩

def openPipe (tdRandom engineFails : Bool) : OpenCall :=
  { engineFails := engineFails, opensFd := true, closeFile := true, disklessio := false
    filetype := .fioTypePipe, du := false, tdRandom := tdRandom, invalidateCache := true
    invalidateFails := false, fadviseHint := true, fadviseFails := false }

theorem failed_open_untouched_engine :
    ∃ s', allClosed.tdIoOpenFile 0 (openPipe true true) = .ok (true, s') ∧
      allClosed.Untouched s' 0 ∧ s'.Usable 0 := by
  have hunt := (failed_open_untouched_iff allClosed 0 (openPipe true true) ⟨rfl, rfl⟩).2 (.inl rfl)
  exact ⟨_, rfl, hunt _ rfl⟩

/-- Random I/O on a pipe: the open fails, the file stays marked open although its descriptor is
    closed, and opening it again trips the first assertion. -/
theorem failed_open_leaves_trace :
    ∃ s', allClosed.tdIoOpenFile 0 (openPipe true false) = .ok (true, s') ∧
      (s'.hist.files 0).isOpen = true ∧ (s'.hist.files 0).references = 1 ∧
      s'.hist.nrOpenFiles = 1 ∧ (s'.hist.files 0).fdOpen = false ∧
      s'.tdIoOpenFile 0 (openPipe true false) = .error (.assertFailed .tdIoOpenFile) := by
  refine ⟨_, rfl, rfl, rfl, rfl, rfl, rfl⟩

end OpenState

end FioSsd
