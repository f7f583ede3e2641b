import FioSsd.Backend.Pool
import FioSsd.History.Fetch

/-! # Requeueing a unit -/

namespace FioSsd

/-- What a requeued unit has to keep: its request, its handler and the flags that decide how its
    completion is treated. -/
structure SameTreatment (v v' : IoU) : Prop where
  file : v'.file = v.file
  ddir : v'.ddir = v.ddir
  offset : v'.offset = v.offset
  buflen : v'.buflen = v.buflen
  uniqueVersion : v'.uniqueVersion = v.uniqueVersion
  endIo : v'.endIo = v.endIo
  verList : v'.verList = v.verList
  trimmed : v'.trimmed = v.trimmed
  barrier : v'.barrier = v.barrier

namespace Td

variable {td td' : Td} {u : Nat} {rest : List Nat}

lemma requeueIoU_unit (td : Td) (u : Nat) :
    (td.requeueIoU u).ioUs u = { td.ioUs u with free := true, flight := false } := by
  simp [requeueIoU, unlink, setIoU]

lemma handOut_unit (td : Td) (u : Nat) : (td.handOut u).ioUs u = { td.ioUs u with
      free := false, freeDef := false, trimmed := false, barrier := false, verList := false
      randomagain := false, error := 0, inCurDepth := true } := by
  simp [handOut, unlink, setIoU]

lemma getIoU_of_requeued (h : td.ioURequeues = u :: rest) (hfr : (td.ioUs u).free) :
    td.getIoU = .ok (some u, td.handOut u) := by
  unfold getIoU takeIoU
  rw [h]
  simp only [hfr, if_true]
  rfl

/-- **When requeueing is transparent.** `__get_io_u` hands the requeued unit out, and it is treated
    as before exactly when none of the three flags was set. -/
theorem requeueIoU_getIoU_iff (hsame : td'.ioUs u = (td.requeueIoU u).ioUs u)
    (hhead : td'.ioURequeues = u :: rest) :
    ∃ td'', td'.getIoU = .ok (some u, td'') ∧
      (SameTreatment (td.ioUs u) (td''.ioUs u) ↔
        (td.ioUs u).verList = false ∧ (td.ioUs u).trimmed = false ∧ (td.ioUs u).barrier = false) := by
  rw [requeueIoU_unit] at hsame
  refine ⟨td'.handOut u, getIoU_of_requeued hhead (by rw [hsame]), ?_⟩
  rw [handOut_unit, hsame]
  constructor
  · intro h
    exact ⟨h.verList.symm, h.trimmed.symm, h.barrier.symm⟩
  · rintro ⟨hver, htr, hbar⟩
    exact ⟨rfl, rfl, rfl, rfl, rfl, rfl, hver.symm, htr.symm, hbar.symm⟩

def busyJob (ioU : IoU) : Td :=
  { ioUs := fun _ => { ioU with free := false, inCurDepth := true }
    ioUBusylist := [0], curDepth := 1 }

def plainWrite : IoU := { ddir := .write, file := some 0, buflen := 4096 }

theorem requeueIoU_getIoU_write :
    ∃ td'', ((busyJob plainWrite).requeueIoU 0).getIoU = .ok (some 0, td'') ∧
      SameTreatment ((busyJob plainWrite).ioUs 0) (td''.ioUs 0) := by
  obtain ⟨td'', hget, hiff⟩ := @requeueIoU_getIoU_iff (busyJob plainWrite)
    ((busyJob plainWrite).requeueIoU 0) 0 [] rfl rfl
  exact ⟨td'', hget, hiff.2 ⟨rfl, rfl, rfl⟩⟩

/-- A read fetched from the history is on the verify list, and no longer is when it comes back. -/
theorem requeueIoU_drops_verList :
    ∃ h ioU h' td'', History.oneWrite = .ok h ∧
      h.getNextVerify default default .succeeds = .ok (false, ioU, h') ∧ ioU.verList = true ∧
      ((busyJob ioU).requeueIoU 0).getIoU = .ok (some 0, td'') ∧
      ((busyJob ioU).ioUs 0).verList = true ∧ (td''.ioUs 0).verList = false ∧
      ¬SameTreatment ((busyJob ioU).ioUs 0) (td''.ioUs 0) := by
  obtain ⟨h, hlog, ⟨ioU, h'⟩, hft, hver⟩ : ∃ h, History.oneWrite = .ok h ∧
      ∃ r, h.getNextVerify default default .succeeds = .ok (false, r) ∧ r.1.verList = true := by
    decide +kernel
  have hget : ((busyJob ioU).requeueIoU 0).getIoU =
      .ok (some 0, ((busyJob ioU).requeueIoU 0).handOut 0) :=
    getIoU_of_requeued rfl (by rw [requeueIoU_unit])
  have hdropped : ((((busyJob ioU).requeueIoU 0).handOut 0).ioUs 0).verList = false := by
    rw [handOut_unit]
  refine ⟨h, ioU, h', _, hlog, hft, hver, hget, hver, hdropped, fun heq => ?_⟩
  have hkp := heq.verList
  rw [hdropped, show ((busyJob ioU).ioUs 0).verList = true from hver] at hkp
  cases hkp

end Td

end FioSsd
