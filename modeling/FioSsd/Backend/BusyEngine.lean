import FioSsd.Backend.ReadErrors

/-! # A busy engine in the verify phase

`do_verify` works on the pointer `io_u` of the unit it took. `requeue_io_u` gets the address of that
pointer and clears it. -/

namespace FioSsd

variable {u : Nat} {td td' : Td} (k : Checksums) (hash : KeyHash) (o : ThreadOptions)

namespace Td

inductive VerifyRuns : Td → List (VerifyRound o) → Td → Prop
  | nil (td : Td) : VerifyRuns td [] td
  | cons {td td₁ td₂ : Td} {r : VerifyRound o} {rest : List (VerifyRound o)} {issue : Option Issue}
      (first : td.verifyRound k hash o r = .ok (true, td₁, issue)) (others : VerifyRuns td₁ rest td₂) :
      VerifyRuns td (r :: rest) td₂

/-- The round hands a unit to `td_io_queue`, which returns with the job as `td'`. -/
def Queues (td : Td) (r : VerifyRound o) (u : Nat) (td' : Td) : Prop :=
  (r.others.1 td).terminate = false ∧ r.expired = false ∧ r.flow = false ∧ r.prepFails = false ∧
    ∃ td₁ td₂, (r.others.1 td).getIoUWait o r.waits = .ok (some u, td₁) ∧
      td₁.fetchVerify o u r = .ok (false, td₂) ∧
      (td₂.setVerifyHandler o u).tdIoQueue o u r.hook = .ok td'

variable {o} in
/-- The phase gets to the `switch` of the round with the unit, the job being `td'`. -/
def VerifyPhase.Switches (e : VerifyPhase o) (td : Td) (r : VerifyRound o) (u : Nat) (td' : Td) :
    Prop :=
  ∃ td₁ td₂ before after, td.syncFiles k hash o e.syncs = .ok td₁ ∧ td₁.error = 0 ∧
    e.rounds = before ++ r :: after ∧ VerifyRuns k hash o td₁ before td₂ ∧ td₂.Queues o r u td'

variable {o} in
/-- Wherever the phase gets behind the `switch`, `io_u` points to a unit. -/
def VerifyPhase.PointsToUnit (e : VerifyPhase o) (td : Td) : Prop :=
  ∀ r u td', e.Switches k hash td r u td' → ∀ ret ioU td'',
    td'.verifySwitch k hash o u r = .ok (.breaks ret ioU, td'') → ioU ≠ none

end Td

variable {k hash o}

section

variable {r : Td.VerifyRound o} {ioU : Option Nat}

lemma Td.verifyCompleted_points {ret : Int} (h : td.verifyCompleted k hash o u r = .ok (.breaks ret ioU, td')) :
    ioU = some u := by
  obtain ⟨⟨done, td1⟩, -, h⟩ := of_bind h
  cases done with
  | failed _ => cases h
  | zero => exact (SwitchExit.breaks.inj (ok_pair h).1).2.symm
  | requeued => cases h
  | done ret' =>
    have hexi := (ok_pair h).1
    split_ifs at hexi
    exact (SwitchExit.breaks.inj hexi).2.symm

lemma Td.verifySwitch_points {ret : Int} (hbs : r.hook.ret ≠ fioQBusy)
    (h : td.verifySwitch k hash o u r = .ok (.breaks ret ioU, td')) : ioU = some u := by
  rw [verifySwitch, if_neg hbs] at h
  split_ifs at h
  · exact verifyCompleted_points h
  all_goals exact (SwitchExit.breaks.inj (ok_pair h).1).2.symm

lemma Td.verifySwitch_busy (h : r.hook.ret = fioQBusy) (td : Td) : td.verifySwitch k hash o u r =
      .ok (.breaks fioQBusy none, (td.requeueIoU u).tdIoCommit r.commit) := by
  rw [verifySwitch, h, if_neg (by decide), if_neg (by decide), if_pos rfl]

lemma Td.Queues.verifyRound_busy
    (h : td.Queues o r u td') (hbs : r.hook.ret = fioQBusy) :
    td.verifyRound k hash o r = .error .badPointer := by
  obtain ⟨htrm, hexp, hfl, hpr, td1, td2, hget, hft, hqu⟩ := h
  have hread : (td2.setVerifyHandler o u).queueRead k hash o u r = .error .badPointer := by
    rw [queueRead, hqu]
    simp only [bind, Except.bind, verifySwitch_busy hbs]
    rfl
  have hftc : td1.verifyFetched k hash o u r = .error .badPointer := by
    rw [verifyFetched, hft]
    simp [bind, Except.bind, hpr, hread]
  simp only [verifyRound, htrm, hexp, hfl, Bool.false_eq_true, if_false, hget, bind, Except.bind]
  exact hftc

end

variable {r : Td.VerifyRound o}

lemma Td.VerifyRuns.fails {before after : List (Td.VerifyRound o)} {fault : Fault}
    (h : Td.VerifyRuns k hash o td before td') (hrn : td'.verifyRound k hash o r = .error fault) :
    td.verifyRounds k hash o (before ++ r :: after) = .error fault := by
  induction h with
  | nil td =>
    rw [List.nil_append, verifyRounds, hrn]
    rfl
  | cons first _ ih =>
    rw [List.cons_append, verifyRounds, first]
    simp [bind, Except.bind, ih hrn]

lemma Td.VerifyPhase.Switches.doVerify_busy {e : Td.VerifyPhase o}
    (h : e.Switches k hash td r u td') (hbs : r.hook.ret = fioQBusy) :
    td.doVerify k hash o e = .error .badPointer := by
  obtain ⟨td1, td2, before, after, hsy, herr, hrnd, hrn, hque⟩ := h
  rw [doVerify, hsy, hrnd]
  simp [bind, Except.bind, herr, hrn.fails (hque.verifyRound_busy hbs)]

/-- **When the pointer is good.** `io_u` points to a unit wherever the loop follows it, exactly if
    the engine answers none of the reads with `FIO_Q_BUSY`. -/
theorem doVerify_pointsToUnit_iff (k : Checksums) (hash : KeyHash) (td : Td) (e : Td.VerifyPhase o)
    :
    e.PointsToUnit k hash td ↔ ∀ r u td', e.Switches k hash td r u td' → r.hook.ret ≠ fioQBusy := by
  constructor
  · intro hpnt r u td' hswt hbs
    exact hpnt r u td' hswt _ _ _ (Td.verifySwitch_busy hbs td') rfl
  · intro hfr r u td' hswt ret ioU td'' hr hnl
    have hun := Td.verifySwitch_points (hfr r u td' hswt) hr
    cases hun.symm.trans hnl

def busyRound : Td.VerifyRound nullOptions :=
  { syncRound 0 0 with hook := ⟨fioQBusy, ⟨0, 0, fun _ => 0⟩, 0, 0⟩ }

/-- The engine is busy for the first read of a phase: the loop reads through a null pointer. -/
theorem doVerify_not_pointsToUnit :
    ¬ (syncPhase [busyRound]).PointsToUnit sumChecksums (fun _ => 0) (loggedJob 1) ∧
      (loggedJob 1).doVerify sumChecksums (fun _ => 0) nullOptions (syncPhase [busyRound]) =
        .error .badPointer := by
  obtain ⟨td1, hget, td2, hft, td3, hqu, -⟩ :
      ∃ td1, (loggedJob 1).getIoUWait nullOptions [] = .ok (some 0, td1) ∧
      ∃ td2, td1.fetchVerify nullOptions 0 busyRound = .ok (false, td2) ∧
      ∃ td3, (td2.setVerifyHandler nullOptions 0).tdIoQueue nullOptions 0 busyRound.hook = .ok td3 ∧
        True := by decide +kernel
  have hswt : (syncPhase [busyRound]).Switches sumChecksums (fun _ => 0) (loggedJob 1)
      busyRound 0 td3 :=
    ⟨loggedJob 1, loggedJob 1, [], [], rfl, rfl, rfl, .nil _, rfl, rfl, rfl, rfl, td1, td2, hget,
      hft, hqu⟩
  refine ⟨fun hpnt => ?_, hswt.doVerify_busy rfl⟩
  exact hpnt _ _ _ hswt _ _ _ (Td.verifySwitch_busy rfl td3) rfl

end FioSsd
