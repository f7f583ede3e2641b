import FioSsd.Backend.DoVerify

/-! # Errors of the verify phase

Once a job has an error, what happens to it is decided by `continue_on_error` alone: every other
function keeps the first error. -/

namespace FioSsd

open Except

variable {failed : Bool} {c : Cleanup} {ret : Int} {issue : Option Issue} {res : Option Nat}
  {td0 : Td} {again : Bool} {close : Int} {draw icdError icdError' u : Nat} {reap : Reap}
  {td td' : Td}

variable {k : Checksums} {hash : KeyHash} {o : ThreadOptions}

def KeepsError (td td' : Td) : Prop := td.error ≠ 0 → td'.error = td.error

variable (o) in
def NoContinue : Prop := ∀ t, o.continueOnError.includes t = false

lemma KeepsError.trans {td1 td2 td3 : Td} (h1 : KeepsError td1 td2) (h2 : KeepsError td2 td3) :
    KeepsError td1 td3 := by
  intro h
  have h' := h1 h
  rw [h2 (by rwa [h']), h']

lemma KeepsError.of_eq (h : td'.error = td.error) : KeepsError td td' := fun _ => h

namespace Td

lemma tdVerror_keeps (td : Td) (err : Int) : KeepsError td (td.tdVerror err) := by
  intro h
  rw [tdVerror, if_neg h]

lemma putFileLog_keeps {f : FileId} (h : td.putFileLog f close = .ok td') : KeepsError td td' := by
  obtain ⟨⟨ret, hist⟩, -, h⟩ := of_bind h
  cases h
  by_cases hret : ret = 0
  · simp only [hret, ne_eq, not_true_eq_false, if_false]
    exact .of_eq rfl
  · simp only [hret, ne_eq, not_false_eq_true, if_true]
    have hhs : KeepsError td { td with hist := hist } := .of_eq rfl
    exact hhs.trans (tdVerror_keeps _ _)

@[simp] lemma linkFree_error (td : Td) (u : Nat) : (td.linkFree u).error = td.error := rfl

@[simp] lemma handOver_error (td : Td) (u : Nat) : (td.handOver u).error = td.error := rfl

lemma putIoU_keeps (h : td.putIoU u close = .ok td') : KeepsError td td' := by
  rcases putIoU_split h with ⟨-, rfl⟩ | ⟨f, td1, -, -, hput, rfl⟩
  · exact .of_eq (linkFree_error td u)
  · exact (putFileLog_keeps hput).trans (.of_eq (linkFree_error td1 u))

lemma clearIoU_keeps (h : td.clearIoU u close = .ok td') : KeepsError td td' := by
  have hflg : KeepsError td (td.setIoU u { td.ioUs u with flight := false }) := .of_eq rfl
  exact hflg.trans (putIoU_keeps h)

lemma verifyIoUAsync_keeps (h : td.verifyIoUAsync u close = .ok td') : KeepsError td td' := by
  rcases verifyIoUAsync_split h with ⟨-, rfl⟩ | ⟨f, td1, -, hput, rfl⟩
  · exact .of_eq (handOver_error td u)
  · exact (putFileLog_keeps hput).trans (.of_eq (handOver_error td1 u))

lemma endIo_keeps {ret : Nat} (h : td.endIo k o u close = .ok (ret, td')) : KeepsError td td' := by
  unfold endIo at h
  cases hend : (td.ioUs u).endIo with
  | none =>
    rw [hend] at h
    cases h
    exact .of_eq rfl
  | some handler =>
    rw [hend] at h
    cases handler with
    | verifyIoU =>
      obtain ⟨res, -, h⟩ := of_bind h
      cases h
      exact .of_eq rfl
    | verifyIoUAsync =>
      obtain ⟨td1, hasy, h⟩ := of_bind h
      cases h
      exact verifyIoUAsync_keeps hasy

lemma settleError_keeps (h : NoContinue o) (td : Td) (u icdError : Nat) :
    KeepsError td (td.settleError o u icdError).2 := by
  rw [settleError, if_neg (by simp [h _])]
  exact .of_eq rfl

lemma ioULogError_keeps (td : Td) (u : Nat) : KeepsError td (td.ioULogError u) := by
  intro h
  rw [ioULogError, if_neg h]

section

variable (hno : NoContinue o)

include hno

lemma rwCompleted_keeps
    (h : td.rwCompleted k hash o u icdError close draw = .ok (icdError', td')) :
    KeepsError td td' := by
  obtain ⟨hist, -, h⟩ := of_bind h
  obtain ⟨⟨ret, td1⟩, hend, h⟩ := of_bind h
  obtain rfl := congrArg Prod.snd (ok.inj h)
  have hhs : KeepsError td { td with hist := hist } := .of_eq rfl
  exact (hhs.trans (endIo_keeps hend)).trans (settleError_keeps hno _ _ _)

lemma ioCompleted_keeps
    (h : td.ioCompleted k hash o u icdError close draw = .ok (icdError', td')) :
    KeepsError td td' := by
  have hln : KeepsError td (td.land u) := .of_eq rfl
  have hnx : KeepsError td ((td.land u).setLastDdir ((td.land u).ioUs u).ddir) := .of_eq rfl
  unfold ioCompleted landed at h
  simp only at h
  split_ifs at h
  · cases h
    exact hln
  · exact hnx.trans (rwCompleted_keeps hno h)
  · obtain rfl : _ = td' := congrArg Prod.snd (ok.inj h)
    exact (hnx.trans (ioULogError_keeps _ u)).trans (settleError_keeps hno _ _ _)
  · obtain rfl := congrArg Prod.snd (ok.inj h)
    exact hnx.trans (settleError_keeps hno _ _ _)

lemma completeIoU_keeps
    (h : td.completeIoU k hash o u icdError close draw = .ok (icdError', td')) :
    KeepsError td td' := by
  obtain ⟨⟨e, td1⟩, hdn, h⟩ := of_bind h
  have hkp := ioCompleted_keeps hno hdn
  simp only at h
  split_ifs at h
  · cases h
    exact hkp
  · obtain ⟨td2, hput, h⟩ := of_bind h
    cases h
    exact hkp.trans (putIoU_keeps hput)

lemma iosCompleted_keeps {evs : List Event} :
    ∀ {td td' : Td} {icdError icdError' : Nat},
      td.iosCompleted k hash o icdError evs = .ok (icdError', td') → KeepsError td td' := by
  induction evs with
  | nil =>
    intro td td' e e' h
    cases h
    exact .of_eq rfl
  | cons ev rest ih =>
    intro td td' e e' h
    obtain ⟨⟨e1, td1⟩, hdn, h⟩ := of_bind h
    have hset : KeepsError td
      (td.setIoU ev.ioU ((td.ioUs ev.ioU).transferred ev.transfer)) := .of_eq rfl
    exact (hset.trans (completeIoU_keeps hno hdn)).trans (ih h)

lemma ioUQueuedComplete_keeps {minEvents : Nat}
    (h : td.ioUQueuedComplete k hash o minEvents reap = .ok (ret, td')) : KeepsError td td' := by
  have hevn : ∀ r td1, td.tdIoGetevents o minEvents reap = (r, td1) → KeepsError td td1 := by
    intro r td1 hget
    unfold tdIoGetevents at hget
    cases reap with
    | fails err pos =>
      simp only at hget
      split_ifs at hget
      · cases hget
        exact .of_eq rfl
      · cases hget
        exact tdVerror_keeps _ _
    | events evs =>
      cases hget
      exact .of_eq rfl
  unfold ioUQueuedComplete at h
  cases hget : td.tdIoGetevents o minEvents reap with
  | mk r td1 =>
    have hkp := hevn r td1 hget
    rw [hget] at h
    cases r with
    | error err =>
      cases h
      exact hkp.trans (tdVerror_keeps _ _)
    | ok evs =>
      simp only at h
      split_ifs at h
      · cases h
        exact hkp
      · obtain ⟨⟨e, td2⟩, hdn, h⟩ := of_bind h
        have hkp2 := hkp.trans (iosCompleted_keeps hno hdn)
        split_ifs at h
        · cases h
          exact hkp2.trans (tdVerror_keeps _ _)
        · cases h
          exact hkp2

end

lemma cancelLoop_keeps {fails : Nat → Bool} {close : Nat → Int} {us : List Nat} :
    ∀ {td td' : Td}, td.cancelLoop fails close us = .ok td' → KeepsError td td' := by
  induction us with
  | nil =>
    intro td td' h
    cases h
    exact .of_eq rfl
  | cons u rest ih =>
    intro td td' h
    unfold cancelLoop at h
    split_ifs at h
    · exact ih h
    · obtain ⟨td1, hput, h⟩ := of_bind h
      exact (putIoU_keeps hput).trans (ih h)

end Td

variable (o) in
def Undisturbed (td : Td) : Prop :=
  NoContinue o ∨ td.ioUBusylist = [] ∧ td.curDepth = 0 ∧
    (o.verifyAsync = true → o.continueOnError.verify = false)

def Exhausted (td : Td) : Prop :=
  td.ioURequeues = [] ∧ td.hist.ioHistTree = [] ∧ td.hist.ioHistList = []

variable (o) in
structure Quiet (td : Td) : Prop where
  error : td.error ≠ 0
  undisturbed : Undisturbed o td
  done : td.terminate = true ∨ Exhausted td

lemma Rely.keepsError (h : Rely o td td') (hu : Undisturbed o td) : KeepsError td td' := by
  cases hasy : o.verifyAsync with
  | false =>
    rw [h.alone hasy]
    exact .of_eq rfl
  | true =>
    rcases hu with hno | ⟨-, -, hvrf⟩
    · exact h.error (hno .verify)
    · exact h.error (hvrf hasy)

lemma Exhausted.rely (hex : Exhausted td) (h : Rely o td td') : Exhausted td' := by
  rw [Exhausted, h.requeues, h.hist]
  exact hex

lemma Quiet.rely (hq : Quiet o td) (h : Rely o td td') : Quiet o td' := by
  refine ⟨?_, ?_, ?_⟩
  · rw [h.keepsError hq.undisturbed hq.error]
    exact hq.error
  · rw [Undisturbed, h.busy, h.curDepth]
    exact hq.undisturbed
  · exact hq.done.imp h.terminate fun hex => hex.rely h

/-- The unit `u` was handed out from the free list. -/
structure Took (td : Td) (u : Nat) (td' : Td) : Prop where
  file : (td'.ioUs u).file = none
  inCurDepth : (td'.ioUs u).inCurDepth = true
  error : td'.error = td.error
  hist : td'.hist = td.hist
  busy : td'.ioUBusylist = u :: td.ioUBusylist.erase u
  curDepth : td'.curDepth = (td.curDepth + 1) % 2 ^ 32

namespace Td

lemma getIoU_cases (hemp : td.ioURequeues = []) (h : td.getIoU = .ok (res, td')) :
    res = none ∧ td' = td ∨ ∃ u, res = some u ∧ Took td u td' := by
  rw [getIoU, hemp] at h
  cases hfr : td.ioUFreelist with
  | nil =>
    rw [hfr] at h
    cases h
    exact .inl ⟨rfl, rfl⟩
  | cons u rest =>
    rw [hfr] at h
    obtain ⟨td1, htk, h⟩ := of_bind h
    cases h
    unfold takeIoU at htk
    split_ifs at htk
    cases htk
    refine .inr ⟨u, rfl, ?_, ?_, rfl, rfl, rfl, rfl⟩
    · simp [handOut, blankIoU, unlink, setIoU]
    · simp [handOut, unlink, setIoU]

variable {ws : List (Others o)}

lemma getIoUWait_cases (hq : Quiet o td) (hex : Exhausted td)
    (h : td.getIoUWait o ws = .ok (res, td')) : res = none ∧ Quiet o td' ∨
      ∃ u td0, res = some u ∧ Quiet o td0 ∧ Exhausted td0 ∧ Took td0 u td' := by
  obtain ⟨td0, ⟨hq0, hex0⟩, hget⟩ := getIoUWait_rely (I := fun t => Quiet o t ∧ Exhausted t)
    (fun hI hrl => ⟨hI.1.rely hrl, hI.2.rely hrl⟩) ⟨hq, hex⟩ h
  rcases getIoU_cases hex0.1 hget with ⟨rfl, rfl⟩ | ⟨u, rfl, htk⟩
  · exact .inl ⟨rfl, hq0⟩
  · exact .inr ⟨u, td0, rfl, hq0, hex0, htk⟩

lemma linkFree_of_took (h : Took td0 u td) (hq : Quiet o td0) :
    (td.linkFree u).error ≠ 0 ∧ Undisturbed o (td.linkFree u) := by
  refine ⟨by rw [linkFree_error, h.error]; exact hq.error, ?_⟩
  rcases hq.undisturbed with hno | ⟨hbs, hdp, hvrf⟩
  · exact .inl hno
  · refine .inr ⟨?_, ?_, hvrf⟩
    · simp [linkFree, unlink, setIoU, h.busy, hbs]
    · simp [linkFree, depthWithout, h.inCurDepth, h.curDepth, hdp, dec32]

variable {r : VerifyRound o}

lemma verifyFetched_of_took
    (htk : Took td0 u td) (hq : Quiet o td0) (hex : Exhausted td0)
    (h : td.verifyFetched k hash o u r = .ok (again, td', issue)) :
    again = false ∧ issue = none ∧ td'.error ≠ 0 ∧ Undisturbed o td' := by
  have hft : td.fetchVerify o u r = .ok (true, td) := by
    have htak : td.hist.takeNext o = .ok (none, td.hist) := by
      rw [History.takeNext, htk.hist, hex.2.1, hex.2.2]
    have hnx : td.hist.getNextVerify o (td.ioUs u) r.opened = .ok (true, td.ioUs u, td.hist) := by
      rw [History.getNextVerify, htk.file, if_neg (by simp), htak]
      rfl
    rw [fetchVerify, hnx]
    simp [bind, Except.bind, setIoU, htk.file]
    rfl
  obtain ⟨⟨failed, td1⟩, hgot, h⟩ := of_bind h
  rw [hft] at hgot
  cases hgot
  simp only [Bool.true_or, if_true] at h
  obtain ⟨td1, hput, h⟩ := of_bind h
  obtain ⟨rfl, rfl, rfl⟩ : false = again ∧ td1 = td' ∧ none = issue := by
    simpa using Except.ok.inj h
  rw [putIoU, htk.file] at hput
  cases hput
  exact ⟨rfl, rfl, linkFree_of_took htk hq⟩

lemma verifyRound_of_quiet (hq : Quiet o td)
    (h : td.verifyRound k hash o r = .ok (again, td', issue)) :
    issue = none ∧ td'.error ≠ 0 ∧ Undisturbed o td' ∧ (again = true → Quiet o td') := by
  have hq1 := hq.rely (r.others.2 td)
  unfold verifyRound at h
  simp only at h
  split_ifs at h with htr hexp hfl
  · obtain ⟨rfl, rfl, rfl⟩ : false = again ∧ r.others.1 td = td' ∧ none = issue := by
      simpa using ok.inj h
    exact ⟨rfl, hq1.error, hq1.undisturbed, by simp⟩
  · obtain ⟨rfl, rfl, rfl⟩ :
        false = again ∧ { r.others.1 td with terminate := true } = td' ∧ none = issue := by
      simpa using ok.inj h
    exact ⟨rfl, hq1.error, hq1.undisturbed, by simp⟩
  · obtain ⟨rfl, rfl, rfl⟩ : true = again ∧ r.others.1 td = td' ∧ none = issue := by
      simpa using ok.inj h
    exact ⟨rfl, hq1.error, hq1.undisturbed, fun _ => hq1⟩
  · have hex := hq1.done.resolve_left htr
    obtain ⟨⟨res, td1⟩, hget, h⟩ := of_bind h
    rcases getIoUWait_cases hq1 hex hget with ⟨rfl, hq2⟩ | ⟨u, td0, rfl, hq0, hex0, htk⟩
    · obtain ⟨rfl, rfl, rfl⟩ : false = again ∧ td1 = td' ∧ none = issue := by
        simpa using ok.inj h
      exact ⟨rfl, hq2.error, hq2.undisturbed, by simp⟩
    · obtain ⟨rfl, rfl, herr, hund⟩ := verifyFetched_of_took htk hq0 hex0 h
      exact ⟨rfl, herr, hund, by simp⟩

lemma verifyRounds_of_quiet {rounds : List (VerifyRound o)} :
    ∀ {td td' : Td} {issues : List Issue}, Quiet o td →
      td.verifyRounds k hash o rounds = .ok (td', issues) →
      issues = [] ∧ td'.error ≠ 0 ∧ Undisturbed o td' := by
  induction rounds with
  | nil =>
    intro td td' issues hq h
    simp [verifyRounds] at h
  | cons r rest ih =>
    intro td td' issues hq h
    obtain ⟨⟨again, td1, issue⟩, hrn, h⟩ := of_bind h
    obtain ⟨rfl, herr, hund, hag⟩ := verifyRound_of_quiet hq hrn
    cases again with
    | false =>
      cases h
      exact ⟨rfl, herr, hund⟩
    | true =>
      obtain ⟨⟨td2, issues2⟩, hrs, h⟩ := of_bind h
      cases h
      exact ih (hag rfl) hrs

lemma ioUQueuedComplete_of_idle (hdp : td.curDepth = 0)
    (h : td.ioUQueuedComplete k hash o 0 reap = .ok (ret, td')) :
    td'.error = td.error ∧ td'.ioUBusylist = td.ioUBusylist ∧ td'.curDepth = 0 := by
  unfold ioUQueuedComplete tdIoGetevents at h
  cases reap with
  | fails err pos =>
    simp only [hdp, Nat.min_zero, Nat.max_self, if_true, List.length_nil] at h
    cases h
    exact ⟨rfl, rfl, hdp⟩
  | events evs =>
    simp only [hdp, Nat.min_zero, Nat.max_self, if_true, List.length_nil] at h
    cases h
    exact ⟨rfl, rfl, rfl⟩

lemma reapAll_keeps (hno : NoContinue o) (h : td.reapAll k hash o reap = .ok td')
    : KeepsError td td' := by
  unfold reapAll at h
  split_ifs at h
  · obtain ⟨⟨ret, td1⟩, hrp, h⟩ := of_bind h
    cases h
    exact ioUQueuedComplete_keeps hno hrp
  · cases h
    exact .of_eq rfl

lemma cancelBusy_keeps (h : td.cancelBusy c = .ok td') : KeepsError td td' := by
  unfold cancelBusy at h
  cases hcnc : c.cancel with
  | none =>
    rw [hcnc] at h
    cases h
    exact .of_eq rfl
  | some fails =>
    rw [hcnc] at h
    exact cancelLoop_keeps h

lemma verifyFinish_of_undisturbed (herr : td.error ≠ 0) (hund : Undisturbed o td)
    (h : td.verifyFinish k hash o reap c = .ok td') : td'.error ≠ 0 := by
  rw [verifyFinish, cleanupPendingAio, if_pos herr] at h
  obtain ⟨⟨ret, td1⟩, hfr, h⟩ := of_bind h
  rcases hund with hno | ⟨hbs, hdp, -⟩
  · have hkp := ioUQueuedComplete_keeps hno hfr
    simp only at h
    split_ifs at h
    · cases h
      rw [hkp herr]
      exact herr
    · obtain ⟨td2, hcnc, h⟩ := of_bind h
      rw [(hkp.trans (cancelBusy_keeps hcnc)).trans (reapAll_keeps hno h) herr]
      exact herr
  · obtain ⟨her1, hbs1, hdp1⟩ := ioUQueuedComplete_of_idle hdp hfr
    simp only at h
    split_ifs at h
    · cases h
      rwa [her1]
    · obtain ⟨td2, hcnc, h⟩ := of_bind h
      obtain rfl : td1 = td2 := by
        rw [cancelBusy, hbs1, hbs] at hcnc
        cases hc : c.cancel <;> rw [hc] at hcnc <;> exact ok.inj hcnc
      rw [reapAll, if_neg (by simp [hdp1])] at h
      cases h
      rwa [her1]

end Td

variable (o) in
def Td.Issue.Erroneous (x : Td.Issue) : Prop :=
  x.hook.ret = fioQCompleted ∧ x.hook.transfer.error ≠ 0 ∧
    o.continueOnError.includes (tdErrorType (x.td.ioUs x.ioU).ddir x.hook.transfer.error) = false

variable (o) in
/-- The job has an error already or the engine reports one itself, nothing is left to read, and
    nothing else is in flight that could clear the error. -/
structure Td.Issue.Last (x : Td.Issue) : Prop where
  error : x.td.error ≠ 0 ∨ x.hook.verror ≠ 0
  undisturbed : NoContinue o ∨ x.td.ioUBusylist = [x.ioU] ∧ x.td.curDepth = 1 ∧
    (o.verifyAsync = true → o.continueOnError.verify = false)
  done : x.td.terminate = true ∨ Exhausted x.td

namespace Td

lemma getNextVerify_inCurDepth {h h' : History} {ioU ioU' : IoU} {outcome : History.OpenOutcome}
    (hr : h.getNextVerify o ioU outcome = .ok (failed, ioU', h')) :
    ioU'.inCurDepth = ioU.inCurDepth :=
  congrArg (fun links => links.2.2.1) (getNextVerify_links hr)

lemma getIoU_inCurDepth (h : td.getIoU = .ok (some u, td')) : (td'.ioUs u).inCurDepth = true := by
  have htk : ∀ {td1 : Td} {v : Nat},
      (do return (some v, ← td1.takeIoU v) : Except Fault (Option Nat × Td)) = .ok (some u, td') →
      (td'.ioUs u).inCurDepth = true := by
    intro td1 v hr
    obtain ⟨td2, htk, hr⟩ := of_bind hr
    obtain ⟨rfl, rfl⟩ : v = u ∧ td2 = td' := by simpa using ok.inj hr
    unfold takeIoU at htk
    split_ifs at htk
    cases htk
    simp [handOut, unlink, setIoU]
  unfold getIoU at h
  cases hrqs : td.ioURequeues with
  | cons v rest =>
    rw [hrqs] at h
    exact htk h
  | nil =>
    rw [hrqs] at h
    cases hfr : td.ioUFreelist with
    | cons v rest =>
      rw [hfr] at h
      exact htk h
    | nil =>
      rw [hfr] at h
      simp at h

lemma getIoUWait_inCurDepth
    (h : td.getIoUWait o ws = .ok (some u, td')) : (td'.ioUs u).inCurDepth = true := by
  obtain ⟨td0, -, hget⟩ := getIoUWait_rely (I := fun _ => True) (fun _ _ => trivial) trivial h
  exact getIoU_inCurDepth hget

lemma fetchVerify_inCurDepth (h : td.fetchVerify o u r = .ok (failed, td')) :
    (td'.ioUs u).inCurDepth = (td.ioUs u).inCurDepth := by
  obtain ⟨⟨failed1, ioU, hist⟩, hnx, h⟩ := of_bind h
  obtain rfl := congrArg Prod.snd (ok.inj h)
  rw [← getNextVerify_inCurDepth hnx]
  simp only [tdVerror]
  split_ifs <;> simp [setIoU]

lemma verifyRound_issue {x : Issue} (h : td.verifyRound k hash o r = .ok (again, td', some x)) :
    x.hook = r.hook ∧ (x.td.ioUs x.ioU).inCurDepth = true ∧
      x.td.queueRead k hash o x.ioU r = .ok (again, td') := by
  unfold verifyRound at h
  simp only at h
  split_ifs at h with htr hexp hfl
  · simp at h
  · simp at h
  · simp at h
  obtain ⟨⟨res, td1⟩, hget, h⟩ := of_bind h
  cases res with
  | none => simp [pure, Except.pure] at h
  | some u =>
    obtain ⟨⟨failed, td2⟩, hft, h⟩ := of_bind h
    have hdp : (td2.ioUs u).inCurDepth = true := by
      rw [fetchVerify_inCurDepth hft]
      exact getIoUWait_inCurDepth hget
    simp only at h
    split_ifs at h
    · obtain ⟨td3, -, h⟩ := of_bind h
      simp [pure, Except.pure] at h
    · obtain ⟨⟨again1, td3⟩, hqu, h⟩ := of_bind h
      obtain ⟨rfl, rfl, rfl⟩ : again1 = again ∧ td3 = td' ∧
          (⟨td2.setVerifyHandler o u, u, r.hook⟩ : Issue) = x := by
        simpa using Except.ok.inj h
      exact ⟨rfl, by simpa [setVerifyHandler, setIoU] using hdp, hqu⟩

lemma callQueue_error {hook : QueueHook} (h : td.error ≠ 0 ∨ hook.verror ≠ 0)
    : (td.callQueue u hook).error ≠ 0 := by
  unfold callQueue
  by_cases hv : hook.verror = 0
  · simpa [hv, setIoU] using h
  · simp only [hv, ne_eq, not_false_eq_true, if_true]
    exact tdVerror_error_ne_zero _ hv

structure PutBack (td : Td) (u : Nat) (td' : Td) : Prop where
  requeues : td'.ioURequeues = td.ioURequeues.erase u
  busy : td'.ioUBusylist = td.ioUBusylist.erase u
  curDepth : td'.curDepth = td.depthWithout u
  terminate : td'.terminate = td.terminate
  tree : td'.hist.ioHistTree = td.hist.ioHistTree
  list : td'.hist.ioHistList = td.hist.ioHistList

lemma linkFree_putBack (td : Td) (u : Nat) : PutBack td u (td.linkFree u) :=
  ⟨rfl, rfl, rfl, rfl, rfl, rfl⟩

lemma putIoU_putBack (h : td.putIoU u close = .ok td') : PutBack td u td' := by
  rcases putIoU_split h with ⟨-, rfl⟩ | ⟨f, td1, -, -, hput, rfl⟩
  · exact linkFree_putBack td u
  · -- closing the file changes nothing the record looks at
    obtain ⟨ret, hist, error, hfl, rfl⟩ := putFileLog_cases hput
    obtain ⟨-, htr, hls⟩ := History.putFile_pieces hfl
    have hbc := linkFree_putBack { td with hist := hist, error := error } u
    exact ⟨hbc.requeues, hbc.busy, hbc.curDepth, hbc.terminate, hbc.tree.trans htr,
      hbc.list.trans hls⟩

lemma queueRead_erroneous
    (hret : r.hook.ret = fioQCompleted) (herr : r.hook.transfer.error ≠ 0)
    (h : td.queueRead k hash o u r = .ok (again, td')) :
    again = true ∧ (td.callQueue u r.hook).clearIoU u r.close = .ok td' := by
  obtain ⟨td1, hqu, h⟩ := of_bind h
  obtain rfl := tdIoQueue_completed hret hqu
  have hun : ((td.callQueue u r.hook).ioUs u).error ≠ 0 := by
    rw [callQueue_eq]
    simpa [setIoU, IoU.transferred] using herr
  simp only [verifySwitch, verifyCompleted, queueCompleted, if_pos hret, if_pos hun] at h
  obtain ⟨⟨exit, td2⟩, hexi, h⟩ := of_bind h
  obtain ⟨⟨how, td3⟩, hdn, hexi⟩ := of_bind hexi
  obtain ⟨td4, hcl, hdn⟩ := of_bind hdn
  cases hdn
  cases hexi
  cases h
  exact ⟨rfl, hcl⟩

end Td

lemma Td.Issue.Last.quiet {x : Td.Issue} (hla : x.Last o) (hdp : (x.td.ioUs x.ioU).inCurDepth)
    (h : (x.td.callQueue x.ioU x.hook).clearIoU x.ioU close = .ok td') : Quiet o td' := by
  have herr : (x.td.callQueue x.ioU x.hook).error ≠ 0 := Td.callQueue_error hla.error
  have hbc := Td.putIoU_putBack h
  rw [Td.callQueue_eq] at hbc
  refine ⟨?_, ?_, ?_⟩
  · rw [Td.clearIoU_keeps h herr]
    exact herr
  · rcases hla.undisturbed with hno | ⟨hon, hone, hvrf⟩
    · exact .inl hno
    · refine .inr ⟨?_, ?_, hvrf⟩
      · rw [hbc.busy]
        simp [Td.setIoU, hon]
      · rw [hbc.curDepth]
        simp [Td.depthWithout, Td.setIoU, IoU.transferred, hdp, hone, dec32]
  · rcases hla.done with hdn | ⟨hrqs, htr, hls⟩
    · exact .inl (hbc.terminate.trans hdn)
    · refine .inr ⟨?_, hbc.tree.trans htr, hbc.list.trans hls⟩
      rw [hbc.requeues]
      simp [Td.setIoU, hrqs]

lemma Td.verifyRounds_stops {rounds : List (Td.VerifyRound o)} :
    ∀ {td td' : Td} {issues : List Td.Issue}, td.verifyRounds k hash o rounds = .ok (td', issues) →
      (∀ x ∈ issues, x.Erroneous o → x.Last o) →
      ∀ before x after, issues = before ++ x :: after → x.Erroneous o →
        after = [] ∧ td'.error ≠ 0 ∧ Undisturbed o td' := by
  induction rounds with
  | nil =>
    intro td td' issues h
    simp [verifyRounds] at h
  | cons r rest ih =>
    intro td td' issues h hla before x after hx herr
    obtain ⟨⟨again, td1, issue⟩, hrn, h⟩ := of_bind h
    -- a read issued by this very round that failed makes the job quiet
    have hqt : ∀ y, issue = some y → y.Erroneous o → y.Last o → again = true ∧ Quiet o td1 := by
      rintro y rfl hy hyl
      obtain ⟨hhk, hdp, hqu⟩ := verifyRound_issue hrn
      obtain ⟨hag, hcl⟩ := queueRead_erroneous (hhk ▸ hy.1) (hhk ▸ hy.2.1) hqu
      exact ⟨hag, hyl.quiet hdp (hhk ▸ hcl)⟩
    cases again with
    | false =>
      cases h
      cases issue with
      | none => simp at hx
      | some y =>
        have hmem : x = y := by
          have : x ∈ (some y).toList := by rw [hx]; simp
          simpa using this
        subst hmem
        exact absurd (hqt x rfl herr (hla x (by simp) herr)).1 (by simp)
    | true =>
      obtain ⟨⟨td2, issues2⟩, hrs, h⟩ := of_bind h
      cases h
      have hla2 : ∀ x ∈ issues2, x.Erroneous o → x.Last o := fun x hx =>
        hla x (List.mem_append_right _ hx)
      cases issue with
      | none => exact ih hrs hla2 before x after hx herr
      | some y =>
        cases before with
        | cons z before => exact ih hrs hla2 before x after (List.cons.inj hx).2 herr
        | nil =>
          obtain ⟨rfl, rfl⟩ := List.cons.inj hx
          obtain ⟨-, hq⟩ := hqt y rfl herr (hla y (by simp) herr)
          exact verifyRounds_of_quiet hq hrs

/-- **When a failed read ends the verify phase.** If each read that fails with an error the job does
    not go on after is a last one (`Td.Issue.Last`), no read is issued behind such a read, and the
    job ends with an error. -/
theorem doVerify_stops {td td' : Td} {e : Td.VerifyPhase o} {issues : List Td.Issue}
    (hrun : td.doVerify k hash o e = .ok (td', issues))
    (hlast : ∀ x ∈ issues, x.Erroneous o → x.Last o) :
    ∀ before x after, issues = before ++ x :: after → x.Erroneous o → after = [] ∧ td'.error ≠ 0 := by
  intro before x after hx herr
  obtain ⟨td1, -, hrun⟩ := of_bind hrun
  split_ifs at hrun
  · cases hrun
    simp at hx
  · obtain ⟨⟨td2, issues2⟩, hlp, hrun⟩ := of_bind hrun
    obtain ⟨td3, hfns, hrun⟩ := of_bind hrun
    cases hrun
    obtain ⟨hps, herror, hund⟩ := Td.verifyRounds_stops hlp hlast before x after hx herr
    exact ⟨hps, Td.verifyFinish_of_undisturbed herror hund hfns⟩

def nullOptions : ThreadOptions := { defaultOptions with verify := .verifyNull }

def loggedBlock (i : Nat) : IoPiece := { initIpo with block := 4096 * i, nrBlk := 4096, onList := true }

/-- A job with one free unit, file 0 open and the first `n` blocks logged. -/
def loggedJob (n : Nat) : Td := {
  ioUFreelist := [0]
  hist := {
    heap := fun p => if p < n then some (loggedBlock p) else none
    ioHistList := List.range n
    ioHistLen := n
    files := fun _ => { realFileSize := 1048576, isOpen := true, fdOpen := true, references := 1 } } }

def syncRound (error : Nat) (verror : Int) : Td.VerifyRound nullOptions where
  others := ⟨id, fun _ => ⟨rfl, rfl, rfl, rfl, rfl, id, fun _ _ => rfl, fun _ => rfl⟩⟩
  expired := false
  flow := false
  waits := []
  opened := .succeeds
  openError := 0
  prepFails := false
  hook := ⟨fioQCompleted, ⟨error, 0, fun _ => 0⟩, verror, 0⟩
  commit := 0
  close := 0
  draw := 0
  reaps := []

def syncPhase (rounds : List (Td.VerifyRound nullOptions)) : Td.VerifyPhase nullOptions :=
  ⟨[], rounds, .events [], ⟨.events [], none, fun _ => 0, .events []⟩⟩

lemma nullOptions_noContinue : NoContinue nullOptions := by
  intro t
  cases t <;> rfl

/-- The first of two reads fails with `EIO` and the engine does not report it: the second one is issued
    and the phase ends without an error. -/
theorem doVerify_drops_read_error :
    ∃ td' x y, (loggedJob 2).doVerify sumChecksums (fun _ => 0) nullOptions
        (syncPhase [syncRound eio 0, syncRound 0 0, syncRound 0 0]) = .ok (td', [x, y]) ∧
      x.Erroneous nullOptions ∧ td'.error = 0 := by
  obtain ⟨td', issues, hr, hlen, herr, hfr⟩ :
      ∃ td' issues, (loggedJob 2).doVerify sumChecksums (fun _ => 0) nullOptions
          (syncPhase [syncRound eio 0, syncRound 0 0, syncRound 0 0]) = .ok (td', issues) ∧
        issues.length = 2 ∧ td'.error = 0 ∧
        ∀ x ∈ issues.head?, x.hook.ret = fioQCompleted ∧ x.hook.transfer.error ≠ 0 := by decide +kernel
  obtain ⟨x, y, rfl⟩ := List.length_eq_two.1 hlen
  obtain ⟨hret, hfl⟩ := hfr x rfl
  exact ⟨td', x, y, hr, ⟨hret, hfl, nullOptions_noContinue _⟩, herr⟩

theorem doVerify_stops_single_read :
    ∃ td' x, (loggedJob 1).doVerify sumChecksums (fun _ => 0) nullOptions
        (syncPhase [syncRound eio eio, syncRound 0 0]) = .ok (td', [x]) ∧
      x.Erroneous nullOptions ∧ td'.error ≠ 0 := by
  obtain ⟨td', issues, hr, hlen, hfr⟩ :
      ∃ td' issues, (loggedJob 1).doVerify sumChecksums (fun _ => 0) nullOptions
          (syncPhase [syncRound eio eio, syncRound 0 0]) = .ok (td', issues) ∧ issues.length = 1 ∧
        ∀ x ∈ issues.head?, (x.hook.ret = fioQCompleted ∧ x.hook.transfer.error ≠ 0) ∧
          x.hook.verror ≠ 0 ∧ x.td.ioURequeues = [] ∧ x.td.hist.ioHistTree = [] ∧
          x.td.hist.ioHistList = [] := by decide +kernel
  obtain ⟨x, rfl⟩ := List.length_eq_one_iff.1 hlen
  obtain ⟨⟨hret, hfl⟩, hver, hexh⟩ := hfr x rfl
  have herr : x.Erroneous nullOptions := ⟨hret, hfl, nullOptions_noContinue _⟩
  have hla : ∀ y ∈ [x], y.Erroneous nullOptions → y.Last nullOptions := by
    intro y hy _
    obtain rfl := List.mem_singleton.1 hy
    exact ⟨.inr hver, .inl nullOptions_noContinue, .inr hexh⟩
  exact ⟨td', x, hr, herr, (doVerify_stops hr hla [] x [] rfl herr).2⟩

end FioSsd
