import FioSsd.Backend.Rate
import Mathlib.Data.BitVec

/-! # Status estimation

`thread_eta` and `calc_thread_status` (`eta.c`), where an integer division by zero gives `none`. -/

namespace FioSsd

open BitVec

inductive RunState
  | notCreated | created | initialized | ramp | running | preReading | verifying | fsyncing
  | exited | reaped
  deriving DecidableEq, Repr

/-- What the estimate reads of a job. -/
structure EtaJob where
  runstate : RunState
  (fillDevice checked tdRw inRampTime : Bool)
  (totalIoSize size fillDeviceSize zoneSize zoneSkip : BitVec 64)
  (timeout startDelay rampTime sinceEpoch : BitVec 64)
  rate : Fin 2 → BitVec 32
  bwAvgTime : Nat
  (ioBytes ioBlocks : Fin 2 → BitVec 64)
  guess : BitVec 64 → BitVec 32

def divOr (x y : BitVec 64) : Option (BitVec 64) := if y = 0 then none else some (x / y)

namespace EtaJob

variable (td : EtaJob)

def noSize : Bool :=
  td.fillDevice && td.size == -1 && (td.fillDeviceSize == 0 || td.fillDeviceSize == -1)

def bytesTotal : Option (BitVec 64) :=
  let total := if td.fillDevice ∧ td.size = -1 then td.fillDeviceSize else td.totalIoSize
  let total := if td.checked then if td.tdRw then total * 3 / 2 else total <<< 1 else total
  if td.zoneSize ≠ 0 ∧ td.zoneSkip ≠ 0 then divOr total (td.zoneSkip / td.zoneSize) else some total

def timeEta : BitVec 32 :=
  if td.timeout = 0 then 0
  else
    let eta := (td.timeout + td.startDelay + td.rampTime).setWidth 32
    if td.inRampTime ∧ td.sinceEpoch ≤ eta.signExtend 64 then eta - td.sinceEpoch.setWidth 32 else eta

def rateEta (total : BitVec 64) : Option (BitVec 32) :=
  if td.rate 0 ≠ 0 ∨ td.rate 1 ≠ 0 then
    (divOr (total / 1024) ((td.rate 0 + td.rate 1).setWidth 64)).map fun eta =>
      eta.setWidth 32 + td.startDelay.setWidth 32
  else some 0

/-- The job waits to run: only the options say how long it will take. -/
def Waits : Prop := td.runstate ∈ [.notCreated, .created, .initialized, .ramp, .preReading]
deriving Decidable

def threadEta : Option (BitVec 32) :=
  if td.noSize then some 0
  else td.bytesTotal.bind fun total =>
    if td.runstate = .running ∨ td.runstate = .verifying then some (td.guess total)
    else if td.Waits then (td.rateEta total).map fun rEta =>
      if rEta ≠ 0 ∧ td.timeEta ≠ 0 then if rEta.slt td.timeEta then rEta else td.timeEta
      else if rEta ≠ 0 then rEta else td.timeEta
    else some 0

/-- The divisors of the job are not zero. -/
def Divides : Prop :=
  td.noSize = true ∨ (td.zoneSize ≠ 0 → td.zoneSkip ≠ 0 → td.zoneSize ≤ td.zoneSkip) ∧
    (td.Waits → td.rate 0 ≠ 0 ∨ td.rate 1 ≠ 0 → td.rate 0 + td.rate 1 ≠ 0)

end EtaJob

/-- The static variables of `calc_thread_status`; times are in microseconds. -/
structure EtaStatics where
  (rateIoBytes dispIoBytes dispIoIops : Fin 2 → BitVec 64)
  (ratePrevTime dispPrevTime : Nat)

/-- What a call meets: `quiet` says that the output options ask for no status, and `begun` and `now` are
    the readings of the clock. -/
structure EtaCall where
  (force quiet writeBwLog inRampTime exitallOnTerminate : Bool)
  (genesis begun now : Nat)

/-- What a call that returns 1 shows. -/
structure EtaShown where
  etaSec : BitVec 64
  (rate iops : Fin 2 → BitVec 32)

variable (st : EtaStatics)

def EtaStatics.start (genesis : Nat) : EtaStatics := { st with
  ratePrevTime := if st.rateIoBytes 0 = 0 ∧ st.rateIoBytes 1 = 0 then genesis else st.ratePrevTime
  dispPrevTime := if st.dispIoBytes 0 = 0 ∧ st.dispIoBytes 1 = 0 then genesis else st.dispPrevTime }

/-- What `calc_rate` and `calc_iops` share. -/
def perTime (k : BitVec 64) (mtime : Nat) (io prev : Fin 2 → BitVec 64) :
    Option (Fin 2 → BitVec 32) :=
  if mtime = 0 then none else some fun d => .ofNat 32 (((io d - prev d) * k).toNat / mtime)

def calcRate := perTime 1

def calcIops := perTime 1000

variable (call : EtaCall)

def EtaCall.elapsedSec : Nat := (mtimeSince call.genesis call.begun + 999) / 1000

/-- The sum over the jobs behind their ramp time. -/
def sumIo (jobs : List EtaJob) (io : EtaJob → Fin 2 → BitVec 64) (d : Fin 2) : BitVec 64 :=
  ((jobs.filter (·.runstate ∉ [.notCreated, .created, .initialized, .ramp])).map (io · d)).sum

def EtaCall.etaSecs (jobs : List EtaJob) : Option (List (BitVec 64)) :=
  jobs.mapM fun td => if 3 ≤ call.elapsedSec then td.threadEta.map (·.signExtend 64) else some 0x7fffffff

/-- The sample for the bandwidth log. -/
def EtaCall.logRate (jobs : List EtaJob) : Option EtaStatics :=
  let rateTime := mtimeSince st.ratePrevTime call.now
  if call.writeBwLog ∧ (jobs.map (·.bwAvgTime)).foldl min (2 ^ 64 - 1) < rateTime ∧ ¬call.inRampTime then
    (calcRate rateTime (sumIo jobs (·.ioBytes)) st.rateIoBytes).map fun _ => { st with
      rateIoBytes := sumIo jobs (·.ioBytes), ratePrevTime := call.now }
  else some st

def calcThreadStatus (call : EtaCall) (jobs : List EtaJob) :
    Option (Option EtaShown × EtaStatics) :=
  if ¬call.force ∧ call.quiet then some (none, st)
  else (call.etaSecs jobs).bind fun etas => (call.logRate (st.start call.genesis) jobs).bind fun st =>
    let dispTime := mtimeSince st.dispPrevTime call.now
    if ¬call.force ∧ dispTime < 900 then some (none, st)
    else (calcRate dispTime (sumIo jobs (·.ioBytes)) st.dispIoBytes).bind fun rate =>
      (calcIops dispTime (sumIo jobs (·.ioBlocks)) st.dispIoIops).map fun iops =>
        let etaSec := if call.exitallOnTerminate then etas.foldl (fun m e => if e < m then e else m) 0x7fffffff
          else etas.foldl (fun m e => if m < e then e else m) 0
        (if ¬call.force ∧ jobs.all (·.runstate ∈ [.exited, .reaped]) then none
          else some ⟨etaSec, rate, iops⟩,
          { st with dispIoBytes := sumIo jobs (·.ioBytes), dispIoIops := sumIo jobs (·.ioBlocks)
                    dispPrevTime := call.now })

lemma isSome_divOr {x y : BitVec 64} : (divOr x y).isSome ↔ y ≠ 0 := by
  unfold divOr
  split_ifs with h
  · exact iff_of_false Bool.false_ne_true (not_not.2 h)
  · exact iff_of_true rfl h

lemma EtaJob.isSome_bytesTotal (td : EtaJob) : td.bytesTotal.isSome ↔
    (td.zoneSize ≠ 0 → td.zoneSkip ≠ 0 → td.zoneSize ≤ td.zoneSkip) := by
  unfold bytesTotal
  by_cases h : td.zoneSize ≠ 0 ∧ td.zoneSkip ≠ 0
  · have hpos := pos_of_ne_zero fun hz => h.1 (eq_of_toNat_eq hz)
    rw [if_pos h, isSome_divOr, Ne, ← toNat_inj, toNat_udiv, le_def]
    change ¬_ / _ = 0 ↔ _
    rw [Nat.div_eq_zero_iff]
    exact ⟨fun hdiv _ _ => by omega, fun hle => by have := hle h.1 h.2; omega⟩
  · rw [if_neg h]
    exact iff_of_true rfl fun hsz hsk => absurd ⟨hsz, hsk⟩ h

lemma EtaJob.isSome_rateEta (td : EtaJob) (total : BitVec 64) : (td.rateEta total).isSome ↔
    (td.rate 0 ≠ 0 ∨ td.rate 1 ≠ 0 → td.rate 0 + td.rate 1 ≠ 0) := by
  unfold rateEta
  have h0 : (td.rate 0 + td.rate 1).setWidth 64 = 0 ↔ td.rate 0 + td.rate 1 = 0 := by
    rw [← toNat_inj, ← toNat_inj, toNat_setWidth_of_le (by decide)]
    rfl
  split_ifs with h
  · rw [Option.isSome_map, isSome_divOr]
    exact ⟨fun hne _ => mt h0.2 hne, fun hne => mt h0.1 (hne h)⟩
  · exact iff_of_true rfl fun hany => absurd hany h

lemma EtaJob.isSome_threadEta (td : EtaJob) : td.threadEta.isSome ↔ td.Divides := by
  rw [threadEta, Divides, ← isSome_bytesTotal]
  by_cases hsz : td.noSize = true
  · simp [hsz]
  rw [if_neg hsz, or_iff_right hsz]
  cases td.bytesTotal with
  | none => simp
  | some total =>
    rw [Option.bind_some, ← td.isSome_rateEta total]
    by_cases hr : td.runstate = .running ∨ td.runstate = .verifying
    · have hwt : ¬td.Waits := by rcases hr with h | h <;> simp [Waits, h]
      simp [hr, hwt]
    · by_cases hwt : td.Waits <;> simp [hr, hwt]

lemma isSome_mapM {α β : Type} (f : α → Option β) (l : List α) :
    (l.mapM f).isSome ↔ ∀ x ∈ l, (f x).isSome := by
  induction l with
  | nil => simp
  | cons x l ih =>
    rw [List.mapM_cons, List.forall_mem_cons, ← ih]
    cases f x <;> cases l.mapM f <;> simp

lemma EtaCall.logRate_spec (jobs : List EtaJob) :
    ∃ st', call.logRate st jobs = some st' ∧ st'.dispPrevTime = st.dispPrevTime := by
  unfold logRate
  dsimp only
  split_ifs with h
  · rw [calcRate, perTime, if_neg (Nat.ne_zero_of_lt h.2.1)]
    exact ⟨_, rfl, rfl⟩
  · exact ⟨st, rfl, rfl⟩

/-- **When no division by zero happens**: once three seconds are over the options of every job give
    divisors that are not zero, and a forced call comes at least a millisecond behind the last status. -/
theorem calcThreadStatus_divides_iff (call : EtaCall) (jobs : List EtaJob) :
    (calcThreadStatus st call jobs).isSome ↔ (call.force = false ∧ call.quiet = true) ∨
      (3 ≤ call.elapsedSec → ∀ td ∈ jobs, td.Divides) ∧
      (call.force = true → mtimeSince (st.start call.genesis).dispPrevTime call.now ≠ 0) := by
  have het : (call.etaSecs jobs).isSome ↔ (3 ≤ call.elapsedSec → ∀ td ∈ jobs, td.Divides) := by
    rw [EtaCall.etaSecs, isSome_mapM]
    split_ifs with h <;> simp [h, EtaJob.isSome_threadEta]
  obtain ⟨st', hlog, htm⟩ := call.logRate_spec (st.start call.genesis) jobs
  rw [calcThreadStatus, ← het]
  by_cases hqt : ¬call.force = true ∧ call.quiet = true
  · simp_all
  rw [if_neg hqt, or_iff_right (by simpa using hqt)]
  cases call.etaSecs jobs with
  | none => simp
  | some etas =>
    rw [Option.bind_some, hlog, Option.bind_some]
    dsimp only
    rw [htm]
    by_cases hsn : ¬call.force = true ∧ mtimeSince (st.start call.genesis).dispPrevTime call.now < 900
    · simp [hsn]
    · rw [if_neg hsn]
      by_cases h0 : mtimeSince (st.start call.genesis).dispPrevTime call.now = 0
      · have hfr : call.force = true := by
          by_contra hnot
          exact hsn ⟨hnot, by omega⟩
        simp [calcRate, perTime, h0, hfr]
      · simp [calcRate, calcIops, perTime, h0]

/-- A job that has written 4 KiB. -/
def etaJob : EtaJob :=
  ⟨.running, false, false, false, false, 1048576, 1048576, 0, 0, 0, 0, 0, 0, 5, fun _ => 0, 500,
    fun _ => 4096, fun _ => 1, fun _ => 5⟩

def etaAsked (now : Nat) : EtaCall := ⟨true, false, false, false, false, 0, now, now⟩

/-- Two requests come within a millisecond, five seconds into the run. -/
theorem calcThreadStatus_divides_by_zero :
    (calcThreadStatus ⟨fun _ => 0, fun _ => 0, fun _ => 0, 0, 0⟩ (etaAsked 5000000) [etaJob]).isSome ∧
    ((calcThreadStatus ⟨fun _ => 0, fun _ => 0, fun _ => 0, 0, 0⟩ (etaAsked 5000000) [etaJob]).bind
      fun shown => calcThreadStatus shown.2 (etaAsked 5000400) [etaJob]).isNone := by
  decide +kernel

end FioSsd
