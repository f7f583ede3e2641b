import FioSsd.Types

/-! # File locks

`lockfile=exclusive` and `lockfile=readwrite` take a lock in `td_io_prep` and release it in
`td_io_queue` or `td_io_close_file`. The lock is shared, but every job notes in its own copy of the
file whether it is the owner, and for how many more requests. -/

namespace FioSsd

open Function Finset

inductive LockMode
  | exclusive | readwrite
  deriving DecidableEq

/-- The value a fresh lock has: `fio_mutex_init(1)` or `fio_mutex_rw_init`. -/
def LockMode.initValue : LockMode → Int
  | .exclusive => 1
  | .readwrite => 0

inductive Grip
  | shared | sole
  deriving DecidableEq

variable (mode : LockMode)

def LockMode.grip (ddir : Ddir) : Grip :=
  match mode with
  | .exclusive => .sole
  | .readwrite => if ddir = .read then .shared else .sole

/-- Where a job stands: between its calls, behind a successful `td_io_prep`, or in `unlock_file`
    before the release. -/
inductive LockPc
  | idle | prepared | releasing
  deriving DecidableEq

/-- A job's copy of the file (`own` says whether `lock_owner` is the job itself), where the job
    stands, and how it really holds the lock. -/
structure LockJob where
  own : Bool
  lockBatch : BitVec 32
  lockDdir : Ddir
  pc : LockPc
  holds : Option Grip
  deriving DecidableEq

structure LockSystem (n : Nat) where
  value : Int
  jobs : Fin n → LockJob
  stray : Bool

/-- `fio_mutex_down`, `fio_mutex_down_read` and `fio_mutex_down_write`: the new value, or `none`
    while the job has to wait. -/
def mutexDown (grip : Grip) (value : Int) : Option Int :=
  match mode, grip with
  | .exclusive, _ => if value = 0 then none else some (value - 1)
  | .readwrite, .shared => if value < 0 then none else some (value + 1)
  | .readwrite, .sole => if value ≠ 0 then none else some (value - 1)

def mutexUp (grip : Grip) (value : Int) : Int :=
  match mode, grip with
  | .exclusive, _ => value + 1
  | .readwrite, .shared => value - 1
  | .readwrite, .sole => value + 1

/-- `lock_file`, called from `td_io_prep`; `batch` is the job's `lockfile_batch`. -/
def lockFile (batch : BitVec 32) (ddir : Ddir) (value : Int) (j : LockJob) :
    Option (Int × LockJob) :=
  if j.own = true ∧ j.lockBatch ≠ 0 then
    some (value, { j with lockBatch := j.lockBatch - 1, pc := .prepared })
  else
    (mutexDown mode (mode.grip ddir) value).map fun value =>
      (value, { own := true, lockBatch := batch, lockDdir := ddir, pc := .prepared
                holds := some (mode.grip ddir) })

/-- `unlock_file` up to `fio_mutex_getval`: the owner is cleared if the value is that of a lock
    which nobody else holds. -/
def unlockFile (value : Int) (j : LockJob) : LockJob :=
  if j.lockBatch ≠ 0 then { j with pc := .idle }
  else
    let alone : Bool := match mode, mode.grip j.lockDdir with
      | .exclusive, _ => value = 0
      | .readwrite, .shared => value = 1
      | .readwrite, .sole => value = -1
    { j with own := j.own && !alone, pc := .releasing }

def unlockFileAll (value : Int) (j : LockJob) : LockJob :=
  if j.own = false then j else unlockFile mode value { j with lockBatch := 0 }

inductive LockAct
  | prep (ddir : Ddir)
  | queue
  | close
  | release
  deriving DecidableEq

namespace LockSystem

variable {n : Nat}
variable (mode : LockMode)

def step (batch : Fin n → BitVec 32) (s : LockSystem n) (i : Fin n) :
    LockAct → Option (LockSystem n)
  -- every `td_io_prep` is followed by its `td_io_queue`
  | .prep ddir =>
    if (s.jobs i).pc ≠ .idle then none
    else (lockFile mode (batch i) ddir s.value (s.jobs i)).map fun (value, j) =>
      { s with value := value, jobs := update s.jobs i j }
  -- a unit that was queued since it was prepared has `IO_U_F_FLIGHT`, and the `assert` fails
  | .queue =>
    if (s.jobs i).pc ≠ .prepared then none
    else some { s with jobs := update s.jobs i (unlockFile mode s.value (s.jobs i)) }
  | .close =>
    if (s.jobs i).pc ≠ .idle then none
    else some { s with jobs := update s.jobs i (unlockFileAll mode s.value (s.jobs i)) }
  | .release =>
    if (s.jobs i).pc ≠ .releasing then none
    else
      let grip := mode.grip (s.jobs i).lockDdir
      some { value := mutexUp mode grip s.value
             jobs := update s.jobs i { s.jobs i with pc := .idle, holds := none }
             stray := s.stray || (s.jobs i).holds ≠ some grip }

def Starts (s : LockSystem n) : Prop :=
  s.value = mode.initValue ∧ s.stray = false ∧
    ∀ i, (s.jobs i).own = false ∧ (s.jobs i).pc = .idle ∧ (s.jobs i).holds = none

def holders (s : LockSystem n) (grip : Grip) : Int :=
  ∑ i, if (s.jobs i).holds = some grip then 1 else 0

def Balanced (s : LockSystem n) : Prop :=
  match mode with
  | .exclusive => s.holders .shared = 0 ∧ s.holders .sole ≤ 1 ∧ s.value = 1 - s.holders .sole
  | .readwrite =>
    (s.holders .sole = 0 ∧ s.value = s.holders .shared) ∨
      (s.holders .sole = 1 ∧ s.holders .shared = 0 ∧ s.value = -1)

/-- **In readwrite mode the file is closed only by a job with a lock that is not marked as its own,
    or with a batch that goes on.** -/
def Ready (s : LockSystem n) (i : Fin n) (act : LockAct) : Prop :=
  act = .close → mode = .readwrite → (s.jobs i).own = true → (s.jobs i).lockBatch ≠ 0

def counts (grip : Grip) (j : LockJob) : Int := if j.holds = some grip then 1 else 0

lemma holders_eq_sum (s : LockSystem n) (grip : Grip) :
    s.holders grip = ∑ i, counts grip (s.jobs i) := rfl

lemma counts_nonneg (grip : Grip) (j : LockJob) : 0 ≤ counts grip j := by
  unfold counts
  split_ifs <;> decide

lemma sum_update (f : LockJob → Int) (jobs : Fin n → LockJob) (i : Fin n) (j : LockJob) :
    ∑ k, f (update jobs i j k) = (∑ k, f (jobs k)) - f (jobs i) + f j := by
  rw [← add_sum_erase _ _ (mem_univ i),
    ← add_sum_erase Finset.univ (fun k => f (jobs k)) (mem_univ i)]
  have hoth : ∑ k ∈ Finset.univ.erase i, f (update jobs i j k) =
      ∑ k ∈ Finset.univ.erase i, f (jobs k) := by
    apply sum_congr rfl
    intro k hk
    rw [update_of_ne (ne_of_mem_erase hk)]
  rw [hoth, update_self]
  ring

lemma counts_le_holders (s : LockSystem n) (grip : Grip) (i : Fin n) :
    counts grip (s.jobs i) ≤ s.holders grip :=
  single_le_sum (fun k _ => counts_nonneg grip (s.jobs k)) (mem_univ i)

def JobOk (j : LockJob) : Prop :=
  match j.pc with
  | .idle => (j.own = true ∧ j.lockBatch ≠ 0 → j.holds = some (mode.grip j.lockDdir)) ∧
      (j.own = false ∨ j.lockBatch = 0 → j.holds = none) ∧
      (mode = .exclusive → j.own = true → j.lockBatch ≠ 0)
  | .prepared => j.own = true ∧ j.holds = some (mode.grip j.lockDdir)
  | .releasing => j.lockBatch = 0 ∧ j.holds = some (mode.grip j.lockDdir) ∧
      (mode = .exclusive → j.own = false)

structure Inv (mode : LockMode) (s : LockSystem n) : Prop where
  balanced : s.Balanced mode
  jobs : ∀ i, JobOk mode (s.jobs i)
  stray : s.stray = false

section

variable {mode : LockMode} {s : LockSystem n} {i : Fin n} {j : LockJob}

lemma Inv.updateJob (h : Inv mode s) (hok : JobOk mode j) (hhl : j.holds = (s.jobs i).holds) :
    Inv mode { s with jobs := update s.jobs i j } := by
  have hcnt : ∀ grip, holders { s with jobs := update s.jobs i j } grip = s.holders grip := by
    intro grip
    rw [holders_eq_sum, sum_update, holders_eq_sum, counts, counts, hhl]
    ring
  refine ⟨?_, ?_, h.stray⟩
  · have hbln := h.balanced
    unfold Balanced at hbln ⊢
    simp only [hcnt]
    exact hbln
  · intro k
    by_cases hk : k = i
    · subst hk
      simpa using hok
    · simpa [update_of_ne hk] using h.jobs k

lemma mutexDown_balanced (hbln : s.Balanced mode) (hfr : (s.jobs i).holds = none) {ddir : Ddir}
    {value : Int} (h : mutexDown mode (mode.grip ddir) s.value = some value)
    (hhl : j.holds = some (mode.grip ddir)) :
    Balanced mode { s with value := value, jobs := update s.jobs i j } := by
  have hcnt : ∀ grip,
      holders { s with value := value, jobs := update s.jobs i j } grip =
        s.holders grip + if mode.grip ddir = grip then 1 else 0 := by
    intro grip
    rw [holders_eq_sum, sum_update, holders_eq_sum, counts, counts, hfr, hhl]
    simp
  have hnon : ∀ grip, 0 ≤ s.holders grip :=
    fun grip => (counts_nonneg grip (s.jobs i)).trans (counts_le_holders s grip i)
  have hshr := hnon .shared
  have hsl := hnon .sole
  cases mode with
  | exclusive =>
    simp only [Balanced, hcnt, LockMode.grip] at hbln ⊢
    simp only [mutexDown] at h
    split_ifs at h with h0
    cases h
    obtain ⟨hno, hle, hval⟩ := hbln
    simp only [reduceCtorEq, if_false, if_true]
    omega
  | readwrite =>
    simp only [Balanced, hcnt] at hbln ⊢
    cases hgr : LockMode.readwrite.grip ddir with
    | shared =>
      simp only [mutexDown, hgr] at h
      split_ifs at h with hneg
      cases h
      simp only [reduceCtorEq, if_false, if_true]
      omega
    | sole =>
      simp only [mutexDown, hgr] at h
      split_ifs at h with h0
      cases h
      simp only [reduceCtorEq, if_false, if_true]
      omega

lemma mutexUp_balanced (h : s.Balanced mode) {grip : Grip} (hhel : (s.jobs i).holds = some grip)
    (hgr : mode = .exclusive → grip = .sole) (hhl : j.holds = none)
    (stray : Bool) : Balanced mode ⟨mutexUp mode grip s.value, update s.jobs i j, stray⟩ := by
  have hcnt : ∀ value g, holders ⟨value, update s.jobs i j, stray⟩ g =
      s.holders g - if grip = g then 1 else 0 := by
    intro value g
    rw [holders_eq_sum, sum_update, holders_eq_sum, counts, counts, hhel, hhl]
    simp
  have hone : 1 ≤ s.holders grip := by
    have hle := counts_le_holders s grip i
    simpa [counts, hhel] using hle
  cases mode with
  | exclusive =>
    obtain rfl := hgr rfl
    simp only [Balanced, hcnt, mutexUp, reduceCtorEq, if_false, if_true] at h ⊢
    omega
  | readwrite =>
    cases grip with
    | shared | sole =>
      simp only [Balanced, hcnt, mutexUp, reduceCtorEq, if_false, if_true] at h ⊢
      omega

end

variable {s : LockSystem n}

lemma Inv.value_eq_zero (hinv : Inv .exclusive s)
    (h : (s.jobs i).holds = some .sole) : s.value = 0 := by
  obtain ⟨-, hle, hval⟩ := hinv.balanced
  have hone := counts_le_holders s .sole i
  rw [counts, if_pos h] at hone
  omega

lemma jobOk_unlockFile {mode : LockMode} (hinv : Inv mode s) (hown : j.own)
    (h : j.holds = some (mode.grip j.lockDdir)) (heq : j.holds = (s.jobs i).holds) :
    JobOk mode (unlockFile mode s.value j) := by
  unfold unlockFile
  split_ifs with hbt
  · refine ⟨fun _ => h, ?_, fun _ _ => hbt⟩
    rintro (hoth | h0)
    · simp [hown] at hoth
    · exact absurd h0 hbt
  · refine ⟨not_not.1 hbt, h, fun hmd => ?_⟩
    subst hmd
    -- nobody else holds an exclusive lock
    have hval : s.value = 0 := hinv.value_eq_zero (i := i) (heq ▸ h)
    simp [hval]

lemma unlockFile_holds (mode : LockMode) (value : Int) (j : LockJob) :
    (unlockFile mode value j).holds = j.holds := by
  unfold unlockFile
  split_ifs <;> rfl

section

variable {mode : LockMode} {batch : Fin n → BitVec 32} {s s' : LockSystem n} {i : Fin n}

lemma Inv.prep {ddir : Ddir} (hinv : Inv mode s)
    (hst : s.step mode batch i (.prep ddir) = some s') : Inv mode s' := by
  have hjob := hinv.jobs i
  simp only [step, lockFile] at hst
  split_ifs at hst with hid hbt
  all_goals
    simp only [JobOk, not_not.1 hid] at hjob
    obtain ⟨hgso, hfr, -⟩ := hjob
  · cases hst
    exact hinv.updateJob ⟨hbt.1, hgso hbt⟩ rfl
  · have hno : (s.jobs i).holds = none := by
      apply hfr
      by_cases hown : (s.jobs i).own
      · exact .inr (not_not.1 fun h => hbt ⟨hown, h⟩)
      · exact .inl (Bool.eq_false_iff.2 hown)
    cases hdw : mutexDown mode (mode.grip ddir) s.value with
    | none => simp [hdw] at hst
    | some value =>
      rw [hdw] at hst
      cases hst
      refine ⟨mutexDown_balanced hinv.balanced hno hdw rfl, ?_, hinv.stray⟩
      intro k
      by_cases hk : k = i
      · subst hk
        simp [JobOk]
      · simpa [update_of_ne hk] using hinv.jobs k

lemma Inv.queue (h : Inv mode s) (hst : s.step mode batch i .queue = some s') : Inv mode s' := by
  have hjob := h.jobs i
  simp only [step] at hst
  split_ifs at hst with hpc
  cases hst
  simp only [JobOk, not_not.1 hpc] at hjob
  exact h.updateJob (jobOk_unlockFile h hjob.1 hjob.2 rfl) (unlockFile_holds ..)

lemma Inv.close (h : Inv mode s) (hrd : s.Ready mode i .close)
    (hst : s.step mode batch i .close = some s') : Inv mode s' := by
  have hjob := h.jobs i
  simp only [step] at hst
  split_ifs at hst with hid
  cases hst
  unfold unlockFileAll
  split_ifs with hown
  · exact h.updateJob hjob rfl
  · have hmn : (s.jobs i).own = true := by simpa using hown
    simp only [JobOk, not_not.1 hid] at hjob
    -- a lock that is marked as the job's own is held while its batch goes on
    have hbt : (s.jobs i).lockBatch ≠ 0 := by
      cases mode with
      | exclusive => exact hjob.2.2 rfl hmn
      | readwrite => exact hrd rfl rfl hmn
    have hhl := hjob.1 ⟨hmn, hbt⟩
    exact h.updateJob
      (jobOk_unlockFile h (j := { s.jobs i with lockBatch := 0 }) hmn hhl rfl)
      (unlockFile_holds ..)

lemma Inv.release (hinv : Inv mode s) (hst : s.step mode batch i .release = some s') :
    Inv mode s' := by
  have hjob := hinv.jobs i
  by_cases hpc : (s.jobs i).pc = .releasing
  · simp only [JobOk, hpc] at hjob
    obtain ⟨hbt, hhl, hown⟩ := hjob
    simp only [step, hpc, ne_eq, not_true_eq_false, if_false] at hst
    cases hst
    refine ⟨mutexUp_balanced hinv.balanced hhl ?_ rfl _, ?_, ?_⟩
    · rintro rfl
      rfl
    · intro k
      by_cases hk : k = i
      · subst hk
        simp only [update_self]
        refine ⟨fun h => absurd hbt h.2, fun _ => rfl, fun hmd hmn => ?_⟩
        simp [hown hmd] at hmn
      · simpa [update_of_ne hk] using hinv.jobs k
    · simp [hinv.stray, hhl]
  · simp only [step, ne_eq, hpc, not_false_eq_true, if_true] at hst
    cases hst

lemma inv_step {act : LockAct} (hinv : Inv mode s) (h : s.Ready mode i act)
    (hst : s.step mode batch i act = some s') : Inv mode s' := by
  cases act with
  | prep ddir => exact hinv.prep hst
  | queue => exact hinv.queue hst
  | close => exact hinv.close h hst
  | release => exact hinv.release hst

end

def Runs (mode : LockMode) (batch : Fin n → BitVec 32) : LockSystem n → LockSystem n → Prop :=
  Relation.ReflTransGen fun s s' => ∃ i act, s.Ready mode i act ∧ s.step mode batch i act = some s'

lemma Starts.inv {mode : LockMode} (h : s.Starts mode) : Inv mode s := by
  obtain ⟨hval, hst, hjb⟩ := h
  have hno : ∀ grip, s.holders grip = 0 := by
    intro grip
    rw [holders_eq_sum]
    apply sum_eq_zero
    intro i _
    simp [counts, (hjb i).2.2]
  refine ⟨?_, fun i => ?_, hst⟩
  · cases mode <;> simp [Balanced, hno, hval, LockMode.initValue]
  · obtain ⟨hown, hpc, hhl⟩ := hjb i
    simp [JobOk, hown, hpc, hhl]

/-- **Releases match acquisitions** over every interleaving of jobs whose steps are ready: no job
    releases a lock it does not hold, and the value of the lock says who holds it. -/
theorem locks_balanced {n : Nat} (mode : LockMode) (batch : Fin n → BitVec 32)
    (s s' : LockSystem n) (hstart : s.Starts mode) (hruns : Runs mode batch s s') :
    s'.stray = false ∧ s'.Balanced mode := by
  have hinv : Inv mode s' := by
    induction hruns with
    | refl => exact hstart.inv
    | tail _ hst ih =>
      obtain ⟨i, act, hrd, hst⟩ := hst
      exact inv_step ih hrd hst
  exact ⟨hinv.stray, hinv.balanced⟩

def runActs (mode : LockMode) (batch : Fin n → BitVec 32) (s : LockSystem n) :
    List (Fin n × LockAct) → Option (LockSystem n)
  | [] => some s
  | (i, act) :: acts => (s.step mode batch i act).bind fun s => runActs mode batch s acts

def twoJobs : LockSystem 2 := ⟨0, fun _ => ⟨false, 0, .read, .idle, none⟩, false⟩

/-- Two readers; the first one closes the file while its batch goes on. -/
theorem locks_balanced_close :
    ∃ s', Runs .readwrite (fun _ => 1) twoJobs s' ∧ s'.value = 1 ∧ s'.stray = false ∧
      s'.Balanced .readwrite := by
  have hruns : ∃ s', Runs .readwrite (fun _ => 1) twoJobs s' ∧ s'.value = 1 :=
    ⟨_, .head ⟨0, .prep .read, nofun, rfl⟩ <| .head ⟨1, .prep .read, nofun, rfl⟩ <|
      .head ⟨0, .queue, nofun, rfl⟩ <| .head ⟨0, .close, fun _ _ _ => by decide, rfl⟩ <|
      .single ⟨0, .release, nofun, rfl⟩, rfl⟩
  obtain ⟨s', hruns, hval⟩ := hruns
  exact ⟨s', hruns, hval, locks_balanced .readwrite (fun _ => 1) twoJobs s'
    ⟨rfl, rfl, fun _ => ⟨rfl, rfl, rfl⟩⟩ hruns⟩

/-- Two readers; the first one releases the lock beside the second, stays marked as its owner, and
    releases it again when it closes the file: the value is 0 while the second job reads. -/
theorem locks_released_twice :
    (twoJobs.runActs .readwrite (fun _ => 1)
      [(0, .prep .read), (0, .queue), (1, .prep .read), (0, .prep .read), (0, .queue), (0, .release),
        (0, .close), (0, .release)]).map (fun s => (s.value, s.stray, (s.jobs 1).holds)) =
      some (0, true, some .shared) := by
  decide

end LockSystem

end FioSsd
