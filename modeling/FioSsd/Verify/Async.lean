import FioSsd.Backend.Pool

/-! # Verifier threads

With `verify_async` completed reads are verified by threads of their own. -/

namespace FioSsd

variable (o : ThreadOptions)

/-- A unit the thread takes from its batch, with what `verify_io_u` does with it. -/
structure Spliced where
  ioU : Nat
  res : VerifyResult
  /-- The other threads, up to the moment the unit is put back. -/
  others : Td → Td
  /-- `verify_io_u_async` handed the unit over. -/
  held : ∀ td, (others td).WithVerifier ioU

structure AsyncRound where
  /-- `verify_thread_exit` at the head of the round. -/
  exit : Bool
  /-- The results of the calls of `pthread_cond_wait`, which end when there is work, the thread is
      to exit or one of them fails. -/
  waits : List Nat
  /-- What is spliced from `verify_list`. -/
  batch : List Spliced

def clearsVerify (ret : Nat) : Bool := o.continueOnError.verify && tdNonFatalError ret

def verifyOne (td : Td) (s : Spliced) : Except Fault (Td × Nat) := do
  let td ← ((s.others td).afterVerify s.ioU s.res).putIoU s.ioU 0
  if s.res.ret = 0 then return (td, 0)
  else if clearsVerify o s.res.ret then
    return ((td.updateErrorCount s.res.ret).tdClearError, 0)
  else return (td, s.res.ret)

def verifyBatch (td : Td) (ret : Nat) : List Spliced → Except Fault (Td × Nat)
  | [] => .ok (td, ret)
  | s :: rest => do
    let (td, ret) ← verifyOne o td s
    verifyBatch td ret rest

def waitLoop (ret : Nat) : List Nat → Nat
  | [] => ret
  | w :: rest => if w ≠ 0 then w else waitLoop 0 rest

def asyncLoop (td : Td) (ret : Nat) : List AsyncRound → Except Fault (Td × Nat)
  | [] => .error .outOfFuel
  | r :: rest =>
    if r.exit then .ok (td, ret)
    else do
      let (td, ret) ← verifyBatch o td (waitLoop ret r.waits) r.batch
      if ret = 0 then asyncLoop td ret rest else return (td, ret)

variable (affinityFails : Bool) (rounds : List AsyncRound)

/-- `verify_async_thread`, with the result it leaves its loop with. -/
def verifyAsyncThread (td : Td) :
    Except Fault (Td × Nat) := do
  let (td, ret) ← if affinityFails then pure (td, 0) else asyncLoop o td 0 rounds
  let td := if ret ≠ 0 then
      { td.tdVerror ret with terminate := td.terminate || o.verifyFatal }
    else td
  return ({ td with nrVerifyThreads := dec32 td.nrVerifyThreads }, ret)

def Spliced.Fails (s : Spliced) : Prop := s.res.ret ≠ 0 ∧ clearsVerify o s.res.ret = false
deriving Decidable

def Spliced.left (s : Spliced) : Nat := if s.Fails o then s.res.ret else 0

def batchLeft (ret : Nat) (batch : List Spliced) : Nat :=
  match batch.getLast? with
  | none => ret
  | some s => s.left o

variable {o}

lemma Spliced.left_ne_zero_iff {s : Spliced} : s.left o ≠ 0 ↔ s.Fails o := by
  unfold Spliced.left
  by_cases h : s.Fails o
  · rw [if_pos h]
    exact ⟨fun _ => h, fun _ => h.1⟩
  · rw [if_neg h]
    exact ⟨fun hne => absurd rfl hne, fun hf => absurd hf h⟩

lemma verifyOne_spec (td : Td) (s : Spliced) : ∃ td', verifyOne o td s = .ok (td', s.left o) := by
  rw [verifyOne, Td.putIoU_of_freeDef ((s.held td).afterVerify s.res).freeDef]
  unfold Spliced.left Spliced.Fails
  by_cases hz : s.res.ret = 0
  · exact ⟨_, by simp [hz]; rfl⟩
  · by_cases hc : clearsVerify o s.res.ret
    all_goals exact ⟨_, by simp [hz, hc]; rfl⟩

lemma verifyBatch_spec (batch : List Spliced) :
    ∀ (td : Td) (ret : Nat), ∃ td', verifyBatch o td ret batch = .ok (td', batchLeft o ret batch) := by
  induction batch with
  | nil => exact fun td ret => ⟨td, rfl⟩
  | cons s rest ih =>
    intro td ret
    obtain ⟨td', hone⟩ := verifyOne_spec (o := o) td s
    obtain ⟨td'', hrs⟩ := ih td' (s.left o)
    refine ⟨td'', ?_⟩
    have hlf : batchLeft o ret (s :: rest) = batchLeft o (s.left o) rest := by
      cases rest <;> simp [batchLeft, List.getLast?_cons]
    rw [verifyBatch, hone, hlf]
    exact hrs

variable (o) in
/-- What the other threads of a job may do to it while its I/O loop runs: set `terminate`, put units
back and report errors. -/
structure Rely (td td' : Td) : Prop where
  hist : td'.hist = td.hist
  requeues : td'.ioURequeues = td.ioURequeues
  busy : td'.ioUBusylist = td.ioUBusylist
  curDepth : td'.curDepth = td.curDepth
  issue : td'.issue = td.issue
  terminate : td.terminate = true → td'.terminate = true
  error : o.continueOnError.verify = false → td.error ≠ 0 → td'.error = td.error
  alone : o.verifyAsync = false → td' = { td with terminate := td'.terminate }

variable (o)

def AsyncRound.Fails (r : AsyncRound) : Prop := r.exit = false ∧ ∃ s ∈ r.batch, s.Fails o

def AsyncRound.Reports (r : AsyncRound) : Prop :=
  r.exit = false ∧
    ((∃ s, r.batch.getLast? = some s ∧ s.Fails o) ∨ r.batch = [] ∧ waitLoop 0 r.waits ≠ 0)

def Reached (n : Nat) (r : AsyncRound) : Prop :=
  affinityFails = false ∧ rounds[n]? = some r ∧
    ∀ m < n, ∀ r', rounds[m]? = some r' → r'.exit = false ∧ ¬r'.Reports o

variable {o}

variable {r : AsyncRound}

lemma batchLeft_ne_zero_iff (h : r.exit = false) :
    batchLeft o (waitLoop 0 r.waits) r.batch ≠ 0 ↔ r.Reports o := by
  unfold batchLeft AsyncRound.Reports
  cases hla : r.batch.getLast? with
  | none =>
    have hnil := List.getLast?_eq_none_iff.1 hla
    simp [hnil, h]
  | some s =>
    have hne : r.batch ≠ [] := by
      rintro hnil
      simp [hnil] at hla
    rw [Spliced.left_ne_zero_iff]
    simp [h, hne]

lemma asyncLoop_of_reports (h : r.Reports o) (rest : List AsyncRound)
    (td : Td) : ∃ td' ret, asyncLoop o td 0 (r :: rest) = .ok (td', ret) ∧ ret ≠ 0 := by
  obtain ⟨td', hbt⟩ := verifyBatch_spec (o := o) r.batch td (waitLoop 0 r.waits)
  have hlf := (batchLeft_ne_zero_iff h.1).2 h
  refine ⟨td', batchLeft o (waitLoop 0 r.waits) r.batch, ?_, hlf⟩
  rw [asyncLoop, if_neg (by simp [h.1]), hbt]
  exact if_neg hlf

lemma asyncLoop_of_not_reports (hexi : r.exit = false) (hno : ¬r.Reports o)
    (rest : List AsyncRound) (td : Td) :
    ∃ td', asyncLoop o td 0 (r :: rest) = asyncLoop o td' 0 rest := by
  obtain ⟨td', hbt⟩ := verifyBatch_spec (o := o) r.batch td (waitLoop 0 r.waits)
  have hlf : batchLeft o (waitLoop 0 r.waits) r.batch = 0 := by
    by_contra h
    exact hno ((batchLeft_ne_zero_iff hexi).1 h)
  refine ⟨td', ?_⟩
  rw [asyncLoop, if_neg (by simp [hexi]), hbt, hlf]
  rfl

variable {rest : List AsyncRound} {r r' : AsyncRound}

lemma reached_cons_zero :
    Reached o false (r :: rest) 0 r' ↔ r' = r := by
  constructor
  · rintro ⟨-, hr, -⟩
    exact (Option.some.inj hr).symm
  · rintro rfl
    exact ⟨rfl, rfl, nofun⟩

lemma reached_cons_succ {n : Nat} :
    Reached o false (r :: rest) (n + 1) r' ↔
      (r.exit = false ∧ ¬r.Reports o) ∧ Reached o false rest n r' := by
  constructor
  · rintro ⟨-, hr, hpre⟩
    refine ⟨hpre 0 (Nat.succ_pos n) r rfl, rfl, hr, fun m hm r'' hr'' => ?_⟩
    exact hpre (m + 1) (Nat.succ_lt_succ hm) r'' hr''
  · rintro ⟨hfr, -, hr, hpre⟩
    refine ⟨rfl, hr, fun m hm r'' hr'' => ?_⟩
    cases m with
    | zero =>
      obtain rfl : r = r'' := by simpa using hr''
      exact hfr
    | succ m => exact hpre m (Nat.lt_of_succ_lt_succ hm) r'' hr''

lemma asyncLoop_error_iff :
    ∀ td, (∃ td' ret, asyncLoop o td 0 rounds = .ok (td', ret) ∧ ret ≠ 0) ↔
      ∃ n r, Reached o false rounds n r ∧ r.Reports o := by
  induction rounds with
  | nil =>
    intro td
    simp [asyncLoop, Reached]
  | cons r rest ih =>
    intro td
    have hst : (∃ n r', Reached o false (r :: rest) n r' ∧ r'.Reports o) ↔ r.Reports o ∨
        r.exit = false ∧ ¬r.Reports o ∧ ∃ n r', Reached o false rest n r' ∧ r'.Reports o := by
      constructor
      · rintro ⟨n, r', hrch, hrpr⟩
        cases n with
        | zero => exact .inl (reached_cons_zero.1 hrch ▸ hrpr)
        | succ n =>
          obtain ⟨⟨hexi, hno⟩, hrs⟩ := reached_cons_succ.1 hrch
          exact .inr ⟨hexi, hno, n, r', hrs, hrpr⟩
      · rintro (hrpr | ⟨hexi, hno, n, r', hrs, hrpr⟩)
        · exact ⟨0, r, reached_cons_zero.2 rfl, hrpr⟩
        · exact ⟨n + 1, r', reached_cons_succ.2 ⟨⟨hexi, hno⟩, hrs⟩, hrpr⟩
    rw [hst]
    by_cases hrpr : r.Reports o
    · exact ⟨fun _ => .inl hrpr, fun _ => asyncLoop_of_reports hrpr rest td⟩
    · cases hexi : r.exit with
      | true => simp [asyncLoop, hexi, hrpr]
      | false =>
        obtain ⟨td', hr⟩ := asyncLoop_of_not_reports hexi hrpr rest td
        rw [hr, ih td']
        simp [hrpr]

variable (o) in
def ThreadFails (td : Td) : Prop :=
  ∃ td' ret, verifyAsyncThread o affinityFails rounds td = .ok (td', ret) ∧ ret ≠ 0 ∧ td'.error ≠ 0

lemma threadFails_iff (td : Td) :
    ThreadFails o affinityFails rounds td ↔
      ∃ n r, Reached o affinityFails rounds n r ∧ r.Reports o := by
  unfold ThreadFails verifyAsyncThread
  cases affinityFails with
  | true =>
    constructor
    · rintro ⟨td', ret, hr, hne, -⟩
      cases hr
      exact absurd rfl hne
    · rintro ⟨n, r, ⟨hno, -⟩, -⟩
      cases hno
  | false =>
    rw [← asyncLoop_error_iff rounds td]
    constructor
    · rintro ⟨td', ret, hr, hne, -⟩
      cases hlp : asyncLoop o td 0 rounds with
      | error e => simp [hlp, bind, Except.bind] at hr
      | ok p =>
        rw [if_neg (by decide), hlp] at hr
        cases hr
        exact ⟨p.1, p.2, rfl, hne⟩
    · rintro ⟨td', ret, hlp, hne⟩
      rw [if_neg (by decide), hlp]
      refine ⟨_, ret, rfl, hne, ?_⟩
      simp only [ne_eq, hne, not_false_eq_true, if_true]
      exact Td.tdVerror_error_ne_zero td' (by exact_mod_cast hne)

/-- **When a failure is reported**: the thread reaches a round whose last unit fails (or whose wait
    fails with nothing to do), or no unit it verifies fails. -/
theorem verifyAsyncThread_reports_iff (affinityFails : Bool) (rounds : List AsyncRound) (td : Td) :
    ((∃ n r, Reached o affinityFails rounds n r ∧ r.Fails o) →
      ThreadFails o affinityFails rounds td) ↔
      (∃ n r, Reached o affinityFails rounds n r ∧ r.Reports o) ∨
      ∀ n r, Reached o affinityFails rounds n r → ¬r.Fails o := by
  rw [threadFails_iff]
  constructor
  · intro h
    by_cases hfl : ∃ n r, Reached o affinityFails rounds n r ∧ r.Fails o
    · exact .inl (h hfl)
    · exact .inr fun n r hrch hr => hfl ⟨n, r, hrch, hr⟩
  · rintro (hrpr | hno) ⟨n, r, hrch, hfl⟩
    · exact hrpr
    · exact absurd hfl (hno n r hrch)

def splicedUnit (ret : Nat) : Spliced where
  ioU := 0
  res := ⟨ret, fun _ => 0, false⟩
  others _ := { ioUs := fun _ => { freeDef := true } }
  held _ := ⟨rfl, rfl, List.not_mem_nil, List.not_mem_nil⟩

def failThenPass : List AsyncRound :=
  [⟨false, [], [splicedUnit eilseq, splicedUnit 0]⟩, ⟨true, [], []⟩]

/-- The first unit of a batch fails, the second passes, and the thread leaves its loop with 0. -/
theorem verifyAsyncThread_forgets_first_unit :
    (∃ n r, Reached default false failThenPass n r ∧ r.Fails default) ∧
      ¬ThreadFails default false failThenPass default := by
  constructor
  · refine ⟨0, _, reached_cons_zero.2 rfl, rfl, splicedUnit eilseq, by simp, ?_⟩
    exact ⟨by decide, by decide⟩
  · rintro ⟨td', ret, hr, hne, -⟩
    obtain ⟨p, hp, h0⟩ : ∃ p, verifyAsyncThread default false failThenPass default = .ok p ∧ p.2 = 0 := by
      decide +kernel
    rw [hr] at hp
    cases hp
    exact hne h0

end FioSsd
