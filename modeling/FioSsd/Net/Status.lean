import FioSsd.Net.Command

/-! # The server's status messages

For a job file the server sends `START` with the number of jobs, runs them, and sends `STOP` with
the error code and `QUIT`; for a job command line it sends a `START` of its own; for an ETA request
it answers with a `struct jobs_eta`. -/

namespace FioSsd

open ByteOrder

inductive StatusOp
  | quit | start | stop | eta
  deriving DecidableEq

/-- `FIO_NET_CMD_QUIT`, `FIO_NET_CMD_START`, `FIO_NET_CMD_STOP` and `FIO_NET_CMD_ETA`. -/
def StatusOp.opcode : StatusOp → Word 2
  | .quit => 1
  | .start => 11
  | .stop => 12
  | .eta => 9

inductive StatusValue
  | nothing
  | jobs (n : Word 4)
  | error (e : Word 4)
  | threads (n : Word 4)
  deriving DecidableEq

structure StatusMsg where
  op : StatusOp
  payload : List UInt8
  tag : Word 8
  means : StatusValue
  deriving DecidableEq

def StatusMsg.cmd (msg : StatusMsg) : SentCmd := ⟨msg.op.opcode, msg.payload, msg.tag⟩

structure JobsEta (W : Nat → Type) where
  (nrRunning nrRamp nrPending filesOpen mRate tRate mIops tIops : W 4)
  (rate iops : Fin 2 → W 4)
  (elapsedSec etaSec : W 8)
  nrThreads : W 4

/-- `sizeof(struct jobs_eta)`: four bytes of padding follow `nr_threads`. -/
def jobsEtaSize : Nat := 72

/-- `sizeof(struct cmd_start_pdu)` and `sizeof(struct cmd_end_pdu)`. -/
def cmdStartPduSize : Nat := 4
@[inherit_doc cmdStartPduSize] def cmdEndPduSize : Nat := 4

section Server

variable (b : ByteOrder)

def fioServerSendQuitCmd : StatusMsg := ⟨.quit, [], 0, .nothing⟩

/-- `handle_job_cmd`: whether `parse_jobs_ini` takes the file, the number of threads behind it, and
what `fio_backend` returns. -/
def handleJobCmd (parsed : Bool) (threadNumber ret : Word 4) : List StatusMsg :=
  if parsed then
    [⟨.start, putLe b threadNumber, 0, .jobs threadNumber⟩, ⟨.stop, b.store ret, 0, .error ret⟩,
      fioServerSendQuitCmd]
  else [fioServerSendQuitCmd]

/-- `handle_jobline_cmd` behind the walk over the arguments: `START` has no payload, and no `STOP`
    follows. -/
def handleJoblineCmd (parsed : Bool) (threadNumber : Word 4) : List StatusMsg :=
  if parsed then [⟨.start, [], 0, .jobs threadNumber⟩, fioServerSendQuitCmd]
  else [fioServerSendQuitCmd]

/-- The bytes of `struct jobs_eta` up to `nr_threads`, which is stored as it is. -/
def jobsEtaBytes (je : JobsEta Word) : List UInt8 :=
  putLe b je.nrRunning ++ putLe b je.nrRamp ++ putLe b je.nrPending ++ putLe b je.filesOpen ++
  putLe b je.mRate ++ putLe b je.tRate ++ putLe b je.mIops ++ putLe b je.tIops ++
  putLe b (je.rate 0) ++ putLe b (je.rate 1) ++ putLe b (je.iops 0) ++ putLe b (je.iops 1) ++
  putLe b je.elapsedSec ++ putLe b je.etaSec ++ b.store je.nrThreads

/-- The payload of an ETA reply: `run_str` begins right behind `nr_threads`, and the allocation is
    one byte longer than the padded structure and the characters. -/
def etaPayload (je : JobsEta Word) (runStr : Mem) : List UInt8 :=
  jobsEtaBytes b je ++ runStr.load 0 je.nrThreads.toNat ++ List.replicate 5 0

/-- `handle_send_eta_cmd`: nothing is sent without threads, or if `calc_thread_status` has nothing
    to tell; it sets `nr_threads`. -/
def handleSendEtaCmd (threadNumber : Word 4) (status : Option (JobsEta Word)) (runStr : Mem)
    (tag : Word 8) : List StatusMsg :=
  if threadNumber = 0 then []
  else
    match status with
    | none => []
    | some je =>
      [⟨.eta, etaPayload b { je with nrThreads := threadNumber } runStr, tag,
        .threads threadNumber⟩]

end Server

inductive ServerWork
  | job (parsed : Bool) (threadNumber ret : Word 4)
  | jobline (parsed : Bool) (threadNumber : Word 4)
  | sendEta (threadNumber : Word 4) (status : Option (JobsEta Word)) (runStr : Mem) (tag : Word 8)

def ServerWork.msgs (b : ByteOrder) : ServerWork → List StatusMsg
  | .job parsed threadNumber ret => handleJobCmd b parsed threadNumber ret
  | .jobline parsed threadNumber => handleJoblineCmd parsed threadNumber
  | .sendEta threadNumber status runStr tag => handleSendEtaCmd b threadNumber status runStr tag

section Client

variable (b : ByteOrder)

def StatusOp.handlerSize : StatusOp → Nat
  | .quit => 0
  | .start => cmdStartPduSize
  | .stop => cmdEndPduSize
  | .eta => jobsEtaSize

def payloadField (payload : List UInt8) (offset n : Nat) : List UInt8 := (payload.drop offset).take n

def convertJobsEta (payload : List UInt8) : JobsEta Word :=
  { nrRunning := getLe b (payloadField payload 0 4)
    nrRamp := getLe b (payloadField payload 4 4)
    nrPending := getLe b (payloadField payload 8 4)
    filesOpen := getLe b (payloadField payload 12 4)
    mRate := getLe b (payloadField payload 16 4)
    tRate := getLe b (payloadField payload 20 4)
    mIops := getLe b (payloadField payload 24 4)
    tIops := getLe b (payloadField payload 28 4)
    rate := fun i => getLe b (payloadField payload (32 + 4 * i) 4)
    iops := fun i => getLe b (payloadField payload (40 + 4 * i) 4)
    elapsedSec := getLe b (payloadField payload 48 8)
    etaSec := getLe b (payloadField payload 56 8)
    nrThreads := b.load 4 (payloadField payload 64 4) }

/-- What `handle_start`, `handle_stop` and `handle_eta` take from a payload. -/
def StatusMsg.obtained (msg : StatusMsg) : StatusValue :=
  match msg.op with
  | .quit => .nothing
  | .start => .jobs (getLe b (payloadField msg.payload 0 4))
  | .stop => .error (getLe b (payloadField msg.payload 0 4))
  | .eta => .threads (convertJobsEta b msg.payload).nrThreads

end Client

structure StatusMsg.Carries (b : ByteOrder) (msg : StatusMsg) : Prop where
  size : msg.op.handlerSize ≤ msg.payload.length
  value : msg.obtained b = msg.means

instance (b : ByteOrder) (msg : StatusMsg) : Decidable (msg.Carries b) :=
  decidable_of_iff (msg.op.handlerSize ≤ msg.payload.length ∧ msg.obtained b = msg.means)
    ⟨fun h => ⟨h.1, h.2⟩, fun h => ⟨h.size, h.value⟩⟩

variable {b b' : ByteOrder} {k : Nat}
variable (b)

@[simp] lemma length_store (x : Word k) : (b.store x).length = k := by
  cases b <;> simp [store]

lemma length_jobsEtaBytes (je : JobsEta Word) : (jobsEtaBytes b je).length = 68 := by
  simp [jobsEtaBytes]

lemma length_etaPayload (je : JobsEta Word) (runStr : Mem) :
    (etaPayload b je runStr).length = jobsEtaSize + je.nrThreads.toNat + 1 := by
  simp only [etaPayload, List.length_append, length_jobsEtaBytes, Mem.length_load,
    List.length_replicate, jobsEtaSize]
  omega

variable {b}

lemma convertJobsEta_etaPayload (je : JobsEta Word) (runStr : Mem) :
    convertJobsEta b' (etaPayload b je runStr) =
      { je with nrThreads := b'.load 4 (b.store je.nrThreads) } := by
  have d0 : (etaPayload b je runStr).drop 0 = putLe b je.nrRunning ++ (putLe b je.nrRamp ++
      (putLe b je.nrPending ++ (putLe b je.filesOpen ++ (putLe b je.mRate ++ (putLe b je.tRate ++
      (putLe b je.mIops ++ (putLe b je.tIops ++ (putLe b (je.rate 0) ++ (putLe b (je.rate 1) ++
      (putLe b (je.iops 0) ++ (putLe b (je.iops 1) ++ (putLe b je.elapsedSec ++
      (putLe b je.etaSec ++ (b.store je.nrThreads ++
      (runStr.load 0 je.nrThreads.toNat ++ List.replicate 5 0))))))))))))))) := by
    simp [etaPayload, jobsEtaBytes, List.drop_zero]
  have d4 := drop_add_of_drop d0 (length_putLe b _)
  have d8 := drop_add_of_drop d4 (length_putLe b _)
  have d12 := drop_add_of_drop d8 (length_putLe b _)
  have d16 := drop_add_of_drop d12 (length_putLe b _)
  have d20 := drop_add_of_drop d16 (length_putLe b _)
  have d24 := drop_add_of_drop d20 (length_putLe b _)
  have d28 := drop_add_of_drop d24 (length_putLe b _)
  have d32 := drop_add_of_drop d28 (length_putLe b _)
  have d36 := drop_add_of_drop d32 (length_putLe b _)
  have d40 := drop_add_of_drop d36 (length_putLe b _)
  have d44 := drop_add_of_drop d40 (length_putLe b _)
  have d48 := drop_add_of_drop d44 (length_putLe b _)
  have d56 := drop_add_of_drop d48 (length_putLe b _)
  have d64 := drop_add_of_drop d56 (length_putLe b _)
  have hrt : ∀ i : Fin 2, payloadField (etaPayload b je runStr) (32 + 4 * i) 4 =
      putLe b (je.rate i) := by
    intro i
    fin_cases i
    · exact take_of_drop d32 (length_putLe b _)
    · exact take_of_drop d36 (length_putLe b _)
  have hip : ∀ i : Fin 2, payloadField (etaPayload b je runStr) (40 + 4 * i) 4 =
      putLe b (je.iops i) := by
    intro i
    fin_cases i
    · exact take_of_drop d40 (length_putLe b _)
    · exact take_of_drop d44 (length_putLe b _)
  have hwr : ∀ {k offset : Nat} {x : Word k} {rest : List UInt8},
      (etaPayload b je runStr).drop offset = putLe b x ++ rest →
        (getLe b' (payloadField (etaPayload b je runStr) offset k) : Word k) = x := by
    intro k offset x rest h
    rw [payloadField, take_of_drop h (length_putLe b x), getLe_putLe]
  have hthr : payloadField (etaPayload b je runStr) 64 4 = b.store je.nrThreads :=
    take_of_drop d64 (length_store b _)
  simp [convertJobsEta, hwr d0, hwr d4, hwr d8, hwr d12, hwr d16, hwr d20, hwr d24, hwr d28,
    hwr d48, hwr d56, hrt, hip, getLe_putLe, hthr]

lemma load_store_eq_iff (b b' : ByteOrder) (x : Word k) :
    b'.load k (b.store x) = x ↔ b = b' ∨ swap x = x := by
  by_cases heq : b = b'
  · subst heq
    simp
  · rw [load_store_of_ne heq]
    simp [heq]

lemma le_eq_self_iff (b : ByteOrder) (x : Word k) :
    b.le x = x ↔ b = .little ∨ swap x = x := by
  cases b <;> simp [le]

lemma payloadField_all {bs : List UInt8} {n : Nat} (h : bs.length = n) :
    payloadField bs 0 n = bs := by
  rw [payloadField, List.drop_zero, ← h, List.take_length]

lemma carries_quit : fioServerSendQuitCmd.Carries b' := ⟨le_rfl, rfl⟩

lemma carries_start (threadNumber : Word 4) (tag : Word 8) :
    (StatusMsg.mk .start (putLe b threadNumber) tag (.jobs threadNumber)).Carries b' := by
  refine ⟨by simp [StatusOp.handlerSize, cmdStartPduSize], ?_⟩
  rw [StatusMsg.obtained, payloadField_all (length_putLe b _), getLe_putLe]

lemma not_carries_empty_start (tag : Word 8) (value : StatusValue) :
    ¬ (StatusMsg.mk .start [] tag value).Carries b' := by
  intro h
  exact Nat.not_succ_le_zero 3 h.size

lemma carries_stop_iff (ret : Word 4) (tag : Word 8) :
    (StatusMsg.mk .stop (b.store ret) tag (.error ret)).Carries b' ↔
      b = .little ∨ swap ret = ret := by
  have hobt : (StatusMsg.mk .stop (b.store ret) tag (.error ret)).obtained b' =
      .error (b.le ret) := by
    rw [StatusMsg.obtained, payloadField_all (length_store b ret), getLe, le_load_store]
  rw [← le_eq_self_iff b ret]
  constructor
  · intro h
    have hval := h.value
    rw [hobt] at hval
    exact StatusValue.error.inj hval
  · intro h
    refine ⟨by simp [StatusOp.handlerSize, cmdEndPduSize], ?_⟩
    rw [hobt, h]

variable (b b')

lemma carries_eta_iff (je : JobsEta Word) (runStr : Mem) (tag : Word 8) :
    (StatusMsg.mk .eta (etaPayload b je runStr) tag (.threads je.nrThreads)).Carries b' ↔
      b = b' ∨ swap je.nrThreads = je.nrThreads := by
  rw [← load_store_eq_iff b b']
  have hobt : (StatusMsg.mk .eta (etaPayload b je runStr) tag
      (.threads je.nrThreads)).obtained b' = .threads (b'.load 4 (b.store je.nrThreads)) := by
    rw [StatusMsg.obtained, convertJobsEta_etaPayload]
  constructor
  · intro h
    have hval := h.value
    rw [hobt] at hval
    exact StatusValue.threads.inj hval
  · intro h
    refine ⟨?_, ?_⟩
    · simp only [StatusOp.handlerSize, length_etaPayload]
      omega
    · rw [hobt, h]

def StatusArrives (work : List ServerWork) : Prop :=
  ∀ msg ∈ (work.map (ServerWork.msgs b)).flatten, msg.Carries b'

/-- A request that does not meet the places where sender and handler disagree: the `START` without
    payload, and the error code and thread count that are not converted. -/
def ServerWork.Agrees : ServerWork → Prop
  | .job parsed _ ret => parsed = true → b = .little ∨ ByteOrder.swap ret = ret
  | .jobline parsed _ => parsed = false
  | .sendEta threadNumber status _ _ =>
    threadNumber ≠ 0 → status.isSome = true →
      b = b' ∨ ByteOrder.swap threadNumber = threadNumber

variable {b b'}

lemma carries_msgs_iff (work : ServerWork) :
    (∀ msg ∈ work.msgs b, msg.Carries b') ↔ work.Agrees b b' := by
  cases work with
  | job parsed threadNumber ret =>
    cases parsed with
    | false =>
      simp [ServerWork.msgs, handleJobCmd, ServerWork.Agrees, carries_quit]
    | true =>
      simp [ServerWork.msgs, handleJobCmd, ServerWork.Agrees, carries_quit, carries_start,
        carries_stop_iff]
  | jobline parsed threadNumber =>
    cases parsed with
    | false => simp [ServerWork.msgs, handleJoblineCmd, ServerWork.Agrees, carries_quit]
    | true =>
      simp [ServerWork.msgs, handleJoblineCmd, ServerWork.Agrees, not_carries_empty_start]
  | sendEta threadNumber status runStr tag =>
    by_cases h0 : threadNumber = 0
    · simp [ServerWork.msgs, handleSendEtaCmd, ServerWork.Agrees, h0]
    · cases status with
      | none => simp [ServerWork.msgs, handleSendEtaCmd, ServerWork.Agrees]
      | some je =>
        have heta := carries_eta_iff b b' { je with nrThreads := threadNumber } runStr tag
        simp [ServerWork.msgs, handleSendEtaCmd, ServerWork.Agrees, heta]

/-- **Status messages carry what the client reads exactly when no request meets one of the three
    disagreements.** -/
theorem statusArrives_iff (b b' : ByteOrder) (work : List ServerWork) :
    StatusArrives b b' work ↔ ∀ w ∈ work, w.Agrees b b' := by
  simp only [StatusArrives, List.mem_flatten, List.mem_map, ← carries_msgs_iff]
  constructor
  · intro h w hw msg hmsg
    exact h msg ⟨w.msgs b, ⟨w, hw, rfl⟩, hmsg⟩
  · rintro h msg ⟨msgs, ⟨w, hw, rfl⟩, hmsg⟩
    exact h w hw msg hmsg

/-- A job line of one job, between machines of one byte order: `START` comes without the count. -/
theorem jobline_start_without_count : ¬ StatusArrives .little .little [.jobline true 1] := by
  intro h
  have hst := h ⟨.start, [], 0, .jobs 1⟩ (by decide)
  exact absurd hst (by decide)

end FioSsd
