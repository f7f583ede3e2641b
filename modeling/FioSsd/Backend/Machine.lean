import FioSsd.Backend.Complete

/-! # The units of a job and its threads -/

namespace FioSsd

variable {close : Int}

inductive Caller
  | doIo | doVerify | fioIoSync
  deriving DecidableEq, Repr

/-- The unit that the I/O thread has taken with `__get_io_u` and not passed on. -/
inductive Hand
  | empty
  | taken (u : Nat)
  /-- `td_io_queue` has returned. -/
  | answered (u : Nat) (caller : Caller) (ret : Int)

def Hand.unit : Hand → Option Nat
  | .empty => none
  | .taken u => some u
  | .answered u _ _ => some u

inductive Completion
  | idle
  /-- `io_completed` is called. -/
  | completing (u : Nat)
  /-- The unit is no longer in flight and its handler has not run. -/
  | landed (u : Nat)
  /-- `io_completed` has returned and `IO_U_F_FREE_DEF` is not tested yet. -/
  | handled (u : Nat)

def Completion.unit : Completion → Option Nat
  | .idle => none
  | .completing u => some u
  | .landed u => some u
  | .handled u => some u

structure Machine where
  td : Td
  hand : Hand
  completion : Completion
  accepted : List Nat
  /-- The units that verifier threads have spliced off `verify_list`. -/
  held : List Nat

/-- The lists, `cur_depth` and the flags that go with them are the same. -/
structure SamePool (td td' : Td) : Prop where
  freelist : td'.ioUFreelist = td.ioUFreelist
  busylist : td'.ioUBusylist = td.ioUBusylist
  requeues : td'.ioURequeues = td.ioURequeues
  verifyList : td'.verifyList = td.verifyList
  curDepth : td'.curDepth = td.curDepth
  free : ∀ u, (td'.ioUs u).free = (td.ioUs u).free
  freeDef : ∀ u, (td'.ioUs u).freeDef = (td.ioUs u).freeDef
  inCurDepth : ∀ u, (td'.ioUs u).inCurDepth = (td.ioUs u).inCurDepth

def SameFlights (td td' : Td) : Prop := ∀ u, (td'.ioUs u).flight = (td.ioUs u).flight

lemma SamePool.refl (td : Td) : SamePool td td :=
  ⟨rfl, rfl, rfl, rfl, rfl, fun _ => rfl, fun _ => rfl, fun _ => rfl⟩

lemma SamePool.trans {td1 td2 td3 : Td} (a : SamePool td1 td2) (b : SamePool td2 td3) :
    SamePool td1 td3 :=
  ⟨b.freelist.trans a.freelist, b.busylist.trans a.busylist, b.requeues.trans a.requeues,
    b.verifyList.trans a.verifyList, b.curDepth.trans a.curDepth,
    fun u => (b.free u).trans (a.free u), fun u => (b.freeDef u).trans (a.freeDef u),
    fun u => (b.inCurDepth u).trans (a.inCurDepth u)⟩

lemma Td.setIoU_flag (flag : IoU → Bool) {td : Td} {u : Nat} {ioU : IoU}
    (h : flag ioU = flag (td.ioUs u)) (v : Nat) :
    flag ((td.setIoU u ioU).ioUs v) = flag (td.ioUs v) := by
  by_cases hv : v = u
  · subst hv
    simpa [Td.setIoU] using h
  · simp [Td.setIoU, hv]

lemma SamePool.setIoU {td : Td} {u : Nat} {ioU : IoU} (hfr : ioU.free = (td.ioUs u).free)
    (hdef : ioU.freeDef = (td.ioUs u).freeDef) (h : ioU.inCurDepth = (td.ioUs u).inCurDepth) :
    SamePool td (td.setIoU u ioU) :=
  ⟨rfl, rfl, rfl, rfl, rfl, Td.setIoU_flag IoU.free hfr, Td.setIoU_flag IoU.freeDef hdef,
    Td.setIoU_flag IoU.inCurDepth h⟩

lemma SamePool.advance (td : Td) (u : Nat) : SamePool td (td.setIoU u (td.ioUs u).advance) :=
  .setIoU rfl rfl rfl

namespace Td

variable {td td' : Td} {u : Nat}

lemma putFileLog_samePool {f : FileId} (h : td.putFileLog f close = .ok td') :
    SamePool td td' ∧ td'.ioUs = td.ioUs := by
  obtain ⟨-, hist, error, -, rfl⟩ := putFileLog_cases h
  exact ⟨⟨rfl, rfl, rfl, rfl, rfl, fun _ => rfl, fun _ => rfl, fun _ => rfl⟩, rfl⟩

lemma putIoU_cases (h : td.putIoU u close = .ok td') :
    ∃ td1, SamePool td td1 ∧ td1.ioUs = td.ioUs ∧ td' = td1.linkFree u := by
  rcases putIoU_split h with ⟨-, rfl⟩ | ⟨f, td1, -, -, hput, rfl⟩
  · exact ⟨td, .refl td, rfl, rfl⟩
  · obtain ⟨hpl, hun⟩ := putFileLog_samePool hput
    exact ⟨td1, hpl, hun, rfl⟩

lemma putIoU_inCurDepth (h : td.putIoU u close = .ok td') (v : Nat) :
    (td'.ioUs v).inCurDepth = (td.ioUs v).inCurDepth := by
  obtain ⟨td1, heq, -, rfl⟩ := putIoU_cases h
  rw [← heq.inCurDepth v]
  show ((td1.setIoU u { td1.ioUs u with file := none, freeDef := false, free := true }).ioUs
    v).inCurDepth = _
  refine setIoU_flag IoU.inCurDepth ?_ v
  rfl

lemma verifyIoUAsync_cases (h : td.verifyIoUAsync u close = .ok td') :
    ∃ td1, SamePool td td1 ∧ td1.ioUs = td.ioUs ∧ td' = td1.handOver u := by
  rcases verifyIoUAsync_split h with ⟨-, rfl⟩ | ⟨f, td1, -, hput, rfl⟩
  · exact ⟨td, .refl td, rfl, rfl⟩
  · obtain ⟨hpl, hun⟩ := putFileLog_samePool hput
    exact ⟨td1, hpl, hun, rfl⟩

lemma getIoU_handsOut (h : td.getIoU = .ok (some u, td')) :
    ∃ td1, SamePool td td1 ∧ SameFlights td td1 ∧ (∀ v, v ≠ u → td1.ioUs v = td.ioUs v) ∧
      (u ∈ td.ioUFreelist ∨ u ∈ td.ioURequeues) ∧ td' = td1.handOut u := by
  unfold getIoU takeIoU at h
  split at h
  · next v rest free hrqs =>
      obtain ⟨td1, htk, h⟩ := of_bind h
      obtain ⟨hv, rfl⟩ := ok_pair h
      cases hv
      split_ifs at htk
      exact ⟨td, .refl td, fun _ => rfl, fun _ _ => rfl, .inr (hrqs ▸ List.mem_cons_self),
        (Except.ok.inj htk).symm⟩
  · next v rest hrqs hfr =>
      obtain ⟨td1, htk, h⟩ := of_bind h
      obtain ⟨hv, rfl⟩ := ok_pair h
      obtain rfl := Option.some.inj hv
      split_ifs at htk
      exact ⟨td.blankIoU v, .setIoU rfl rfl rfl, setIoU_flag IoU.flight rfl,
        fun _ hw => Function.update_of_ne hw _ _, .inl (hfr ▸ List.mem_cons_self),
        (Except.ok.inj htk).symm⟩
  · cases h

lemma tdIoCommit_eq (td : Td) (ret : Int) : td.tdIoCommit ret = { td with
    error := (td.tdIoCommit ret).error, ioUInFlight := (td.tdIoCommit ret).ioUInFlight
    ioUQueued := (td.tdIoCommit ret).ioUQueued } := by
  unfold tdIoCommit
  split_ifs
  · rfl
  · rw [tdVerror_eq]
  · rfl

lemma tdIoCommit_samePool (td : Td) (ret : Int) : SamePool td (td.tdIoCommit ret) := by
  rw [tdIoCommit_eq]
  exact ⟨rfl, rfl, rfl, rfl, rfl, fun _ => rfl, fun _ => rfl, fun _ => rfl⟩

lemma countQueued_samePool {o : ThreadOptions} (td : Td) (u : Nat) (h : QueueHook) :
    SamePool td (td.countQueued o u h) ∧ (td.countQueued o u h).ioUs = td.ioUs := by
  unfold countQueued
  simp only
  have hcnt : SamePool td (if ddirRw (td.ioUs u).ddir then
      { td with ioUQueued := (td.ioUQueued + 1) % 2 ^ 32 } else td) := by
    split_ifs
    · exact ⟨rfl, rfl, rfl, rfl, rfl, fun _ => rfl, fun _ => rfl, fun _ => rfl⟩
    · exact .refl td
  have hun : (if ddirRw (td.ioUs u).ddir then
      { td with ioUQueued := (td.ioUQueued + 1) % 2 ^ 32 } else td).ioUs = td.ioUs := by
    split_ifs <;> rfl
  generalize (if ddirRw (td.ioUs u).ddir then
      { td with ioUQueued := (td.ioUQueued + 1) % 2 ^ 32 } else td) = td1 at hcnt hun ⊢
  split_ifs
  · refine ⟨hcnt.trans (tdIoCommit_samePool td1 _), ?_⟩
    rw [tdIoCommit_eq]
    exact hun
  · exact ⟨hcnt, hun⟩

lemma tdIoQueue_cases {o : ThreadOptions} {hook : QueueHook} (h : td.tdIoQueue o u hook = .ok td') :
    (td.ioUs u).flight = false ∧ SamePool td td' ∧ td'.ioUs = Function.update td.ioUs u
      ({ td.ioUs u with flight := true }.transferred hook.transfer) := by
  have hcl : SamePool td (td.callQueue u hook) ∧ (td.callQueue u hook).ioUs =
      Function.update td.ioUs u ({ td.ioUs u with flight := true }.transferred hook.transfer) := by
    rw [callQueue_eq]
    obtain ⟨h1, h2, h3, h4, h5, h6, h7, h8⟩ := @SamePool.setIoU td u
      ({ td.ioUs u with flight := true }.transferred hook.transfer) rfl rfl rfl
    exact ⟨⟨h1, h2, h3, h4, h5, h6, h7, h8⟩, rfl⟩
  unfold tdIoQueue at h
  cases hfl : (td.ioUs u).file with
  | none => simp [hfl] at h
  | some f =>
    simp only [hfl] at h
    split_ifs at h with hflg hopn hq
    · cases h
      obtain ⟨heq, hun⟩ := countQueued_samePool (o := o) (td.callQueue u hook) u hook
      exact ⟨by simpa using hflg, hcl.1.trans heq, hun.trans hcl.2⟩
    · cases h
      exact ⟨by simpa using hflg, hcl⟩

end Td

inductive Act
  /-- The `queue` hook is called for the unit. -/
  | queue (caller : Caller) (u : Nat) (hook : QueueHook)
  /-- `cleanup_pending_aio` puts the unit back: it was not in flight, or its `cancel` hook
      succeeded. -/
  | cancel (u : Nat)
  | none

namespace Machine

variable (o : ThreadOptions)

/-- One step of a job. -/
inductive Step : Act → Machine → Machine → Prop
  /-- Anything that leaves the pool alone; the unit of a `switch` stays as the engine left it. -/
  | edit {td td' : Td} {hand completion accepted held} (pool : SamePool td td')
      (flights : SameFlights td td')
      (same : ∀ u caller ret, hand = .answered u caller ret → td'.ioUs u = td.ioUs u) :
      Step .none ⟨td, hand, completion, accepted, held⟩ ⟨td', hand, completion, accepted, held⟩
  /-- `__get_io_u`. -/
  | take {td td' : Td} {u accepted held} (run : td.getIoU = .ok (some u, td')) :
      Step .none ⟨td, .empty, .idle, accepted, held⟩ ⟨td', .taken u, .idle, accepted, held⟩
  /-- There is no request for the unit, or `td_io_prep` fails. -/
  | drop {td td' : Td} {u close accepted held} (run : td.putIoU u close = .ok td') :
      Step .none ⟨td, .taken u, .idle, accepted, held⟩ ⟨td', .empty, .idle, accepted, held⟩
  /-- `td_io_queue`. -/
  | queue {td td' : Td} {u accepted held} (caller : Caller) {hook : QueueHook}
      (run : td.tdIoQueue o u hook = .ok td') :
      Step (.queue caller u hook) ⟨td, .taken u, .idle, accepted, held⟩
        ⟨td', .answered u caller hook.ret, .idle, accepted, held⟩
  /-- `FIO_Q_QUEUED`. -/
  | accept {td : Td} {u caller accepted held} :
      Step .none ⟨td, .answered u caller fioQQueued, .idle, accepted, held⟩
        ⟨td, .empty, .idle, u :: accepted, held⟩
  /-- `FIO_Q_BUSY` in one of the loops. -/
  | busy {td : Td} {u caller accepted held} (loop : caller ≠ .fioIoSync) :
      Step .none ⟨td, .answered u caller fioQBusy, .idle, accepted, held⟩
        ⟨td.requeueIoU u, .empty, .idle, accepted, held⟩
  /-- `FIO_Q_BUSY` in `fio_io_sync`: back to the label `requeue`. -/
  | again {td : Td} {u accepted held} :
      Step .none ⟨td, .answered u .fioIoSync fioQBusy, .idle, accepted, held⟩
        ⟨td, .taken u, .idle, accepted, held⟩
  /-- A negative result in `do_io` or `fio_io_sync`. -/
  | negative {td td' : Td} {u caller ret close accepted held} (neg : ret < 0)
      (loop : caller ≠ .doVerify) (run : td.putIoU u close = .ok td') :
      Step .none ⟨td, .answered u caller ret, .idle, accepted, held⟩
        ⟨td', .empty, .idle, accepted, held⟩
  /-- A negative result in `do_verify` and a result that `fio_io_sync` does not know leave the unit
      where it is. -/
  | leave {td : Td} {u caller ret accepted held}
      (unknown : caller = .doVerify ∧ ret < 0 ∨ caller = .fioIoSync ∧ fioQBusy < ret) :
      Step .none ⟨td, .answered u caller ret, .idle, accepted, held⟩
        ⟨td, .empty, .idle, accepted, held⟩
  /-- `FIO_Q_COMPLETED` with an error in one of the loops. -/
  | failed {td td' : Td} {u caller close accepted held} (error : (td.ioUs u).error ≠ 0)
      (loop : caller ≠ .fioIoSync) (run : td.clearIoU u close = .ok td') :
      Step .none ⟨td, .answered u caller fioQCompleted, .idle, accepted, held⟩
        ⟨td', .empty, .idle, accepted, held⟩
  /-- `FIO_Q_COMPLETED` with an error in `fio_io_sync`, which leaves the unit where it is. -/
  | failedSync {td : Td} {u accepted held} (error : (td.ioUs u).error ≠ 0) :
      Step .none ⟨td, .answered u .fioIoSync fioQCompleted, .idle, accepted, held⟩
        ⟨td, .empty, .idle, accepted, held⟩
  /-- `FIO_Q_COMPLETED` without a byte transferred, in one of the loops. -/
  | zero {td td' : Td} {u caller close accepted held} (error : (td.ioUs u).error = 0)
      (resid : (td.ioUs u).resid ≠ 0) (bytes : shortBytes (td.ioUs u) = 0)
      (loop : caller ≠ .fioIoSync) (run : td.putIoU u close = .ok td') :
      Step .none ⟨td, .answered u caller fioQCompleted, .idle, accepted, held⟩
        ⟨td', .empty, .idle, accepted, held⟩
  /-- `FIO_Q_COMPLETED` with a part of the bytes, in one of the loops. -/
  | short {td : Td} {u caller accepted held} (error : (td.ioUs u).error = 0)
      (resid : (td.ioUs u).resid ≠ 0) (bytes : shortBytes (td.ioUs u) ≠ 0)
      (loop : caller ≠ .fioIoSync) :
      Step .none ⟨td, .answered u caller fioQCompleted, .idle, accepted, held⟩
        ⟨(td.setIoU u (td.ioUs u).advance).requeueIoU u, .empty, .idle, accepted, held⟩
  /-- `FIO_Q_COMPLETED`: `io_u_sync_complete` is called. -/
  | done {td td' : Td} {u caller accepted held} (error : (td.ioUs u).error = 0)
      (unit : td' = td ∨ td' = td.setIoU u (td.ioUs u).advance) :
      Step .none ⟨td, .answered u caller fioQCompleted, .idle, accepted, held⟩
        ⟨td', .empty, .completing u, accepted, held⟩
  /-- `ios_completed` gets the unit from the engine. -/
  | reap {td : Td} {u hand accepted held} (mem : u ∈ accepted) :
      Step .none ⟨td, hand, .idle, accepted, held⟩
        ⟨td, hand, .completing u, accepted.erase u, held⟩
  | land {td : Td} {u hand accepted held} (flight : (td.ioUs u).flight = true) :
      Step .none ⟨td, hand, .completing u, accepted, held⟩
        ⟨td.land u, hand, .landed u, accepted, held⟩
  /-- There is no handler or it verifies the unit itself. -/
  | handle {td : Td} {u hand accepted held} :
      Step .none ⟨td, hand, .landed u, accepted, held⟩ ⟨td, hand, .handled u, accepted, held⟩
  /-- `verify_io_u_async`. -/
  | async {td td' : Td} {u close hand accepted held} (run : td.verifyIoUAsync u close = .ok td') :
      Step .none ⟨td, hand, .landed u, accepted, held⟩ ⟨td', hand, .handled u, accepted, held⟩
  /-- A verifier thread puts the unit back, or has done so. -/
  | keep {td : Td} {u hand accepted held} (deferred : (td.ioUs u).freeDef = true) :
      Step .none ⟨td, hand, .handled u, accepted, held⟩ ⟨td, hand, .idle, accepted, held⟩
  | putBack {td td' : Td} {u close hand accepted held} (deferred : (td.ioUs u).freeDef = false)
      (run : td.putIoU u close = .ok td') :
      Step .none ⟨td, hand, .handled u, accepted, held⟩ ⟨td', hand, .idle, accepted, held⟩
  | cancel {td td' : Td} {u close accepted held} (mem : u ∈ td.ioUBusylist)
      (run : td.putIoU u close = .ok td') :
      Step (.cancel u) ⟨td, .empty, .idle, accepted, held⟩
        ⟨td', .empty, .idle, accepted.erase u, held⟩
  /-- A verifier thread takes the reads that wait for it. -/
  | splice {td : Td} {hand completion accepted held} :
      Step .none ⟨td, hand, completion, accepted, held⟩
        ⟨{ td with verifyList := [] }, hand, completion, accepted, held ++ td.verifyList⟩
  | verified {td td' : Td} {u close hand completion accepted held} (mem : u ∈ held)
      (run : td.putIoU u close = .ok td') :
      Step .none ⟨td, hand, completion, accepted, held⟩
        ⟨td', hand, completion, accepted, held.erase u⟩

def Runs (P : Machine → Act → Prop) : Machine → Machine → Prop :=
  Relation.ReflTransGen fun m m' => ∃ act, P m act ∧ Step o act m m'

end Machine

end FioSsd
