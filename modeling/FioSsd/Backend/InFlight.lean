import FioSsd.Backend.ReadErrors
import FioSsd.Backend.Conserved

/-! # Units in flight

`td_io_queue` asserts that its unit is not in flight and sets `IO_U_F_FLIGHT`; `io_completed`,
`clear_io_u` and `requeue_io_u` clear it, `put_io_u` and `__get_io_u` do not. -/

namespace FioSsd

open Function List Td

variable {close : Int} {accepted' : List Nat}

/-- What the engine makes of a unit that `caller` queued clears the flag on its way to the lists. -/
def TidyAnswer (caller : Caller) (ret : Int) (ioU : IoU) : Prop :=
  (ret < 0 → caller = .doVerify) ∧ (ret = fioQBusy → caller ≠ .fioIoSync) ∧
    (ret = fioQCompleted → caller ≠ .fioIoSync → ioU.error = 0 → ioU.resid ≠ 0 → shortBytes ioU ≠ 0)

def Machine.Tidy (m : Machine) : Act → Prop
  | .queue caller u hook => TidyAnswer caller hook.ret ((m.td.ioUs u).transferred hook.transfer)
  | .cancel u => (m.td.ioUs u).flight = false
  | .none => True

namespace Td

def Rests (td : Td) (held : List Nat) (u : Nat) : Prop :=
  (u ∈ td.ioUFreelist ∨ u ∈ td.ioURequeues) ∨ u ∈ td.verifyList ∨ u ∈ held

structure OnlyUnit (u : Nat) (td : Td) (held : List Nat) (td' : Td) (held' : List Nat) : Prop where
  others : ∀ v, v ≠ u → td'.ioUs v = td.ioUs v
  rests : ∀ v, v ≠ u → td'.Rests held' v → td.Rests held v

variable {td td' : Td} {u : Nat} (held : List Nat)

variable {held} in
lemma Rests.of_same {v : Nat} (heq : SamePool td td') (h : td'.Rests held v) : td.Rests held v := by
  unfold Rests at h ⊢
  rwa [← heq.freelist, ← heq.requeues, ← heq.verifyList]

lemma OnlyUnit.setIoU (td : Td) (u : Nat) (ioU : IoU) : OnlyUnit u td held (td.setIoU u ioU) held :=
  ⟨fun _ hv => update_of_ne hv _ _, fun _ _ h => h⟩

lemma OnlyUnit.trans {td1 td2 td3 : Td} {held1 held2 held3 : List Nat}
    (a : OnlyUnit u td1 held1 td2 held2) (b : OnlyUnit u td2 held2 td3 held3) :
    OnlyUnit u td1 held1 td3 held3 :=
  ⟨fun v hv => (b.others v hv).trans (a.others v hv), fun v hv h => a.rests v hv (b.rests v hv h)⟩

lemma putIoU_onlyUnit (hr : td.putIoU u close = .ok td') :
    OnlyUnit u td held td' (held.erase u) ∧ (td'.ioUs u).flight = (td.ioUs u).flight := by
  obtain ⟨td1, heq, hun, rfl⟩ := putIoU_cases hr
  refine ⟨⟨fun v hv => ?_, fun v hv h => Rests.of_same heq ?_⟩, ?_⟩
  · rw [← hun]
    exact update_of_ne hv _ _
  · rcases h with (h | h) | h | h
    · exact .inl (.inl (mem_of_mem_erase ((mem_cons.1 h).resolve_left hv)))
    · exact .inl (.inr (mem_of_mem_erase h))
    · exact .inr (.inl (mem_of_mem_erase h))
    · exact .inr (.inr (mem_of_mem_erase h))
  · rw [← hun]
    simp [linkFree, unlink, setIoU]

lemma clearIoU_onlyUnit (h : td.clearIoU u close = .ok td') :
    OnlyUnit u td held td' (held.erase u) ∧ (td'.ioUs u).flight = false := by
  obtain ⟨hon, hflg⟩ := putIoU_onlyUnit held h
  refine ⟨(OnlyUnit.setIoU held td u _).trans hon, hflg.trans ?_⟩
  simp [setIoU]

lemma getIoU_onlyUnit (hr : td.getIoU = .ok (some u, td')) :
    OnlyUnit u td held td' held ∧ (td'.ioUs u).flight = (td.ioUs u).flight ∧ td.Rests held u := by
  obtain ⟨td1, heq, hflg, hoth, hmem, rfl⟩ := getIoU_handsOut hr
  refine ⟨⟨fun v hv => ?_, fun v hv h => Rests.of_same heq ?_⟩, ?_, .inl hmem⟩
  · rw [← hoth v hv]
    exact update_of_ne hv _ _
  · rcases h with (h | h) | h | h
    · exact .inl (.inl (mem_of_mem_erase h))
    · exact .inl (.inr (mem_of_mem_erase h))
    · exact .inr (.inl (mem_of_mem_erase h))
    · exact .inr (.inr h)
  · rw [← hflg u]
    simp [handOut, unlink, setIoU]

lemma requeueIoU_onlyUnit (td : Td) (u : Nat) :
    OnlyUnit u td held (td.requeueIoU u) held ∧ ((td.requeueIoU u).ioUs u).flight = false := by
  refine ⟨⟨fun v hv => update_of_ne hv _ _, fun v hv h => ?_⟩, ?_⟩
  · rcases h with (h | h) | h | h
    · exact .inl (.inl (mem_of_mem_erase h))
    · refine .inl (.inr (mem_of_mem_erase ((mem_append.1 h).resolve_right ?_)))
      exact fun hmem => hv (mem_singleton.1 hmem)
    · exact .inr (.inl (mem_of_mem_erase h))
    · exact .inr (.inr h)
  · simp [requeueIoU, unlink, setIoU]

lemma verifyIoUAsync_onlyUnit (hr : td.verifyIoUAsync u close = .ok td') :
    OnlyUnit u td held td' held ∧ (td'.ioUs u).flight = (td.ioUs u).flight := by
  obtain ⟨td1, heq, hun, rfl⟩ := verifyIoUAsync_cases hr
  refine ⟨⟨fun v hv => ?_, fun v hv h => Rests.of_same heq ?_⟩, ?_⟩
  · rw [← hun]
    exact update_of_ne hv _ _
  · rcases h with (h | h) | h | h
    · exact .inl (.inl (mem_of_mem_erase h))
    · exact .inl (.inr (mem_of_mem_erase h))
    · refine .inr (.inl (mem_of_mem_erase ((mem_append.1 h).resolve_right ?_)))
      exact fun hmem => hv (mem_singleton.1 hmem)
    · exact .inr (.inr h)
  · rw [← hun]
    simp [handOver, unlink, setIoU]

end Td

namespace Machine

/-- Units that the I/O thread and the engine do not work on are not in flight. -/
structure Grounded (m : Machine) : Prop where
  resting : ∀ u, m.td.Rests m.held u → (m.td.ioUs u).flight = false
  taken : ∀ u, m.hand = .taken u → (m.td.ioUs u).flight = false
  answered : ∀ u caller ret, m.hand = .answered u caller ret → TidyAnswer caller ret (m.td.ioUs u)
  landed : ∀ u, m.completion = .landed u ∨ m.completion = .handled u → (m.td.ioUs u).flight = false

variable {n : Nat} {td td' : Td} {u : Nat} {hand : Hand} {completion : Completion}
  {accepted held held' : List Nat}

lemma Grounded.resting_of_onlyUnit (h : Grounded ⟨td, hand, completion, accepted, held⟩)
    (hon : Td.OnlyUnit u td held td' held') (hflg : td'.Rests held' u → (td'.ioUs u).flight = false)
    (v : Nat) (hv : td'.Rests held' v) : (td'.ioUs v).flight = false := by
  by_cases hvu : v = u
  · rw [hvu] at hv ⊢
    exact hflg hv
  · rw [hon.others v hvu]
    exact h.resting v (hon.rests v hvu hv)

lemma Grounded.release (h : Grounded ⟨td, hand, .idle, accepted, held⟩)
    (hon : Td.OnlyUnit u td held td' held) (hflg : (td'.ioUs u).flight = false) :
    Grounded ⟨td', .empty, .idle, accepted', held⟩ :=
  ⟨h.resting_of_onlyUnit hon fun _ => hflg, nofun, nofun, nofun⟩

variable {completion' : Completion}

lemma Grounded.passOn
    (h : Grounded ⟨td, hand, .idle, accepted, held⟩) (hon : Td.OnlyUnit u td held td' held)
    (hrs : ¬ td'.Rests held u) (hln : ∀ v, ¬ (completion' = .landed v ∨ completion' = .handled v)) :
    Grounded ⟨td', .empty, completion', accepted', held⟩ :=
  ⟨h.resting_of_onlyUnit hon fun hu => absurd hu hrs, nofun, nofun, fun v hv => absurd hv (hln v)⟩

lemma Grounded.beside
    (h : Grounded ⟨td, hand, completion, accepted, held⟩) (hon : Td.OnlyUnit u td held td' held')
    (hflg : (td'.ioUs u).flight = false) (hhn : hand.unit ≠ some u)
    (hln : ∀ v, completion' = .landed v ∨ completion' = .handled v →
      v = u ∨ completion = .landed v ∨ completion = .handled v) :
    Grounded ⟨td', hand, completion', accepted', held'⟩ := by
  refine ⟨h.resting_of_onlyUnit hon fun _ => hflg, fun v hv => ?_, fun v caller ret hv => ?_,
    fun v hv => ?_⟩
  · have hne : v ≠ u := by
      rintro rfl
      exact hhn (congrArg Hand.unit hv)
    rw [hon.others v hne]
    exact h.taken v hv
  · have hne : v ≠ u := by
      rintro rfl
      exact hhn (congrArg Hand.unit hv)
    rw [hon.others v hne]
    exact h.answered v caller ret hv
  · by_cases hvu : v = u
    · rw [hvu]
      exact hflg
    · rw [hon.others v hvu]
      exact h.landed v ((hln v hv).resolve_left hvu)

variable {o : ThreadOptions} {act : Act} {m m' : Machine}

lemma Sound.not_rests (h : Sound n m) (hu : u ∈ m.td.ioUBusylist) : ¬ m.td.Rests m.held u := by
  obtain ⟨hfr, haw⟩ := only_busy (h.pool.le_one u) hu
  exact not_or.2 ⟨not_or.2 hfr, not_or.2 haw⟩

lemma Sound.hand_busy (h : Sound n m) (hu : m.hand.unit = some u) : u ∈ m.td.ioUBusylist :=
  h.busy (by simp [claims, hu])

lemma Sound.erase_held (h : Sound n m) (hu : u ∈ m.td.ioUBusylist) : m.held.erase u = m.held :=
  erase_of_not_mem (only_busy (h.pool.le_one u) hu).2.2

lemma Grounded.step (h : Grounded m) (hs : Sound n m) (htd : m.Tidy act) (hst : Step o act m m')
    : Grounded m' := by
  cases hst with
  | edit pool flights same =>
    refine ⟨fun v hv => ?_, fun v hv => ?_, fun v caller ret hv => ?_, fun v hv => ?_⟩
    · exact (flights v).trans (h.resting v (.of_same pool hv))
    · exact (flights v).trans (h.taken v hv)
    · have huni := h.answered v caller ret hv
      rwa [← same v caller ret hv] at huni
    · exact (flights v).trans (h.landed v hv)
  | @take td td' u accepted held run =>
    obtain ⟨hon, hflg, hrs⟩ := getIoU_onlyUnit held run
    have hgrn := hflg.trans (h.resting u hrs)
    refine ⟨h.resting_of_onlyUnit hon fun _ => hgrn, fun v hv => ?_, by simp, by simp⟩
    obtain rfl := Hand.taken.inj hv
    exact hgrn
  | @drop td td' u close accepted held run =>
    obtain ⟨hon, heq⟩ := putIoU_onlyUnit held run
    rw [hs.erase_held (hs.hand_busy rfl)] at hon
    exact h.release hon (heq.trans (h.taken u rfl))
  | @queue td td' u accepted held caller hook run =>
    obtain ⟨-, heq, hun⟩ := tdIoQueue_cases run
    have hon : Td.OnlyUnit u td held td' held :=
      ⟨fun v hv => by rw [hun, update_of_ne hv], fun _ _ hv => .of_same heq hv⟩
    have hrs : ¬ td'.Rests held u := fun hu => hs.not_rests (hs.hand_busy rfl) (.of_same heq hu)
    refine ⟨h.resting_of_onlyUnit hon fun hu => absurd hu hrs, by simp, fun v caller' ret hv => ?_,
      by simp⟩
    obtain ⟨rfl, rfl, rfl⟩ := Hand.answered.inj hv
    -- what is left of the unit is what the engine made of it
    show TidyAnswer caller hook.ret (td'.ioUs u)
    rw [hun, update_self]
    exact htd
  | @accept td u caller accepted held =>
    exact h.passOn ⟨fun _ _ => rfl, fun _ _ hv => hv⟩ (hs.not_rests (hs.hand_busy rfl)) (by simp)
  | busy loop =>
    obtain ⟨hon, hflg⟩ := requeueIoU_onlyUnit _ _ _
    exact h.release hon hflg
  -- the answers that would leave the flag set are not tidy ones: here and for `negative` and `zero`
  | again => exact absurd rfl ((h.answered _ _ _ rfl).2.1 rfl)
  | negative neg loop run => exact absurd ((h.answered _ _ _ rfl).1 neg) loop
  | @leave td u caller ret accepted held unknown =>
    exact h.passOn ⟨fun _ _ => rfl, fun _ _ hv => hv⟩ (hs.not_rests (hs.hand_busy rfl)) (by simp)
  | @failed td td' u caller close accepted held error loop run =>
    obtain ⟨hon, hflg⟩ := clearIoU_onlyUnit held run
    rw [hs.erase_held (hs.hand_busy rfl)] at hon
    exact h.release hon hflg
  | @failedSync td u accepted held error =>
    exact h.passOn ⟨fun _ _ => rfl, fun _ _ hv => hv⟩ (hs.not_rests (hs.hand_busy rfl)) (by simp)
  | zero error resid bytes loop run =>
    exact absurd bytes ((h.answered _ _ _ rfl).2.2 rfl loop error resid)
  | @short td u caller accepted held error resid bytes loop =>
    obtain ⟨hon, hflg⟩ := requeueIoU_onlyUnit held (td.setIoU u (td.ioUs u).advance) u
    exact h.release ((Td.OnlyUnit.setIoU held td u _).trans hon) hflg
  | @done td td' u caller accepted held error unit =>
    have hrs := hs.not_rests (hs.hand_busy rfl)
    rcases unit with rfl | rfl
    · exact h.passOn ⟨fun _ _ => rfl, fun _ _ hv => hv⟩ hrs (by simp)
    · exact h.passOn (.setIoU held td u _) hrs (by simp)
  | reap mem => exact ⟨h.resting, h.taken, h.answered, by simp⟩
  | @land td u hand accepted held flight =>
    have hhn : hand.unit ≠ some u := fun hu => (hs.of_active rfl).2.1 (by simp [hu])
    have hflg : ((td.land u).ioUs u).flight = false := by simp [land, setIoU]
    refine h.beside (.setIoU held td u _) hflg hhn fun v hv => .inl ?_
    exact (Completion.landed.inj (hv.resolve_right (by simp))).symm
  | @handle td u hand accepted held =>
    refine ⟨h.resting, h.taken, h.answered, fun v hv => h.landed v (.inl ?_)⟩
    rw [Completion.handled.inj (hv.resolve_left (by simp))]
  | @async td td' u close hand accepted held run =>
    obtain ⟨hon, heq⟩ := verifyIoUAsync_onlyUnit held run
    have hhn : hand.unit ≠ some u := fun hu => (hs.of_active rfl).2.1 (by simp [hu])
    refine h.beside hon (heq.trans (h.landed u (.inl rfl))) hhn fun v hv => .inl ?_
    exact (Completion.handled.inj (hv.resolve_left (by simp))).symm
  | keep deferred => exact ⟨h.resting, h.taken, h.answered, by simp⟩
  | @putBack td td' u close hand accepted held deferred run =>
    obtain ⟨hon, heq⟩ := putIoU_onlyUnit held run
    have hhl : u ∉ held := fun hmem =>
      absurd (hs.pool.away u (.inr hmem)).2 (by simp [deferred])
    rw [erase_of_not_mem hhl] at hon
    have hhn : hand.unit ≠ some u := fun hu => (hs.handled u rfl).2.1 (by simp [claims, hu])
    exact h.beside hon (heq.trans (h.landed u (.inr rfl))) hhn (by simp)
  | @cancel td td' u close accepted held mem run =>
    obtain ⟨hon, heq⟩ := putIoU_onlyUnit held run
    rw [hs.erase_held mem] at hon
    exact h.release hon (heq.trans htd)
  | @splice td hand completion accepted held =>
    refine ⟨fun v hv => h.resting v ?_, h.taken, h.answered, h.landed⟩
    rcases hv with hv | hv | hv
    · exact .inl hv
    · exact absurd hv not_mem_nil
    · exact .inr (mem_append.1 hv).symm
  | @verified td td' u close hand completion accepted held mem run =>
    obtain ⟨hon, heq⟩ := putIoU_onlyUnit held run
    have hhn : hand.unit ≠ some u := fun hu =>
      (only_away (hs.pool.le_one u) (.inr mem)).2 (hs.hand_busy hu)
    exact h.beside hon (heq.trans (h.resting u (.inr (.inr mem)))) hhn fun v hv => .inr hv

lemma Grounded.runs (h : Grounded m) (hs : Sound n m) (hrn : Runs o Tidy m m') :
    Grounded m' ∧ Sound n m' := by
  induction hrn with
  | refl => exact ⟨h, hs⟩
  | tail _ hst ih =>
    obtain ⟨act, htd, hst⟩ := hst
    exact ⟨ih.1.step ih.2 htd hst, ih.2.step hst⟩

lemma grounded_start (o : ThreadOptions) (td : Td) (room : Nat) : Grounded (start o td room) := by
  have hsn := sound_start o td room
  obtain ⟨-, hun, -⟩ := td.initUnits_spec (min o.maxUnits room)
  refine ⟨fun u hu => ?_, fun v hv => absurd hv (by simp [start]),
    fun v _ _ hv => absurd hv (by simp [start]), fun v hv => absurd hv (by simp [start])⟩
  have hlt := hsn.pool.lt_of_mem (by unfold Td.Rests at hu; tauto)
  show ((td.initLists.initUnits _).ioUs u).flight = false
  rw [hun u hlt]
  rfl

end Machine

/-- **A free unit is not in flight** in every run in which the engine answers tidily, and
    `td_io_queue` is only called for units that are not in flight. -/
theorem free_not_inFlight (o : ThreadOptions) (td : Td) (room : Nat) {m : Machine}
    (h : Machine.Runs o Machine.Tidy (.start o td room) m) :
    (∀ u, u ∈ m.td.ioUFreelist ∨ u ∈ m.td.ioURequeues → (m.td.ioUs u).flight = false) ∧
      ∀ u, m.hand = .taken u → (m.td.ioUs u).flight = false := by
  obtain ⟨hgrn, -⟩ := (Machine.grounded_start o td room).runs (Machine.sound_start o td room) h
  exact ⟨fun u hu => hgrn.resting u (.inl hu), hgrn.taken⟩

def goOnOptions : ThreadOptions :=
  { nullOptions with continueOnError := ⟨true, true, true⟩ }

/-- A round in which the engine completes the read at once and leaves `resid` bytes. -/
def residRound (resid : BitVec 32) : Td.VerifyRound goOnOptions where
  others := ⟨id, fun _ => ⟨rfl, rfl, rfl, rfl, rfl, id, fun _ _ => rfl, fun _ => rfl⟩⟩
  expired := false
  flow := false
  waits := []
  opened := .succeeds
  openError := 0
  prepFails := false
  hook := ⟨fioQCompleted, ⟨0, resid, fun _ => 0⟩, 0, 0⟩
  commit := 0
  close := 0
  draw := 0
  reaps := []

lemma loggedJob_initIoU (n : Nat) : (loggedJob n).initIoU goOnOptions 1 = loggedJob n := by
  have hone : min goOnOptions.maxUnits 1 = 1 := by decide
  rw [initIoU, hone]
  show mk _ (update (fun _ => default) 0 default) _ _ _ _ _ _ _ _ _ _ _ _ _ = _
  rw [update_eq_self_iff.2 rfl]
  rfl

/-- The unit with the request that `get_next_verify` makes of the first write. -/
def firstRead (td : Td) : Td :=
  td.setIoU 0 { td.ioUs 0 with file := some 0, buflen := 4096, xferBuflen := 4096 }

def queuedRead (resid : BitVec 32) : Td :=
  (firstRead (((loggedJob 2).blankIoU 0).handOut 0)).callQueue 0 (residRound resid).hook

lemma queuedRead_runs {P : Machine → Act → Prop} {resid : BitVec 32} (hno : ∀ m, P m .none)
    (hqu : ∀ m u, P m (.queue .doVerify u (residRound resid).hook)) :
    Machine.Runs goOnOptions P (.start goOnOptions (loggedJob 2) 1)
      ⟨queuedRead resid, .answered 0 .doVerify fioQCompleted, .idle, [], []⟩ := by
  rw [Machine.start, loggedJob_initIoU]
  have heq : ∀ (td : Td) u, ((firstRead td).ioUs u).flight = (td.ioUs u).flight ∧
      ((firstRead td).ioUs u).free = (td.ioUs u).free ∧
      ((firstRead td).ioUs u).freeDef = (td.ioUs u).freeDef ∧
      ((firstRead td).ioUs u).inCurDepth = (td.ioUs u).inCurDepth := by
    intro td u
    by_cases hu : u = 0
    · subst hu
      exact ⟨rfl, rfl, rfl, rfl⟩
    · simp [firstRead, setIoU, hu]
  have htk : (loggedJob 2).getIoU = .ok (some 0, ((loggedJob 2).blankIoU 0).handOut 0) := rfl
  have hr : (firstRead (((loggedJob 2).blankIoU 0).handOut 0)).tdIoQueue goOnOptions 0
      (residRound resid).hook = .ok (queuedRead resid) := rfl
  refine .tail (.tail (.tail .refl ⟨.none, hno _, .take htk⟩) ⟨.none, hno _, .edit ?_ ?_ ?_⟩)
    ⟨_, hqu _ 0, .queue .doVerify hr⟩
  · exact ⟨rfl, rfl, rfl, rfl, rfl, fun u => (heq _ u).2.1, fun u => (heq _ u).2.2.1,
      fun u => (heq _ u).2.2.2⟩
  · exact fun u => (heq _ u).1
  · intro u caller ret h
    cases h

theorem free_not_inFlight_read :
    ∃ m, Machine.Runs goOnOptions Machine.Tidy (.start goOnOptions (loggedJob 2) 1) m ∧
      0 ∈ m.td.ioUFreelist ∧ (m.td.ioUs 0).flight = false := by
  have htd : ∀ (m : Machine) u, m.Tidy (.queue .doVerify u (residRound 0).hook) := fun m u =>
    ⟨fun hneg => absurd hneg (by decide), fun hbs => absurd hbs (by decide),
      fun _ _ _ hrs => absurd rfl hrs⟩
  obtain ⟨td', hput, hfr⟩ : ∃ td', ((queuedRead 0).land 0).putIoU 0 0 = .ok td' ∧
      0 ∈ td'.ioUFreelist := by decide +kernel
  have hrn := (((queuedRead_runs (fun _ => trivial) htd).tail
    ⟨.none, trivial, .done rfl (.inl rfl)⟩).tail ⟨.none, trivial, .land rfl⟩).tail
    ⟨.none, trivial, .handle⟩
  have hrn := hrn.tail ⟨.none, trivial, .putBack rfl hput⟩
  exact ⟨_, hrn, hfr, (free_not_inFlight _ _ _ hrn).1 0 (.inl hfr)⟩

/-- A read that the engine completes without a byte: the unit is free and in flight, and the next
    read of the phase stops at the assertion of `td_io_queue`. -/
theorem free_inFlight :
    (∃ m, Machine.Runs goOnOptions (fun _ _ => True) (.start goOnOptions (loggedJob 2) 1) m ∧
      0 ∈ m.td.ioUFreelist ∧ (m.td.ioUs 0).flight = true) ∧
    (loggedJob 2).doVerify sumChecksums (fun _ => 0) goOnOptions
      ⟨[], [residRound 4096, residRound 0], .events [], ⟨.events [], none, fun _ => 0, .events []⟩⟩ =
        .error (.assertFailed .tdIoQueue) := by
  obtain ⟨td', hput, hmem, hflg⟩ : ∃ td', (queuedRead 4096).putIoU 0 0 = .ok td' ∧
      0 ∈ td'.ioUFreelist ∧ (td'.ioUs 0).flight = true := by decide +kernel
  have hrn := @queuedRead_runs (fun _ _ => True) 4096 (fun _ => trivial) fun _ _ => trivial
  have hrn := hrn.tail ⟨.none, trivial, .zero rfl (by decide) rfl (by decide) hput⟩
  refine ⟨⟨_, hrn, hmem, hflg⟩, ?_⟩
  rfl

end FioSsd
