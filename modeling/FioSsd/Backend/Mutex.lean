import Mathlib.Tactic

/-! # Semaphores

`fio_mutex` (`mutex.c`) is a counter under a pthread mutex, with a condition variable for the threads that
find it 0. A wait gives the lock up and has it again when it returns, also when the time is over. -/

namespace FioSsd

open Function Finset

/-- A `fio_mutex`; `held` says that the caller has the pthread mutex. -/
structure FioMutex where
  held : Bool
  (value waiters : Int)

/-- The end of a `pthread_cond_timedwait`: its result, `mutex_timed_out` behind it, and what the other
    threads have added to `value` and `waiters` meanwhile. -/
structure WaitEnd where
  ret : Nat
  timedOut : Bool
  (value waiters : Int)

def etimedout : Nat := 110

inductive DownEnd
  | returns (ret : Nat) (m : FioMutex)
  | relocks
  | waits

namespace FioMutex

variable (m : FioMutex)

def lock (next : FioMutex → DownEnd) : DownEnd :=
  if m.held then .relocks else next { m with held := true }

def leave (ret : Nat) : DownEnd :=
  if ret = 0 then .returns ret { m with value := m.value - 1, held := false } else .returns ret m

def timedLoop : List WaitEnd → Nat → FioMutex → DownEnd
  | [], ret, m => if m.value = 0 ∧ ret = 0 then .waits else m.leave ret
  | w :: waits, ret, m =>
    if m.value = 0 ∧ ret = 0 then
      let m := { m with waiters := m.waiters + 1 }
      let m := { m with value := m.value + w.value, waiters := m.waiters + w.waiters }
      if w.ret = etimedout ∧ !w.timedOut then
        m.lock fun m => timedLoop waits 0 { m with waiters := m.waiters - 1 }
      else timedLoop waits w.ret { m with waiters := m.waiters - 1 }
    else m.leave ret

def fioMutexDownTimeout (waits : List WaitEnd) : DownEnd :=
  m.lock (timedLoop waits 0)

def usedWaits : Int → List WaitEnd → List WaitEnd
  | _, [] => []
  | value, w :: waits =>
    if value ≠ 0 then [] else w :: if w.ret = 0 then usedWaits (value + w.value) waits else []

/-- What a call promises, up to what the other threads do during its waits. -/
def EndsUsable (value waiters : Int) (used : List WaitEnd) : DownEnd → Prop
  | .returns ret m =>
    m.held = false ∧ m.waiters = waiters + (used.map (·.waiters)).sum ∧
      m.value = value + (used.map (·.value)).sum - if ret = 0 then 1 else 0
  | .relocks => False
  | .waits => True

lemma timedLoop_leaves {m : FioMutex} {ret : Nat} {waits : List WaitEnd}
    (h : ¬(m.value = 0 ∧ ret = 0)) : timedLoop waits ret m = m.leave ret := by
  cases waits <;> exact if_neg h

lemma endsUsable_cons {value waiters : Int} {w : WaitEnd} {used : List WaitEnd} {e : DownEnd} :
    EndsUsable value waiters (w :: used) e ↔
      EndsUsable (value + w.value) (waiters + w.waiters) used e := by
  cases e <;> simp [EndsUsable, add_assoc]

lemma timedLoop_usable_iff (waits : List WaitEnd) (value waiters : Int) :
    EndsUsable value waiters (usedWaits value waits) (timedLoop waits 0 ⟨true, value, waiters⟩) ↔
      ∀ w ∈ usedWaits value waits, w.ret = 0 := by
  induction waits generalizing value waiters with
  | nil =>
    refine iff_of_true ?_ (by simp [usedWaits])
    by_cases hval : value = 0 <;> simp [timedLoop, usedWaits, EndsUsable, leave, hval]
  | cons w waits ih =>
    by_cases hval : value = 0
    · subst hval
      rw [timedLoop, if_pos ⟨rfl, rfl⟩, usedWaits, if_neg (by simp)]
      dsimp only
      by_cases hret : w.ret = 0
      · -- the counter may have changed meanwhile, and is tested again
        have hcnc : waiters + 1 + w.waiters - 1 = waiters + w.waiters := by omega
        rw [if_pos hret, if_neg (by simp [hret, etimedout]), endsUsable_cons, hret, hcnc, ih]
        simp [hret]
      · rw [if_neg hret]
        refine iff_of_false ?_ (by simp [hret])
        split_ifs with her
        · exact not_false
        · rw [timedLoop_leaves (by simp [hret]), leave, if_neg hret]
          simp [EndsUsable]
    · refine iff_of_true ?_ (by simp [usedWaits, hval])
      rw [timedLoop_leaves (by simp [hval])]
      simp [EndsUsable, leave, usedWaits, hval]

theorem fioMutexDownTimeout_usable_iff (value waiters : Int) (waits : List WaitEnd) :
    EndsUsable value waiters (usedWaits value waits)
        (fioMutexDownTimeout ⟨false, value, waiters⟩ waits) ↔
      ∀ w ∈ usedWaits value waits, w.ret = 0 :=
  timedLoop_usable_iff waits value waiters

/-- The time is over: the mutex stays locked. -/
theorem fioMutexDownTimeout_keeps_lock : ¬EndsUsable 0 0 (usedWaits 0 [⟨etimedout, true, 0, 0⟩])
    (fioMutexDownTimeout ⟨false, 0, 0⟩ [⟨etimedout, true, 0, 0⟩]) := by
  intro hen
  exact absurd hen.1 (by decide)

end FioMutex

/-- Where a thread is: outside, in a wait that nobody has ended, in one that was ended and needs the lock
    again, or with the lock in `fio_mutex_down` or `fio_mutex_up`. -/
inductive Place
  | outside | waiting | woken | inDown | inUp
  deriving DecidableEq

structure Monitor (n : Nat) where
  (value waiters : Nat)
  places : Fin n → Place

namespace Monitor

variable {n : Nat} {s s' : Monitor n} {i j : Fin n}

def Free (s : Monitor n) : Prop := ∀ i, s.places i ≠ .inDown ∧ s.places i ≠ .inUp

/-- A thread goes on until it gives up the lock or has it. -/
inductive Step : Monitor n → Monitor n → Prop
  | enterDown {s : Monitor n} {i : Fin n} (out : s.places i = .outside) (free : s.Free) :
    Step s { s with places := update s.places i .inDown }
  | sleep {s : Monitor n} {i : Fin n} (down : s.places i = .inDown) (zero : s.value = 0) :
    Step s { s with waiters := s.waiters + 1, places := update s.places i .waiting }
  | resume {s : Monitor n} {i : Fin n} (woken : s.places i = .woken) (free : s.Free) :
    Step s { s with waiters := s.waiters - 1, places := update s.places i .inDown }
  | take {s : Monitor n} {i : Fin n} (down : s.places i = .inDown) (pos : s.value ≠ 0) :
    Step s { s with value := s.value - 1, places := update s.places i .outside }
  | enterUp {s : Monitor n} {i : Fin n} (out : s.places i = .outside) (free : s.Free) :
    Step s { s with places := update s.places i .inUp }
  | signal {s : Monitor n} {i j : Fin n} (up : s.places i = .inUp) (zero : s.value = 0)
      (waiters : s.waiters ≠ 0) (waits : s.places j = .waiting) :
    Step s { s with value := s.value + 1, places := update (update s.places j .woken) i .outside }
  | up {s : Monitor n} {i : Fin n} (up : s.places i = .inUp)
      (none : s.value ≠ 0 ∨ s.waiters = 0 ∨ ∀ j, s.places j ≠ .waiting) :
    Step s { s with value := s.value + 1, places := update s.places i .outside }

def Stuck (s : Monitor n) : Prop :=
  0 < s.value ∧ (∃ i, s.places i = .waiting) ∧ ∀ i, s.places i = .outside ∨ s.places i = .waiting

def start (n value : Nat) : Monitor n := ⟨value, 0, fun _ => .outside⟩

abbrev Runs : Monitor n → Monitor n → Prop := Relation.ReflTransGen Step

def sleepers (places : Fin n → Place) : Finset (Fin n) :=
  Finset.univ.filter fun i => places i = .waiting ∨ places i = .woken

structure Watched (s : Monitor n) : Prop where
  count : s.waiters = (sleepers s.places).card
  zero : ∀ i, s.places i = .waiting → s.value = 0

lemma Watched.not_stuck (h : s.Watched) : ¬s.Stuck := by
  rintro ⟨hpos, ⟨i, hi⟩, -⟩
  exact absurd (h.zero i hi) hpos.ne'

lemma sleepers_update (places : Fin n → Place) (i : Fin n) (x : Place) :
    sleepers (update places i x) =
      if x = .waiting ∨ x = .woken then insert i (sleepers places) else (sleepers places).erase i := by
  ext k
  by_cases hk : k = i
  · subst hk
    split_ifs with hx <;> simp [sleepers, hx]
  · split_ifs with hx <;> simp [sleepers, hk]

variable {places : Fin n → Place}

lemma waiting_of_update {x : Place} {k : Fin n} (hx : x ≠ .waiting)
    (h : update places i x k = .waiting) : k ≠ i ∧ places k = .waiting := by
  have hki : k ≠ i := by
    rintro rfl
    exact hx (by simpa using h)
  exact ⟨hki, by rwa [update_of_ne hki] at h⟩

lemma mem_sleepers :
    i ∈ sleepers places ↔ places i = .waiting ∨ places i = .woken := by
  simp [sleepers]

lemma Watched.move (h : s.Watched) {x : Place} {value : Nat} (hi : i ∉ sleepers s.places)
    (hx : x ≠ .waiting ∧ x ≠ .woken) (h0 : ∀ k, s.places k = .waiting → value = 0) :
    Watched ⟨value, s.waiters, update s.places i x⟩ where
  count := by rw [sleepers_update, if_neg (by simp [hx]), erase_eq_of_notMem hi, h.count]
  zero k hk := h0 k (waiting_of_update hx.1 hk).2

lemma Watched.step (hn : n ≤ 2) (h : s.Watched) (hst : Step s s') : s'.Watched := by
  cases hst with
  | enterDown out free => exact h.move (by simp [mem_sleepers, out]) (by simp) h.zero
  | enterUp out free => exact h.move (by simp [mem_sleepers, out]) (by simp) h.zero
  | @sleep i down zero =>
    refine ⟨?_, fun _ _ => zero⟩
    rw [sleepers_update, if_pos (.inl rfl), card_insert_of_notMem (by simp [mem_sleepers, down]),
      h.count]
  | @resume i woken free =>
    refine ⟨?_, fun k hk => h.zero k (waiting_of_update (by simp) hk).2⟩
    rw [sleepers_update, if_neg (by simp), card_erase_of_mem (mem_sleepers.2 (.inr woken)), h.count]
  | take down pos =>
    exact h.move (by simp [mem_sleepers, down]) (by simp) fun k hk => absurd (h.zero k hk) pos
  | @signal i j up zero waiters waits =>
    have hij : i ≠ j := by
      rintro rfl
      cases up.symm.trans waits
    have hwk : Watched ⟨s.value, s.waiters, update s.places j .woken⟩ := by
      refine ⟨?_, fun _ _ => zero⟩
      rw [sleepers_update, if_pos (.inr rfl), insert_eq_of_mem (mem_sleepers.2 (.inl waits)),
        h.count]
    refine hwk.move (by simp [mem_sleepers, hij, up]) (by simp) fun k hk => ?_
    -- a third thread would go on waiting
    have hkj := (waiting_of_update (by simp) hk).1
    have hki : k ≠ i := by
      rintro rfl
      simp [hij, up] at hk
    omega
  | @up i up none =>
    refine h.move (by simp [mem_sleepers, up]) (by simp) fun k hk => ?_
    rcases none with hval | hwtr | hnbd
    · exact absurd (h.zero k hk) hval
    · rw [h.count, card_eq_zero] at hwtr
      exact absurd (mem_sleepers.2 (.inl hk)) (by simp [hwtr])
    · exact absurd hk (hnbd k)

lemma Watched.runs (hn : n ≤ 2) {value : Nat} (h : Runs (start n value) s) : s.Watched := by
  induction h with
  | refl => exact ⟨by simp [start, sleepers], fun i hi => by cases hi⟩
  | tail _ hst ih => exact ih.step hn hst

section Lost

variable {value waiters : Nat} {places : Fin n → Place}

lemma runs_sleep (i : Fin n) (hi : places i = .outside) (h : Free ⟨0, waiters, places⟩) :
    Runs ⟨0, waiters, places⟩ ⟨0, waiters + 1, update places i .waiting⟩ := by
  have hsl := @Step.sleep n ⟨0, waiters, update places i .inDown⟩ i (update_self ..) rfl
  rw [update_idem] at hsl
  exact .tail (.single (.enterDown hi h)) hsl

lemma runs_signal (i j : Fin n) (hi : places i = .outside) (hj : places j = .waiting)
    (h : waiters ≠ 0) (hfr : Free ⟨0, waiters, places⟩) :
    Runs ⟨0, waiters, places⟩ ⟨1, waiters, update places j .woken⟩ := by
  have hij : j ≠ i := by
    rintro rfl
    cases hi.symm.trans hj
  have hsgn := @Step.signal n ⟨0, waiters, update places i .inUp⟩ i j (update_self ..) rfl h
    ((update_of_ne hij ..).trans hj)
  rw [update_comm hij, update_idem, ← hi, update_eq_self] at hsgn
  exact .tail (.single (.enterUp hi hfr)) hsgn

lemma runs_up (i : Fin n) (hi : places i = .outside) (h : Free ⟨value + 1, waiters, places⟩) :
    Runs ⟨value + 1, waiters, places⟩ ⟨value + 2, waiters, places⟩ := by
  have hup := @Step.up n ⟨value + 1, waiters, update places i .inUp⟩ i (update_self ..)
    (.inl value.succ_ne_zero)
  rw [update_idem, ← hi, update_eq_self] at hup
  exact .tail (.single (.enterUp hi h)) hup

lemma runs_take (i : Fin n) (hi : places i = .woken) (h : Free ⟨value + 1, waiters + 1, places⟩) :
    Runs ⟨value + 1, waiters + 1, places⟩ ⟨value, waiters, update places i .outside⟩ := by
  have htk := @Step.take n ⟨value + 1, waiters, update places i .inDown⟩ i (update_self ..)
    value.succ_ne_zero
  rw [update_idem] at htk
  exact .tail (.single (.resume hi h)) htk

def pair (i j : Fin n) (a b : Place) : Fin n → Place := update (update (fun _ => .outside) j b) i a

lemma pair_cases (i j k : Fin n) (a b : Place) :
    pair i j a b k = a ∨ pair i j a b k = b ∨ pair i j a b k = .outside := by
  by_cases hi : k = i
  · exact .inl (by simp [pair, hi])
  · rw [pair, update_of_ne hi]
    by_cases hj : k = j
    · exact .inr (.inl (by simp [hj]))
    · exact .inr (.inr (update_of_ne hj ..))

lemma free_pair (i j : Fin n) {a b : Place} (h : a ≠ .inDown ∧ a ≠ .inUp)
    (hb : b ≠ .inDown ∧ b ≠ .inUp) : Free ⟨value, waiters, pair i j a b⟩ := by
  intro k
  rcases pair_cases i j k a b with hk | hk | hk <;> simp [hk, h, hb]

lemma runs_lost (h : 3 ≤ n) : ∃ s, Runs (start n 0) s ∧ s.Stuck := by
  obtain ⟨i, j, k, hij, hik, hjk⟩ : ∃ i j k : Fin n, i ≠ j ∧ k ≠ i ∧ k ≠ j :=
    ⟨⟨0, by omega⟩, ⟨1, by omega⟩, ⟨2, by omega⟩, by simp, by simp, by simp⟩
  have hout : ∀ a b, pair i j a b k = .outside := fun a b => by simp [pair, hik, hjk]
  have hsl : Runs (start n 0) ⟨0, 2, pair i j .waiting .waiting⟩ := by
    refine (runs_sleep j rfl fun _ => by simp).trans (runs_sleep i (by simp [hij]) fun l => ?_)
    by_cases hl : l = j <;> simp [hl]
  have hsgn := runs_signal k i (hout .waiting .waiting) (update_self ..) two_ne_zero
    (free_pair i j (by simp) (by simp))
  have hup := @runs_up n 0 2 (pair i j .woken .waiting) k (hout _ _) (free_pair i j (by simp) (by simp))
  have htk := @runs_take n 1 1 (pair i j .woken .waiting) i (update_self ..)
    (free_pair i j (by simp) (by simp))
  rw [pair, update_idem] at hsgn htk
  refine ⟨_, ((hsl.trans hsgn).trans hup).trans htk, one_pos, ⟨j, ?_⟩, fun l => ?_⟩
  · simp [hij.symm]
  · rcases pair_cases i j l .outside .waiting with hl | hl | hl
    · exact .inl hl
    · exact .inr hl
    · exact .inl hl

end Lost

/-- **At most two threads** can use a semaphore without a wake-up being lost. -/
theorem noLostWakeUp_iff (n : Nat) : (∀ value s, Runs (start n value) s → ¬s.Stuck) ↔ n ≤ 2 := by
  constructor
  · intro hnv
    by_contra hn
    obtain ⟨s, hrn, hst⟩ := runs_lost (Nat.lt_of_not_le hn)
    exact hnv 0 s hrn hst
  · exact fun hn value s hrn => (Watched.runs hn hrn).not_stuck

theorem wakeUp_lost : ∃ s, Runs (start 3 0) s ∧ s.Stuck := runs_lost le_rfl

end Monitor

end FioSsd
