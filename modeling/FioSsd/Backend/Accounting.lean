import FioSsd.Backend.GetIoU
import FioSsd.Backend.Machine

/-! # Queued and in flight

`io_u_queued` counts the read and write units an engine has taken and `td_io_commit` has not
reported on, `io_u_in_flight` those it has. -/

namespace FioSsd

open List

variable {minEvents : Nat} {reap : Reap} {td td' : Td}

/-- A job with the units its engine has taken and not handed back, each with the direction it was
    queued in, and whether `io_u_in_flight` ever went below 0. -/
structure Accounts where
  td : Td
  held : List (Nat × Ddir)
  wrapped : Bool

inductive AccountsCall
  | queue (u : Nat) (hook : QueueHook)
  | commit (ret : Int)
  | getevents (minEvents : Nat) (reap : Reap)
  | beside

namespace Accounts

def start (td : Td) : Accounts := ⟨{ td with ioUQueued := 0, ioUInFlight := 0 }, [], false⟩

def heldRw (s : Accounts) : Nat := s.held.countP (ddirRw ·.2)

/-- One call, in a job of `n` units. -/
inductive Step (o : ThreadOptions) (n : Nat) : AccountsCall → Accounts → Accounts → Prop
  | queue {s : Accounts} {u : Nat} {hook : QueueHook} {td' : Td} (hu : u < n)
      (hnew : u ∉ s.held.map Prod.fst) (hrun : s.td.tdIoQueue o u hook = .ok td') :
      Step o n (.queue u hook) s
        ⟨td', if hook.ret = fioQQueued then (u, (s.td.ioUs u).ddir) :: s.held else s.held,
          s.wrapped⟩
  | commit {s : Accounts} {ret : Int} : Step o n (.commit ret) s ⟨s.td.tdIoCommit ret, s.held, s.wrapped⟩
  | getevents {s : Accounts} {minEvents : Nat} {reap : Reap} {evs : List Event} {td' : Td}
      (hrun : s.td.tdIoGetevents o minEvents reap = (.ok evs, td'))
      (hnodup : (evs.map Event.ioU).Nodup) (hheld : evs.map Event.ioU ⊆ s.held.map Prod.fst) :
      Step o n (.getevents minEvents reap) s
        ⟨td', s.held.filter (fun unit => unit.1 ∉ evs.map Event.ioU),
          s.wrapped || s.td.ioUInFlight < evs.length⟩
  | failed {s : Accounts} {minEvents : Nat} {reap : Reap} {err : Nat} {td' : Td}
      (hrun : s.td.tdIoGetevents o minEvents reap = (.error err, td')) :
      Step o n (.getevents minEvents reap) s ⟨td', s.held, s.wrapped⟩
  | beside {s : Accounts} {td' : Td} (hqueued : td'.ioUQueued = s.td.ioUQueued)
      (hflight : td'.ioUInFlight = s.td.ioUInFlight) : Step o n .beside s ⟨td', s.held, s.wrapped⟩

/-- **Nothing is reaped before it is committed, and only reads and writes are queued.** -/
def Ready (s : Accounts) : AccountsCall → Prop
  | .queue u hook => hook.ret = fioQQueued → ddirRw (s.td.ioUs u).ddir = true
  | .getevents _ (.events evs) => s.td.ioUQueued = 0 ∨ evs = []
  | _ => True

def Runs (o : ThreadOptions) (n : Nat) : Accounts → Accounts → Prop :=
  Relation.ReflTransGen fun s s' => ∃ call, s.Ready call ∧ Step o n call s s'

structure Exact (s : Accounts) : Prop where
  sum : s.td.ioUQueued + s.td.ioUInFlight = s.heldRw
  floor : s.wrapped = false

structure Held (n : Nat) (s : Accounts) : Prop where
  below : ∀ unit ∈ s.held, unit.1 < n
  nodup : (s.held.map Prod.fst).Nodup
  rw : ∀ unit ∈ s.held, ddirRw unit.2 = true

end Accounts

namespace Td

lemma tdIoCommit_sum (ret : Int) (h : td.ioUQueued + td.ioUInFlight < 2 ^ 32) :
    (td.tdIoCommit ret).ioUQueued + (td.tdIoCommit ret).ioUInFlight =
      td.ioUQueued + td.ioUInFlight := by
  unfold tdIoCommit
  by_cases hsk : td.curDepth = 0 ∨ td.ioUQueued = 0
  · rw [if_pos hsk]
  · rw [if_neg hsk]
    have hkp : ∀ err, (td.tdVerror err).ioUInFlight = td.ioUInFlight ∧
        (td.tdVerror err).ioUQueued = td.ioUQueued := by
      intro err
      rw [tdVerror_eq]
      exact ⟨rfl, rfl⟩
    have hmod := Nat.mod_eq_of_lt (Nat.add_comm .. ▸ h)
    by_cases hret : ret ≠ 0
    · simp only [if_pos hret, (hkp (-ret)).1, (hkp (-ret)).2, hmod]
      omega
    · simp only [if_neg hret, hmod]
      omega

variable {o : ThreadOptions}

lemma tdIoQueue_sum {u : Nat} {hook : QueueHook}
    (hfit : td.ioUQueued + td.ioUInFlight + 1 < 2 ^ 32) (hr : td.tdIoQueue o u hook = .ok td') :
    td'.ioUQueued + td'.ioUInFlight = td.ioUQueued + td.ioUInFlight +
      if hook.ret = fioQQueued ∧ ddirRw (td.ioUs u).ddir = true then 1 else 0 := by
  have hcl : (td.callQueue u hook).ioUQueued = td.ioUQueued ∧
      (td.callQueue u hook).ioUInFlight = td.ioUInFlight ∧
      ((td.callQueue u hook).ioUs u).ddir = (td.ioUs u).ddir := by
    rw [callQueue_eq]
    exact ⟨rfl, rfl, by simp [setIoU, IoU.transferred]⟩
  obtain ⟨hq, hf, hddi⟩ := hcl
  unfold tdIoQueue at hr
  cases hfl : (td.ioUs u).file with
  | none => simp [hfl] at hr
  | some f =>
    simp only [hfl] at hr
    split_ifs at hr with hflg hopn hque
    · cases hr
      unfold countQueued
      by_cases hrw : ddirRw (td.ioUs u).ddir
      · -- one more unit is queued before the batch is looked at
        simp only [hddi, hrw, hque, and_self, if_true]
        have hone : (td.callQueue u hook).ioUQueued + 1 < 2 ^ 32 := by omega
        split_ifs
        · rw [tdIoCommit_sum]
          all_goals
            simp only [hq, hf]
            omega
        · simp only [hq, hf]
          omega
      · simp only [hddi, hrw, and_false, if_false, Bool.false_eq_true]
        split_ifs
        · rw [tdIoCommit_sum _ (by omega), hq, hf, add_zero]
        · rw [hq, hf, add_zero]
    · cases hr
      rw [if_neg (fun h => hque h.1), hq, hf, add_zero]

variable {evs : List Event}

lemma tdIoGetevents_sum (hfit : td.ioUInFlight < 2 ^ 32) (hle : evs.length ≤ td.ioUInFlight)
    (h : td.tdIoGetevents o minEvents reap = (.ok evs, td')) :
    td'.ioUQueued = td.ioUQueued ∧ td'.ioUInFlight + evs.length = td.ioUInFlight := by
  unfold tdIoGetevents at h
  cases reap with
  | fails err pos =>
    simp only at h
    split_ifs at h with hmax
    · obtain ⟨hevs, rfl⟩ := Prod.mk.inj h
      cases hevs
      exact ⟨rfl, rfl⟩
    · exact absurd (Prod.mk.inj h).1 (by simp)
  | events evs' =>
    obtain ⟨hevs, rfl⟩ := Prod.mk.inj h
    have heq := Except.ok.inj hevs
    rw [heq]
    refine ⟨rfl, ?_⟩
    simp only
    rw [Nat.mod_eq_of_lt (lt_of_le_of_lt hle hfit)]
    have hsp : td.ioUInFlight + 2 ^ 32 - evs.length =
        td.ioUInFlight - evs.length + 2 ^ 32 := by omega
    rw [hsp, Nat.add_mod_right, Nat.mod_eq_of_lt (by omega)]
    omega

lemma tdIoGetevents_failed
    {err : Nat} (h : td.tdIoGetevents o minEvents reap = (.error err, td')) :
    td'.ioUQueued = td.ioUQueued ∧ td'.ioUInFlight = td.ioUInFlight := by
  unfold tdIoGetevents at h
  cases reap with
  | fails err' pos =>
    simp only at h
    split_ifs at h with hmax
    · exact absurd (Prod.mk.inj h).1 (by simp)
    · cases h
      rw [tdVerror_eq]
      exact ⟨rfl, rfl⟩
  | events evs => exact absurd (Prod.mk.inj h).1 (by simp)

end Td

namespace Accounts

variable {o : ThreadOptions} {n : Nat} {s s' : Accounts}

lemma Held.heldRw_eq (h : Held n s) : s.heldRw = s.held.length :=
  countP_eq_length.2 h.rw

lemma Held.length_le (h : Held n s) : s.held.length ≤ n := by
  have hsub : s.held.map Prod.fst ⊆ List.range n := by
    intro u hu
    obtain ⟨unit, hun, rfl⟩ := mem_map.1 hu
    exact mem_range.2 (h.below unit hun)
  have hle := (subperm_of_subset h.nodup hsub).length_le
  simpa using hle

lemma length_filter_held {held : List (Nat × Ddir)} {us : List Nat}
    (h : (held.map Prod.fst).Nodup) (hus : us.Nodup) (hsub : us ⊆ held.map Prod.fst) :
    (held.filter (fun unit => unit.1 ∉ us)).length + us.length = held.length := by
  have hsp := length_eq_length_filter_add (l := held) (fun unit => decide (unit.1 ∈ us))
  have hpr : ((held.filter (fun unit => unit.1 ∈ us)).map Prod.fst).Perm us := by
    refine (perm_ext_iff_of_nodup ?_ hus).2 ?_
    · exact h.sublist (filter_sublist.map _)
    · intro u
      constructor
      · intro hu
        obtain ⟨unit, hun, rfl⟩ := mem_map.1 hu
        exact of_decide_eq_true (mem_filter.1 hun).2
      · intro hu
        obtain ⟨unit, hun, rfl⟩ := mem_map.1 (hsub hu)
        exact mem_map.2 ⟨unit, mem_filter.2 ⟨hun, decide_eq_true hu⟩, rfl⟩
  have hlen := hpr.length_eq
  rw [length_map] at hlen
  have hnot : held.filter (fun unit => unit.1 ∉ us) =
      held.filter (fun unit => !decide (unit.1 ∈ us)) := by
    simp
  rw [hnot]
  omega

lemma Ready.events (hrd : s.Ready (.getevents minEvents reap))
    (h : s.td.tdIoGetevents o minEvents reap = (.ok evs, td')) : s.td.ioUQueued = 0 ∨ evs = [] := by
  unfold Td.tdIoGetevents at h
  cases reap with
  | fails err pos =>
    simp only at h
    split_ifs at h with hmax
    · exact .inr (Except.ok.inj (Prod.mk.inj h).1).symm
    · exact absurd (Prod.mk.inj h).1 (by simp)
  | events evs' =>
    have hevs := Except.ok.inj (Prod.mk.inj h).1
    rcases hrd with hno | hemp
    · exact .inl hno
    · refine .inr ?_
      rw [← hevs, hemp]
      split_ifs <;> rfl

lemma exact_step (hn : n < 2 ^ 32) {call : AccountsCall} (hex : s.Exact) (hhl : s.Held n)
    (hrd : s.Ready call) (hst : Step o n call s s') : s'.Exact ∧ s'.Held n := by
  have hsum := hex.sum.trans hhl.heldRw_eq
  have hle := hhl.length_le
  cases hst with
  | @queue _ u hook td' hu hnew hr =>
    -- the unit itself is not held, so there is room for one more
    have hrm : s.held.length + 1 ≤ n := by
      have hcn : Held n ⟨s.td, (u, .read) :: s.held, false⟩ := by
        refine ⟨?_, nodup_cons.2 ⟨hnew, hhl.nodup⟩, ?_⟩
        · simpa using ⟨hu, fun a b hab => hhl.below _ hab⟩
        · simpa [ddirRw] using fun a b hab => hhl.rw _ hab
      exact hcn.length_le
    have hadd := Td.tdIoQueue_sum (by omega) hr
    by_cases hque : hook.ret = fioQQueued
    · have hrw := hrd hque
      have hhl' : Held n ⟨td', (u, (s.td.ioUs u).ddir) :: s.held, s.wrapped⟩ := by
        refine ⟨?_, nodup_cons.2 ⟨hnew, hhl.nodup⟩, ?_⟩
        · simpa using ⟨hu, fun a b hab => hhl.below _ hab⟩
        · simpa using ⟨hrw, fun a b hab => hhl.rw _ hab⟩
      rw [if_pos hque]
      refine ⟨⟨?_, hex.floor⟩, hhl'⟩
      rw [hhl'.heldRw_eq, hadd, if_pos ⟨hque, hrw⟩, hsum]
      rfl
    · rw [if_neg hque]
      rw [if_neg (fun h => hque h.1), Nat.add_zero] at hadd
      exact ⟨⟨hadd.trans hex.sum, hex.floor⟩, ⟨hhl.below, hhl.nodup, hhl.rw⟩⟩
  | commit =>
    exact ⟨⟨(Td.tdIoCommit_sum _ (by omega)).trans hex.sum, hex.floor⟩,
      ⟨hhl.below, hhl.nodup, hhl.rw⟩⟩
  | @getevents _ minEvents reap evs td' hr hnd hsub =>
    have hsp := length_filter_held hhl.nodup hnd hsub
    rw [length_map] at hsp
    have hin : evs.length ≤ s.td.ioUInFlight := by
      rcases hrd.events hr with hno | rfl
      · omega
      · exact Nat.zero_le _
    obtain ⟨hq, hf⟩ := Td.tdIoGetevents_sum (by omega) hin hr
    have hhl' : Held n ⟨td', s.held.filter (fun unit => unit.1 ∉ evs.map Event.ioU),
        s.wrapped || s.td.ioUInFlight < evs.length⟩ := by
      refine ⟨fun unit h => hhl.below _ (mem_filter.1 h).1,
        hhl.nodup.sublist (filter_sublist.map _),
        fun unit h => hhl.rw _ (mem_filter.1 h).1⟩
    refine ⟨⟨?_, ?_⟩, hhl'⟩
    · rw [hhl'.heldRw_eq]
      simp only
      omega
    · simpa [hex.floor] using hin
  | failed hr =>
    obtain ⟨hq, hf⟩ := Td.tdIoGetevents_failed hr
    exact ⟨⟨by rw [hq, hf]; exact hex.sum, hex.floor⟩, ⟨hhl.below, hhl.nodup, hhl.rw⟩⟩
  | beside hque hflg =>
    exact ⟨⟨by rw [hque, hflg]; exact hex.sum, hex.floor⟩, ⟨hhl.below, hhl.nodup, hhl.rw⟩⟩

/-- **The counters are exact** over every run that reaps only what went through `td_io_commit` and
    whose engine queues only reads and writes. -/
theorem inFlight_exact (o : ThreadOptions) {n : Nat} (hn : n < 2 ^ 32) (td : Td) (s : Accounts)
    (hruns : Runs o n (start td) s) : s.Exact := by
  have hbt : s.Exact ∧ s.Held n := by
    induction hruns with
    | refl => exact ⟨⟨rfl, rfl⟩, ⟨by simp [start], nodup_nil, by simp [start]⟩⟩
    | tail _ hst ih =>
      obtain ⟨call, hrd, hst⟩ := hst
      exact exact_step hn ih.1 ih.2 hrd hst
  exact hbt.1

def readJob : Td := {
  hist := { files := fun _ => { isOpen := true } }
  ioUs := fun _ => { file := some 0 }
  curDepth := 1 }

def queues : QueueHook := ⟨fioQQueued, ⟨0, 0, fun _ => 0⟩, 0, 0⟩

def handsBack : Reap := .events [⟨0, ⟨0, 0, fun _ => 0⟩, 0, 0⟩]

def batchesOf (batch : Nat) : ThreadOptions :=
  { defaultOptions with iodepth := 4, iodepthBatch := batch }

/-- With batches of one the read is in flight behind `td_io_queue`, and `td_io_getevents` reaps it. -/
theorem inFlight_exact_batchOne :
    ∃ s s', Step (batchesOf 1) 4 (.queue 0 queues) (start readJob) s ∧ s.td.ioUInFlight = 1 ∧
      Step (batchesOf 1) 4 (.getevents 1 handsBack) s s' ∧ s'.td.ioUInFlight = 0 ∧ s'.Exact := by
  have hqueue : Step (batchesOf 1) 4 (.queue 0 queues) (start readJob) _ :=
    .queue (by decide) (by simp [start]) rfl
  refine ⟨_, _, hqueue, by decide +kernel, .getevents rfl (by decide) (by decide +kernel),
    by decide +kernel, ?_⟩
  exact inFlight_exact (batchesOf 1) (n := 4) (by decide) readJob _ (.head
    ⟨.queue 0 queues, fun _ => rfl, hqueue⟩
    (.single ⟨.getevents 1 handsBack, .inl (by decide +kernel),
      .getevents rfl (by decide) (by decide +kernel)⟩))

/-- A batch of four with one read in it: `td_io_getevents` reaps the read while `io_u_queued` still
    counts it, and `io_u_in_flight` goes from 0 to `2 ^ 32 - 1`. -/
theorem inFlight_wraps :
    ∃ s s', Step (batchesOf 4) 4 (.queue 0 queues) (start readJob) s ∧
      s.td.ioUQueued = 1 ∧ s.td.ioUInFlight = 0 ∧
      Step (batchesOf 4) 4 (.getevents 1 handsBack) s s' ∧ s'.heldRw = 0 ∧
      s'.td.ioUQueued = 1 ∧ s'.td.ioUInFlight = 2 ^ 32 - 1 ∧ s'.wrapped = true ∧ ¬ s'.Exact := by
  have hqu : Step (batchesOf 4) 4 (.queue 0 queues) (start readJob) _ :=
    .queue (by decide) (by simp [start]) rfl
  refine ⟨_, _, hqu, by decide +kernel, by decide +kernel,
    .getevents rfl (by decide) (by decide +kernel), by decide +kernel, by decide +kernel,
    by decide +kernel, by decide +kernel, ?_⟩
  intro hex
  exact absurd hex.floor (by decide +kernel)

end Accounts

end FioSsd
