import Mathlib.Algebra.BigOperators.Group.Finset.Basic
import Mathlib.Algebra.Order.BigOperators.Group.Finset
import Mathlib.Data.Fintype.Basic
import Mathlib.Data.Finset.Lattice.Fold
import FioSsd.Lib.Memory

/-! # Flow control between jobs

`flow.c`: jobs that name one flow id share a counter. -/

namespace FioSsd

open BitVec List Finset

structure FlowJob where
  (flowId flow flowWatermark : BitVec 32)
  deriving DecidableEq

structure FioFlow where
  id : BitVec 32
  refs : Nat
  flowCounter : BitVec 64
  deriving DecidableEq

def flowGet (id : BitVec 32) : List FioFlow → List FioFlow
  | [] => [⟨id, 1, 0⟩]
  | f :: rest => if f.id = id then { f with refs := f.refs + 1 } :: rest else f :: flowGet id rest

def flowInitJob (flows : List FioFlow) (job : FlowJob) : List FioFlow :=
  if job.flow = 0 then flows else flowGet job.flowId flows

def flowCounter (id : BitVec 32) : List FioFlow → BitVec 64
  | [] => 0
  | f :: rest => if f.id = id then f.flowCounter else flowCounter id rest

def addFlowCounter (id : BitVec 32) (weight : BitVec 64) : List FioFlow → List FioFlow
  | [] => []
  | f :: rest =>
    if f.id = id then { f with flowCounter := f.flowCounter + weight } :: rest
    else f :: addFlowCounter id weight rest

def flowSign (flow : BitVec 32) : BitVec 64 := if 0 < flow.toInt then 1#64 else -1#64

def flowThresholdExceeded (job : FlowJob) (flows : List FioFlow) : Bool × List FioFlow :=
  if job.flow = 0 then (false, flows)
  else if job.flowWatermark.toInt < (flowSign job.flow * flowCounter job.flowId flows).toInt then
    (true, flows)
  else (false, addFlowCounter job.flowId (job.flow.signExtend 64) flows)

def HasFlow (id : BitVec 32) (flows : List FioFlow) : Prop := ∃ f ∈ flows, f.id = id

variable {id id' : BitVec 32} {flows : List FioFlow}

lemma flowCounter_flowGet : flowCounter id (flowGet id' flows) = flowCounter id flows := by
  induction flows with
  | nil =>
    simp [flowGet, flowCounter]
  | cons f rest ih =>
    by_cases hf : f.id = id'
    · rw [flowGet, if_pos hf]
      rfl
    · rw [flowGet, if_neg hf, flowCounter, flowCounter, ih]

lemma hasFlow_flowGet (h : id = id' ∨ HasFlow id flows) : HasFlow id (flowGet id' flows) := by
  induction flows with
  | nil =>
    obtain rfl := h.resolve_right (by simp [HasFlow])
    exact ⟨⟨id, 1, 0⟩, by simp [flowGet], rfl⟩
  | cons f rest ih =>
    by_cases hf : f.id = id'
    · rw [flowGet, if_pos hf]
      rcases h with rfl | ⟨x, hx, hid⟩
      · exact ⟨_, .head _, hf⟩
      · rcases mem_cons.1 hx with rfl | hx
        · exact ⟨_, .head _, hid⟩
        · exact ⟨x, .tail _ hx, hid⟩
    · rw [flowGet, if_neg hf]
      have hrs : (id = id' ∨ HasFlow id rest) ∨ f.id = id := by
        rcases h with h | ⟨x, hx, hid⟩
        · exact .inl (.inl h)
        · rcases mem_cons.1 hx with rfl | hx
          · exact .inr hid
          · exact .inl (.inr ⟨x, hx, hid⟩)
      rcases hrs with hrs | hfr
      · obtain ⟨x, hx, hid⟩ := ih hrs
        exact ⟨x, .tail _ hx, hid⟩
      · exact ⟨f, .head _, hfr⟩

lemma flowCounter_add (h : HasFlow id' flows) (weight : BitVec 64) :
    flowCounter id (addFlowCounter id' weight flows) =
      if id = id' then flowCounter id flows + weight else flowCounter id flows := by
  induction flows with
  | nil => simp [HasFlow] at h
  | cons f rest ih =>
    by_cases hf : f.id = id'
    · rw [addFlowCounter, if_pos hf, flowCounter, flowCounter]
      by_cases hid : id = id'
      · rw [if_pos hid, if_pos (hf.trans hid.symm), if_pos (hf.trans hid.symm)]
      · have hne : ¬ f.id = id := fun heq => hid (heq.symm.trans hf)
        rw [if_neg hid, if_neg hne, if_neg hne]
    · have hrs : HasFlow id' rest := by
        obtain ⟨x, hx, hid⟩ := h
        rcases mem_cons.1 hx with rfl | hx
        · exact absurd hid hf
        · exact ⟨x, hx, hid⟩
      rw [addFlowCounter, if_neg hf, flowCounter, flowCounter, ih hrs]
      by_cases hfid : f.id = id
      · have hne : ¬ id = id' := fun heq => hf (hfid.trans heq)
        rw [if_pos hfid, if_pos hfid, if_neg hne]
      · rw [if_neg hfid, if_neg hfid]

lemma hasFlow_add (weight : BitVec 64) (h : HasFlow id flows) :
    HasFlow id (addFlowCounter id' weight flows) := by
  induction flows with
  | nil => simp [HasFlow] at h
  | cons f rest ih =>
    obtain ⟨x, hx, hid⟩ := h
    rw [addFlowCounter]
    rcases mem_cons.1 hx with rfl | hx
    · split_ifs
      · exact ⟨_, .head _, hid⟩
      · exact ⟨x, .head _, hid⟩
    · split_ifs
      · exact ⟨x, .tail _ hx, hid⟩
      · obtain ⟨y, hy, hyid⟩ := ih ⟨x, hx, hid⟩
        exact ⟨y, .tail _ hy, hyid⟩

structure FlowSystem (n : Nat) where
  flows : List FioFlow
  allowed : Fin n → Nat

namespace FlowSystem

variable {n : Nat} (jobs : Fin n → FlowJob)

def start : FlowSystem n :=
  { flows := (List.ofFn jobs).foldl flowInitJob [], allowed := fun _ => 0 }

def step (s : FlowSystem n) (i : Fin n) : FlowSystem n :=
  let called := flowThresholdExceeded (jobs i) s.flows
  { flows := called.2
    allowed := if called.1 then s.allowed else Function.update s.allowed i (s.allowed i + 1) }

def run (calls : List (Fin n)) : FlowSystem n := calls.foldl (step jobs) (start jobs)

def sharing (id : BitVec 32) : Finset (Fin n) := Finset.univ.filter fun i => (jobs i).flowId = id

def total (id : BitVec 32) (s : FlowSystem n) : Int :=
  ∑ i ∈ sharing jobs id, (s.allowed i : Int) * (jobs i).flow.toInt

def maxPositive (id : BitVec 32) : Nat := (sharing jobs id).sup fun i => (jobs i).flow.toInt.toNat
def maxNegative (id : BitVec 32) : Nat :=
  (sharing jobs id).sup fun i => (-(jobs i).flow.toInt).toNat

variable {jobs} {s : FlowSystem n} {i : Fin n} {W : BitVec 32}

lemma mem_sharing : i ∈ sharing jobs id ↔ (jobs i).flowId = id := by
  simp [sharing]

lemma total_update :
    total jobs id { s with allowed := Function.update s.allowed i (s.allowed i + 1) } =
      total jobs id s + if (jobs i).flowId = id then (jobs i).flow.toInt else 0 := by
  have htr : ∀ k ∈ sharing jobs id,
      ((Function.update s.allowed i (s.allowed i + 1) k : Nat) : Int) * (jobs k).flow.toInt =
        (s.allowed k : Int) * (jobs k).flow.toInt + if k = i then (jobs i).flow.toInt else 0 := by
    intro k _
    by_cases hk : k = i
    · subst hk
      simp only [Function.update_self, if_true]
      push_cast
      ring
    · simp [hk]
  rw [total, sum_congr rfl htr, sum_add_distrib, sum_ite_eq', ← total]
  simp [mem_sharing]

/-- The flow of `id`: it exists, its counter is the sum of the allowed weights, and the sum is within
    the watermark by one weight. -/
structure Balanced (jobs : Fin n → FlowJob) (id W : BitVec 32) (s : FlowSystem n) : Prop where
  hasFlow : ∀ i, (jobs i).flow ≠ 0 → HasFlow (jobs i).flowId s.flows
  counter : (flowCounter id s.flows).toInt = total jobs id s
  lower : -(W.toInt + maxNegative jobs id) ≤ total jobs id s
  upper : total jobs id s ≤ W.toInt + maxPositive jobs id

lemma foldl_flowInitJob (id : BitVec 32) (js : List FlowJob) (flows : List FioFlow) :
    flowCounter id (js.foldl flowInitJob flows) = flowCounter id flows ∧
      ∀ id, (HasFlow id flows ∨ ∃ job ∈ js, job.flow ≠ 0 ∧ job.flowId = id) →
        HasFlow id (js.foldl flowInitJob flows) := by
  induction js generalizing flows with
  | nil =>
    refine ⟨rfl, ?_⟩
    intro id h
    exact h.resolve_right (by simp)
  | cons job js ih =>
    obtain ⟨hcnt, hhas⟩ := ih (flowInitJob flows job)
    refine ⟨?_, ?_⟩
    · rw [foldl_cons, hcnt, flowInitJob]
      split_ifs
      · rfl
      · exact flowCounter_flowGet
    · intro id h
      refine hhas id ?_
      rw [flowInitJob]
      rcases h with h | ⟨x, hx, hfl, hid⟩
      · split_ifs
        · exact .inl h
        · exact .inl (hasFlow_flowGet (.inr h))
      · rcases mem_cons.1 hx with rfl | hx
        · rw [if_neg hfl]
          exact .inl (hasFlow_flowGet (.inl hid.symm))
        · exact .inr ⟨x, hx, hfl, hid⟩

lemma balanced_start (hW : 0 ≤ W.toInt) : Balanced jobs id W (start jobs) := by
  obtain ⟨hcnt, hhas⟩ := foldl_flowInitJob id (ofFn jobs) []
  have htl : total jobs id (start jobs) = 0 := by simp [total, start]
  refine ⟨?_, ?_, ?_, ?_⟩
  · intro i hi
    exact hhas _ (.inr ⟨jobs i, by simp, hi, rfl⟩)
  · rw [htl, start, hcnt]
    rfl
  all_goals
    rw [htl]
    omega

lemma toInt_bounds (x : BitVec 32) : -2 ^ 31 ≤ x.toInt ∧ x.toInt < 2 ^ 31 := by
  have hle := le_toInt x
  have hlt := toInt_lt (x := x)
  simp only [Nat.add_one_sub_one] at hle hlt
  exact ⟨hle, hlt⟩

lemma toInt_signExtend (x : BitVec 32) : (x.signExtend 64).toInt = x.toInt :=
  toInt_signExtend_of_le (by norm_num)

lemma le_maxPositive (h : (jobs i).flowId = id) : (jobs i).flow.toInt ≤ maxPositive jobs id := by
  have hle : (jobs i).flow.toInt.toNat ≤ maxPositive jobs id :=
    le_sup (f := fun i => (jobs i).flow.toInt.toNat) (mem_sharing.2 h)
  omega

lemma le_maxNegative (h : (jobs i).flowId = id) : -(jobs i).flow.toInt ≤ maxNegative jobs id := by
  have hle : (-(jobs i).flow.toInt).toNat ≤ maxNegative jobs id :=
    le_sup (f := fun i => (-(jobs i).flow.toInt).toNat) (mem_sharing.2 h)
  omega

lemma maxPositive_le (jobs : Fin n → FlowJob) (id : BitVec 32) :
    maxPositive jobs id ≤ 2 ^ 31 ∧ maxNegative jobs id ≤ 2 ^ 31 := by
  refine ⟨Finset.sup_le ?_, Finset.sup_le ?_⟩
  all_goals
    intro i _
    have := toInt_bounds (jobs i).flow
    omega

lemma Balanced.small (h : Balanced jobs id W s) :
    -2 ^ 33 < (flowCounter id s.flows).toInt ∧ (flowCounter id s.flows).toInt < 2 ^ 33 := by
  obtain ⟨hpos, hneg⟩ := maxPositive_le jobs id
  have hW := toInt_bounds W
  have hlw := h.lower
  have hup := h.upper
  rw [h.counter]
  omega

lemma exceeded_iff {c : BitVec 64} (h : -2 ^ 33 < c.toInt ∧ c.toInt < 2 ^ 33) (f : BitVec 32) :
    W.toInt < (flowSign f * c).toInt ↔
      if 0 < f.toInt then W.toInt < c.toInt else W.toInt < -c.toInt := by
  unfold flowSign
  split_ifs with hf
  · rw [BitVec.one_mul]
  · rw [BitVec.neg_mul, BitVec.one_mul, BitVec.toInt_neg, Int.bmod_eq_of_le (by omega) (by omega)]

lemma step_cases (jobs : Fin n → FlowJob) (s : FlowSystem n) (i : Fin n) :
    (flowThresholdExceeded (jobs i) s.flows).1 = true ∧ step jobs s i = s ∨
    (flowThresholdExceeded (jobs i) s.flows).1 = false ∧
      step jobs s i =
        { flows :=
            if (jobs i).flow = 0 then s.flows
            else addFlowCounter (jobs i).flowId ((jobs i).flow.signExtend 64) s.flows
          allowed := Function.update s.allowed i (s.allowed i + 1) } := by
  by_cases h0 : (jobs i).flow = 0
  · have hcl : flowThresholdExceeded (jobs i) s.flows = (false, s.flows) := by
      rw [flowThresholdExceeded, if_pos h0]
    exact .inr ⟨by rw [hcl], by simp [step, hcl, h0]⟩
  by_cases hexc : (jobs i).flowWatermark.toInt <
      (flowSign (jobs i).flow * flowCounter (jobs i).flowId s.flows).toInt
  · have hcl : flowThresholdExceeded (jobs i) s.flows = (true, s.flows) := by
      rw [flowThresholdExceeded, if_neg h0, if_pos hexc]
    exact .inl ⟨by rw [hcl], by simp [step, hcl]⟩
  · have hcl : flowThresholdExceeded (jobs i) s.flows =
        (false, addFlowCounter (jobs i).flowId ((jobs i).flow.signExtend 64) s.flows) := by
      rw [flowThresholdExceeded, if_neg h0, if_neg hexc]
    refine .inr ⟨by rw [hcl], ?_⟩
    rw [if_neg h0, step, hcl]
    rfl

lemma Balanced.exceeded_iff (hs : Balanced jobs id W s) (hid : (jobs i).flowId = id)
    (hjob : (jobs i).flowWatermark = W ∧ (jobs i).flow ≠ 0) :
    (flowThresholdExceeded (jobs i) s.flows).1 = true ↔
      if 0 < (jobs i).flow.toInt then W.toInt < total jobs id s
      else W.toInt < -total jobs id s := by
  rw [← hs.counter, ← FlowSystem.exceeded_iff hs.small, flowThresholdExceeded, if_neg hjob.2, hid,
    hjob.1]
  by_cases hexc : W.toInt < (flowSign (jobs i).flow * flowCounter id s.flows).toInt
  · rw [if_pos hexc]
    exact ⟨fun _ => hexc, fun _ => rfl⟩
  · rw [if_neg hexc]
    exact ⟨fun h => absurd h Bool.false_ne_true, fun h => absurd h hexc⟩

lemma Balanced.step (hs : Balanced jobs id W s)
    (hjb : ∀ i, (jobs i).flowId = id → (jobs i).flowWatermark = W ∧ (jobs i).flow ≠ 0)
    (i : Fin n) : Balanced jobs id W (step jobs s i) := by
  rcases step_cases jobs s i with ⟨-, hst⟩ | ⟨halw, hst⟩
  · rw [hst]
    exact hs
  have htl : total jobs id (FlowSystem.step jobs s i) =
      total jobs id s + if (jobs i).flowId = id then (jobs i).flow.toInt else 0 := by
    rw [hst]
    exact total_update
  have hhas : ∀ k, (jobs k).flow ≠ 0 → HasFlow (jobs k).flowId (FlowSystem.step jobs s i).flows := by
    intro k hk
    rw [hst]
    dsimp only
    split_ifs
    · exact hs.hasFlow k hk
    · exact hasFlow_add _ (hs.hasFlow k hk)
  by_cases hid : (jobs i).flowId = id
  · -- a call of a job of this flow: it was not beyond the watermark, and moves by its weight
    obtain ⟨hwtr, hfl⟩ := hjb i hid
    have hsd := hs.exceeded_iff hid ⟨hwtr, hfl⟩
    rw [halw] at hsd
    have hpos := le_maxPositive hid
    have hneg := le_maxNegative hid
    have hlw := hs.lower
    have hup := hs.upper
    rw [if_pos hid] at htl
    refine ⟨hhas, ?_, ?_, ?_⟩
    · have hcnt : flowCounter id (FlowSystem.step jobs s i).flows =
          flowCounter id s.flows + (jobs i).flow.signExtend 64 := by
        rw [hst]
        rw [if_neg hfl, flowCounter_add (hs.hasFlow i hfl), if_pos hid.symm]
      have hsm := hs.small
      have hwgh := toInt_bounds (jobs i).flow
      rw [hcnt, toInt_add, toInt_signExtend, Int.bmod_eq_of_le (by omega) (by omega),
        htl, hs.counter]
    · rw [htl]
      split_ifs at hsd with hf
      · omega
      · have : ¬ W.toInt < -total jobs id s := fun h => by simpa using hsd.2 h
        omega
    · rw [htl]
      split_ifs at hsd with hf
      · have : ¬ W.toInt < total jobs id s := fun h => by simpa using hsd.2 h
        omega
      · omega
  · -- a call of a job of another flow
    rw [if_neg hid, add_zero] at htl
    refine ⟨hhas, ?_, by rw [htl]; exact hs.lower, by rw [htl]; exact hs.upper⟩
    rw [htl, ← hs.counter, hst]
    dsimp only
    split_ifs with hfl
    · rfl
    · rw [flowCounter_add (hs.hasFlow i hfl), if_neg (Ne.symm hid)]

lemma balanced_run (hW : 0 ≤ W.toInt)
    (h : ∀ i, (jobs i).flowId = id → (jobs i).flowWatermark = W ∧ (jobs i).flow ≠ 0)
    (calls : List (Fin n)) : Balanced jobs id W (run jobs calls) := by
  induction calls using reverseRecOn with
  | nil => exact balanced_start hW
  | append_singleton calls i ih =>
    rw [run, foldl_append]
    exact ih.step h i

/-- **Jobs of one flow stay in proportion, and one of them may always proceed.** -/
theorem flow_in_proportion (jobs : Fin n → FlowJob) (id W : BitVec 32) (hW : 0 ≤ W.toInt)
    (hjobs : ∀ i, (jobs i).flowId = id → (jobs i).flowWatermark = W ∧ (jobs i).flow ≠ 0)
    (calls : List (Fin n)) :
    -(W.toInt + maxNegative jobs id) ≤ total jobs id (run jobs calls) ∧
      total jobs id (run jobs calls) ≤ W.toInt + maxPositive jobs id ∧
      ((∃ i, (jobs i).flowId = id ∧ 0 < (jobs i).flow.toInt) →
        (∃ i, (jobs i).flowId = id ∧ (jobs i).flow.toInt < 0) →
        ∃ i, (jobs i).flowId = id ∧
          (flowThresholdExceeded (jobs i) (run jobs calls).flows).1 = false) := by
  have hs := balanced_run hW hjobs calls
  refine ⟨hs.lower, hs.upper, ?_⟩
  rintro ⟨i, hi, hpos⟩ ⟨k, hk, hneg⟩
  -- the counter is not beyond the watermark on both sides
  by_cases hhg : W.toInt < total jobs id (run jobs calls)
  · refine ⟨k, hk, ?_⟩
    rw [← Bool.not_eq_true, hs.exceeded_iff hk (hjobs k hk), if_neg (by omega)]
    omega
  · refine ⟨i, hi, ?_⟩
    rw [← Bool.not_eq_true, hs.exceeded_iff hi (hjobs i hi), if_pos hpos]
    exact hhg

def twoJobs (i : Fin 2) : FlowJob := ⟨7, if i = 0 then 3 else -2, 10⟩

theorem flow_in_proportion_two :
    total twoJobs 7 (run twoJobs [0, 1, 0]) ≤ 10 + maxPositive twoJobs 7 ∧
      ∃ i, (twoJobs i).flowId = 7 ∧
        (flowThresholdExceeded (twoJobs i) (run twoJobs [0, 1, 0]).flows).1 = false := by
  have h := flow_in_proportion twoJobs 7 10 (by decide) (by decide) [0, 1, 0]
  exact ⟨h.2.1, h.2.2 ⟨0, by decide⟩ ⟨1, by decide⟩⟩

lemma allowed_step (hid : (jobs i).flowId = id) (hpos : 0 < (jobs i).flow.toInt) :
    ((∑ k, (step jobs s i).allowed k : Nat) : Int) - total jobs id (step jobs s i) ≤
      (∑ k, s.allowed k : Nat) - total jobs id s := by
  rcases step_cases jobs s i with ⟨-, hst⟩ | ⟨-, hst⟩
  · rw [hst]
  · have htl : total jobs id (step jobs s i) = total jobs id s + (jobs i).flow.toInt := by
      rw [hst]
      exact total_update.trans (by rw [if_pos hid])
    have hsum := sum_update_of_mem (Finset.mem_univ i) s.allowed (s.allowed i + 1)
    rw [add_right_comm, ← sum_eq_add_sum_sdiff_singleton_of_mem (Finset.mem_univ i)] at hsum
    rw [htl, hst, hsum]
    omega

/-- **A flow starves when one side of it leaves**: jobs with positive weights that go on alone are
    allowed so many more I/Os and no others. -/
theorem flow_alone_bounded (jobs : Fin n → FlowJob) (id W : BitVec 32) (hW : 0 ≤ W.toInt)
    (hjobs : ∀ i, (jobs i).flowId = id → (jobs i).flowWatermark = W ∧ (jobs i).flow ≠ 0)
    (calls alone : List (Fin n))
    (hpos : ∀ i ∈ alone, (jobs i).flowId = id ∧ 0 < (jobs i).flow.toInt) :
    ((∑ k, (run jobs (calls ++ alone)).allowed k : Nat) : Int) ≤
      (∑ k, (run jobs calls).allowed k : Nat) +
        (2 * W.toInt + maxNegative jobs id + maxPositive jobs id) := by
  have hle : ((∑ k, (run jobs (calls ++ alone)).allowed k : Nat) : Int) -
      total jobs id (run jobs (calls ++ alone)) ≤
        (∑ k, (run jobs calls).allowed k : Nat) - total jobs id (run jobs calls) := by
    induction alone using reverseRecOn with
    | nil => simp
    | append_singleton alone i ih =>
      obtain ⟨hid, hi⟩ := hpos i (by simp)
      rw [← List.append_assoc, run, foldl_append]
      exact (allowed_step hid hi).trans (ih fun k hk => hpos k (by simp [hk]))
  have hlw := (balanced_run hW hjobs calls).lower
  have hup := (balanced_run hW hjobs (calls ++ alone)).upper
  omega

theorem flow_alone_bounded_two :
    ((∑ k, (run twoJobs ([1, 1] ++ List.replicate 99 0)).allowed k : Nat) : Int) ≤
      (∑ k, (run twoJobs [1, 1]).allowed k : Nat) +
        (2 * (10 : BitVec 32).toInt + maxNegative twoJobs 7 + maxPositive twoJobs 7) :=
  flow_alone_bounded twoJobs 7 10 (by decide) (by decide) _ _ fun i hi =>
    eq_of_mem_replicate hi ▸ by decide

end FlowSystem

end FioSsd
