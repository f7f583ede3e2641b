import FioSsd.Stat.Sum

/-! # The slots of the final report

`show_run_stats` goes over the jobs twice. -/

namespace FioSsd

open List

structure ReportJob where
  groupReporting : Bool
  groupid : Fin (2 ^ 31)
  name : NameBuf
  description : Option NameBuf
  (pid kbBase clatPercentiles : Nat)
  percentileList : Fin fioIoUListMaxLen → ℚ
  (continueOnError totalErrCount firstError error : Nat)
  verror : NameBuf
  ts : Stats

structure SlotCount where
  nrTs : Nat
  lastTs : Int

def countSlot (s : SlotCount) (td : ReportJob) : SlotCount :=
  if td.groupReporting = false then { s with nrTs := s.nrTs + 1 }
  else if s.lastTs = td.groupid.val then s
  else { nrTs := s.nrTs + 1, lastTs := td.groupid.val }

def countSlots (jobs : List ReportJob) : SlotCount := jobs.foldl countSlot ⟨0, -1⟩

def noGroupid : Nat := 2 ^ 32 - 1

def openSlot (ts : Stats) (td : ReportJob) : Stats :=
  if ts.groupid = noGroupid then
    { ts with
      name := td.name, description := td.description.getD fun _ => 0
      groupid := td.groupid.val, pid := td.pid, kbBase := td.kbBase }
  else ts

def noteError (ts : Stats) (td : ReportJob) : Stats :=
  if ts.error ≠ 0 then ts
  else if td.error = 0 ∧ td.continueOnError ≠ 0 ∧ td.firstError ≠ 0 then
    { ts with error := td.firstError, verror := td.verror }
  else if td.error ≠ 0 then { ts with error := td.error, verror := td.verror }
  else ts

/-- What the second pass writes to the slot of a job; `idx` counts the jobs of the slot. -/
def reportJob (ts : Stats) (td : ReportJob) (idx : Nat) : Stats :=
  let ts := openSlot { ts with
    clatPercentiles := td.clatPercentiles, percentileList := td.percentileList
    members := ts.members + 1 } td
  let ts := noteError { ts with
    continueOnError := td.continueOnError, totalErrCount := ts.totalErrCount + td.totalErrCount
    firstError := td.firstError } td
  sumThreadStats ts td.ts idx

structure SlotFill where
  threadstats : Nat → Stats
  j : Nat
  lastTs : Int
  idx : Nat
  written : List Nat

def SlotFill.Fresh (s : SlotFill) (td : ReportJob) : Prop :=
  s.idx ≠ 0 ∧ (td.groupReporting = false ∨
    (td.groupReporting = true ∧ s.lastTs ≠ td.groupid.val))
deriving Decidable

def fillSlot (s : SlotFill) (td : ReportJob) : SlotFill :=
  let idx := if s.Fresh td then 0 else s.idx
  let j := if s.Fresh td then s.j + 1 else s.j
  { threadstats := Function.update s.threadstats j (reportJob (s.threadstats j) td (idx + 1))
    j := j, lastTs := td.groupid.val, idx := idx + 1, written := s.written ++ [j] }

def fillSlots (jobs : List ReportJob) : SlotFill :=
  jobs.foldl fillSlot ⟨fun _ => initThreadStat, 0, -1, 0, []⟩

def Counted (before : List ReportJob) (td : ReportJob) : Prop :=
  td.groupReporting = true → ∀ a ∈ before, a.groupReporting = true → a.groupid ≠ td.groupid
deriving Decidable

def Filled (before : List ReportJob) (td : ReportJob) : Prop :=
  td.groupReporting = true → ∀ a ∈ before, a.groupid ≠ td.groupid
deriving Decidable

variable {jobs before : List ReportJob} {td : ReportJob}

def GroupsInOrder (jobs : List ReportJob) : Prop :=
  jobs.Pairwise fun a b => a.groupid ≤ b.groupid

lemma GroupsInOrder.left (h : GroupsInOrder (before ++ [td])) : GroupsInOrder before :=
  (pairwise_append.1 h).1

lemma GroupsInOrder.le (h : GroupsInOrder (before ++ [td])) {a : ReportJob} (ha : a ∈ before) :
    a.groupid ≤ td.groupid :=
  (pairwise_append.1 h).2.2 a ha td (mem_singleton.2 rfl)

/-- `last_ts` of the first pass is the last group id among the jobs with `group_reporting`. -/
def LastGrouped (jobs : List ReportJob) (last : Int) : Prop :=
  (last = -1 ∧ ∀ a ∈ jobs, a.groupReporting = false) ∨
    ∃ a ∈ jobs, a.groupReporting = true ∧ last = a.groupid.val ∧
      ∀ b ∈ jobs, b.groupReporting = true → b.groupid ≤ a.groupid

lemma LastGrouped.ne_iff {last : Int} (h : LastGrouped before last)
    (hle : ∀ a ∈ before, a.groupid ≤ td.groupid) :
    last ≠ td.groupid.val ↔ ∀ a ∈ before, a.groupReporting = true → a.groupid ≠ td.groupid := by
  rcases h with ⟨rfl, hno⟩ | ⟨a, ha, hgr, rfl, hmax⟩
  · constructor
    · intro _ b hb hgr
      rw [hno b hb] at hgr
      cases hgr
    · intro _
      omega
  · constructor
    · intro hne b hb hbgr heq
      have hba := hmax b hb hbgr
      have hatd := hle a ha
      rw [heq] at hba
      exact hne (by rw [le_antisymm hatd hba])
    · intro hall heq
      exact hall a ha hgr (Fin.ext (by exact_mod_cast heq))

lemma countSlots_concat (before : List ReportJob) (td : ReportJob) :
    countSlots (before ++ [td]) = countSlot (countSlots before) td := by
  simp [countSlots, foldl_append]

lemma lastGrouped_countSlots (h : GroupsInOrder jobs) :
    LastGrouped jobs (countSlots jobs).lastTs := by
  induction jobs using List.reverseRecOn with
  | nil => exact .inl ⟨rfl, by simp⟩
  | append_singleton jobs b ih =>
    rw [countSlots_concat, countSlot]
    cases hgr : b.groupReporting with
    | false =>
      rw [if_pos rfl]
      rcases ih h.left with ⟨hla, hno⟩ | ⟨a, ha, hagr, hla, hmax⟩
      · refine .inl ⟨hla, ?_⟩
        intro c hc
        rcases mem_append.1 hc with hc | hc
        · exact hno c hc
        · rw [mem_singleton.1 hc, hgr]
      · refine .inr ⟨a, mem_append_left _ ha, hagr, hla, ?_⟩
        intro c hc hcgr
        rcases mem_append.1 hc with hc | hc
        · exact hmax c hc hcgr
        · rw [mem_singleton.1 hc, hgr] at hcgr
          cases hcgr
    | true =>
      rw [if_neg (by simp)]
      refine .inr ⟨b, by simp, hgr, ?_, ?_⟩
      · split_ifs with heq
        · exact heq
        · rfl
      · intro c hc _
        rcases mem_append.1 hc with hc | hc
        · exact h.le hc
        · rw [mem_singleton.1 hc]

lemma countSlots_append (h : GroupsInOrder (before ++ [td])) :
    (countSlots (before ++ [td])).nrTs =
      (countSlots before).nrTs + if Counted before td then 1 else 0 := by
  have hne := (lastGrouped_countSlots h.left).ne_iff (fun a ha => h.le ha)
  rw [countSlots_concat, countSlot]
  cases hgr : td.groupReporting with
  | false => rw [if_pos rfl, if_pos (by simp [Counted, hgr])]
  | true =>
    rw [if_neg (by simp)]
    by_cases heq : (countSlots before).lastTs = td.groupid.val
    · rw [if_pos heq, if_neg]
      · rfl
      · intro hcnt
        exact hne.2 (hcnt hgr) heq
    · have hcnt : Counted before td := fun _ => hne.1 heq
      rw [if_neg heq, if_pos hcnt]

/-- What the second pass has done: the slots up to `j` are filled, with the group ids of jobs. -/
structure Filling (jobs : List ReportJob) (s : SlotFill) : Prop where
  first : jobs = [] → s.j = 0
  idx : s.idx = 0 ↔ jobs = []
  last : ∀ td ∈ jobs.getLast?, s.lastTs = td.groupid.val
  written : ∀ i, i ∈ s.written ↔ jobs ≠ [] ∧ i ≤ s.j
  valid : ∀ i, (s.threadstats i).groupid ≠ noGroupid ↔ i ∈ s.written

section

variable (ts : Stats) (td : ReportJob)

lemma openSlot_groupid : (openSlot ts td).groupid ≠ noGroupid := by
  unfold openSlot
  split_ifs with hno
  · have := td.groupid.isLt
    change td.groupid.val ≠ noGroupid
    unfold noGroupid
    omega
  · exact hno

lemma noteError_groupid : (noteError ts td).groupid = ts.groupid := by
  unfold noteError
  split_ifs <;> rfl

lemma reportJob_groupid (idx : Nat) :
    (reportJob ts td idx).groupid ≠ noGroupid := by
  change (noteError _ td).groupid ≠ noGroupid
  rw [noteError_groupid]
  exact openSlot_groupid _ td

end

variable {s : SlotFill}

lemma Filling.fresh_iff (hs : Filling before s) (h : GroupsInOrder (before ++ [td]))
    : s.Fresh td ↔ before ≠ [] ∧ Filled before td := by
  rw [SlotFill.Fresh, Filled, Ne, hs.idx]
  refine and_congr_right ?_
  intro hne
  obtain ⟨front, b, rfl⟩ := eq_nil_or_concat before |>.resolve_left hne
  rw [concat_eq_append] at *
  have hla : s.lastTs = b.groupid.val := hs.last b (by simp)
  -- the group ids are in order, so the last job decides
  have hgr : s.lastTs ≠ td.groupid.val ↔ ∀ a ∈ front ++ [b], a.groupid ≠ td.groupid := by
    rw [hla]
    constructor
    · intro hbtd a ha heq
      have hab : a.groupid ≤ b.groupid := by
        rcases mem_append.1 ha with ha | ha
        · exact h.left.le ha
        · rw [mem_singleton.1 ha]
      have hbt : b.groupid ≤ td.groupid := h.le (by simp)
      rw [heq] at hab
      exact hbtd (by rw [le_antisymm hbt hab])
    · intro hall heq
      exact hall b (by simp) (Fin.ext (by exact_mod_cast heq))
  cases hfl : td.groupReporting with
  | false => simp
  | true => simpa using hgr

lemma Filling.fillSlot (hs : Filling before s) (hor : GroupsInOrder (before ++ [td])) :
    Filling (before ++ [td]) (fillSlot s td) ∧
      (fillSlot s td).j = s.j + if before ≠ [] ∧ Filled before td then 1 else 0 := by
  have hfr := hs.fresh_iff hor
  have hj : (FioSsd.fillSlot s td).j = s.j + if before ≠ [] ∧ Filled before td then 1 else 0 := by
    by_cases hf : s.Fresh td
    · rw [if_pos (hfr.1 hf)]
      simp [FioSsd.fillSlot, hf]
    · rw [if_neg (fun h => hf (hfr.2 h))]
      simp [FioSsd.fillSlot, hf]
  -- the slot of the job is the one in use or the next
  have hsl : (FioSsd.fillSlot s td).j = s.j ∨
      (before ≠ [] ∧ (FioSsd.fillSlot s td).j = s.j + 1) := by
    rw [hj]
    split_ifs with h
    · exact .inr ⟨h.1, rfl⟩
    · exact .inl rfl
  have hwrt : (FioSsd.fillSlot s td).written = s.written ++ [(FioSsd.fillSlot s td).j] := rfl
  refine ⟨⟨by simp, ?_, ?_, ?_, ?_⟩, hj⟩
  · simp [FioSsd.fillSlot]
  · intro b hb
    rw [List.getLast?_append_of_ne_nil _ (by simp)] at hb
    obtain rfl : td = b := by simpa using hb
    rfl
  · intro i
    rw [hwrt, mem_append, mem_singleton, hs.written]
    by_cases hpre : before = []
    · rcases hsl with heq | ⟨hne, -⟩
      · have h0 := hs.first hpre
        simp [hpre]
        omega
      · exact absurd hpre hne
    · rcases hsl with heq | ⟨-, hnx⟩
      all_goals
        simp [hpre]
        omega
  · intro i
    rw [hwrt, mem_append, mem_singleton, ← hs.valid]
    have hts : (FioSsd.fillSlot s td).threadstats = Function.update s.threadstats
        (FioSsd.fillSlot s td).j
        (reportJob (s.threadstats (FioSsd.fillSlot s td).j) td (FioSsd.fillSlot s td).idx) := rfl
    rw [hts]
    by_cases hi : i = (FioSsd.fillSlot s td).j
    · subst hi
      simp [reportJob_groupid]
    · simp [hi]

lemma fillSlots_concat (before : List ReportJob) (td : ReportJob) :
    fillSlots (before ++ [td]) = fillSlot (fillSlots before) td := by
  simp [fillSlots, foldl_append]

lemma filling_fillSlots (h : GroupsInOrder jobs) : Filling jobs (fillSlots jobs) := by
  induction jobs using List.reverseRecOn with
  | nil => exact ⟨fun _ => rfl, by simp [fillSlots], by simp, by simp [fillSlots], by
      simp [fillSlots, initThreadStat, noGroupid]⟩
  | append_singleton jobs b ih =>
    rw [fillSlots_concat]
    exact ((ih h.left).fillSlot h).1

def SlotFill.filled (s : SlotFill) : Nat := s.written.dedup.length

lemma Filling.filled_eq (h : Filling jobs s) :
    s.filled = if jobs = [] then 0 else s.j + 1 := by
  have hpr : List.Perm s.written.dedup (List.range (if jobs = [] then 0 else s.j + 1)) := by
    refine (perm_ext_iff_of_nodup (nodup_dedup _) nodup_range).2 ?_
    intro i
    rw [mem_dedup, h.written, mem_range]
    split_ifs with hjb
    all_goals simp [hjb]
  rw [SlotFill.filled, hpr.length_eq, length_range]

lemma fillSlots_append (h : GroupsInOrder (before ++ [td])) :
    (fillSlots (before ++ [td])).filled =
      (fillSlots before).filled + if Filled before td then 1 else 0 := by
  have hpre := filling_fillSlots h.left
  rw [(filling_fillSlots h).filled_eq, hpre.filled_eq, if_neg (by simp), fillSlots_concat,
    (hpre.fillSlot h).2]
  by_cases hemp : before = []
  · subst hemp
    simp [Filled, hpre.first rfl]
  · simp [hemp]
    omega

/-- Every slot that was counted is filled, and only those: the report has a group id for each, and no
    job is written behind the array. -/
def ReportComplete (jobs : List ReportJob) : Prop :=
  (countSlots jobs).nrTs = (fillSlots jobs).filled ∧
    (∀ i < (countSlots jobs).nrTs, ((fillSlots jobs).threadstats i).groupid ≠ noGroupid) ∧
    ∀ i ∈ (fillSlots jobs).written, i < (countSlots jobs).nrTs

/-- A job with `group_reporting` is the first of its group or comes behind another one of its group
    that has it. -/
def GroupsLedByGrouped (jobs : List ReportJob) : Prop :=
  ∀ before td after, jobs = before ++ td :: after → td.groupReporting = true →
    (∃ a ∈ before, a.groupid = td.groupid) →
      ∃ a ∈ before, a.groupReporting = true ∧ a.groupid = td.groupid

lemma Filled.counted (h : Filled before td) : Counted before td :=
  fun hgr a ha _ => h hgr a ha

lemma groupsLedByGrouped_append : GroupsLedByGrouped (before ++ [td]) ↔
      GroupsLedByGrouped before ∧ (Counted before td → Filled before td) := by
  have hla : (td.groupReporting = true → (∃ a ∈ before, a.groupid = td.groupid) →
      ∃ a ∈ before, a.groupReporting = true ∧ a.groupid = td.groupid) ↔
      (Counted before td → Filled before td) := by
    constructor
    · intro h hcnt hgr a ha heq
      obtain ⟨b, hb, hbgr, hbeq⟩ := h hgr ⟨a, ha, heq⟩
      exact hcnt hgr b hb hbgr hbeq
    · rintro h hgr ⟨a, ha, heq⟩
      by_contra hno
      simp only [not_exists, not_and] at hno
      exact h (fun _ => hno) hgr a ha heq
  rw [← hla]
  constructor
  · intro h
    refine ⟨?_, fun hgr hex => h before td [] rfl hgr hex⟩
    rintro front b after rfl hgr hex
    exact h front b (after ++ [td]) (by simp) hgr hex
  · rintro ⟨hpre, htd⟩ front b after heq hgr hex
    rcases eq_nil_or_concat after with rfl | ⟨rest, last, rfl⟩
    · obtain ⟨rfl, hb⟩ := append_inj' heq rfl
      obtain rfl : td = b := by simpa using hb
      exact htd hgr hex
    · rw [concat_eq_append, ← cons_append, ← append_assoc] at heq
      obtain ⟨rfl, -⟩ := append_inj' heq rfl
      exact hpre front b rest rfl hgr hex

lemma filled_le_nrTs (h : GroupsInOrder jobs) : (fillSlots jobs).filled ≤ (countSlots jobs).nrTs ∧
      ((countSlots jobs).nrTs = (fillSlots jobs).filled ↔ GroupsLedByGrouped jobs) := by
  induction jobs using List.reverseRecOn with
  | nil =>
    refine ⟨le_refl 0, ?_⟩
    simp [GroupsLedByGrouped, countSlots, fillSlots, SlotFill.filled]
  | append_singleton jobs b ih =>
    obtain ⟨hle, hiff⟩ := ih h.left
    rw [countSlots_append h, fillSlots_append h, groupsLedByGrouped_append, ← hiff]
    by_cases hfld : Filled jobs b
    · rw [if_pos hfld, if_pos hfld.counted]
      exact ⟨by omega, by simp [hfld]⟩
    · rw [if_neg hfld]
      split_ifs with hcnt
      · refine ⟨by omega, ?_⟩
        constructor
        · intro heq
          omega
        · intro himp
          exact absurd (himp.2 hcnt) hfld
      · exact ⟨by omega, by simp [hcnt]⟩

/-- **Slots are counted and filled alike exactly if in every group the jobs with `group_reporting`
    do not come behind jobs without it only.** -/
theorem reportComplete_iff (jobs : List ReportJob) (h : GroupsInOrder jobs) :
    ReportComplete jobs ↔ GroupsLedByGrouped jobs := by
  have hs := filling_fillSlots h
  rw [← (filled_le_nrTs h).2, ReportComplete]
  constructor
  · rintro ⟨hcnt, -, -⟩
    exact hcnt
  · intro hcnt
    have hmem : ∀ i, i ∈ (fillSlots jobs).written ↔ i < (countSlots jobs).nrTs := by
      intro i
      rw [hcnt, hs.filled_eq, hs.written]
      split_ifs with hjb
      all_goals simp [hjb]
    refine ⟨hcnt, ?_, fun i hi => (hmem i).1 hi⟩
    intro i hi
    exact (hs.valid i).2 ((hmem i).2 hi)

def plainJob (groupReporting : Bool) : ReportJob :=
  { groupReporting := groupReporting, groupid := 0, name := fun _ => 0, description := none, pid := 1
    kbBase := 1024, clatPercentiles := 0, percentileList := fun _ => 0, continueOnError := 0
    totalErrCount := 0, firstError := 0, error := 0, verror := fun _ => 0, ts := initThreadStat }

theorem reportComplete_grouped : ReportComplete [plainJob true, plainJob false, plainJob true] := by
  refine (reportComplete_iff _ ?_).2 ?_
  · simp [GroupsInOrder, plainJob]
  · have h : GroupsLedByGrouped ([] ++ [plainJob true] ++ [plainJob false] ++ [plainJob true]) := by
      simp only [groupsLedByGrouped_append]
      simp [GroupsLedByGrouped, Counted, Filled, plainJob]
    exact h

/-- A job without `group_reporting`, then one with it in the same group: two slots are counted and
    one is filled, so the second has no group id. -/
theorem report_slot_without_group :
    (countSlots [plainJob false, plainJob true]).nrTs = 2 ∧
      ((fillSlots [plainJob false, plainJob true]).threadstats 1).groupid = noGroupid ∧
      ¬ ReportComplete [plainJob false, plainJob true] := by
  have hcnt : (countSlots [plainJob false, plainJob true]).nrTs = 2 := rfl
  have hsl : ((fillSlots [plainJob false, plainJob true]).threadstats 1).groupid = noGroupid := rfl
  refine ⟨hcnt, hsl, ?_⟩
  rintro ⟨-, hvl, -⟩
  exact hvl 1 (by rw [hcnt]; decide) hsl

end FioSsd
