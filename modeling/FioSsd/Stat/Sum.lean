import FioSsd.Lib.Moments
import FioSsd.Net.ThreadStat

/-! # Statistics and their sum over clients

`stat.c`: `add_stat_sample` takes one sample into a statistic, `sum_stat` merges two statistics, and
`sum_thread_stats` does so for all statistics of a job. -/

namespace FioSsd

variable {before xs : List Nat} {nr : Nat}

open Moments List Nat

abbrev Count (_ : Nat) : Type := Nat

abbrev Stat : Type := IoStat Count ℚ

abbrev Stats : Type := ThreadStat Count ℚ

def ulongMax : Nat := 2 ^ 64 - 1

def initStat : Stat := ⟨0, ulongMax, 0, 0, 0⟩

def addStatSample (is : Stat) (data : Nat) : Stat :=
  let delta : ℚ := data - is.mean
  let mean := if delta ≠ 0 then is.mean + delta / (is.samples + 1) else is.mean
  { maxVal := if is.maxVal < data then data else is.maxVal
    minVal := if data < is.minVal then data else is.minVal
    samples := is.samples + 1
    mean := mean
    S := if delta ≠ 0 then is.S + delta * (data - mean) else is.S }

/-- The first source (`nr = 1`) gives mean and deviation alone; `n * k` is an `unsigned long`. -/
def sumStat (dst src : Stat) (nr : Nat) : Stat :=
  if src.samples = 0 then dst
  else
    let n := dst.samples
    let k := src.samples
    let delta := src.mean - dst.mean
    { maxVal := max dst.maxVal src.maxVal
      minVal := min dst.minVal src.minVal
      samples := n + k
      mean := if nr = 1 then src.mean else (src.mean * k + dst.mean * n) / (n + k)
      S := if nr = 1 then src.S
        else src.S + dst.S + delta ^ 2 * ((n * k % 2 ^ 64 : Nat) : ℚ) / (n + k) }

def rats (xs : List Nat) : List ℚ := xs.map fun x => (x : ℚ)

@[simp] lemma length_rats (xs : List Nat) : (rats xs).length = xs.length := by simp [rats]

@[simp] lemma rats_append (xs ys : List Nat) : rats (xs ++ ys) = rats xs ++ rats ys := by
  simp [rats]

/-- **The statistic of a list of samples**: their count, minimum, maximum, mean and sum of squared
    deviations. -/
def statOf (xs : List Nat) : Stat :=
  { maxVal := xs.foldr max 0, minVal := xs.foldr min ulongMax, samples := xs.length
    mean := mean (rats xs), S := sqDev (rats xs) }

lemma foldr_max_append (xs ys : List Nat) :
    (xs ++ ys).foldr max 0 = max (xs.foldr max 0) (ys.foldr max 0) := by
  induction xs with
  | nil => simp
  | cons x xs ih => simp only [cons_append, foldr_cons, ih, max_assoc]

lemma foldr_min_append (xs ys : List Nat) :
    (xs ++ ys).foldr min ulongMax = min (xs.foldr min ulongMax) (ys.foldr min ulongMax) := by
  have hle : ∀ zs : List Nat, zs.foldr min ulongMax ≤ ulongMax := by
    intro zs
    induction zs with
    | nil => exact le_refl _
    | cons z zs ih => exact (min_le_right _ _).trans ih
  induction xs with
  | nil => simp [hle]
  | cons x xs ih => simp only [cons_append, foldr_cons, ih, min_assoc]

lemma statOf_concat {x : Nat} (h : x ≤ ulongMax) :
    statOf (xs ++ [x]) = addStatSample (statOf xs) x := by
  have hmn := mean_append (rats xs) (rats [x])
  have hdev := sqDev_append (rats xs) (rats [x])
  have hone : mean (rats [x]) = x := by simp [mean, rats]
  have h0 : sqDev (rats [x]) = 0 := by simp [sqDev, mean, rats]
  rw [hone] at hmn hdev
  simp only [length_rats, length_singleton, cast_one, mul_one] at hmn hdev
  have hn : (xs.length : ℚ) + 1 ≠ 0 := by positivity
  have hnew : mean (rats xs ++ rats [x]) =
      mean (rats xs) + (x - mean (rats xs)) / (xs.length + 1) := by
    rw [hmn]
    field_simp
    ring
  have hmax : max (xs.foldr max 0) (max x 0) = if xs.foldr max 0 < x then x else xs.foldr max 0 := by
    split_ifs <;> omega
  have hmin : min (xs.foldr min ulongMax) (min x ulongMax) =
      if x < xs.foldr min ulongMax then x else xs.foldr min ulongMax := by
    split_ifs <;> omega
  have hmx' := (foldr_max_append xs [x]).trans hmax
  have hmn' := (foldr_min_append xs [x]).trans hmin
  by_cases hdl : (x : ℚ) - mean (rats xs) = 0
  · -- a sample at the mean changes neither mean nor deviations
    rw [hdl, zero_div, add_zero] at hnew
    rw [hdl, h0] at hdev
    have hdv' : sqDev (rats xs ++ rats [x]) = sqDev (rats xs) := by simpa using hdev
    ext
    · exact hmx'
    · exact hmn'
    · simp [statOf, addStatSample]
    · simp [statOf, addStatSample, hnew, hdl]
    · simp [statOf, addStatSample, hdv', hdl]
  · ext
    · exact hmx'
    · exact hmn'
    · simp [statOf, addStatSample]
    · simp [statOf, addStatSample, hnew, hdl]
    · simp only [statOf, addStatSample, rats_append, hdev, h0, ne_eq, hdl, not_false_eq_true,
        if_true]
      field_simp
      ring

lemma foldl_addStatSample (xs : List Nat) (h : ∀ x ∈ xs, x ≤ ulongMax) :
    xs.foldl addStatSample initStat = statOf xs := by
  induction xs using List.reverseRecOn with
  | nil => simp [statOf, initStat, mean, sqDev, rats]
  | append_singleton xs x ih =>
    rw [foldl_append, ih (fun y hy => h y (mem_append_left _ hy))]
    exact (statOf_concat (h x (by simp))).symm

/-- **What `sum_stat` pools**: one of the two has no samples; or behind position 1 the means agree
    or the product of the counts does not wrap; or at position 1 the earlier samples all equal the
    mean of the new ones. -/
def MergesAt (nr : Nat) (before xs : List Nat) : Prop :=
  xs = [] ∨ before = [] ∨
    if nr = 1 then mean (rats before) = mean (rats xs) ∧ sqDev (rats before) = 0
    else mean (rats before) = mean (rats xs) ∨ before.length * xs.length < 2 ^ 64

def Merges : Nat → List Nat → List (List Nat) → Prop
  | _, _, [] => True
  | nr, before, xs :: later => MergesAt nr before xs ∧ Merges (nr + 1) (before ++ xs) later

def sumStats (nr : Nat) (dst : Stat) : List Stat → Stat
  | [] => dst
  | src :: later => sumStats (nr + 1) (sumStat dst src nr) later

def Off (dst : Stat) (xs : List Nat) : Prop :=
  dst.samples = xs.length ∧ 0 < xs.length ∧
    (dst.mean ≠ mean (rats xs) ∨ dst.mean = mean (rats xs) ∧ dst.S < sqDev (rats xs))

variable {dst : Stat}

lemma Off.ne (h : Off dst xs) : dst ≠ statOf xs := by
  rintro rfl
  rcases h.2.2 with hmn | ⟨-, hdev⟩
  · exact hmn rfl
  · exact lt_irrefl _ hdev

lemma sumStat_of_samples (dst : Stat) (hxs : xs ≠ []) (nr : Nat) :
    (sumStat dst (statOf xs) nr).samples = dst.samples + xs.length ∧
      (sumStat dst (statOf xs) nr).mean = (if nr = 1 then mean (rats xs) else
        (mean (rats xs) * xs.length + dst.mean * dst.samples) / (dst.samples + xs.length)) ∧
      (sumStat dst (statOf xs) nr).S = if nr = 1 then sqDev (rats xs) else
        sqDev (rats xs) + dst.S + (mean (rats xs) - dst.mean) ^ 2 *
          ((dst.samples * xs.length % 2 ^ 64 : Nat) : ℚ) / (dst.samples + xs.length) := by
  have hne : ¬ (statOf xs).samples = 0 := fun h => hxs (length_eq_zero_iff.1 h)
  simp only [sumStat, if_neg hne]
  exact ⟨rfl, rfl, rfl⟩

@[simp] lemma sumStat_nil (dst : Stat) (nr : Nat) : sumStat dst (statOf []) nr = dst := by
  simp [sumStat, statOf]

lemma sumStat_eq_statOf (hxs : xs ≠ [])
    (hmn : (sumStat (statOf before) (statOf xs) nr).mean = mean (rats before ++ rats xs))
    (hdev : (sumStat (statOf before) (statOf xs) nr).S = sqDev (rats before ++ rats xs)) :
    sumStat (statOf before) (statOf xs) nr = statOf (before ++ xs) := by
  have hne : ¬ (statOf xs).samples = 0 := fun h => hxs (length_eq_zero_iff.1 h)
  ext
  · simp only [sumStat, if_neg hne]
    exact (foldr_max_append before xs).symm
  · simp only [sumStat, if_neg hne]
    exact (foldr_min_append before xs).symm
  · rw [(sumStat_of_samples _ hxs nr).1]
    exact (length_append).symm
  · rw [hmn, ← rats_append]
    rfl
  · rw [hdev, ← rats_append]
    rfl

lemma length_pos_rat (h : xs ≠ []) : (0 : ℚ) < xs.length := by
  exact_mod_cast length_pos_iff.2 h

lemma mean_append_of_eq (hxs : xs ≠ []) (h : mean (rats before) = mean (rats xs)) :
    mean (rats before ++ rats xs) = mean (rats xs) := by
  have hk := length_pos_rat hxs
  have hn : (0 : ℚ) ≤ before.length := by positivity
  rw [mean_append, h, length_rats, length_rats, ← mul_add, add_comm (xs.length : ℚ)]
  exact mul_div_cancel_right₀ _ (by linarith)

lemma sumStat_merges (h : MergesAt nr before xs) :
    sumStat (statOf before) (statOf xs) nr = statOf (before ++ xs) := by
  by_cases hxs : xs = []
  · subst hxs
    simp
  obtain ⟨-, hmn, hdev⟩ := sumStat_of_samples (statOf before) hxs nr
  have hplm := mean_append (rats before) (rats xs)
  have hpld := sqDev_append (rats before) (rats xs)
  simp only [length_rats] at hplm hpld
  have hk := length_pos_rat hxs
  by_cases hpre : before = []
  · subst hpre
    apply sumStat_eq_statOf hxs
    · rw [hmn]
      split_ifs with hnr
      · rfl
      · simp [statOf, rats, hk.ne']
    · rw [hdev]
      split_ifs with hnr
      · rfl
      · simp [statOf, rats, sqDev]
  -- both have samples: the merge at position 1 overwrites, every other one pools
  have hcs := (h.resolve_left hxs).resolve_left hpre
  apply sumStat_eq_statOf hxs
  · rw [hmn]
    by_cases hnr : nr = 1
    · rw [if_pos hnr] at hcs ⊢
      exact (mean_append_of_eq hxs hcs.1).symm
    · rw [if_neg hnr, hplm]
      rfl
  · rw [hdev]
    by_cases hnr : nr = 1
    · rw [if_pos hnr] at hcs ⊢
      rw [hpld, hcs.1, hcs.2]
      simp
    · rw [if_neg hnr] at hcs ⊢
      rw [hpld]
      rcases hcs with heq | hft
      · simp [statOf, heq]
      · simp only [statOf, mod_eq_of_lt hft, cast_mul]

lemma mean_eq_of_mean_append_eq (h : before ≠ []) (hxs : xs ≠ [])
    (hmn : mean (rats before ++ rats xs) = mean (rats xs)) :
    mean (rats before) = mean (rats xs) := by
  have hn := length_pos_rat h
  have hk := length_pos_rat hxs
  rw [mean_append, length_rats, length_rats, div_eq_iff (by linarith)] at hmn
  have hpr : mean (rats before) * before.length = mean (rats xs) * before.length := by linarith
  exact mul_right_cancel₀ hn.ne' hpr

lemma off_of_not_mergesAt
    (hnot : ¬ MergesAt nr before xs) : Off (sumStat (statOf before) (statOf xs) nr) (before ++ xs) := by
  obtain ⟨hxs, hpre, hcs⟩ : xs ≠ [] ∧ before ≠ [] ∧ ¬ (if nr = 1 then
      mean (rats before) = mean (rats xs) ∧ sqDev (rats before) = 0
      else mean (rats before) = mean (rats xs) ∨ before.length * xs.length < 2 ^ 64) := by
    refine ⟨fun h => hnot (.inl h), fun h => hnot (.inr (.inl h)), fun h => hnot (.inr (.inr h))⟩
  obtain ⟨hsmp, hmn, hdev⟩ := sumStat_of_samples (statOf before) hxs nr
  have hn := length_pos_rat hpre
  have hk := length_pos_rat hxs
  have hpld := sqDev_append (rats before) (rats xs)
  simp only [length_rats] at hpld
  refine ⟨by rw [hsmp, length_append]; rfl,
    by rw [length_append]; exact Nat.add_pos_right _ (length_pos_iff.2 hxs), ?_⟩
  rw [rats_append]
  by_cases hnr : nr = 1
  · rw [if_pos hnr] at hcs hmn hdev
    rw [hmn, hdev]
    by_cases heq : mean (rats before) = mean (rats xs)
    · right
      have hne : sqDev (rats before) ≠ 0 := fun h => hcs ⟨heq, h⟩
      have hpos := lt_of_le_of_ne (sqDev_nonneg _) hne.symm
      refine ⟨(mean_append_of_eq hxs heq).symm, ?_⟩
      rw [hpld, heq]
      simpa using hpos
    · left
      intro hsam
      exact heq (mean_eq_of_mean_append_eq hpre hxs hsam.symm)
  · rw [if_neg hnr] at hcs hmn hdev
    obtain ⟨hne, hwr⟩ := not_or.1 hcs
    right
    rw [hmn, hdev, hpld, mean_append, length_rats, length_rats]
    refine ⟨rfl, ?_⟩
    -- the wrapped product is smaller than the product
    have hmod : ((before.length * xs.length % 2 ^ 64 : Nat) : ℚ) < before.length * xs.length := by
      have hlt : before.length * xs.length % 2 ^ 64 < before.length * xs.length :=
        lt_of_lt_of_le (Nat.mod_lt _ (by decide)) (Nat.not_lt.1 hwr)
      exact_mod_cast hlt
    have hdl : 0 < (mean (rats xs) - mean (rats before)) ^ 2 := by
      have hsub := sub_ne_zero.2 (Ne.symm hne)
      positivity
    simp only [statOf]
    gcongr

lemma Off.sumStat (h : Off dst before) (xs : List Nat)
    (hnr : nr ≠ 1) : Off (sumStat dst (statOf xs) nr) (before ++ xs) := by
  by_cases hxs : xs = []
  · subst hxs
    rwa [sumStat_nil, append_nil]
  obtain ⟨hcnt, hlen, hwr⟩ := h
  obtain ⟨hsmp, hmn, hdev⟩ := sumStat_of_samples dst hxs nr
  rw [if_neg hnr, hcnt] at hmn hdev
  have hn : (0 : ℚ) < before.length := by exact_mod_cast hlen
  have hk := length_pos_rat hxs
  have hpld := sqDev_append (rats before) (rats xs)
  simp only [length_rats] at hpld
  refine ⟨by rw [hsmp, hcnt, length_append],
    by rw [length_append]; exact Nat.add_pos_left hlen _, ?_⟩
  rw [rats_append, hmn, hdev, hpld, mean_append, length_rats, length_rats]
  rcases hwr with hne | ⟨heq, hlt⟩
  · left
    intro hsam
    rw [div_left_inj' (by linarith)] at hsam
    have hpr : dst.mean * before.length = mean (rats before) * before.length := by linarith
    exact hne (mul_right_cancel₀ hn.ne' hpr)
  · right
    have hmod : ((before.length * xs.length % 2 ^ 64 : Nat) : ℚ) ≤ before.length * xs.length := by
      exact_mod_cast Nat.mod_le _ _
    refine ⟨by rw [heq], ?_⟩
    rw [heq]
    refine add_lt_add_of_lt_of_le ?_ ?_
    all_goals gcongr

lemma Off.sumStats (h : Off dst before) (xss : List (List Nat)) (hnr : 1 < nr) :
    Off (sumStats nr dst (xss.map statOf)) (before ++ xss.flatten) := by
  induction xss generalizing dst before nr with
  | nil => simpa [FioSsd.sumStats] using h
  | cons xs xss ih =>
    have hnx := ih (h.sumStat xs hnr.ne') (lt_succ_of_lt hnr)
    simpa [FioSsd.sumStats] using hnx

section

variable (xss : List (List Nat)) {nr : Nat} {before : List Nat}

lemma sumStats_eq_iff
    (hfr : nr = 0 → before = []) :
    sumStats nr (statOf before) (xss.map statOf) = statOf (before ++ xss.flatten) ↔
      Merges nr before xss := by
  induction xss generalizing nr before with
  | nil => simp [sumStats, Merges]
  | cons xs xss ih =>
    simp only [map_cons, sumStats, flatten_cons, Merges]
    by_cases hmrg : MergesAt nr before xs
    · rw [sumStat_merges hmrg, ← append_assoc, ih (fun h => absurd h (succ_ne_zero nr))]
      exact (and_iff_right hmrg).symm
    · -- only a message behind the first one can fail to merge
      have hpos : 0 < nr := by
        refine pos_of_ne_zero fun h0 => hmrg (.inr (.inl (hfr h0)))
      have hoff := (off_of_not_mergesAt hmrg).sumStats xss (succ_lt_succ hpos)
      rw [append_assoc] at hoff
      exact iff_of_false hoff.ne (fun h => hmrg h.1)

lemma merges_of_few (hnr : 0 < nr)
    (hfr : nr = 1 → before = []) (hfew : (before ++ xss.flatten).length < 2 ^ 32) :
    Merges nr before xss := by
  induction xss generalizing nr before with
  | nil => trivial
  | cons xs xss ih =>
    rw [flatten_cons, ← append_assoc] at hfew
    refine ⟨?_, ih (succ_pos nr) (fun h => absurd h (by omega)) hfew⟩
    by_cases hone : nr = 1
    · exact .inr (.inl (hfr hone))
    · simp only [length_append] at hfew
      have hpr : before.length * xs.length < 2 ^ 32 * 2 ^ 32 :=
        mul_lt_mul'' (by omega) (by omega)
      exact .inr (.inr (by rw [if_neg hone]; exact .inr hpr))

end

/-- **Merging equals one pass**: the statistics of any lists of samples, merged in order as
    `show_run_stats` does, are those of all the samples in a row. -/
theorem sumStats_eq_onePass (xss : List (List Nat)) (hulong : ∀ xs ∈ xss, ∀ x ∈ xs, x ≤ ulongMax)
    (hfew : xss.flatten.length < 2 ^ 32) :
    sumStats 1 initStat (xss.map (·.foldl addStatSample initStat)) =
      xss.flatten.foldl addStatSample initStat := by
  have hpr := map_congr_left fun xs hxs => foldl_addStatSample xs (hulong xs hxs)
  have hwh : ∀ x ∈ xss.flatten, x ≤ ulongMax := fun x hx => by
    obtain ⟨xs, hxs, hx⟩ := mem_flatten.1 hx
    exact hulong xs hxs x hx
  have hin : initStat = statOf [] := foldl_addStatSample [] (by simp)
  rw [hpr, foldl_addStatSample _ hwh, hin]
  exact (sumStats_eq_iff xss (by simp)).2 (merges_of_few xss Nat.one_pos (fun _ => rfl) hfew)

theorem sumStats_eq_onePass_three :
    sumStats 1 initStat ([[], [1, 2], [4]].map (·.foldl addStatSample initStat)) =
      [1, 2, 4].foldl addStatSample initStat :=
  sumStats_eq_onePass [[], [1, 2], [4]] (by decide) (by decide)

def sumThreadStats (dst src : Stats) (nr : Nat) : Stats :=
  { dst with
    clatStat := fun l => sumStat (dst.clatStat l) (src.clatStat l) nr
    slatStat := fun l => sumStat (dst.slatStat l) (src.slatStat l) nr
    latStat := fun l => sumStat (dst.latStat l) (src.latStat l) nr
    bwStat := fun l => sumStat (dst.bwStat l) (src.bwStat l) nr
    ioBytes := fun l => dst.ioBytes l + src.ioBytes l
    runtime := fun l => max (dst.runtime l) (src.runtime l)
    usrTime := dst.usrTime + src.usrTime
    sysTime := dst.sysTime + src.sysTime
    ctx := dst.ctx + src.ctx
    majf := dst.majf + src.majf
    minf := dst.minf + src.minf
    ioUMap := fun k => dst.ioUMap k + src.ioUMap k
    ioUSubmit := fun k => dst.ioUSubmit k + src.ioUSubmit k
    ioUComplete := fun k => dst.ioUComplete k + src.ioUComplete k
    ioULatU := fun k => dst.ioULatU k + src.ioULatU k
    ioULatM := fun k => dst.ioULatM k + src.ioULatM k
    totalIoU := fun k => dst.totalIoU k + src.totalIoU k
    shortIoU := fun k => dst.shortIoU k + src.shortIoU k
    ioUPlat := fun k m => dst.ioUPlat k m + src.ioUPlat k m
    totalRunTime := dst.totalRunTime + src.totalRunTime
    totalSubmit := dst.totalSubmit + src.totalSubmit
    totalComplete := dst.totalComplete + src.totalComplete }

def sumGroupStats (dst src : GroupRunStats Count) : GroupRunStats Count :=
  { dst with
    maxRun := fun i => if dst.maxRun i < src.maxRun i then src.maxRun i else dst.maxRun i
    minRun := fun i => if dst.minRun i ≠ 0 ∧ src.minRun i < dst.minRun i then src.minRun i
      else dst.minRun i
    maxBw := fun i => if dst.maxBw i < src.maxBw i then src.maxBw i else dst.maxBw i
    minBw := fun i => if dst.minBw i ≠ 0 ∧ src.minBw i < dst.minBw i then src.minBw i
      else dst.minBw i
    ioKb := fun i => dst.ioKb i + src.ioKb i
    agg := fun i => dst.agg i + src.agg i }

def initThreadStat : Stats :=
  { name := fun _ => 0, verror := fun _ => 0, description := fun _ => 0, error := 0
    groupid := 2 ^ 32 - 1, pid := 0, members := 0, clatStat := fun _ => initStat
    slatStat := fun _ => initStat, latStat := fun _ => initStat, bwStat := fun _ => initStat
    iopsStat := fun _ => ⟨0, 0, 0, 0, 0⟩, usrTime := 0, sysTime := 0, ctx := 0, minf := 0, majf := 0
    clatPercentiles := 0, percentileList := fun _ => 0, ioUMap := fun _ => 0
    ioUSubmit := fun _ => 0, ioUComplete := fun _ => 0, ioULatU := fun _ => 0
    ioULatM := fun _ => 0, ioUPlat := fun _ _ => 0, totalIoU := fun _ => 0
    shortIoU := fun _ => 0, totalSubmit := 0, totalComplete := 0, ioBytes := fun _ => 0
    runtime := fun _ => 0, totalRunTime := 0, continueOnError := 0, totalErrCount := 0
    firstError := 0, kbBase := 0 }

def initGroupRunStat : GroupRunStats Count :=
  { maxRun := fun _ => 0, minRun := fun _ => ulongMax, maxBw := fun _ => 0
    minBw := fun _ => ulongMax, ioKb := fun _ => 0, agg := fun _ => 0, kbBase := 0, groupid := 0 }

/-- The static variables `client_ts`, `client_gs` and `sum_stat_nr` of `client.c`. -/
structure ClientSums where
  ts : Stats
  gs : GroupRunStats Count
  nr : Nat

def ClientSums.start : ClientSums := ⟨initThreadStat, initGroupRunStat, 0⟩

def nameAllClients (ts : Stats) : Stats :=
  { ts with name := fun i =>
      if i.val ≤ 11 then ("All clients".toList.map fun ch => ch.toNat.toUInt8).getD i.val 0
      else ts.name i }

def handleTs (s : ClientSums) (clients : Nat) (ts : Stats) (rs : GroupRunStats Count) : ClientSums :=
  if clients = 1 then s
  else
    let sum := sumThreadStats s.ts ts s.nr
    let sum := { sum with members := sum.members + 1, groupid := ts.groupid }
    { ts := if s.nr + 1 = clients then nameAllClients sum else sum
      gs := sumGroupStats s.gs rs
      nr := s.nr + 1 }

inductive StatEntry
  | clat (l : Fin 2) | slat (l : Fin 2) | lat (l : Fin 2) | bw (l : Fin 2)
  deriving DecidableEq, Repr

def StatEntry.of (ts : Stats) : StatEntry → Stat
  | .clat l => ts.clatStat l
  | .slat l => ts.slatStat l
  | .lat l => ts.latStat l
  | .bw l => ts.bwStat l

structure TsMsg where
  clients : Nat
  several : 2 ≤ clients
  ts : Stats
  rs : GroupRunStats Count
  samples : StatEntry → List Nat
  entries : ∀ e : StatEntry, e.of ts = statOf (samples e)

namespace ClientSums

def run (s : ClientSums) (msgs : List TsMsg) : ClientSums :=
  msgs.foldl (fun s msg => handleTs s msg.clients msg.ts msg.rs) s

lemma handleTs_entry (s : ClientSums) (msg : TsMsg) (e : StatEntry) :
    (handleTs s msg.clients msg.ts msg.rs).nr = s.nr + 1 ∧
      e.of (handleTs s msg.clients msg.ts msg.rs).ts = sumStat (e.of s.ts) (statOf (msg.samples e)) s.nr := by
  have hcln : msg.clients ≠ 1 := by
    have hsvr := msg.several
    omega
  rw [← msg.entries e]
  rw [handleTs, if_neg hcln]
  refine ⟨rfl, ?_⟩
  simp only
  split_ifs <;> cases e <;> rfl

lemma run_entry (msgs : List TsMsg) (s : ClientSums) (e : StatEntry) :
    e.of (s.run msgs).ts = sumStats s.nr (e.of s.ts) ((msgs.map (·.samples e)).map statOf) := by
  induction msgs generalizing s with
  | nil => rfl
  | cons msg msgs ih =>
    obtain ⟨hnr, hen⟩ := handleTs_entry s msg e
    have hrs := ih (handleTs s msg.clients msg.ts msg.rs)
    rw [hnr, hen] at hrs
    exact hrs

lemma start_entry (e : StatEntry) : e.of start.ts = statOf [] := by
  have hin : initStat = statOf [] := by
    simp [initStat, statOf, rats, mean, sqDev]
  rw [← hin]
  cases e <;> rfl

/-- **The aggregate over clients is pooled exactly when every message merges** with those before it,
    for every statistic. -/
theorem handleTs_pools_iff (msgs : List TsMsg) :
    (∀ e : StatEntry, e.of (start.run msgs).ts = statOf (msgs.map (·.samples e)).flatten) ↔
      ∀ e : StatEntry, Merges 0 [] (msgs.map (·.samples e)) := by
  refine forall_congr' fun e => ?_
  rw [run_entry, start_entry]
  have hiff := @sumStats_eq_iff (msgs.map (·.samples e)) 0 [] (fun _ => rfl)
  rwa [nil_append] at hiff

def oneRead (clat : Nat) : TsMsg :=
  { clients := 2
    several := by decide
    ts := { initThreadStat with
      clatStat := fun l => statOf (if l = 0 then [clat] else [])
      slatStat := fun _ => statOf [], latStat := fun _ => statOf [], bwStat := fun _ => statOf [] }
    rs := initGroupRunStat
    samples := fun e => if e = .clat 0 then [clat] else []
    entries := by
      intro e
      cases e with
      | clat l =>
        by_cases hl : l = 0
        · subst hl
          rfl
        · simp [StatEntry.of, hl]
      | slat l => rfl
      | lat l => rfl
      | bw l => rfl }

/-- Two clients with a read of 10 and of 20 microseconds: two samples, but the second message
    replaces the mean, 20 instead of 15. -/
theorem handleTs_replaces_mean :
    (StatEntry.clat 0).of (start.run [oneRead 10, oneRead 20]).ts =
        ⟨20, 10, 2, 20, 0⟩ ∧ statOf [10, 20] = ⟨20, 10, 2, 15, 50⟩ := by
  constructor
  · rw [run_entry, start_entry]
    simp [sumStats, sumStat, statOf, rats, mean, sqDev, oneRead, start, ulongMax]
  · simp only [statOf, rats, mean, sqDev, ulongMax]
    norm_num

end ClientSums

end FioSsd
