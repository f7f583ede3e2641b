import Mathlib.Tactic

/-! # Completion latency percentiles

`stat.c` counts completion latencies in buckets: the first 128 hold one value each, and from there
on every power of two has 64 buckets. -/

namespace FioSsd

open List

def platBits : Nat := 6

def platVal : Nat := 1 <<< platBits

def platNr : Nat := 19 * platVal

/-- `plat_val_to_idx`; `Nat.log2` is the most significant bit, 0 for 0. -/
def platValToIdx (val : Nat) : Nat :=
  let msb := val.log2
  if msb ≤ platBits then val
  else
    let errorBits := msb - platBits
    let base := (errorBits + 1) <<< platBits
    let offset := (platVal - 1) &&& (val >>> errorBits)
    if base + offset < platNr - 1 then base + offset else platNr - 1

def platIdxToVal (idx : Nat) : Nat :=
  if idx < platVal <<< 1 then idx
  else
    let errorBits := (idx >>> platBits) - 1
    let base := 1 <<< (errorBits + platBits)
    let k := idx % platVal
    ⌊(base : ℚ) + ((k : ℚ) + 1 / 2) * ((1 <<< errorBits : Nat) : ℚ)⌋₊

/-- The bucket of `add_clat_percentile_sample`, which passes an `unsigned long` on as an `unsigned int`. -/
def clatIdx (usec : Nat) : Nat := platValToIdx (usec % 2 ^ 32)

def errorBits (val : Nat) : Nat := val.log2 - 6

variable {v w e q : Nat}

lemma div_errorBits (v : Nat) :
    v / 2 ^ errorBits v < 128 ∧ (0 < errorBits v → 64 ≤ v / 2 ^ errorBits v) := by
  unfold errorBits
  have hlt : v < 2 ^ (v.log2 + 1) := Nat.lt_log2_self
  refine ⟨?_, fun hpos => ?_⟩
  · rw [Nat.div_lt_iff_lt_mul (Nat.two_pow_pos _), show 128 = 2 ^ 7 from rfl, ← pow_add]
    exact hlt.trans_le (Nat.pow_le_pow_right (by decide) (by omega))
  · have hle : 2 ^ v.log2 ≤ v := Nat.log2_self_le (by rintro rfl; simp at hpos)
    rw [Nat.le_div_iff_mul_le (Nat.two_pow_pos _), show 64 = 2 ^ 6 from rfl, ← pow_add]
    rwa [show 6 + (v.log2 - 6) = v.log2 by omega]

lemma platValToIdx_eq (v : Nat) :
    platValToIdx v = min (64 * errorBits v + v / 2 ^ errorBits v) 1215 := by
  obtain ⟨hlt, hge⟩ := div_errorBits v
  by_cases hmsb : v.log2 ≤ platBits
  · have h0 : errorBits v = 0 := Nat.sub_eq_zero_of_le hmsb
    rw [platValToIdx, if_pos hmsb]
    rw [h0] at hlt ⊢
    omega
  · have hge := hge (Nat.sub_pos_of_lt (Nat.lt_of_not_le hmsb))
    have hoff : (platVal - 1) &&& (v >>> errorBits v) = v / 2 ^ errorBits v % 64 := by
      rw [Nat.and_comm, Nat.shiftRight_eq_div_pow]
      exact Nat.and_two_pow_sub_one_eq_mod _ 6
    have hbs : (errorBits v + 1) <<< platBits = (errorBits v + 1) * 64 := Nat.shiftLeft_eq _ _
    have hidx : platValToIdx v =
        min ((errorBits v + 1) <<< platBits + ((platVal - 1) &&& (v >>> errorBits v))) 1215 := by
      rw [platValToIdx, if_neg hmsb]
      exact (min_def_lt _ _).symm
    rw [hidx, hoff, hbs]
    omega

lemma platValToIdx_mono (h : v ≤ w) : platValToIdx v ≤ platValToIdx w := by
  rw [platValToIdx_eq, platValToIdx_eq]
  refine min_le_min_right _ ?_
  have hlog : v.log2 ≤ w.log2 := by
    rw [Nat.log2_eq_log_two, Nat.log2_eq_log_two]
    exact Nat.log_mono_right h
  have hbt : errorBits v ≤ errorBits w := Nat.sub_le_sub_right hlog 6
  rcases hbt.eq_or_lt with heq | hlt
  · rw [heq]
    exact Nat.add_le_add_left (Nat.div_le_div_right h) _
  · have hv := (div_errorBits v).1
    have hw := (div_errorBits w).2 (by omega)
    omega

lemma platIdxToVal_of_lt (h : q < 128) : platIdxToVal q = q := if_pos h

lemma platIdxToVal_group (h : 64 ≤ q) (hhg : q < 128) :
    platIdxToVal (64 * (e + 1) + q) = q * 2 ^ (e + 1) + 2 ^ e := by
  have hgr : (64 * (e + 1) + q) >>> platBits - 1 = e + 1 := by
    rw [Nat.shiftRight_eq_div_pow]
    change (64 * (e + 1) + q) / 64 - 1 = e + 1
    omega
  have hk : (64 * (e + 1) + q) % platVal = q - 64 := by
    change (64 * (e + 1) + q) % 64 = q - 64
    omega
  have hbig : ¬ 64 * (e + 1) + q < platVal <<< 1 := by
    change ¬ 64 * (e + 1) + q < 128
    omega
  rw [platIdxToVal, if_neg hbig, hgr, hk]
  dsimp only
  rw [Nat.one_shiftLeft, Nat.one_shiftLeft]
  have hexa : ((2 ^ (e + 1 + platBits) : Nat) : ℚ) + ((q - 64 : Nat) + 1 / 2) * (2 ^ (e + 1) : Nat) =
      ((q * 2 ^ (e + 1) + 2 ^ e : Nat) : ℚ) := by
    rw [Nat.cast_sub h, show platBits = 6 from rfl]
    push_cast
    ring
  exact (congrArg Nat.floor hexa).trans (Nat.floor_natCast _)

/-- What the buckets promise of one latency. -/
structure BucketRight (usec : Nat) : Prop where
  inRange : clatIdx usec < platNr
  mono : ∀ l ≤ usec, clatIdx l ≤ clatIdx usec
  close : usec < 2 ^ 24 →
    ((platIdxToVal (clatIdx usec) : Int) - usec).natAbs ≤ max 1 (usec / 128)
  last : 2 ^ 24 ≤ usec → platNr - platVal ≤ clatIdx usec

lemma clatIdx_of_lt (h : v < 2 ^ 32) : clatIdx v = platValToIdx v := by
  rw [clatIdx, Nat.mod_eq_of_lt h]

lemma platValToIdx_le (v : Nat) : platValToIdx v ≤ 1215 := by
  rw [platValToIdx_eq]
  exact min_le_right _ _

lemma platIdxToVal_close (h : v < 2 ^ 24) :
    ((platIdxToVal (platValToIdx v) : Int) - v).natAbs ≤ v / 128 := by
  obtain ⟨hlt, hge⟩ := div_errorBits v
  have hbt : errorBits v ≤ 17 := by
    have hlog : v.log2 ≤ 23 := by
      rw [Nat.log2_eq_log_two]
      exact Nat.le_of_lt_succ (Nat.log_lt_of_lt_pow' (by decide) h)
    exact Nat.sub_le_sub_right hlog 6
  rw [platValToIdx_eq, min_eq_left (by omega)]
  have hsp := Nat.div_add_mod v (2 ^ errorBits v)
  have hrs := Nat.mod_lt v (Nat.two_pow_pos (errorBits v))
  cases he : errorBits v with
  | zero =>
    rw [he] at hlt
    rw [pow_zero, Nat.div_one] at hlt ⊢
    rw [platIdxToVal_of_lt (by omega)]
    omega
  | succ e =>
    rw [he] at hlt hge hsp hrs
    have hge := hge e.succ_pos
    rw [platIdxToVal_group hge hlt]
    -- the value lies in a bucket of width 2 ^ (e + 1) that begins at 64 widths or later
    have hwd : 64 * 2 ^ (e + 1) ≤ 2 ^ (e + 1) * (v / 2 ^ (e + 1)) := by
      rw [mul_comm]
      exact Nat.mul_le_mul_left _ hge
    rw [mul_comm _ (2 ^ (e + 1))]
    generalize 2 ^ (e + 1) * (v / 2 ^ (e + 1)) = start at *
    rw [pow_succ] at *
    omega

lemma platValToIdx_last_iff (h : v < 2 ^ 32) : platValToIdx v = 1215 ↔ 127 * 2 ^ 17 ≤ v := by
  constructor
  · intro hla
    by_contra hlow
    have hmn : platValToIdx v ≤ platValToIdx (127 * 2 ^ 17 - 1) := platValToIdx_mono (by omega)
    have hval : platValToIdx (127 * 2 ^ 17 - 1) = 1214 := by decide
    omega
  · intro hle
    have hmn := platValToIdx_mono hle
    have hval : platValToIdx (127 * 2 ^ 17) = 1215 := by decide
    have hmax := platValToIdx_le v
    omega

/-- A latency falls into the right bucket exactly if its low 32 bits, all that `plat_val_to_idx` sees, are
    the latency itself or still reach the last bucket. -/
theorem bucketRight_iff (usec : Nat) :
    BucketRight usec ↔ usec < 2 ^ 32 ∨ 127 * 2 ^ 17 ≤ usec % 2 ^ 32 := by
  have hlow : usec % 2 ^ 32 < 2 ^ 32 := Nat.mod_lt _ (by decide)
  constructor
  · intro hrg
    by_contra hnot
    obtain ⟨hbig, hsm⟩ := not_or.1 hnot
    have hmn := hrg.mono (127 * 2 ^ 17) (by omega)
    rw [clatIdx_of_lt (by decide), (platValToIdx_last_iff (by decide)).2 le_rfl] at hmn
    have hmax := platValToIdx_le (usec % 2 ^ 32)
    exact hsm ((platValToIdx_last_iff hlow).1 (le_antisymm hmax hmn))
  · intro hok
    have hmn : ∀ l ≤ usec, clatIdx l ≤ clatIdx usec := by
      intro l hl
      rcases hok with hfit | hla
      · rw [clatIdx_of_lt (by omega), clatIdx_of_lt hfit]
        exact platValToIdx_mono hl
      · unfold clatIdx
        rw [(platValToIdx_last_iff hlow).2 hla]
        exact platValToIdx_le _
    refine ⟨Nat.lt_succ_of_le (platValToIdx_le _), hmn, fun hfit => ?_, fun hbig => ?_⟩
    · rw [clatIdx_of_lt (by omega)]
      exact (platIdxToVal_close hfit).trans (le_max_right _ _)
    · refine le_trans ?_ (hmn (2 ^ 24) hbig)
      decide

theorem bucketRight_wraps : ¬ BucketRight (2 ^ 32) := by
  intro hrg
  exact absurd (hrg.last (by decide)) (by decide)

lemma platIdxToVal_mono : Monotone platIdxToVal := by
  refine monotone_nat_of_le_succ fun i => ?_
  rcases Nat.lt_or_ge i 127 with hlow | hge
  · rw [platIdxToVal_of_lt (by omega), platIdxToVal_of_lt (by omega)]
    omega
  rcases hge.eq_or_lt with rfl | hhg
  · rw [platIdxToVal_of_lt (by decide), show 127 + 1 = 64 * (0 + 1) + 64 from rfl,
      platIdxToVal_group (by decide) (by decide)]
    decide
  · obtain ⟨e, q, rfl, hq, hq'⟩ : ∃ e q, i = 64 * (e + 1) + q ∧ 64 ≤ q ∧ q < 128 :=
      ⟨i / 64 - 2, 64 + i % 64, by omega, by omega, by omega⟩
    rw [platIdxToVal_group hq hq']
    -- the next bucket is in the same group, or it is the first of the next one
    rcases Nat.lt_or_ge q 127 with hin | hend
    · rw [add_assoc, platIdxToVal_group (by omega) (by omega), add_mul]
      omega
    · obtain rfl : q = 127 := by omega
      rw [show 64 * (e + 1) + 127 + 1 = 64 * (e + 1 + 1) + 64 by omega,
        platIdxToVal_group (by decide) (by decide)]
      simp only [pow_succ]
      omega

lemma platIdxToVal_fits (h : q < platNr) : platIdxToVal q ≤ 2 ^ 32 - 1 := by
  refine (platIdxToVal_mono (Nat.le_pred_of_lt h)).trans ?_
  rw [show platNr.pred = 64 * (16 + 1) + 127 from rfl, platIdxToVal_group (by decide) (by decide)]
  decide

def ioUListMaxLen : Nat := 20

/-- What `calc_clat_percentiles` writes: the part of `ovals` filled so far, `minv` and `maxv`. -/
structure ClatValues where
  ovals : List Nat
  (minv maxv : Nat)

def ClatValues.note (out : ClatValues) (val : Nat) : ClatValues where
  ovals := out.ovals ++ [val]
  minv := if val < out.minv then val else out.minv
  maxv := if out.maxv < val then val else out.maxv

/-- The two loops, at bucket `i` and the first percentile that is not found yet; `sum` is that of
the buckets before, and cannot wrap with 1216 counts of 32 bits. -/
def fillBuckets (nr : Nat) : List Nat → Nat → Nat → List ℚ → ClatValues → ClatValues
  | _, _, _, [], out => out
  | [], _, _, _, out => out
  | count :: counts, i, sum, p :: ps, out =>
    if p / 100 * nr ≤ (sum + count : Nat) then
      fillBuckets nr (count :: counts) i sum ps (out.note (platIdxToVal i))
    else fillBuckets nr counts (i + 1) (sum + count) (p :: ps) out
  termination_by counts _ _ ps => counts.length + ps.length

/-- `calc_clat_percentiles`: the number of percentiles and their values. -/
def calcClatPercentiles (ioUPlat : List Nat) (nr : Nat) (plist : List ℚ) : Nat × ClatValues :=
  let ps := (plist.take ioUListMaxLen).takeWhile (· ≠ 0)
  let out : ClatValues := ⟨[], 2 ^ 32 - 1, 0⟩
  if ps.length = 0 then (0, out)
  else (ps.length, fillBuckets nr ioUPlat 0 0 (ps.mergeSort (· ≤ ·)) out)

section Loops

variable {ps : List ℚ} {nr i : Nat} {counts done rest vals : List Nat} {out : ClatValues}

def LeastBucket (counts : List Nat) (nr : Nat) (p : ℚ) (i : Nat) : Prop :=
  IsLeast {i | i < counts.length ∧ p / 100 * nr ≤ (counts.take (i + 1)).sum} i

def PercentileVal (counts : List Nat) (nr : Nat) (p : ℚ) (val : Nat) : Prop :=
  ∃ i, LeastBucket counts nr p i ∧ val = platIdxToVal i

lemma fillBuckets_eq (hall : counts = done ++ rest) (h : ps.Pairwise (· ≤ ·))
    (hle : ∀ p ∈ ps, p / 100 * nr ≤ counts.sum)
    (hnot : ∀ p ∈ ps, ∀ k < done.length, ((counts.take (k + 1)).sum : ℚ) < p / 100 * nr)
    (hne : counts ≠ []) :
    ∃ vals, List.Forall₂ (PercentileVal counts nr) ps vals ∧
      fillBuckets nr rest done.length done.sum ps out = vals.foldl ClatValues.note out := by
  induction rest generalizing done ps out with
  | nil =>
    rw [append_nil] at hall
    subst hall
    cases ps with
    | nil => exact ⟨[], .nil, fillBuckets.eq_1 ..⟩
    | cons p ps =>
      have hpos := length_pos_of_ne_nil hne
      have hla := hnot p (.head _) (counts.length - 1) (by omega)
      rw [Nat.sub_add_cancel hpos, take_length] at hla
      exact absurd (hle p (.head _)) hla.not_ge
  | cons count rest ih =>
    have hal' : counts = (done ++ [count]) ++ rest := by rw [hall, append_assoc]; rfl
    have htk : (counts.take (done.length + 1)).sum = done.sum + count := by
      rw [hal', take_left' (by simp), sum_append, sum_singleton]
    induction ps generalizing out with
    | nil => exact ⟨[], .nil, fillBuckets.eq_1 ..⟩
    | cons p ps ihp =>
      obtain ⟨hfr, htl⟩ := pairwise_cons.1 h
      rw [fillBuckets]
      split_ifs with hp
      · obtain ⟨vals, hvl, hr⟩ := @ihp (out.note (platIdxToVal done.length)) htl
          (fun p' hp' => hle p' (.tail _ hp')) (fun p' hp' => hnot p' (.tail _ hp'))
        have hls : LeastBucket counts nr p done.length := by
          refine ⟨⟨by simp [hall], by rwa [htk]⟩, fun k hk => ?_⟩
          by_contra hlt
          exact absurd hk.2 (hnot p (.head _) k (Nat.lt_of_not_le hlt)).not_ge
        exact ⟨_ :: vals, .cons ⟨_, hls, rfl⟩ hvl, hr⟩
      · -- no percentile from `p` on is reached by this bucket
        have hnt' : ∀ p' ∈ p :: ps, ∀ k < (done ++ [count]).length,
            ((counts.take (k + 1)).sum : ℚ) < p' / 100 * nr := by
          intro p' hp' k hk
          rw [length_append, length_singleton] at hk
          rcases (Nat.le_of_lt_succ hk).eq_or_lt with rfl | hk
          · rw [htk]
            refine (not_le.1 hp).trans_le ?_
            have hge := (mem_cons.1 hp').elim (·.ge) (hfr p')
            gcongr
          · exact hnot p' hp' k hk
        have hr := @ih (p :: ps) (done ++ [count]) out hal' h hle hnt'
        rwa [length_append, sum_append, sum_singleton] at hr

lemma foldl_note_ovals : (vals.foldl ClatValues.note out).ovals = out.ovals ++ vals := by
  induction vals generalizing out with
  | nil => exact (append_nil _).symm
  | cons val vals ih =>
    rw [foldl_cons, ih]
    exact append_assoc _ _ _

lemma foldl_note_minv :
    (vals.foldl ClatValues.note out).minv = vals.foldl min out.minv ∧
      (vals.foldl ClatValues.note out).maxv = vals.foldl max out.maxv := by
  induction vals generalizing out with
  | nil => exact ⟨rfl, rfl⟩
  | cons val vals ih =>
    rw [foldl_cons, ih.1, ih.2, foldl_cons, foldl_cons, min_comm, min_def_lt, max_def_lt]
    exact ⟨rfl, rfl⟩

lemma percentileVal_mono {p p' : ℚ} (hle : p ≤ p') (hval : PercentileVal counts nr p v)
    (h : PercentileVal counts nr p' w) : v ≤ w := by
  obtain ⟨i, hi, rfl⟩ := hval
  obtain ⟨j, hj, rfl⟩ := h
  refine platIdxToVal_mono (hi.2 ⟨hj.1.1, le_trans ?_ hj.1.2⟩)
  gcongr

lemma percentileVal_sorted (h : ps.Pairwise (· ≤ ·))
    (hvl : List.Forall₂ (PercentileVal counts nr) ps vals) : vals.Pairwise (· ≤ ·) := by
  obtain ⟨hlen, hget⟩ := forall₂_iff_get.1 hvl
  rw [pairwise_iff_get] at h ⊢
  intro i j hij
  have hi := i.2.trans_eq hlen.symm
  have hj := j.2.trans_eq hlen.symm
  exact percentileVal_mono (h ⟨i, hi⟩ ⟨j, hj⟩ hij) (hget i hi i.2) (hget j hj j.2)

lemma percentileVal_fits (hlen : counts.length = platNr)
    (h : List.Forall₂ (PercentileVal counts nr) ps vals) : ∀ val ∈ vals, val ≤ 2 ^ 32 - 1 := by
  induction h with
  | nil => exact forall_mem_nil _
  | cons hval _ ih =>
    obtain ⟨i, hi, rfl⟩ := hval
    exact forall_mem_cons.2 ⟨platIdxToVal_fits (hi.1.1.trans_eq hlen), ih⟩

lemma foldl_max_isGreatest {α : Type} [LinearOrder α] {xs : List α} {x : α}
    (h : ∀ y ∈ xs, x ≤ y) (hne : xs ≠ []) : IsGreatest {y | y ∈ xs} (xs.foldl max x) := by
  obtain ⟨hmem, hmax⟩ := List.max?_eq_some_iff.1 (@List.max?_cons' _ x _ xs)
  refine ⟨?_, fun y hy => hmax y (.tail _ hy)⟩
  rcases mem_cons.1 hmem with heq | hmem
  · obtain ⟨y, hy⟩ := exists_mem_of_ne_nil _ hne
    have hsam := le_antisymm (heq.trans_le (h y hy)) (hmax y (.tail _ hy))
    exact hsam ▸ hy
  · exact hmem

end Loops

/-- What `calc_clat_percentiles` promises for the percentiles `ps`, the least first. -/
structure PercentilesRight (counts : List Nat) (nr : Nat) (ps : List ℚ) (out : Nat × ClatValues) :
    Prop where
  count : out.1 = ps.length
  least : List.Forall₂ (PercentileVal counts nr) (ps.mergeSort (· ≤ ·)) out.2.ovals
  sorted : out.2.ovals.Pairwise (· ≤ ·)
  minv : IsLeast {val | val ∈ out.2.ovals} out.2.minv
  maxv : IsGreatest {val | val ∈ out.2.ovals} out.2.maxv

/-- Whatever the counts and the percentiles, listed in a zero-terminated array of 20 entries, every
    percentile gets the middle of the first bucket that reaches it. -/
theorem calcClatPercentiles_right (counts : List Nat) (hlen : counts.length = platNr)
    (hpos : 0 < counts.sum) (ps : List ℚ) (hps : 1 ≤ ps.length ∧ ps.length ≤ ioUListMaxLen)
    (hrange : ∀ p ∈ ps, 0 < p ∧ p ≤ 100) :
    PercentilesRight counts counts.sum ps (calcClatPercentiles counts counts.sum
      (ps ++ List.replicate (ioUListMaxLen - ps.length) 0)) := by
  have hlst : ((ps ++ List.replicate (ioUListMaxLen - ps.length) 0).take ioUListMaxLen).takeWhile
      (· ≠ 0) = ps := by
    rw [take_of_length_le (by simp; omega), takeWhile_append_of_pos]
    · cases ioUListMaxLen - ps.length <;> simp [replicate_succ]
    · exact fun p hp => decide_eq_true (hrange p hp).1.ne'
  have hne : counts ≠ [] := by
    rintro rfl
    simp at hpos
  have hsrt := pairwise_mergeSort' (· ≤ ·) ps
  have hrc : ∀ p ∈ ps.mergeSort (· ≤ ·), p / 100 * counts.sum ≤ counts.sum := by
    intro p hp
    have hp := (hrange p (mem_mergeSort.1 hp)).2
    exact mul_le_of_le_one_left (Nat.cast_nonneg _) ((div_le_one (by norm_num)).2 hp)
  obtain ⟨vals, hvl, hr⟩ := @fillBuckets_eq (ps.mergeSort (· ≤ ·)) counts.sum counts [] counts
    ⟨[], 2 ^ 32 - 1, 0⟩ rfl hsrt hrc (fun _ _ k hk => absurd hk k.not_lt_zero) hne
  have hcl : calcClatPercentiles counts counts.sum
      (ps ++ List.replicate (ioUListMaxLen - ps.length) 0) =
      (ps.length, vals.foldl ClatValues.note ⟨[], 2 ^ 32 - 1, 0⟩) := by
    rw [calcClatPercentiles, hlst, ← hr]
    exact if_neg (by omega)
  have hvne : vals ≠ [] := by
    rintro rfl
    have hlng := hvl.length_eq
    rw [length_mergeSort, length_nil] at hlng
    omega
  rw [hcl]
  refine ⟨rfl, ?_, ?_, ?_, ?_⟩
  all_goals dsimp only; rw [foldl_note_ovals, nil_append]
  · exact hvl
  · exact percentileVal_sorted hsrt hvl
  · rw [foldl_note_minv.1]
    exact @foldl_max_isGreatest ℕᵒᵈ _ vals _ (percentileVal_fits hlen hvl) hvne
  · rw [foldl_note_minv.2]
    exact foldl_max_isGreatest (fun _ _ => Nat.zero_le _) hvne

theorem calcClatPercentiles_right_median :
    PercentilesRight (List.replicate platNr 1) (List.replicate platNr 1).sum [99, 50]
      (calcClatPercentiles (List.replicate platNr 1) (List.replicate platNr 1).sum
        ([99, 50] ++ List.replicate (ioUListMaxLen - 2) 0)) :=
  calcClatPercentiles_right _ length_replicate
    (by rw [sum_replicate]; decide) [99, 50] (by decide) (by norm_num)

end FioSsd
