import FioSsd.Lib.Memory

/-! # Rates

`rate` and `rate_iops` slow a job down: `usec_for_io` says how long the bytes done so far should
have taken. -/

namespace FioSsd

structure RateOptions where
  (rate ratemin rateIops rateIopsMin minBs : Fin 2 → BitVec 32)

namespace RateOptions

variable (o : RateOptions)

/-- The checks of `fixup_options`, whose sums are `unsigned int` too. -/
def fixupOptions : Bool :=
  !((o.rate 0 + o.rate 1 ≠ 0 && o.rateIops 0 + o.rateIops 1 ≠ 0) ||
    (o.ratemin 0 + o.ratemin 1 ≠ 0 && o.rateIopsMin 0 + o.rateIopsMin 1 ≠ 0)) &&
  !(o.rate 0 < o.ratemin 0 || o.rate 1 < o.ratemin 1 || o.rateIops 0 < o.rateIopsMin 0 ||
    o.rateIops 1 < o.rateIopsMin 1)

def setupRateOf (ddir : Fin 2) : BitVec 64 :=
  if o.rate ddir ≠ 0 then (o.rate ddir).setWidth 64
  else (o.rateIops ddir * o.minBs ddir).setWidth 64

def limits (ddir : Fin 2) : Bool := o.rate ddir ≠ 0 || o.rateIops ddir ≠ 0

def setupRate : Option (Fin 2 → BitVec 64) :=
  if (o.limits 0 && o.setupRateOf 0 = 0) || (o.limits 1 && o.setupRateOf 1 = 0) then none
  else some fun ddir => if o.limits ddir then o.setupRateOf ddir else 0

def shouldCheckRate (ddir : Fin 2) : Bool :=
  o.rate ddir ≠ 0 || o.ratemin ddir ≠ 0 || o.rateIops ddir ≠ 0 || o.rateIopsMin ddir ≠ 0

def requested (ddir : Fin 2) : Nat :=
  if o.rate ddir ≠ 0 then (o.rate ddir).toNat else (o.rateIops ddir).toNat * (o.minBs ddir).toNat

end RateOptions

def usecForIo (bps bytes : BitVec 64) : Option Int :=
  if bps = 0 then none
  else some (bytes % bps * 1000000 / bps + bytes / bps * 1000000).toInt

namespace RateOptions

variable {o : RateOptions} {ddir : Fin 2} {bps : Fin 2 → BitVec 64}

lemma limits_of_shouldCheckRate (hfix : o.fixupOptions) (h : o.shouldCheckRate ddir) :
    o.limits ddir := by
  have hmin : o.ratemin ddir ≤ o.rate ddir ∧ o.rateIopsMin ddir ≤ o.rateIops ddir := by
    simp only [fixupOptions, Bool.and_eq_true, Bool.not_eq_true', Bool.or_eq_false_iff,
      decide_eq_false_iff_not, BitVec.not_lt] at hfix
    fin_cases ddir <;> tauto
  by_contra hnot
  simp only [limits, Bool.or_eq_true, decide_eq_true_eq, not_or, not_not] at hnot
  rw [hnot.1, hnot.2] at hmin
  have h0 := And.intro (BitVec.le_zero_iff.1 hmin.1) (BitVec.le_zero_iff.1 hmin.2)
  simp [shouldCheckRate, hnot, h0] at h

lemma setupRate_eq (h : o.limits ddir) (hst : o.setupRate = some bps) :
    bps ddir = o.setupRateOf ddir ∧ bps ddir ≠ 0 := by
  unfold setupRate at hst
  split_ifs at hst with hlow
  cases hst
  simp only [Bool.or_eq_true, Bool.and_eq_true, decide_eq_true_eq, not_or, not_and] at hlow
  simp only [if_pos h]
  refine ⟨trivial, ?_⟩
  fin_cases ddir
  · exact hlow.1 h
  · exact hlow.2 h

lemma toNat_setupRateOf (o : RateOptions) (ddir : Fin 2) :
    (o.setupRateOf ddir).toNat = o.requested ddir % 2 ^ 32 := by
  unfold setupRateOf requested
  split_ifs
  · rw [BitVec.toNat_setWidth_of_le (by decide), Nat.mod_eq_of_lt (o.rate ddir).isLt]
  · rw [BitVec.toNat_setWidth_of_le (by decide), BitVec.toNat_mul]

end RateOptions

lemma usecForIo_eq {bps : BitVec 64} (hlow : 2000000 ≤ bps.toNat) (h : bps.toNat < 2 ^ 32)
    (bytes : BitVec 64) :
    usecForIo bps bytes = some ((bytes.toNat * 1000000 / bps.toNat : Nat) : Int) := by
  have hpos : 0 < bps.toNat := by omega
  have hne : bps ≠ 0 := by
    rintro rfl
    simp at hpos
  have hsp : bytes.toNat * 1000000 / bps.toNat =
      bytes.toNat % bps.toNat * 1000000 / bps.toNat + bytes.toNat / bps.toNat * 1000000 := by
    conv_lhs => rw [← Nat.mod_add_div bytes.toNat bps.toNat, add_mul, mul_assoc]
    exact Nat.add_mul_div_left _ _ hpos
  have hlt : bytes.toNat * 1000000 / bps.toNat < 2 ^ 63 := (Nat.div_lt_iff_lt_mul hpos).2 (by omega)
  have hrs := Nat.mod_lt bytes.toNat hpos
  have hnat : (bytes % bps * 1000000 / bps + bytes / bps * 1000000).toNat =
      bytes.toNat * 1000000 / bps.toNat := by
    have hmln : (1000000 : BitVec 64).toNat = 1000000 := by decide
    rw [hsp] at hlt ⊢
    have hfr : bytes.toNat % bps.toNat * 1000000 < 2 ^ 63 := by omega
    have hsc :=
      lt_of_le_of_lt (Nat.le_add_left _ (bytes.toNat % bps.toNat * 1000000 / bps.toNat)) hlt
    rw [BitVec.toNat_add, BitVec.toNat_udiv, BitVec.toNat_mul, BitVec.toNat_mul, BitVec.toNat_umod,
      BitVec.toNat_udiv, hmln, Nat.mod_eq_of_lt (hfr.trans (by norm_num)),
      Nat.mod_eq_of_lt (hsc.trans (by norm_num))]
    exact Nat.mod_eq_of_lt (hlt.trans (by norm_num))
  rw [usecForIo, if_neg hne, BitVec.toInt_eq_toNat_of_lt (by omega), hnat]

lemma usecForIo_self {bps : BitVec 64} (h : bps ≠ 0) : usecForIo bps bps = some 1000000 := by
  rw [usecForIo, if_neg h, BitVec.umod_self, BitVec.udiv_self, if_neg (by simpa using h),
    BitVec.zero_mul, BitVec.zero_udiv]
  decide

/-- Pacing is exact for every number of bytes exactly if the product of `rate_iops` and the block size
    fits an `unsigned int` and the rate is so high that the longest time fits a `long long`. -/
theorem RateOptions.usecForIo_exact_iff (o : RateOptions) (bps : Fin 2 → BitVec 64) (ddir : Fin 2)
    (hfix : o.fixupOptions) (hsetup : o.setupRate = some bps) (hcheck : o.shouldCheckRate ddir) :
    (∀ bytes, usecForIo (bps ddir) bytes =
      some ((bytes.toNat * 1000000 / o.requested ddir : Nat) : Int)) ↔
      2000000 ≤ o.requested ddir ∧ o.requested ddir < 2 ^ 32 := by
  obtain ⟨heq, hne⟩ := setupRate_eq (limits_of_shouldCheckRate hfix hcheck) hsetup
  have hbps : (bps ddir).toNat = o.requested ddir % 2 ^ 32 := by rw [heq, toNat_setupRateOf]
  have hpos : 0 < (bps ddir).toNat := by
    by_contra h0
    exact hne (BitVec.eq_of_toNat_eq (by simpa using h0))
  constructor
  · intro hall
    constructor
    · by_contra hslo
      have hla := hall (BitVec.allOnes 64)
      rw [usecForIo, if_neg hne, Option.some.injEq] at hla
      have hmax : (BitVec.allOnes 64).toNat = 2 ^ 64 - 1 := rfl
      have hint := BitVec.toInt_lt (x := BitVec.allOnes 64 % bps ddir * 1000000 / bps ddir +
        BitVec.allOnes 64 / bps ddir * 1000000)
      have hln : 2 ^ 63 ≤ (BitVec.allOnes 64).toNat * 1000000 / o.requested ddir := by
        rw [hmax, Nat.le_div_iff_mul_le (by omega)]
        omega
      omega
    · by_contra hbig
      have hsl := hall (bps ddir)
      rw [usecForIo_self hne, Option.some.injEq] at hsl
      have hls : (bps ddir).toNat * 1000000 / o.requested ddir < 1000000 := by
        refine (Nat.div_lt_iff_lt_mul (by omega)).2 ?_
        have hlt := Nat.mod_lt (o.requested ddir) (show 0 < 2 ^ 32 by decide)
        omega
      omega
  · rintro ⟨hlow, hhg⟩ bytes
    rw [Nat.mod_eq_of_lt hhg] at hbps
    rw [← hbps] at hlow hhg ⊢
    exact usecForIo_eq hlow hhg bytes

def RateOptions.paced (rate iops : BitVec 32) : RateOptions :=
  ⟨fun _ => rate, fun _ => 0, fun _ => iops, fun _ => 0, fun _ => 4096⟩

theorem RateOptions.usecForIo_exact_rate : usecForIo 3000000 9000000 =
    some ((9000000 * 1000000 / (paced 3000000 0).requested 0 : Nat) : Int) :=
  (usecForIo_exact_iff (paced 3000000 0) (fun _ => 3000000) 0 (by decide) (by decide)
    (by decide)).2 (by decide) 9000000

/-- 1048577 requests of 4 KiB a second are paced as one. -/
theorem RateOptions.usecForIo_wraps :
    (paced 0 1048577).fixupOptions ∧ (paced 0 1048577).setupRate = some (fun _ => 4096) ∧
      (paced 0 1048577).shouldCheckRate 0 ∧ usecForIo 4096 4096 = some 1000000 ∧
      4096 * 1000000 / (paced 0 1048577).requested 0 = 0 := by
  decide

def mtimeSince (s e : Nat) : Nat := (e - s) / 1000

structure MinRateOptions where
  (rate ratemin rateIops rateIopsMin ratecycle : Nat)

/-- What a call of `__check_min_rate` sees: the time in microseconds, `this_io_bytes` and
`this_io_blocks`. -/
structure RateSample where
  (now bytes blocks : Nat)
  deriving DecidableEq

/-- `__check_min_rate` for a job that was started at `start`; nothing if it divides by zero. -/
def checkMinRate (o : MinRateOptions) (start : Nat) (window s : RateSample) :
    Option (Bool × RateSample) :=
  let spent := mtimeSince window.now s.now
  if o.ratemin = 0 ∧ o.rateIopsMin = 0 then some (false, window)
  else if mtimeSince start s.now < 2000 then some (false, window)
  else if window.bytes = 0 ∧ window.blocks = 0 then some (false, s)
  else if spent < o.ratecycle then some (false, window)
  else if o.rate ≠ 0 then
    if s.bytes < window.bytes then some (true, window)
    else if spent = 0 then none
    else if (s.bytes - window.bytes) * 1000 % 2 ^ 64 / spent < o.ratemin then some (true, window)
    else some (false, s)
  else
    if s.blocks < o.rateIops then some (true, window)
    -- the rate since the start of the window is only logged here
    else if spent = 0 then none
    else some (false, s)

def BelowMin (o : MinRateOptions) (window s : RateSample) : Prop :=
  if o.ratemin ≠ 0 then (s.bytes - window.bytes) * 1000 < o.ratemin * mtimeSince window.now s.now
  else (s.blocks - window.blocks) * 1000 < o.rateIopsMin * mtimeSince window.now s.now
deriving Decidable

/-- In a sequence of calls, each one that evaluates a window tells whether the minimum was missed
    since its start; `began` says that an earlier call has started the window. -/
def Decisive (o : MinRateOptions) (start : Nat) (window : RateSample) (began : Bool) :
    List RateSample → Prop
  | [] => True
  | s :: rest =>
    match checkMinRate o start window s with
    | none => False
    | some (late, window') =>
      (began = true → o.ratecycle ≤ mtimeSince window.now s.now →
        (late = true ↔ BelowMin o window s)) ∧
      Decisive o start window' (began || window' = s) rest

def RateSample.le (s s' : RateSample) : Prop :=
  s.now ≤ s'.now ∧ s.bytes ≤ s'.bytes ∧ s.blocks ≤ s'.blocks

/-- Something was done before the call, and 1000 times the bytes fit an `unsigned long long`. -/
def RateSample.Counted (s : RateSample) : Prop :=
  (s.bytes ≠ 0 ∨ s.blocks ≠ 0) ∧ s.bytes * 1000 < 2 ^ 64

section

variable {o : MinRateOptions} {start : Nat} {window s : RateSample}

/-- A window that has begun: something had been done, behind the settle period. -/
def RateSample.Begun (start : Nat) (window : RateSample) : Prop :=
  (window.bytes ≠ 0 ∨ window.blocks ≠ 0) ∧ 2000 ≤ mtimeSince start window.now

lemma checkMinRate_begun (hrate : o.rate ≠ 0) (hmin : o.ratemin ≠ 0) (hcycle : o.ratecycle ≠ 0)
    (hbegun : window.Begun start) (hle : window.le s) (hs : s.Counted) :
    ∃ late window', checkMinRate o start window s = some (late, window') ∧
      (window' = window ∨ window' = s) ∧
      (o.ratecycle ≤ mtimeSince window.now s.now → (late = true ↔ BelowMin o window s)) := by
  have hsettled : mtimeSince start window.now ≤ mtimeSince start s.now :=
    Nat.div_le_div_right (Nat.sub_le_sub_right hle.1 start)
  have hlt : (s.bytes - window.bytes) * 1000 < 2 ^ 64 :=
    (Nat.mul_le_mul_right _ (Nat.sub_le ..)).trans_lt hs.2
  have hbegan := hbegun.1
  have h2000 := hbegun.2
  simp only [checkMinRate, if_neg (show ¬(o.ratemin = 0 ∧ o.rateIopsMin = 0) by omega),
    if_neg (show ¬mtimeSince start s.now < 2000 by omega),
    if_neg (show ¬(window.bytes = 0 ∧ window.blocks = 0) by omega), if_pos hrate,
    if_neg (Nat.not_lt.2 hle.2.1), Nat.mod_eq_of_lt hlt]
  by_cases hspent : mtimeSince window.now s.now < o.ratecycle
  · exact ⟨_, _, if_pos hspent, .inl rfl, fun h => absurd h (by omega)⟩
  rw [if_neg hspent, if_neg (by omega)]
  have hiff : (s.bytes - window.bytes) * 1000 / mtimeSince window.now s.now < o.ratemin ↔
      BelowMin o window s := by
    rw [BelowMin, if_pos hmin, Nat.div_lt_iff_lt_mul (by omega)]
  by_cases hlow : (s.bytes - window.bytes) * 1000 / mtimeSince window.now s.now < o.ratemin
  · exact ⟨_, _, if_pos hlow, .inl rfl, fun _ => iff_of_true rfl (hiff.1 hlow)⟩
  · exact ⟨_, _, if_neg hlow, .inr rfl, fun _ => iff_of_false (by decide) (mt hiff.2 hlow)⟩

lemma checkMinRate_idle (hset : o.ratemin ≠ 0) (hidle : window.bytes = 0 ∧ window.blocks = 0) :
    checkMinRate o start window s = some (false, window) ∧ mtimeSince start s.now < 2000 ∨
      checkMinRate o start window s = some (false, s) ∧ 2000 ≤ mtimeSince start s.now := by
  rw [checkMinRate, if_neg (show ¬(o.ratemin = 0 ∧ o.rateIopsMin = 0) from fun h => hset h.1)]
  by_cases hearly : mtimeSince start s.now < 2000
  · exact .inl ⟨if_pos hearly, hearly⟩
  · rw [if_neg hearly, if_pos hidle]
    exact .inr ⟨rfl, Nat.not_lt.1 hearly⟩

-- the window is a sample of the sequence once it has begun, and has no counts before
lemma decisive_of_rate (hrate : o.rate ≠ 0) (hmin : o.ratemin ≠ 0) (hcycle : o.ratecycle ≠ 0)
    {samples : List RateSample} (hgrow : samples.Pairwise RateSample.le)
    (hcounted : ∀ s ∈ samples, s.Counted) {began : Bool}
    (hwindow : if began then window.Begun start ∧ ∀ s ∈ samples, window.le s
      else window.bytes = 0 ∧ window.blocks = 0) : Decisive o start window began samples := by
  induction samples generalizing window began with
  | nil => trivial
  | cons s rest ih =>
    obtain ⟨hfirst, hgrow⟩ := List.pairwise_cons.1 hgrow
    obtain ⟨hs, hcounted⟩ := List.forall_mem_cons.1 hcounted
    unfold Decisive
    cases began with
    | true =>
      obtain ⟨hbegun, hle⟩ := hwindow
      obtain ⟨hle, hrest⟩ := List.forall_mem_cons.1 hle
      obtain ⟨late, window', heq, hcases, hiff⟩ :=
        checkMinRate_begun hrate hmin hcycle hbegun hle hs
      rw [heq]
      refine ⟨fun _ => hiff, ih hgrow hcounted ?_⟩
      obtain rfl | rfl := hcases
      · exact ⟨hbegun, hrest⟩
      · refine ⟨⟨hs.1, hbegun.2.trans ?_⟩, hfirst⟩
        exact Nat.div_le_div_right (Nat.sub_le_sub_right hle.1 start)
    | false =>
      have hne : window ≠ s := fun h => (h ▸ hs.1).elim (· hwindow.1) (· hwindow.2)
      obtain ⟨heq, -⟩ | ⟨heq, hsettled⟩ := @checkMinRate_idle o start window s hmin hwindow
      · rw [heq]
        exact ⟨nofun, ih hgrow hcounted (by simpa [hne] using hwindow)⟩
      · rw [heq]
        exact ⟨nofun, ih hgrow hcounted (by simpa using ⟨⟨hs.1, hsettled⟩, hfirst⟩)⟩

end

/-- **When the check is decisive in every sequence of calls** with growing times and counters: if the
    job has a rate and a minimum in bytes, and a cycle of a millisecond or more. -/
theorem checkMinRate_decisive (o : MinRateOptions) (start : Nat) (samples : List RateSample)
    (hrate : o.rate ≠ 0) (hmin : o.ratemin ≠ 0) (hcycle : o.ratecycle ≠ 0)
    (hgrow : samples.Pairwise RateSample.le) (hcounted : ∀ s ∈ samples, s.Counted) :
    Decisive o start ⟨0, 0, 0⟩ false samples :=
  decisive_of_rate hrate hmin hcycle hgrow hcounted ⟨rfl, rfl⟩

def MinRateOptions.perSecond (rate ratemin iops iopsMin : Nat) : MinRateOptions :=
  ⟨rate, ratemin, iops, iopsMin, 1000⟩

/-- The third call finds the job too slow. -/
theorem checkMinRate_decisive_slow :
    Decisive (.perSecond 8192 4096 0 0) 0 ⟨0, 0, 0⟩ false
      [⟨3000000, 8192, 2⟩, ⟨4000000, 16384, 4⟩, ⟨5000000, 16385, 5⟩] ∧
    checkMinRate (.perSecond 8192 4096 0 0) 0 ⟨4000000, 16384, 4⟩ ⟨5000000, 16385, 5⟩ =
      some (true, ⟨4000000, 16384, 4⟩) :=
  ⟨checkMinRate_decisive _ 0 _ (by decide) (by decide) (by decide)
    (by simp [RateSample.le]) (by simp [RateSample.Counted]), by decide⟩

/-- One request in a second, with a minimum of 500: those before the window are enough to pass. -/
theorem checkMinRate_overlooks :
    checkMinRate (.perSecond 0 0 1000 500) 0 ⟨3000000, 3000, 3000⟩ ⟨4000000, 3001, 3001⟩ =
      some (false, ⟨4000000, 3001, 3001⟩) ∧
      BelowMin (.perSecond 0 0 1000 500) ⟨3000000, 3000, 3000⟩ ⟨4000000, 3001, 3001⟩ := by
  decide

end FioSsd
