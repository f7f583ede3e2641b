import FioSsd.Lib.Stripes
import FioSsd.Verify.Populate

/-! # Filling a buffer -/

namespace FioSsd

open Nat Stripes

/-- A write of a fill, by its start in the buffer: `__fill_random_buf` or a `memset` to zero. -/
inductive BufWrite
  | random (start len : Nat) (seed : BitVec 64)
  | zero (start len : Nat)
  deriving DecidableEq, Repr

def roundUp8 (n : Nat) : Nat := 8 * ((n + 7) / 8)

namespace BufWrite

def start : BufWrite → Nat
  | random start _ _ => start
  | zero start _ => start

/-- The number of bytes written: `__fill_random_buf` writes whole words. -/
def size : BufWrite → Nat
  | random _ len _ => roundUp8 len
  | zero _ len => len

def Covers (w : BufWrite) (x : Nat) : Prop := w.start ≤ x ∧ x < w.start + w.size
deriving Decidable

def store (m : Mem) : BufWrite → Mem
  | random start len seed => fillRandomBuf ((len + 7) / 8) m start seed
  | zero start len => m.store start (List.replicate len 0)

end BufWrite

def lastWriter : List BufWrite → Nat → Option BufWrite
  | [], _ => none
  | w :: rest, x => (lastWriter rest x).or (if w.Covers x then some w else none)

def zeroed (log : List BufWrite) (x : Nat) : Bool :=
  match lastWriter log x with
  | some (.zero _ _) => true
  | _ => false

def Touched (log : List BufWrite) (x : Nat) : Prop := ∃ w ∈ log, w.Covers x

structure FillOpts where
  zeroBuffers : Bool
  (compressPercentage compressChunk : BitVec 32)

def randomPart (percentage segment : Nat) : Nat :=
  segment * ((100 + 2 ^ 32 - percentage) % 2 ^ 32) % 2 ^ 32 / 100

/-- The loop of `fill_random_buf_percentage`, `len` bytes from `buf` on. -/
def percentageLoop (r : BitVec 64) (percentage segment : Nat) :
    Nat → Nat → Nat → Option (List BufWrite)
  | 0, len, _ => if len = 0 then some [] else none
  | fuel + 1, len, buf =>
    if len = 0 then some []
    else
      let thisLen := min (randomPart percentage segment) len
      let rest := len - thisLen
      let thisLen' := min thisLen rest
      (percentageLoop r percentage segment fuel (rest - thisLen') (buf + thisLen + thisLen')).map
        fun log => .random buf thisLen r :: .zero (buf + thisLen) thisLen' :: log

/-- `fill_random_buf_percentage`; `r` is what the random generator returns. -/
def fillRandomBufPercentage (r : BitVec 64) (percentage segment len fuel : Nat) :
    Option (List BufWrite) :=
  if percentage = 100 then some [.zero 0 len]
  else percentageLoop r percentage (min segment len) fuel len 0

variable (o : FillOpts)

def ioUFillBuffer (r : BitVec 64) (minWrite maxBs : BitVec 32) (fuel : Nat) :
    Option (List BufWrite) :=
  if o.zeroBuffers = false then
    if o.compressPercentage ≠ 0 then
      fillRandomBufPercentage r o.compressPercentage.toNat
        (min minWrite.toNat o.compressChunk.toNat) maxBs.toNat fuel
    else some [.random 0 maxBs.toNat r]
  else some [.zero 0 maxBs.toNat]

lemma le_roundUp8 (n : Nat) : n ≤ roundUp8 n := by
  unfold roundUp8
  omega

lemma roundUp8_lt (n : Nat) : roundUp8 n < n + 8 := by
  unfold roundUp8
  omega

variable {log : List BufWrite} {x : Nat}

lemma lastWriter_of_not_touched (h : ¬ Touched log x) : lastWriter log x = none := by
  induction log with
  | nil => rfl
  | cons w rest ih =>
    have hw : ¬ w.Covers x := fun hc => h ⟨w, .head _, hc⟩
    have hrs : ¬ Touched rest x := fun ⟨w', hw', hc⟩ => h ⟨w', List.mem_cons_of_mem w hw', hc⟩
    rw [lastWriter, ih hrs, if_neg hw]
    rfl

lemma lastWriter_of_touched (h : Touched log x) : ∃ w, lastWriter log x = some w := by
  induction log with
  | nil =>
    obtain ⟨w, hw, -⟩ := h
    cases hw
  | cons w rest ih =>
    by_cases hrs : Touched rest x
    · obtain ⟨w', hw'⟩ := ih hrs
      exact ⟨w', by rw [lastWriter, hw']; rfl⟩
    · obtain ⟨w', hw', hc⟩ := h
      rcases List.mem_cons.1 hw' with rfl | hmem
      · exact ⟨w', by rw [lastWriter, lastWriter_of_not_touched hrs, if_pos hc]; rfl⟩
      · exact absurd ⟨w', hmem, hc⟩ hrs

variable {w : BufWrite}

lemma zeroed_cons_of_touched
    (h : Touched log x) : zeroed (w :: log) x = zeroed log x := by
  obtain ⟨w', hw'⟩ := lastWriter_of_touched h
  unfold zeroed
  rw [lastWriter, hw']
  rfl

lemma touched_cons :
    Touched (w :: log) x ↔ w.Covers x ∨ Touched log x := by
  simp [Touched]

def stripesEnd (t len : Nat) : Nat :=
  let last := 2 * t * ((len - 1) / (2 * t))
  max len (last + roundUp8 (min t (len - last)))

variable {t len : Nat}

lemma stripesEnd_of_le (h : len ≤ 2 * t) : stripesEnd t len = max len (roundUp8 (min t len)) := by
  have hla : 2 * t * ((len - 1) / (2 * t)) = 0 := by
    rcases Nat.eq_zero_or_pos t with rfl | ht
    · simp
    · rw [Nat.div_eq_of_lt (by omega), mul_zero]
  rw [stripesEnd, hla]
  simp

lemma stripesEnd_of_lt (ht : 0 < t) (h : 2 * t < len) :
    stripesEnd t len = 2 * t + stripesEnd t (len - 2 * t) := by
  have hdiv : (len - 1) / (2 * t) = (len - 2 * t - 1) / (2 * t) + 1 := by
    rw [← add_div_right _ (by omega)]
    congr 1
    omega
  unfold stripesEnd
  rw [hdiv, mul_succ]
  simp only []
  have hle : 2 * t * ((len - 2 * t - 1) / (2 * t)) ≤ len - 2 * t - 1 := mul_div_le _ _
  generalize 2 * t * ((len - 2 * t - 1) / (2 * t)) = last at hle ⊢
  have hla : len - (last + 2 * t) = len - 2 * t - last := by omega
  rw [hla]
  omega

lemma eight_le_stripesEnd (ht : 0 < t) (h : 0 < len) : 8 ≤ stripesEnd t len := by
  have hle : 2 * t * ((len - 1) / (2 * t)) ≤ len - 1 := mul_div_le _ _
  simp only [stripesEnd, roundUp8]
  omega

structure Striped (t len buf : Nat) (log : List BufWrite) : Prop where
  touched : ∀ y, Touched log y ↔ buf ≤ y ∧ y < buf + stripesEnd t len
  zeroed : ∀ x < len, zeroed log (buf + x) = true ↔ Stripes.Odd t x

lemma percentageLoop_nil (r : BitVec 64) (percentage segment fuel buf : Nat) :
    percentageLoop r percentage segment fuel 0 buf = some [] := by
  cases fuel with
  | zero => rfl
  | succ fuel => rfl

lemma striped_nil (t buf : Nat) : Striped t 0 buf [] := by
  refine ⟨fun y => ?_, fun x hx => absurd hx (not_lt_zero x)⟩
  have hend : stripesEnd t 0 = 0 := by rw [stripesEnd_of_le (zero_le _)]; simp [roundUp8]
  rw [hend]
  simp [Touched]

lemma zeroed_zero_cons {start len x : Nat} (h : ¬ Touched log x) :
    zeroed (.zero start len :: log) x = decide (start ≤ x ∧ x < start + len) := by
  rw [zeroed, lastWriter, lastWriter_of_not_touched h, Option.none_or]
  by_cases hc : start ≤ x ∧ x < start + len
  · rw [if_pos (show (BufWrite.zero start len).Covers x from hc)]
    simp [hc]
  · rw [if_neg (show ¬ (BufWrite.zero start len).Covers x from hc)]
    simp [hc]

lemma zeroed_random_cons {start len : Nat} {seed : BitVec 64} :
    zeroed (.random start len seed :: log) x = zeroed log x := by
  by_cases hlog : Touched log x
  · exact zeroed_cons_of_touched hlog
  · unfold zeroed
    rw [lastWriter, lastWriter_of_not_touched hlog, Option.none_or]
    split_ifs
    all_goals rfl

lemma striped_last (hpos : 0 < len) (h : len ≤ 2 * t) (buf : Nat) (r : BitVec 64) :
    Striped t len buf [.random buf (min t len) r, .zero (buf + min t len) (len - min t len)] := by
  refine ⟨fun y => ?_, fun x hx => ?_⟩
  · rw [touched_cons, touched_cons, stripesEnd_of_le h]
    have := le_roundUp8 (min t len)
    simp only [BufWrite.Covers, BufWrite.start, BufWrite.size, Touched, List.not_mem_nil,
      false_and, exists_false, or_false]
    omega
  · rw [zeroed_random_cons, zeroed_zero_cons (by simp [Touched])]
    have hodd := odd_add (t := t) (by omega) 0 (b := x) (by omega)
    rw [mul_zero, zero_add] at hodd
    rw [hodd, decide_eq_true_eq]
    omega

variable {log : List BufWrite}

lemma Striped.cons {t len buf : Nat} (ht : 0 < t) (hlen : 2 * t < len)
    (h : Striped t (len - 2 * t) (buf + t + t) log) (r : BitVec 64) :
    Striped t len buf (.random buf t r :: .zero (buf + t) t :: log) := by
  refine ⟨fun y => ?_, fun x hx => ?_⟩
  · rw [touched_cons, touched_cons, h.touched, stripesEnd_of_lt ht hlen]
    have hover := roundUp8_lt t
    have hrn := le_roundUp8 t
    have hrs : 8 ≤ stripesEnd t (len - 2 * t) := eight_le_stripesEnd ht (by omega)
    simp only [BufWrite.Covers, BufWrite.start, BufWrite.size]
    omega
  · rw [zeroed_random_cons]
    by_cases hfr : x < 2 * t
    · have hlg' : ¬ Touched log (buf + x) := by
        rw [h.touched]
        omega
      have hodd := odd_add ht 0 hfr
      rw [Nat.mul_zero, Nat.zero_add] at hodd
      rw [zeroed_zero_cons hlg', hodd, decide_eq_true_eq]
      omega
    · have hle : len - 2 * t ≤ stripesEnd t (len - 2 * t) := le_max_left _ _
      have htch : Touched log (buf + x) := by
        rw [h.touched]
        omega
      have hsh : buf + x = buf + t + t + (x - 2 * t) := by omega
      have hprd := odd_add_period ht (x - 2 * t)
      rw [Nat.sub_add_cancel (by omega)] at hprd
      rw [zeroed_cons_of_touched htch, hprd, hsh]
      exact h.zeroed (x - 2 * t) (by omega)

variable {r : BitVec 64}

lemma percentageLoop_striped {percentage segment : Nat}
    (ht : 0 < randomPart percentage segment) {fuel len : Nat} (buf : Nat) (h : len ≤ fuel) :
    ∃ log, percentageLoop r percentage segment fuel len buf = some log ∧
      Striped (randomPart percentage segment) len buf log := by
  induction fuel generalizing len buf with
  | zero =>
    obtain rfl := Nat.le_zero.1 h
    exact ⟨[], percentageLoop_nil .., striped_nil ..⟩
  | succ fuel ih =>
    by_cases h0 : len = 0
    · subst h0
      exact ⟨[], percentageLoop_nil .., striped_nil ..⟩
    · rw [percentageLoop, if_neg h0]
      simp only []
      generalize hpr : randomPart percentage segment = t at ht ih ⊢
      by_cases hla : len ≤ 2 * t
      · have hrs : min (min t len) (len - min t len) = len - min t len := by omega
        rw [hrs, Nat.sub_self, percentageLoop_nil]
        exact ⟨_, rfl, striped_last (by omega) hla buf r⟩
      · have hth : min t len = t := by omega
        have hzrs : min t (len - t) = t := by omega
        have hlf : len - t - t = len - 2 * t := by omega
        rw [hth, hzrs, hlf]
        obtain ⟨log, hlp, hlog⟩ := ih (buf + t + t) (show len - 2 * t ≤ fuel by omega)
        rw [hlp]
        exact ⟨_, rfl, hlog.cons ht (by omega) r⟩

lemma percentageLoop_mono {percentage segment fuel fuel' len buf : Nat} (hle : fuel ≤ fuel')
    (h : percentageLoop r percentage segment fuel len buf = some log) :
    percentageLoop r percentage segment fuel' len buf = some log := by
  induction fuel generalizing fuel' len buf log with
  | zero =>
    unfold percentageLoop at h
    split_ifs at h with h0
    rw [h0, percentageLoop_nil]
    exact h
  | succ fuel ih =>
    obtain ⟨fuel', rfl⟩ := Nat.exists_eq_add_of_le' ((Nat.succ_pos fuel).trans_le hle)
    unfold percentageLoop at h ⊢
    split_ifs at h ⊢ with h0
    · exact h
    · obtain ⟨rest, hrs, hlog⟩ := Option.map_eq_some_iff.1 h
      exact Option.map_eq_some_iff.2 ⟨rest, ih (Nat.le_of_succ_le_succ hle) hrs, hlog⟩

lemma striped_of_percentageLoop {percentage segment fuel len buf : Nat} (ht : 0 < randomPart percentage segment)
    (h : percentageLoop r percentage segment fuel len buf = some log) :
    Striped (randomPart percentage segment) len buf log := by
  obtain ⟨log', hlp', hlg'⟩ := percentageLoop_striped (r := r) ht buf (le_max_left len fuel)
  have heq := percentageLoop_mono (le_max_right len fuel) h
  rw [hlp'] at heq
  cases heq
  exact hlg'

lemma percentageLoop_stuck {percentage segment : Nat}
    (ht : randomPart percentage segment = 0) {len : Nat} (h : len ≠ 0) (fuel buf : Nat) :
    percentageLoop r percentage segment fuel len buf = none := by
  induction fuel generalizing buf with
  | zero => exact if_neg h
  | succ fuel ih =>
    rw [percentageLoop, if_neg h, ht]
    simp [ih]

def fillEnd (minWrite maxBs : BitVec 32) : Nat :=
  if o.zeroBuffers = false then
    if o.compressPercentage ≠ 0 then
      if o.compressPercentage.toNat = 100 then maxBs.toNat
      else
        stripesEnd (randomPart o.compressPercentage.toNat
          (min (min minWrite.toNat o.compressChunk.toNat) maxBs.toNat)) maxBs.toNat
    else roundUp8 maxBs.toNat
  else maxBs.toNat

def FillReturns (minWrite maxBs : BitVec 32) : Prop :=
  o.zeroBuffers = false → o.compressPercentage ≠ 0 → o.compressPercentage.toNat ≠ 100 →
    maxBs.toNat ≠ 0 → 0 < randomPart o.compressPercentage.toNat
      (min (min minWrite.toNat o.compressChunk.toNat) maxBs.toNat)

lemma touched_singleton : Touched [w] x ↔ w.Covers x := by
  simp [Touched]

section

variable {o : FillOpts} {r : BitVec 64} {minWrite maxBs : BitVec 32}

lemma touched_iff_of_fill {fuel : Nat} (h : ioUFillBuffer o r minWrite maxBs fuel = some log) (x : Nat) :
    Touched log x ↔ x < fillEnd o minWrite maxBs := by
  unfold ioUFillBuffer fillRandomBufPercentage at h
  unfold fillEnd
  split_ifs at h ⊢ with h0 hpr hfl
  · cases h
    simp [touched_singleton, BufWrite.Covers, BufWrite.start, BufWrite.size]
  · by_cases ht : 0 < randomPart o.compressPercentage.toNat
        (min (min minWrite.toNat o.compressChunk.toNat) maxBs.toNat)
    · have hlog := striped_of_percentageLoop ht h
      simpa using hlog.touched x
    · by_cases hlen : maxBs.toNat = 0
      · rw [hlen, percentageLoop_nil] at h
        cases h
        rw [hlen]
        simpa using (striped_nil _ 0).touched x
      · rw [percentageLoop_stuck (by omega) hlen] at h
        cases h
  all_goals
    cases h
    simp [touched_singleton, BufWrite.Covers, BufWrite.start, BufWrite.size]

lemma fill_returns_iff :
    (∃ fuel log, ioUFillBuffer o r minWrite maxBs fuel = some log) ↔
      FillReturns o minWrite maxBs := by
  unfold ioUFillBuffer fillRandomBufPercentage
  constructor
  · rintro ⟨fuel, log, hfl⟩ h0 hpr hful hlen
    rw [if_pos h0, if_pos hpr, if_neg hful] at hfl
    by_contra ht
    rw [percentageLoop_stuck (by omega) hlen] at hfl
    cases hfl
  · intro hrtr
    split_ifs with h0 hpr hful
    · exact ⟨0, _, rfl⟩
    · by_cases hlen : maxBs.toNat = 0
      · exact ⟨0, [], by rw [hlen, percentageLoop_nil]⟩
      · obtain ⟨log, hlp, -⟩ := percentageLoop_striped (r := r) (hrtr h0 hpr hful hlen) 0 le_rfl
        exact ⟨_, log, hlp⟩
    all_goals exact ⟨0, _, rfl⟩

end

/-- A fill of a compressible buffer: the options, with the percentages that leave something of both
    kinds, the smallest write and the length. -/
structure Compressible where
  (percentage chunk minWrite len : BitVec 32)
  percentage_pos : 1 ≤ percentage.toNat
  percentage_le : percentage.toNat ≤ 99
  minWrite_pos : 1 ≤ minWrite.toNat
  len_pos : 1 ≤ len.toNat

namespace Compressible

variable (c : Compressible)

def opts : FillOpts :=
  { zeroBuffers := false, compressPercentage := c.percentage, compressChunk := c.chunk }

def segment : Nat := min (min c.minWrite.toNat c.chunk.toNat) c.len.toNat

def part : Nat := randomPart c.percentage.toNat c.segment

def zeroesIn (log : List BufWrite) (a b : Nat) : Nat :=
  ((Finset.Ico a b).filter fun x => zeroed log x = true).card

def ShareOf (zeroes : Nat) : Prop :=
  |100 * (zeroes : Int) - c.percentage.toNat * c.segment| < 100

variable (r)

def FillRight : Prop :=
  ∃ fuel log, ioUFillBuffer c.opts r c.minWrite c.len fuel = some log ∧
    ∀ k, (k + 1) * c.segment ≤ c.len.toNat →
      c.ShareOf (zeroesIn log (k * c.segment) (k * c.segment + c.segment))

variable {c}

lemma fill_eq (fuel : Nat) :
    ioUFillBuffer c.opts r c.minWrite c.len fuel =
      percentageLoop r c.percentage.toNat c.segment fuel c.len.toNat 0 := by
  have hpos := c.percentage_pos
  have hle := c.percentage_le
  have hne : c.percentage ≠ 0 := by
    intro h0
    rw [h0] at hpos
    simp at hpos
  have hoff : c.opts.zeroBuffers = false := rfl
  have hon : c.opts.compressPercentage ≠ 0 := hne
  have hso : c.opts.compressPercentage.toNat ≠ 100 := by
    change c.percentage.toNat ≠ 100
    omega
  rw [ioUFillBuffer, if_pos hoff, if_pos hon, fillRandomBufPercentage, if_neg hso]
  rfl

lemma zeroesIn_eq (ht : 0 < c.part)
    (h : Striped c.part c.len.toNat 0 log) {a b : Nat} (hab : a ≤ b) (hb : b ≤ c.len.toNat) :
    oddBelow c.part b = oddBelow c.part a + zeroesIn log a b := by
  rw [card_odd_Ico ht hab]
  congr 2
  apply Finset.filter_congr
  intro x hx
  have hzrd := h.zeroed x ((Finset.mem_Ico.1 hx).2.trans_le hb)
  rw [zero_add] at hzrd
  exact hzrd.symm

lemma fillRight_iff_stripes :
    c.FillRight r ↔ 0 < c.part ∧ ∀ k < c.len.toNat / c.segment, ∀ z,
      oddBelow c.part (k * c.segment + c.segment) =
        oddBelow c.part (k * c.segment) + z → c.ShareOf z := by
  have hlen := c.len_pos
  by_cases ht : c.part = 0
  · refine ⟨?_, fun h => absurd ht h.1.ne'⟩
    rintro ⟨fuel, log, hfl, -⟩
    rw [fill_eq, percentageLoop_stuck ht (by omega)] at hfl
    cases hfl
  have hpos := pos_of_ne_zero ht
  have hseg : 0 < c.segment := by
    refine pos_of_ne_zero fun h0 => ht ?_
    rw [part, h0]
    simp [randomPart]
  have hful : ∀ k, (k + 1) * c.segment ≤ c.len.toNat ↔ k < c.len.toNat / c.segment := fun k =>
    (le_div_iff_mul_le hseg).symm
  obtain ⟨log, hlp, hlog⟩ := percentageLoop_striped (r := r) hpos 0 (le_refl c.len.toNat)
  have hcnt : ∀ log', Striped c.part c.len.toNat 0 log' → ∀ k < c.len.toNat / c.segment,
      oddBelow c.part (k * c.segment + c.segment) =
        oddBelow c.part (k * c.segment) +
          zeroesIn log' (k * c.segment) (k * c.segment + c.segment) := by
    intro log' hlg' k hk
    refine zeroesIn_eq hpos hlg' (le_add_right _ _) ?_
    rw [← succ_mul]
    exact (hful k).2 hk
  constructor
  · rintro ⟨fuel, log', hfl, hsh⟩
    rw [fill_eq] at hfl
    refine ⟨hpos, fun k hk z hz => ?_⟩
    have hwnd := hcnt log' (striped_of_percentageLoop hpos hfl) k hk
    have hz' : z = zeroesIn log' (k * c.segment) (k * c.segment + c.segment) := by omega
    rw [hz']
    exact hsh k ((hful k).2 hk)
  · rintro ⟨-, hsh⟩
    refine ⟨c.len.toNat, log, by rw [fill_eq, hlp], fun k hk => ?_⟩
    exact hsh k ((hful k).1 hk) _ (hcnt log hlog k ((hful k).1 hk))

lemma part_le : c.part ≤ c.segment := by
  have hle : c.part ≤ c.segment * ((100 + 2 ^ 32 - c.percentage.toNat) % 2 ^ 32) / 100 :=
    Nat.div_le_div_right (Nat.mod_le _ _)
  have hpos := c.percentage_pos
  have hle' := c.percentage_le
  have hsub : (100 + 2 ^ 32 - c.percentage.toNat) % 2 ^ 32 ≤ 100 := by omega
  refine hle.trans (Nat.div_le_of_le_mul ?_)
  rw [mul_comm 100]
  exact Nat.mul_le_mul_left _ hsub

lemma shareOf_iff (h : c.segment * (100 - c.percentage.toNat) < 2 ^ 32) {a b z : Nat}
    (hz : b = a + z) :
    c.ShareOf z ↔ b = a + (c.segment - c.part) ∨
      c.segment * (100 - c.percentage.toNat) % 100 ≠ 0 ∧ b + 1 = a + (c.segment - c.part) := by
  have hpr : c.part = c.segment * (100 - c.percentage.toNat) / 100 := by
    have hle := c.percentage_le
    have hsub : (100 + 2 ^ 32 - c.percentage.toNat) % 2 ^ 32 = 100 - c.percentage.toNat := by omega
    rw [part, randomPart, hsub, mod_eq_of_lt h]
  have hprd : (c.percentage.toNat : Int) * c.segment =
      100 * c.segment - (c.segment * (100 - c.percentage.toNat) : Nat) := by
    have hle := c.percentage_le
    push_cast [cast_sub (show c.percentage.toNat ≤ 100 by omega)]
    ring
  have hprl : c.segment * (100 - c.percentage.toNat) ≤ c.segment * 100 :=
    mul_le_mul_left _ (sub_le _ _)
  rw [ShareOf, hprd, abs_lt, hpr]
  generalize c.segment * (100 - c.percentage.toNat) = product at hprl ⊢
  omega

variable (c)

/-- **When a compressible buffer is filled as asked**: there is a random part, and two parts are one
segment, up to what adds up to at most a part over all full segments. -/
theorem fillRight_iff :
    c.FillRight r ↔ 0 < c.part ∧
      ((c.segment * (100 - c.percentage.toNat) < 2 ^ 32 ∧
          ((c.segment ≤ 2 * c.part ∧
              c.len.toNat / c.segment * (2 * c.part - c.segment) ≤ c.part) ∨
            (c.segment * (100 - c.percentage.toNat) % 100 ≠ 0 ∧
              (c.segment = 2 * c.part + 1 ∨ c.segment = 4 ∧ c.part = 1)))) ∨
        (2 ^ 32 ≤ c.segment * (100 - c.percentage.toNat) ∧
          ∀ k < c.len.toNat / c.segment,
            c.ShareOf (Stripes.oddBelow c.part (k * c.segment + c.segment) -
              Stripes.oddBelow c.part (k * c.segment)))) := by
  rw [fillRight_iff_stripes]
  refine and_congr_right fun ht => ?_
  have hso : ∀ k, ∃ z, Stripes.oddBelow c.part (k * c.segment + c.segment) =
      Stripes.oddBelow c.part (k * c.segment) + z := fun k =>
    ⟨_, Stripes.card_odd_Ico ht (Nat.le_add_right _ _)⟩
  by_cases hft : c.segment * (100 - c.percentage.toNat) < 2 ^ 32
  · have hwnd : (∀ k < c.len.toNat / c.segment, ∀ z,
        Stripes.oddBelow c.part (k * c.segment + c.segment) =
          Stripes.oddBelow c.part (k * c.segment) + z → c.ShareOf z) ↔
        ∀ k < c.len.toNat / c.segment, Stripes.WindowFits c.part c.segment
          (c.segment * (100 - c.percentage.toNat) % 100 ≠ 0) (k * c.segment) := by
      refine forall₂_congr fun k _ => ⟨fun hsh => ?_, fun hwin z hz => ?_⟩
      · obtain ⟨z, hz⟩ := hso k
        exact (shareOf_iff hft hz).1 (hsh z hz)
      · exact (shareOf_iff hft hz).2 hwin
    have hseg := ht.trans_le part_le
    have hcnt : 0 < c.len.toNat / c.segment := Nat.div_pos (min_le_right _ _) hseg
    rw [hwnd, Stripes.windowFits_iff ht part_le hcnt]
    simp only [hft, true_and, Nat.not_le.2 hft, false_and, or_false]
  · simp only [hft, false_and, Nat.le_of_not_lt hft, true_and, false_or]
    refine forall₂_congr fun k _ => ⟨fun hsh => ?_, fun hsh z hz => ?_⟩
    · obtain ⟨z, hz⟩ := hso k
      exact hsh _ (by omega)
    · rwa [hz, Nat.add_sub_cancel_left] at hsh

def unsetChunk : Compressible :=
  { percentage := 50, chunk := 0, minWrite := 4096, len := 4096, percentage_pos := by decide
    percentage_le := by decide, minWrite_pos := by decide, len_pos := by decide }

/-- With the default chunk size the fill does not end. -/
theorem fill_unset_chunk : ¬ unsetChunk.FillRight 1 := by
  rintro ⟨fuel, log, hfl, -⟩
  rw [fill_eq, percentageLoop_stuck (by decide) (by decide)] at hfl
  cases hfl

variable {r}

end Compressible

end FioSsd
