import Mathlib.Data.BitVec
import Mathlib.Logic.Function.Iterate

/-! # Seeding the random generators

The combined Tausworthe generator (`lib/rand.c`, `lib/rand.h`) needs `s1 > 1`, `s2 > 7` and `s3 > 15`:
of each word only the bits above a fixed position count, and they must not all be 0. A step keeps this
in both directions, so that it is the seeding that decides. -/

namespace FioSsd

open Nat

structure FrandState where
  (s1 s2 s3 : BitVec 32)

/-- `TAUSWORTHE`; the mask is an `unsigned long`. -/
def tausworthe (s : BitVec 32) (a b : Nat) (c : BitVec 64) (d : Nat) : BitVec 32 :=
  ((s.setWidth 64 &&& c) <<< d ^^^ ((s <<< a ^^^ s) >>> b).setWidth 64).setWidth 32

/-- `__rand`: the number drawn and the state behind it. -/
def rand (state : FrandState) : BitVec 32 × FrandState :=
  let s1 := tausworthe state.s1 13 19 4294967294 12
  let s2 := tausworthe state.s2 2 25 4294967288 4
  let s3 := tausworthe state.s3 3 11 4294967280 17
  (s1 ^^^ s2 ^^^ s3, ⟨s1, s2, s3⟩)

/-- `__seed` -/
def clampSeed (x m : BitVec 32) : BitVec 32 := if x < m then x + m else x

def lcg (x seed : BitVec 32) : BitVec 32 := x * 69069 ^^^ seed

/-- The words of `__init_rand` before it draws six numbers. In C `2^31` is 29. -/
def seededState (seed : BitVec 32) : FrandState :=
  let s1 := clampSeed (lcg ((2 ^^^ 31) + (2 ^^^ 17) + (2 ^^^ 7)) seed) 1
  let s2 := clampSeed (lcg s1 seed) 7
  ⟨s1, s2, clampSeed (lcg s2 seed) 15⟩

def initRandSeed (seed : BitVec 32) : FrandState := (fun state => (rand state).2)^[6] (seededState seed)

/-- What the generator requires of its state. -/
structure FrandState.Valid (state : FrandState) : Prop where
  s1 : 1 < state.s1
  s2 : 7 < state.s2
  s3 : 15 < state.s3

lemma toNat_lt_iff_getLsbD (s : BitVec 32) (m : Nat) :
    s.toNat < 2 ^ m ↔ ∀ i, m ≤ i → s.getLsbD i = false := by
  constructor
  · intro h i hi
    exact Nat.testBit_lt_two_pow (h.trans_le (Nat.pow_le_pow_right Nat.two_pos hi))
  · exact Nat.lt_pow_two_of_testBit s.toNat

section Tausworthe

variable {s : BitVec 32} {a b d m : Nat} {c : BitVec 64}

section

variable (hc : ∀ i < 32, c.getLsbD i = decide (m ≤ i)) (hb : b + m + d = 32)

include hc hb

/-- The two parts of a step do not overlap. -/
lemma getLsbD_tausworthe
    (ha : a ≤ b) {i : Nat} (hi : i < 32) : (tausworthe s a b c d).getLsbD i =
      if i < m + d then s.getLsbD (b + i - a) ^^ s.getLsbD (b + i) else s.getLsbD (i - d) := by
  simp only [tausworthe, BitVec.getLsbD_setWidth, BitVec.getLsbD_xor, BitVec.getLsbD_shiftLeft,
    BitVec.getLsbD_and, BitVec.getLsbD_ushiftRight, hi, decide_true, Bool.true_and]
  split_ifs with hlow
  · have hms : i < d ∨ c.getLsbD (i - d) = false := by
      rw [hc _ (by omega), decide_eq_false_iff_not]
      omega
    rcases hms with hms | hms <;> simp [hms, show b + i < 32 by omega, show a ≤ b + i by omega,
      show i < 64 by omega]
  · have hout : s.getLsbD (b + i) = false := BitVec.getLsbD_of_ge s _ (by omega)
    rw [hc _ (by omega)]
    simp [hout, show m ≤ i - d by omega, show d ≤ i by omega, show i - d < 64 by omega,
      show ¬b + i < 32 by omega, show i < 64 by omega]

lemma tausworthe_lt_iff
    (ha : 0 < a) (hab : m + a ≤ b) : (tausworthe s a b c d).toNat < 2 ^ m ↔ s.toNat < 2 ^ m := by
  have hbit := @getLsbD_tausworthe s a b d m c hc hb (by omega)
  rw [toNat_lt_iff_getLsbD, toNat_lt_iff_getLsbD]
  constructor
  · intro h0 j
    induction j using Nat.strong_induction_on with
    | _ j ih =>
      intro hj
      by_cases hin : j < 32
      · by_cases hlow : j + d < 32
        · have hnx := h0 (j + d) (by omega)
          rwa [hbit hlow, if_neg (by omega), Nat.add_sub_cancel] at hnx
        · -- the top bits are compared with lower ones
          have hnx := h0 (j - b) (by omega)
          rw [hbit (by omega), if_pos (by omega), Nat.add_sub_cancel' (by omega),
            ih (j - a) (by omega) (by omega), Bool.false_xor] at hnx
          exact hnx
      · exact BitVec.getLsbD_of_ge s j (by omega)
  · intro h0 i hi
    by_cases hin : i < 32
    · rw [hbit hin]
      split_ifs with hlow
      · rw [h0 _ (by omega), h0 _ (by omega), Bool.false_xor]
      · exact h0 _ (by omega)
    · exact BitVec.getLsbD_of_ge _ i (by omega)

end

end Tausworthe

namespace FrandState

lemma valid_rand_iff (state : FrandState) : (rand state).2.Valid ↔ state.Valid := by
  have h1 := @tausworthe_lt_iff state.s1 13 19 12 1 4294967294 (by decide) rfl (by decide) (by decide)
  have h2 := @tausworthe_lt_iff state.s2 2 25 4 3 4294967288 (by decide) rfl (by decide) (by decide)
  have h3 := @tausworthe_lt_iff state.s3 3 11 17 4 4294967280 (by decide) rfl (by decide) (by decide)
  have hvl : ∀ state : FrandState, state.Valid ↔
      ¬state.s1.toNat < 2 ^ 1 ∧ ¬state.s2.toNat < 2 ^ 3 ∧ ¬state.s3.toNat < 2 ^ 4 := by
    intro state
    constructor
    · rintro ⟨hs1, hs2, hs3⟩
      bv_omega
    · rintro ⟨hs1, hs2, hs3⟩
      exact ⟨by bv_omega, by bv_omega, by bv_omega⟩
  rw [hvl, hvl, ← h1, ← h2, ← h3]
  rfl

lemma valid_iterate_iff (state : FrandState) (k : Nat) :
    ((fun state => (rand state).2)^[k] state).Valid ↔ state.Valid := by
  induction k with
  | zero => rfl
  | succ k ih => rw [Function.iterate_succ_apply', valid_rand_iff, ih]

end FrandState

section Roots

variable (f : Nat → Nat) (t : Nat)

/-- The residues below `2 ^ k` at which `f` is `t` up to a multiple of `2 ^ k`. -/
def roots : Nat → List Nat
  | 0 => [0]
  | k + 1 => (roots k).flatMap fun r =>
    [r, r + 2 ^ k].filter fun x => f x % 2 ^ (k + 1) = t % 2 ^ (k + 1)

variable {f t}

/-- If the low bits of `f x` depend on those of `x` only, the solutions are found bit by bit. -/
lemma mem_roots (hf : ∀ k x, f (x % 2 ^ k) % 2 ^ k = f x % 2 ^ k) {n s : Nat}
    (hs : f s % 2 ^ n = t % 2 ^ n) {k : Nat} (hk : k ≤ n) : s % 2 ^ k ∈ roots f t k := by
  induction k with
  | zero => simp [roots, mod_one]
  | succ k ih =>
    refine List.mem_flatMap.2 ⟨s % 2 ^ k, ih (by omega), List.mem_filter.2 ⟨?_, ?_⟩⟩
    · rw [mod_pow_succ]
      rcases mod_two_eq_zero_or_one (s / 2 ^ k) with hbit | hbit <;> simp [hbit]
    · have hdvd := pow_dvd_pow 2 hk
      rw [decide_eq_true_eq, hf, ← mod_mod_of_dvd (f s) hdvd, hs, mod_mod_of_dvd t hdvd]

end Roots

/-- The second and the third word over the natural numbers, without the clamps. -/
def rawS2 (seed : Nat) : Nat := (3660657 ^^^ seed) * 69069 ^^^ seed

def rawS3 (seed : Nat) : Nat := rawS2 seed * 69069 ^^^ seed

lemma rawS2_mod (k x : Nat) : rawS2 (x % 2 ^ k) % 2 ^ k = rawS2 x % 2 ^ k := by
  simp [rawS2, xor_mod_two_pow, mul_mod]

lemma rawS3_mod (k x : Nat) : rawS3 (x % 2 ^ k) % 2 ^ k = rawS3 x % 2 ^ k := by
  simp [rawS3, xor_mod_two_pow, mul_mod, rawS2_mod]

lemma toNat_lcg (x seed : BitVec 32) : (lcg x seed).toNat = (x.toNat * 69069 ^^^ seed.toNat) % 2 ^ 32 := by
  rw [xor_mod_two_pow, mod_eq_of_lt seed.isLt]
  simp [lcg]

def badSeeds : List (BitVec 32) := [3660656, 3660657, 3475163494, 4051026189]

lemma clampSeed_le_iff (x : BitVec 32) : clampSeed x 15 ≤ 15 ↔ x = 0 ∨ x = 15 := by
  unfold clampSeed
  split_ifs with h
  · bv_omega
  · bv_omega

lemma toNat_mem_roots {f : Nat → Nat} (hf : ∀ k x, f (x % 2 ^ k) % 2 ^ k = f x % 2 ^ k)
    {x seed : BitVec 32} (hx : x.toNat = f seed.toNat % 2 ^ 32) : seed.toNat ∈ roots f x.toNat 32 := by
  have hmem := mem_roots hf (by rw [mod_eq_of_lt x.isLt, hx]) (le_refl 32)
  rwa [mod_eq_of_lt seed.isLt] at hmem

/-- The second word is never at its bound. -/
lemma seven_lt_lcg (seed : BitVec 32) : 7 < lcg (3660657 ^^^ seed) seed := by
  have hrt : ∀ t < 8, roots rawS2 t 32 = [] := by decide +kernel
  have hmem := toNat_mem_roots rawS2_mod (toNat_lcg (3660657 ^^^ seed) seed)
  by_contra hle
  rw [hrt _ (by bv_omega)] at hmem
  cases hmem

lemma toNat_lcg_lcg (seed : BitVec 32) :
    (lcg (lcg (3660657 ^^^ seed) seed) seed).toNat = rawS3 seed.toNat % 2 ^ 32 := by
  rw [toNat_lcg, toNat_lcg, rawS3, rawS2, BitVec.toNat_xor, xor_mod_two_pow, mod_mul_mod,
    ← xor_mod_two_pow]
  rfl

/-- The third word is at its bound for two seeds. -/
lemma lcg_lcg_mem_iff (seed : BitVec 32) :
    lcg (lcg (3660657 ^^^ seed) seed) seed = 0 ∨ lcg (lcg (3660657 ^^^ seed) seed) seed = 15 ↔
      seed = 4051026189 ∨ seed = 3475163494 := by
  have hmem := toNat_mem_roots rawS3_mod (toNat_lcg_lcg seed)
  constructor
  · rintro (hx | hx)
    · have hrt : roots rawS3 0 32 = [4051026189] := by decide +kernel
      rw [hx] at hmem
      exact .inl (BitVec.eq_of_toNat_eq (List.mem_singleton.1 (hrt ▸ hmem)))
    · have hrt : roots rawS3 15 32 = [3475163494] := by decide +kernel
      rw [hx] at hmem
      exact .inr (BitVec.eq_of_toNat_eq (List.mem_singleton.1 (hrt ▸ hmem)))
  · rintro (rfl | rfl)
    · exact .inl (by decide)
    · exact .inr (by decide)

lemma clampSeed_of_le {x m : BitVec 32} (h : m ≤ x) : clampSeed x m = x :=
  if_neg (BitVec.not_lt.2 h)

lemma seededState_valid_iff (seed : BitVec 32) : (seededState seed).Valid ↔ seed ∉ badSeeds := by
  by_cases hfr : seed = 3660656 ∨ seed = 3660657
  · refine iff_of_false (fun hvl => ?_) ?_
    · rcases hfr with rfl | rfl <;> exact absurd hvl.s1 (by decide)
    · rcases hfr with rfl | rfl <;> decide
  have hs1 : 1 < 3660657 ^^^ seed := by
    have hbc : 3660657 ^^^ (3660657 ^^^ seed) = seed := by
      rw [← BitVec.xor_assoc, BitVec.xor_self, BitVec.zero_xor]
    by_contra hle
    rcases (by bv_omega : 3660657 ^^^ seed = 1 ∨ 3660657 ^^^ seed = 0) with hx | hx
    · exact hfr (.inl (by rw [← hbc, hx]; rfl))
    · exact hfr (.inr (by rw [← hbc, hx]; rfl))
  have hs2 := seven_lt_lcg seed
  have hst : seededState seed = ⟨3660657 ^^^ seed, lcg (3660657 ^^^ seed) seed,
      clampSeed (lcg (lcg (3660657 ^^^ seed) seed) seed) 15⟩ := by
    unfold seededState
    have hx : lcg ((2 ^^^ 31) + (2 ^^^ 17) + (2 ^^^ 7)) seed = 3660657 ^^^ seed := rfl
    rw [hx, clampSeed_of_le (BitVec.le_of_lt hs1)]
    dsimp only
    rw [clampSeed_of_le (BitVec.le_of_lt hs2)]
  have hs3 := clampSeed_le_iff (lcg (lcg (3660657 ^^^ seed) seed) seed)
  rw [lcg_lcg_mem_iff] at hs3
  rw [hst]
  push Not at hfr
  simp only [badSeeds, List.mem_cons, List.not_mem_nil, hfr.1, hfr.2, false_or, or_false]
  rw [or_comm, ← hs3, BitVec.not_le]
  exact ⟨fun hvl => hvl.s3, fun hlt => ⟨hs1, hs2, hlt⟩⟩

/-- **Four seeds** leave a word of the generator without a bit that counts. -/
theorem initRandSeed_valid_iff (seed : BitVec 32) :
    (∀ k, ((fun state => (rand state).2)^[k] (initRandSeed seed)).Valid) ↔ seed ∉ badSeeds := by
  rw [← seededState_valid_iff]
  simp only [initRandSeed, FrandState.valid_iterate_iff, forall_const]

/-- The first word of this seed is 0 for ever. -/
theorem initRandSeed_dead : ¬(initRandSeed 3660657).Valid ∧
    ∀ k, ((fun state => (rand state).2)^[k] (initRandSeed 3660657)).s1 = 0 := by
  refine ⟨fun hvl => absurd hvl.s1 (by decide), fun k => ?_⟩
  induction k with
  | zero => decide
  | succ k ih =>
    rw [Function.iterate_succ_apply']
    change tausworthe _ 13 19 4294967294 12 = 0
    rw [ih]
    decide

end FioSsd
