import Mathlib.Data.Nat.Bitwise

/-! # Runs of bits in a word

A bitmap kept in words is written and tested a run of bits at a time, with a mask for the run. The
lemmas say which bits a mask has, so that what is proved about the map is proved bit by bit. -/

namespace Bitmap

open BitVec

variable {bit n : Nat} {w : Nat}

def mask (w bit n : Nat) : BitVec w :=
  if n = w then BitVec.allOnes w else ((1#w <<< n) - 1#w) <<< bit

lemma getLsbD_one_shiftLeft_sub_one (h : n < w) (i : Nat) :
    ((1#w <<< n) - 1#w).getLsbD i = decide (i < n) := by
  have hw : 1 < 2 ^ w := Nat.one_lt_two_pow (by omega)
  have hpow : 2 ^ n < 2 ^ w := Nat.pow_lt_pow_right (by decide) h
  have hpos := Nat.two_pow_pos n
  have hval : ((1#w <<< n) - 1#w).toNat = 2 ^ n - 1 := by
    rw [toNat_sub, toNat_shiftLeft, toNat_ofNat, Nat.mod_eq_of_lt hw,
      Nat.one_shiftLeft, Nat.mod_eq_of_lt hpow, Nat.mod_eq_sub_mod (by omega),
      Nat.mod_eq_of_lt (by omega)]
    omega
  rw [← testBit_toNat, hval, Nat.testBit_two_pow_sub_one]

lemma getLsbD_mask {i : Nat} (h : bit + n ≤ w) (hi : i < w) :
    (mask w bit n).getLsbD i = decide (bit ≤ i ∧ i < bit + n) := by
  unfold mask
  by_cases hn : n = w
  · rw [if_pos hn, getLsbD_allOnes]
    have hbit : bit = 0 := by omega
    simp [hi, hbit, hn]
  · rw [if_neg hn, getLsbD_shiftLeft, getLsbD_one_shiftLeft_sub_one (by omega)]
    by_cases hle : bit ≤ i
    · have : (i - bit < n) ↔ (i < bit + n) := by omega
      simp [hi, hle, this]
    · simp [hle, Nat.lt_of_not_le hle]

variable {x : BitVec w}

lemma and_mask_eq_zero_iff (hr : bit + n ≤ w) :
    x &&& mask w bit n = 0 ↔ ∀ i, bit ≤ i → i < bit + n → x.getLsbD i = false := by
  constructor
  · intro h i hle hlt
    have hbit := congrArg (fun y => BitVec.getLsbD y i) h
    simpa [getLsbD_mask hr (hlt.trans_le hr), hle, hlt] using hbit
  · intro h
    refine eq_of_getLsbD_eq fun i hi => ?_
    rw [getLsbD_and, getLsbD_mask hr hi]
    by_cases hin : bit ≤ i ∧ i < bit + n
    · simp [h i hin.1 hin.2]
    · simp [hin]

def freeRun (x : BitVec w) (bit : Nat) : Nat → Nat
  | 0 => 0
  | n + 1 => if x &&& mask w bit (n + 1) = 0 then n + 1 else freeRun x bit n

lemma freeRun_le (x : BitVec w) (bit n : Nat) : freeRun x bit n ≤ n := by
  induction n with
  | zero => exact le_refl 0
  | succ n ih =>
    unfold freeRun
    split_ifs
    · exact le_rfl
    · exact Nat.le_succ_of_le ih

lemma getLsbD_of_lt_freeRun {i : Nat} (hr : bit + n ≤ w) (hle : bit ≤ i)
    (h : i < bit + freeRun x bit n) : x.getLsbD i = false := by
  induction n with
  | zero => exact absurd h (by simp [freeRun]; omega)
  | succ n ih =>
    unfold freeRun at h
    split_ifs at h with hfr
    · exact (and_mask_eq_zero_iff hr).1 hfr i hle h
    · exact ih (by omega) h

lemma getLsbD_freeRun (hr : bit + n ≤ w) (h : freeRun x bit n < n) :
    x.getLsbD (bit + freeRun x bit n) = true := by
  induction n with
  | zero => exact absurd h (Nat.not_lt_zero _)
  | succ n ih =>
    unfold freeRun at h ⊢
    split_ifs at h ⊢ with hfr
    · exact absurd h (lt_irrefl _)
    · rcases Nat.lt_or_ge (freeRun x bit n) n with hsh | hln
      · exact ih (by omega) hsh
      · -- the shorter mask is clear, so the bit added to it is the one that is met
        have hall := le_antisymm (freeRun_le x bit n) hln
        rw [hall]
        by_contra hcl
        refine hfr ((and_mask_eq_zero_iff hr).2 fun i hle hi => ?_)
        rcases Nat.lt_or_ge i (bit + n) with hin | hla
        · exact getLsbD_of_lt_freeRun (by omega) hle (hall.symm ▸ hin)
        · obtain rfl : i = bit + n := by omega
          simpa using hcl

end Bitmap
