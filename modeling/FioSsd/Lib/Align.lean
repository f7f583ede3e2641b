import FioSsd.Lib.Bitmap

/-! # Rounding to a multiple of a power of two -/

namespace Align

open Nat

variable {m n : Nat} {w : Nat}

def roundUp (n m : Nat) : Nat := (n + m - 1) / m * m

lemma roundUp_mono {n' : Nat} (h : n ≤ n') : roundUp n m ≤ roundUp n' m :=
  Nat.mul_le_mul_right m (Nat.div_le_div_right (by omega))

lemma le_roundUp (h : 0 < m) : n ≤ roundUp n m := by
  have hdiv := div_add_mod (n + m - 1) m
  have hmod := mod_lt (n + m - 1) h
  rw [mul_comm] at hdiv
  unfold roundUp
  omega

lemma roundUp_lt (h : 0 < m) : roundUp n m < n + m := by
  have hle := div_mul_le_self (n + m - 1) m
  unfold roundUp
  omega

lemma dvd_roundUp (n m : Nat) : m ∣ roundUp n m := dvd_mul_left m _

lemma add_le_of_dvd {a b : Nat} (ha : m ∣ a) (hb : m ∣ b) (h : a < b) : a + m ≤ b := by
  obtain ⟨c, rfl⟩ := ha
  obtain ⟨d, rfl⟩ := hb
  rw [← Nat.mul_succ]
  exact Nat.mul_le_mul_left m (Nat.lt_of_mul_lt_mul_left h)

lemma roundUp_le {q : Nat} (hm : 0 < m) (hle : n ≤ q) (h : m ∣ q) : roundUp n m ≤ q := by
  obtain ⟨c, rfl⟩ := h
  rw [roundUp, mul_comm m c]
  refine Nat.mul_le_mul_right m (Nat.lt_succ_iff.1 ((Nat.div_lt_iff_lt_mul hm).2 ?_))
  rw [Nat.succ_mul, mul_comm c m]
  omega

lemma exists_eq_two_pow (hm : m ≠ 0) (h : m &&& (m - 1) = 0) : ∃ k, m = 2 ^ k := by
  induction m using Nat.strongRecOn with
  | _ m ih =>
    have hhl : m / 2 &&& (m - 1) / 2 = 0 := by rw [← Nat.and_div_two, h]
    rcases Nat.even_or_odd' m with ⟨q, hq | hq⟩
    · -- an even number: its half is one
      have hpr : (m - 1) / 2 = q - 1 := by omega
      have hq2 : m / 2 = q := by omega
      rw [hpr, hq2] at hhl
      obtain ⟨k, hk⟩ := ih q (by omega) (by omega) hhl
      exact ⟨k + 1, by rw [hq, hk, pow_succ, mul_comm]⟩
    · have hpr : (m - 1) / 2 = q := by omega
      have hq2 : m / 2 = q := by omega
      rw [hpr, hq2, Nat.and_self] at hhl
      exact ⟨0, by omega⟩

section

variable {m : BitVec w} (hm : m ≠ 0) (h : m &&& (m - 1) = 0)

include hm h

lemma exists_eq_shiftLeft :
    ∃ k, k < w ∧ m = 1#w <<< k ∧ m.toNat = 2 ^ k := by
  have hne : m.toNat ≠ 0 := fun hz => hm (BitVec.eq_of_toNat_eq (by simpa using hz))
  have hlt := m.isLt
  have hone : 1 < 2 ^ w ∨ w = 0 := by
    rcases Nat.eq_zero_or_pos w with hw | hw
    · exact .inr hw
    · exact .inl (Nat.one_lt_two_pow (by omega))
  have hw : 1 < 2 ^ w := by
    rcases hone with h1 | h0
    · exact h1
    · subst h0
      omega
  have hpr : (m - 1).toNat = m.toNat - 1 := by
    have hle : (1 : BitVec w) ≤ m := by
      rw [BitVec.le_def]
      simp only [BitVec.ofNat_eq_ofNat, BitVec.toNat_ofNat, Nat.mod_eq_of_lt hw]
      omega
    rw [BitVec.toNat_sub_of_le hle]
    simp [BitVec.ofNat_eq_ofNat, BitVec.toNat_ofNat, Nat.mod_eq_of_lt hw]
  have hzer : m.toNat &&& (m.toNat - 1) = 0 := by
    rw [← hpr, ← BitVec.toNat_and, h]
    rfl
  obtain ⟨k, hk⟩ := exists_eq_two_pow hne hzer
  have hkw : k < w := (Nat.pow_lt_pow_iff_right (by decide)).1 (hk ▸ hlt)
  refine ⟨k, hkw, BitVec.eq_of_toNat_eq ?_, hk⟩
  rw [BitVec.toNat_shiftLeft, BitVec.toNat_ofNat, Nat.mod_eq_of_lt hw, Nat.one_shiftLeft, hk,
    Nat.mod_eq_of_lt (hk ▸ hlt)]

lemma dvd_two_pow : m.toNat ∣ 2 ^ w := by
  obtain ⟨k, hk, -, hnat⟩ := exists_eq_shiftLeft hm h
  rw [hnat]
  exact pow_dvd_pow 2 hk.le

lemma toNat_and_not (x : BitVec w) :
    (x &&& ~~~(m - 1)).toNat = x.toNat / m.toNat * m.toNat := by
  obtain ⟨k, hk, rfl, hnat⟩ := exists_eq_shiftLeft hm h
  have hsh : x &&& ~~~((1#w <<< k) - 1) = (x >>> k) <<< k := by
    refine BitVec.eq_of_getLsbD_eq fun i hi => ?_
    have hlow : ((1#w <<< k) - 1).getLsbD i = decide (i < k) :=
      Bitmap.getLsbD_one_shiftLeft_sub_one hk i
    rw [BitVec.getLsbD_and, BitVec.getLsbD_not, hlow, BitVec.getLsbD_shiftLeft,
      BitVec.getLsbD_ushiftRight]
    by_cases hik : i < k
    · simp [hik]
    · simp [hik, hi, Nat.add_sub_cancel' (Nat.le_of_not_lt hik)]
  rw [hsh, hnat, BitVec.toNat_shiftLeft, BitVec.toNat_ushiftRight, Nat.shiftRight_eq_div_pow,
    Nat.shiftLeft_eq, Nat.mod_eq_of_lt]
  exact (Nat.div_mul_le_self _ _).trans_lt x.isLt

end

lemma toNat_add_sub_one {m : BitVec w} (h : 0 < m.toNat) (x : BitVec w) :
    (x + m - 1#w).toNat = (x.toNat + m.toNat - 1) % 2 ^ w := by
  have hone : (1#w).toNat = 1 := by
    rw [BitVec.toNat_ofNat]
    refine Nat.mod_eq_of_lt ?_
    have := m.isLt
    omega
  rw [BitVec.sub_eq_add_neg, BitVec.add_assoc, ← BitVec.sub_eq_add_neg, BitVec.toNat_add,
    BitVec.toNat_sub_of_le (by rw [BitVec.le_def, hone]; exact h), hone, ← Nat.add_sub_assoc h]

lemma toNat_divUp {m x : BitVec w} (hm : 0 < m.toNat) (h : x.toNat + m.toNat - 1 < 2 ^ w) :
    ((x + m - 1#w) / m).toNat = (x.toNat + m.toNat - 1) / m.toNat := by
  rw [BitVec.toNat_udiv, toNat_add_sub_one hm, mod_eq_of_lt h]

lemma divUp_eq_zero {m x : BitVec w} (hm : 0 < m.toNat) (h : 2 ^ w ≤ x.toNat + m.toNat - 1) :
    (x + m - 1#w) / m = 0 := by
  have hx := x.isLt
  have hlt := m.isLt
  refine BitVec.eq_of_toNat_eq ?_
  rw [BitVec.toNat_udiv, toNat_add_sub_one hm, mod_eq_sub_mod h, mod_eq_of_lt (by omega),
    div_eq_of_lt (by omega)]
  rfl

lemma div_add_divUp_le {a b : Nat} (h : 0 < m) : a / m + (b + m - 1) / m ≤ (a + b + m - 1) / m := by
  rw [le_div_iff_mul_le h, add_mul]
  have ha := div_mul_le_self a m
  have hb := div_mul_le_self (b + m - 1) m
  omega

lemma toNat_roundUp {m : BitVec w} (hm : m ≠ 0) (h : m &&& (m - 1) = 0) (x : BitVec w) :
    ((x + m - 1) &&& ~~~(m - 1)).toNat = roundUp x.toNat m.toNat % 2 ^ w := by
  obtain ⟨k, hk, -, hnat⟩ := exists_eq_shiftLeft hm h
  have hpos : 0 < m.toNat := by rw [hnat]; exact Nat.two_pow_pos k
  have hdvd := dvd_two_pow hm h
  have hx := x.isLt
  have hlt := m.isLt
  have hsum : (x + m - 1).toNat = (x.toNat + m.toNat - 1) % 2 ^ w := toNat_add_sub_one hpos x
  rw [toNat_and_not hm h, hsum, roundUp]
  by_cases hfit : x.toNat + m.toNat - 1 < 2 ^ w
  · have hle := Nat.div_mul_le_self (x.toNat + m.toNat - 1) m.toNat
    rw [Nat.mod_eq_of_lt hfit, Nat.mod_eq_of_lt (hle.trans_lt hfit)]
  · -- the next multiple is the size of the word
    have hwr : (x.toNat + m.toNat - 1) % 2 ^ w = x.toNat + m.toNat - 1 - 2 ^ w := by
      rw [Nat.mod_eq_sub_mod (by omega), Nat.mod_eq_of_lt (by omega)]
    obtain ⟨c, hc⟩ := hdvd
    have htop : (x.toNat + m.toNat - 1) / m.toNat = c := by
      refine Nat.div_eq_of_lt_le ?_ ?_
      · rw [mul_comm]
        omega
      · rw [Nat.succ_mul, mul_comm]
        omega
    rw [hwr, Nat.div_eq_of_lt (by omega), htop, zero_mul, mul_comm c, ← hc, Nat.mod_self]

end Align
