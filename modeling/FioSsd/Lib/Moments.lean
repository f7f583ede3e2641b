import Mathlib.Tactic

/-! # Mean and squared deviations of samples -/

namespace Moments

open List

variable {K : Type} [Field K] [LinearOrder K] [IsStrictOrderedRing K] (xs : List K)

def mean : K := xs.sum / xs.length

def sqDev : K := (xs.map fun x => (x - mean xs) ^ 2).sum

lemma sum_sq_sub (a : K) :
    (xs.map fun x => (x - a) ^ 2).sum =
      (xs.map fun x => x ^ 2).sum - 2 * a * xs.sum + xs.length * a ^ 2 := by
  induction xs with
  | nil => simp
  | cons x xs ih =>
    simp only [map_cons, sum_cons, length_cons, ih]
    push_cast
    ring

lemma sqDev_nonneg : 0 ≤ sqDev xs := by
  apply sum_nonneg
  intro y hy
  obtain ⟨x, -, rfl⟩ := mem_map.1 hy
  exact sq_nonneg _

lemma mean_mul_length : mean xs * xs.length = xs.sum := by
  cases xs with
  | nil => simp
  | cons x xs =>
    have hlen : ((x :: xs).length : K) ≠ 0 := by
      exact_mod_cast Nat.succ_ne_zero xs.length
    rw [mean, div_mul_cancel₀ _ hlen]

lemma sqDev_eq : sqDev xs = (xs.map fun x => x ^ 2).sum - mean xs ^ 2 * xs.length := by
  have hsum := mean_mul_length xs
  rw [sqDev, sum_sq_sub, ← hsum]
  ring

lemma mean_append (xs ys : List K) :
    mean (xs ++ ys) = (mean ys * ys.length + mean xs * xs.length) / (xs.length + ys.length) := by
  rw [mean_mul_length, mean_mul_length, mean, sum_append, length_append]
  push_cast
  rw [add_comm]

/-- **Pooling**: the squared deviations of two lists together are those of each, and a term for the
    distance of the two means. -/
lemma sqDev_append (xs ys : List K) : sqDev (xs ++ ys) = sqDev ys + sqDev xs +
      (mean ys - mean xs) ^ 2 * (xs.length * ys.length) / (xs.length + ys.length) := by
  by_cases hlen : (xs.length : K) + ys.length = 0
  · -- both lists are empty
    have hxs : xs = [] := by
      rw [← length_eq_zero_iff]
      have hcs : ((xs.length + ys.length : Nat) : K) = 0 := by exact_mod_cast hlen
      have h0 : xs.length + ys.length = 0 := by exact_mod_cast hcs
      omega
    subst hxs
    simp [sqDev]
  · rw [sqDev_eq (xs ++ ys), mean_append, sqDev_eq, sqDev_eq, map_append, sum_append, length_append]
    push_cast
    field_simp
    ring

end Moments
