import Mathlib.Tactic
import Mathlib.Order.Interval.Finset.Nat

/-! # Stripes -/

namespace Stripes

open Nat

variable {a b d k : Nat}

def Odd (t x : Nat) : Prop := x / t % 2 = 1
deriving Decidable

def oddBelow (t n : Nat) : Nat := n / (2 * t) * t + (n % (2 * t) - t)

variable {t : Nat}

lemma oddBelow_add (ht : 0 < t) (a : Nat) (h : b ≤ 2 * t) :
    oddBelow t (2 * t * a + b) = a * t + (b - t) := by
  unfold oddBelow
  rcases h.lt_or_eq with hlt | rfl
  · rw [Nat.mul_add_div (by omega), Nat.div_eq_of_lt hlt, Nat.mul_add_mod, Nat.mod_eq_of_lt hlt,
      add_zero]
  · rw [← Nat.mul_succ, Nat.mul_div_cancel_left _ (by omega), Nat.mul_mod_right, Nat.succ_mul]
    omega

lemma odd_add (h : 0 < t) (a : Nat) (hb : b < 2 * t) : Odd t (2 * t * a + b) ↔ t ≤ b := by
  have hdiv : (2 * t * a + b) / t = 2 * a + b / t := by
    rw [mul_comm 2 t, mul_assoc, Nat.mul_add_div h]
  rw [Odd, hdiv]
  by_cases hle : t ≤ b
  · have : b / t = 1 := Nat.div_eq_of_lt_le (by omega) (by omega)
    omega
  · have : b / t = 0 := Nat.div_eq_of_lt (by omega)
    omega

lemma odd_add_period (h : 0 < t) (x : Nat) : Odd t (x + 2 * t) ↔ Odd t x := by
  unfold Odd
  rw [mul_comm, add_mul_div_left _ _ h, add_mod_right]

lemma oddBelow_add_period (h : 0 < t) (n : Nat) : oddBelow t (n + 2 * t) = oddBelow t n + t := by
  unfold oddBelow
  rw [add_div_right _ (by omega), add_mod_right, succ_mul]
  omega

lemma oddBelow_succ (h : 0 < t) (n : Nat) :
    oddBelow t (n + 1) = oddBelow t n + if Odd t n then 1 else 0 := by
  have hlt : n % (2 * t) < 2 * t := mod_lt n (by omega)
  have hn := div_add_mod n (2 * t)
  rw [← hn, add_assoc, oddBelow_add h _ (by omega), oddBelow_add h _ hlt.le]
  simp only [odd_add h _ hlt]
  split_ifs
  all_goals omega

lemma card_odd_Ico (ht : 0 < t) (h : a ≤ b) :
    oddBelow t b = oddBelow t a + ((Finset.Ico a b).filter (Odd t)).card := by
  induction b, h using le_induction with
  | base => simp
  | succ b h ih =>
    rw [oddBelow_succ ht, ih, ← Finset.insert_Ico_right_eq_Ico_add_one h, Finset.filter_insert]
    split_ifs with hodd
    · rw [Finset.card_insert_of_notMem (by simp), add_assoc]
    · rfl

lemma oddBelow_le_add (ht : 0 < t) (h : a ≤ b) : oddBelow t b ≤ oddBelow t a + (b - a) := by
  have hcr : ((Finset.Ico a b).filter (Odd t)).card ≤ b - a := by
    rw [← card_Ico a b]
    exact Finset.card_filter_le _ _
  rw [card_odd_Ico ht h]
  omega

/-! ## Windows

Windows of width `s`, from 0 on, that have `t` even positions each. The stripes fit the windows only
if two stripes are about one window; a small gap adds up from window to window. -/

def WindowFits (t s : Nat) (slack : Prop) (a : Nat) : Prop :=
  oddBelow t (a + s) = oddBelow t a + (s - t) ∨
    slack ∧ oddBelow t (a + s) + 1 = oddBelow t a + (s - t)

variable {s n : Nat} {slack : Prop}

lemma oddBelow_lag (h : 0 < t) (hd : s + d = 2 * t) (hk : k * d ≤ t) :
    oddBelow t (k * s) + k * d = k * t := by
  cases k with
  | zero => simp [oddBelow]
  | succ k =>
    have hpos : (k + 1) * s = 2 * t * k + (2 * t - (k + 1) * d) := by
      have hmul : (k + 1) * s + (k + 1) * d = (k + 1) * (2 * t) := by rw [← mul_add, hd]
      have hexp : (k + 1) * (2 * t) = 2 * t * k + 2 * t := by ring
      omega
    rw [hpos, oddBelow_add h k (by omega), succ_mul k t]
    omega

lemma lag_of_windowFits (ht : 0 < t) (hd : s + d = 2 * t) (hle : t ≤ s)
    (h : ∀ k < n, WindowFits t s slack (k * s)) (hk : k ≤ n) : k * d ≤ t := by
  induction k with
  | zero => omega
  | succ k ih =>
    have hlag := ih (by omega)
    have hbl := oddBelow_lag ht hd hlag
    by_contra hfar
    -- the window ends in an even stripe, so all its odd positions are the `k * d` it lags behind
    have hmul : (k + 1) * d = k * d + d := succ_mul k d
    have hpos : k * s + s = 2 * t * k + (2 * t - (k + 1) * d) := by
      have hsum : k * s + k * d = 2 * t * k := by rw [← mul_add, hd, mul_comm]
      omega
    have hend : oddBelow t (k * s + s) = k * t := by
      rw [hpos, oddBelow_add ht k (by omega)]
      omega
    rcases h k (by omega) with hexa | ⟨-, hsl⟩
    all_goals omega

lemma wide_of_windowFits (ht : 0 < t) (hwd : 2 * t < s) (h : WindowFits t s slack 0) :
    slack ∧ (s = 2 * t + 1 ∨ s = 4 ∧ t = 1) := by
  have h0 : oddBelow t 0 = 0 := by simp [oddBelow]
  have hst : oddBelow t (2 * t + 1) = t := by
    have := oddBelow_add ht 1 (b := 1) (by omega)
    rw [mul_one] at this
    rw [this]
    omega
  have hbn : oddBelow t s ≤ oddBelow t (2 * t + 1) + (s - (2 * t + 1)) := oddBelow_le_add ht hwd
  have hsz : s = 2 * t + 1 ∨ s = 4 ∧ t = 1 := by
    by_contra hoth
    by_cases hone : t = 1
    · subst hone
      have hfv : oddBelow 1 s ≤ oddBelow 1 5 + (s - 5) := oddBelow_le_add ht (by omega)
      have : oddBelow 1 5 = 2 := rfl
      rcases h with hexa | ⟨-, hsl⟩
      · rw [zero_add] at hexa
        omega
      · rw [zero_add] at hsl
        omega
    · have hscn : oddBelow t (2 * t + 2) = t := by
        have := oddBelow_add ht 1 (b := 2) (by omega)
        rw [mul_one] at this
        rw [this]
        omega
      have hle : oddBelow t s ≤ oddBelow t (2 * t + 2) + (s - (2 * t + 2)) :=
        oddBelow_le_add ht (by omega)
      rcases h with hexa | ⟨-, hsl⟩
      · rw [zero_add] at hexa
        omega
      · rw [zero_add] at hsl
        omega
  refine ⟨?_, hsz⟩
  rcases h with hexa | ⟨hsl, -⟩
  · rw [zero_add] at hexa
    omega
  · exact hsl

lemma windowFits_iff (h : 0 < t) (hle : t ≤ s) (hn : 0 < n) :
    (∀ k < n, WindowFits t s slack (k * s)) ↔
      (s ≤ 2 * t ∧ n * (2 * t - s) ≤ t) ∨ (slack ∧ (s = 2 * t + 1 ∨ s = 4 ∧ t = 1)) := by
  constructor
  · intro hft
    by_cases hwd : 2 * t < s
    · have hfr := hft 0 hn
      rw [zero_mul] at hfr
      exact .inr (wide_of_windowFits h hwd hfr)
    · exact .inl ⟨by omega, lag_of_windowFits h (by omega) hle hft le_rfl⟩
  · rintro (⟨hs, hlag⟩ | ⟨hsl, rfl | ⟨rfl, rfl⟩⟩) k hk
    · obtain ⟨d, hd⟩ := Nat.exists_eq_add_of_le hs
      rw [hd, Nat.add_sub_cancel_left] at hlag
      replace hd := hd.symm
      have hpre := oddBelow_lag h hd ((Nat.mul_le_mul_right _ hk.le).trans hlag)
      have hps := oddBelow_lag h hd ((Nat.mul_le_mul_right _ (Nat.succ_le_of_lt hk)).trans hlag)
      rw [Nat.succ_mul, Nat.succ_mul, Nat.succ_mul] at hps
      exact .inl (by omega)
    · have hsh : k * (2 * t + 1) + (2 * t + 1) = k * (2 * t + 1) + 1 + 2 * t := by omega
      rw [WindowFits, hsh, oddBelow_add_period h, oddBelow_succ h]
      split_ifs
      · left
        omega
      · exact .inr ⟨hsl, by omega⟩
    · have hsh : oddBelow 1 (k * 4 + 4) = oddBelow 1 (k * 4) + 1 + 1 := by
        rw [← oddBelow_add_period h, ← oddBelow_add_period h]
      exact .inr ⟨hsl, by omega⟩

end Stripes
