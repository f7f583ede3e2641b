import FioSsd.Lib.Scan
import Mathlib.Data.BitVec

/-! # Printed magnitudes

`num2str` (`lib/num2str.c`) divides a number by 1000 or 1024 until it is short enough, and prints
what is left, digits of the last remainder, and a postfix. -/

namespace FioSsd

open Scan List Option Nat

def thousand (pow2 : Bool) : Nat := if pow2 then 1024 else 1000

def postfixTable : List Char := [' ', 'K', 'M', 'G', 'P', 'E']

/-- A printed number: `"%lu%c"`, or with a fraction `"%lu.%u%c"`. -/
structure Printed where
  whole : Nat
  fraction : Option Nat
  unit : Char
  deriving DecidableEq

lemma one_lt_thousand (pow2 : Bool) : 1 < thousand pow2 := by
  cases pow2 <;> decide

/-- The postfix to start with. -/
def basePostfix (base : Nat) (pow2 : Bool) : Nat :=
  if h : 1 < base then basePostfix (base / thousand pow2) pow2 + 1 else 0
termination_by base
decreasing_by exact Nat.div_lt_self (by omega) (one_lt_thousand pow2)

lemma basePostfix_one (pow2 : Bool) : basePostfix 1 pow2 = 0 := by
  rw [basePostfix]
  rfl

/-- The loop over `post_index`, with the last `modulo`. -/
def scaleDown (maxlen t : Nat) : Nat → Nat → Nat → Option Nat → Nat × Nat × Option Nat
  | 0, num, postIndex, modulo => (num, postIndex, modulo)
  | n + 1, num, postIndex, modulo =>
    if (decimal num).length ≤ maxlen then (num, postIndex, modulo)
    else scaleDown maxlen t n (num / t) (postIndex + 1) (some (num % t))

/-- The loop that shortens `modulo` to `room` digits. -/
def shorten (room : Nat) : Nat → Nat → Nat
  | 0, modulo => modulo
  | n + 1, modulo =>
    if (decimal modulo).length ≤ room then modulo else shorten room n ((modulo + 9) / 10)

/-- What is printed after the loop: none if the postfix is read behind the table. -/
def printScaled (maxlen t : Nat) : Nat × Nat × Option Nat → Option Printed
  | (num, postIndex, modulo) => postfixTable[postIndex]?.map fun unit =>
    match modulo with
    | none => ⟨num, none, unit⟩
    | some modulo =>
      let decimals := (maxlen + 2 ^ 32 - (decimal num).length) % 2 ^ 32
      if decimals ≤ 1 then ⟨if t / 2 ≤ modulo then num + 1 else num, none, unit⟩
      else ⟨num, some (shorten (decimals - 1) modulo modulo), unit⟩

def num2str (num : BitVec 64) (maxlen base : Nat) (pow2 : Bool) : Option Printed :=
  let start := basePostfix base pow2
  printScaled maxlen (thousand pow2)
    (scaleDown maxlen (thousand pow2) (6 - start) num.toNat start none)

/-- The power of the scale that a postfix stands for. -/
def unitPower : Char → Nat
  | 'K' => 1
  | 'M' => 2
  | 'G' => 3
  | 'T' => 4
  | 'P' => 5
  | 'E' => 6
  | _ => 0

namespace Printed

/-- The digits behind the point. -/
def places (p : Printed) : Nat := (p.fraction.map fun f => (decimal f).length).getD 0

/-- The printed number without its point. -/
def digits (p : Printed) : Nat := p.whole * 10 ^ p.places + p.fraction.getD 0

/-- The number differs by at most one unit of the last printed digit. -/
def Close (p : Printed) (t n : Nat) : Prop :=
  p.digits * t ^ unitPower p.unit ≤ n * 10 ^ p.places + t ^ unitPower p.unit ∧
    n * 10 ^ p.places ≤ p.digits * t ^ unitPower p.unit + t ^ unitPower p.unit

end Printed

/-- When the digits of the last remainder are the right ones, if any are printed. -/
def FractionOk (t maxlen k n : Nat) : Prop :=
  let modulo := n / t ^ (k - 1) % t
  10 ^ (maxlen - 2) ≤ n / t ^ k ∨ modulo ≤ 1 ∨
    if 10 ^ (maxlen - 3) ≤ n / t ^ k then
      modulo = 10 ∨
        91 ≤ modulo ∧ modulo ≤ 900 ∧ ((modulo + 99) / 100 - 1) * t ^ k ≤ 10 * (n % t ^ k)
    else 100 ≤ modulo ∧ modulo ≤ 990 ∧ ((modulo + 9) / 10 - 1) * t ^ k ≤ 100 * (n % t ^ k)

lemma length_decimal_le_iff {n k : Nat} (hk : 0 < k) : (decimal n).length ≤ k ↔ n < 10 ^ k := by
  unfold decimal
  split_ifs with h0
  · simp only [List.length_singleton, h0]
    exact iff_of_true hk (Nat.pow_pos (by decide))
  · rw [List.length_map, List.length_reverse]
    exact Nat.digits_length_le_iff (by norm_num) n

lemma length_decimal_of_lt {n : Nat} (h : n < 10) : (decimal n).length = 1 :=
  le_antisymm ((length_decimal_le_iff one_pos).2 h) (length_pos_iff.2 (decimal_ne_nil n))

lemma length_decimal_of_le {n : Nat} (hle : 10 ≤ n) (hlt : n < 100) : (decimal n).length = 2 := by
  have hone := (@length_decimal_le_iff n 1 one_pos).not
  have htwo := @length_decimal_le_iff n 2 two_pos
  omega

section

variable {l t n : Nat}

/-- How far a number is scaled down. -/
lemma scaleDown_spec (hlen : 0 < l) {fuel j : Nat} {modulo : Option Nat}
    (hj : ∀ i < j, 10 ^ l ≤ n / t ^ i)
    (hmod : modulo = if j = 0 then none else some (n / t ^ (j - 1) % t)) :
    ∃ k, scaleDown l t fuel (n / t ^ j) j modulo =
        (n / t ^ k, k, if k = 0 then none else some (n / t ^ (k - 1) % t)) ∧
      (∀ i < k, 10 ^ l ≤ n / t ^ i) ∧ (k = j + fuel ∨ k < j + fuel ∧ n / t ^ k < 10 ^ l) := by
  induction fuel generalizing j modulo with
  | zero => exact ⟨j, by rw [scaleDown, hmod], hj, .inl rfl⟩
  | succ fuel ih =>
    rw [scaleDown]
    split_ifs with hlt <;> rw [length_decimal_le_iff hlen] at hlt
    · exact ⟨j, by rw [hmod], hj, .inr ⟨by omega, hlt⟩⟩
    · rw [Nat.div_div_eq_div_mul, ← Nat.pow_succ]
      have hnx : ∀ i < j + 1, 10 ^ l ≤ n / t ^ i := by
        intro i hi
        rcases Nat.lt_succ_iff_lt_or_eq.1 hi with hi | rfl
        · exact hj i hi
        · exact Nat.le_of_not_lt hlt
      obtain ⟨k, hsc, hk, hend⟩ := ih hnx rfl
      exact ⟨k, hsc, hk, by omega⟩

lemma shorten_of_lt {room m : Nat} (hr : 0 < room) (hm : m < 10 ^ room) (fuel : Nat) :
    shorten room fuel m = m := by
  cases fuel with
  | zero => rfl
  | succ fuel => exact if_pos ((length_decimal_le_iff hr).2 hm)

lemma shorten_of_le {room m : Nat} (hr : 0 < room) (hm : 10 ^ room ≤ m) (fuel : Nat) :
    shorten room (fuel + 1) m = shorten room fuel ((m + 9) / 10) :=
  if_neg fun hle => absurd ((length_decimal_le_iff hr).1 hle) (not_lt.2 hm)

/-- Where rounding up adds a digit, the remainder is shortened once too often. -/
lemma shorten_one {m : Nat} (hm : m < 1024) : shorten 1 m m =
    if m < 10 then m else if m ≤ 90 then (m + 9) / 10 else if m < 100 then 1
    else if m ≤ 900 then (m + 99) / 100 else if m ≤ 1000 then 1 else 2 := by
  by_cases hdg : m < 10
  · rw [shorten_of_lt one_pos hdg, if_pos hdg]
  obtain ⟨fuel, hfl⟩ : ∃ fuel, m = fuel + 3 := ⟨m - 3, by omega⟩
  nth_rw 1 [hfl]
  rw [shorten_of_le one_pos (by omega)]
  by_cases hone : m ≤ 90
  · rw [shorten_of_lt one_pos (by omega)]
    split_ifs
    omega
  rw [shorten_of_le one_pos (by omega)]
  by_cases htwo : m ≤ 900
  · rw [shorten_of_lt one_pos (by omega)]
    split_ifs <;> omega
  rw [shorten_of_le one_pos (by omega), shorten_of_lt one_pos (by omega)]
  split_ifs <;> omega

lemma shorten_one_lt {m : Nat} (hm : m < 1024) : shorten 1 m m < 10 := by
  rw [shorten_one hm]
  split_ifs <;> omega

lemma shorten_two {m : Nat} (hm : m < 1024) : shorten 2 m m =
    if m < 100 then m else if m ≤ 990 then (m + 9) / 10 else if m ≤ 1000 then 10 else 11 := by
  by_cases hdg : m < 100
  · rw [shorten_of_lt two_pos hdg, if_pos hdg]
  obtain ⟨fuel, hfl⟩ : ∃ fuel, m = fuel + 2 := ⟨m - 2, by omega⟩
  nth_rw 1 [hfl]
  rw [shorten_of_le two_pos (by omega)]
  by_cases hone : m ≤ 990
  · rw [shorten_of_lt two_pos (by omega)]
    split_ifs
    omega
  rw [shorten_of_le two_pos (by omega), shorten_of_lt two_pos (by omega)]
  split_ifs <;> omega

/-- A fraction `d` of `c`-ths, beside the fraction `F` of the unit `U`. -/
def NearFraction (c d U F : Nat) : Prop := d * U ≤ c * F + U ∧ c * F ≤ (d + 1) * U

section Fraction

variable {c d m V F : Nat}

lemma le_of_scalar (hhi : F < V * (m + 1)) (h : c * (m + 1) ≤ (d + 1) * t) :
    c * F ≤ (d + 1) * (V * t) :=
  calc c * F ≤ c * (V * (m + 1)) := by gcongr
    _ = V * (c * (m + 1)) := by ring
    _ ≤ V * ((d + 1) * t) := mul_le_mul_left V h
    _ = (d + 1) * (V * t) := by ring

lemma NearFraction.of_scalar (hlo : V * m ≤ F) (hhi : F < V * (m + 1)) (hlow : d * t ≤ c * m + t)
    (hhg : c * (m + 1) ≤ (d + 1) * t) : NearFraction c d (V * t) F := by
  refine ⟨?_, le_of_scalar hhi hhg⟩
  calc d * (V * t) = V * (d * t) := by ring
    _ ≤ V * (c * m + t) := mul_le_mul_left V hlow
    _ = c * (V * m) + V * t := by ring
    _ ≤ c * F + V * t := by gcongr

lemma not_nearFraction_low (hc : 0 < c) (hhi : F < V * (m + 1)) (h : c * (m + 1) + t ≤ d * t) :
    ¬NearFraction c d (V * t) F := by
  rintro ⟨hlow, -⟩
  have hlt : c * F < c * (V * (m + 1)) := mul_lt_mul_of_pos_left hhi hc
  have hle : V * (c * (m + 1) + t) ≤ V * (d * t) := mul_le_mul_left V h
  have hL : V * (c * (m + 1) + t) = c * (V * (m + 1)) + V * t := by ring
  have hR : V * (d * t) = d * (V * t) := by ring
  omega

lemma not_nearFraction_high (hV : 0 < V) (hlo : V * m ≤ F) (h : (d + 1) * t < c * m) :
    ¬NearFraction c d (V * t) F := by
  rintro ⟨-, hhg⟩
  have hlt : V * ((d + 1) * t) < V * (c * m) := mul_lt_mul_of_pos_left h hV
  have hle : c * (V * m) ≤ c * F := mul_le_mul_left c hlo
  have hL : V * ((d + 1) * t) = (d + 1) * (V * t) := by ring
  have hR : V * (c * m) = c * (V * m) := by ring
  omega

lemma nearFraction_iff_low (hhi : F < V * (m + 1)) (hd : 0 < d) (hhg : c * (m + 1) ≤ (d + 1) * t) :
    NearFraction c d (V * t) F ↔ (d - 1) * (V * t) ≤ c * F := by
  have hsub : d * (V * t) = (d - 1) * (V * t) + V * t := by
    rw [← Nat.succ_mul, Nat.succ_eq_add_one, Nat.sub_add_cancel hd]
  constructor
  · rintro ⟨hlow, -⟩
    omega
  · intro hlow
    exact ⟨by omega, le_of_scalar hhi hhg⟩

variable (ht : t = 1000 ∨ t = 1024) (hm : m < t) (hV : 0 < V) (hlo : V * m ≤ F)
  (hhi : F < V * (m + 1))

include ht hm hV hlo hhi in
lemma nearFraction_one_iff : NearFraction 10 (shorten 1 m m) (V * t) F ↔
    m ≤ 1 ∨ m = 10 ∨ 91 ≤ m ∧ m ≤ 900 ∧ ((m + 99) / 100 - 1) * (V * t) ≤ 10 * F := by
  rw [shorten_one (by omega)]
  rcases ht with rfl | rfl
  all_goals
    split_ifs with h10 h90 h100 h900 h1000
    · by_cases hone : m ≤ 1
      · exact iff_of_true (.of_scalar hlo hhi (by omega) (by omega)) (.inl hone)
      · exact iff_of_false (not_nearFraction_low (by decide) hhi (by omega)) (by omega)
    · by_cases hten : m = 10
      · exact iff_of_true (.of_scalar hlo hhi (by omega) (by omega)) (.inr (.inl hten))
      · exact iff_of_false (not_nearFraction_low (by decide) hhi (by omega)) (by omega)
    · have h0 : (m + 99) / 100 - 1 = 0 := by omega
      rw [h0, zero_mul]
      exact iff_of_true (.of_scalar hlo hhi (by omega) (by omega)) (by omega)
    · rw [nearFraction_iff_low hhi (by omega) (by omega)]
      omega
    · exact iff_of_false (not_nearFraction_high hV hlo (by omega)) (by omega)
    · exact iff_of_false (not_nearFraction_high hV hlo (by omega)) (by omega)

include ht hm hV hlo hhi in
lemma nearFraction_two_iff :
    NearFraction (10 ^ (decimal (shorten 2 m m)).length) (shorten 2 m m) (V * t) F ↔
      m ≤ 1 ∨ 100 ≤ m ∧ m ≤ 990 ∧ ((m + 9) / 10 - 1) * (V * t) ≤ 100 * F := by
  by_cases hdg : m < 10
  · have hone := nearFraction_one_iff ht hm hV hlo hhi
    rw [shorten_of_lt one_pos hdg] at hone
    rw [shorten_of_lt two_pos (by omega), length_decimal_of_lt hdg, pow_one, hone]
    omega
  have hlen : (decimal (shorten 2 m m)).length = 2 := by
    rw [shorten_two (by omega)]
    refine length_decimal_of_le ?_ ?_ <;> split_ifs <;> omega
  rw [hlen, shorten_two (by omega)]
  rcases ht with rfl | rfl
  all_goals
    split_ifs with h100 h990 h1000
    · exact iff_of_false (not_nearFraction_low (by decide) hhi (by omega)) (by omega)
    · rw [nearFraction_iff_low hhi (by omega) (by omega)]
      omega
    · exact iff_of_false (not_nearFraction_high hV hlo (by omega)) (by omega)
    · exact iff_of_false (not_nearFraction_high hV hlo (by omega)) (by omega)

end Fraction

lemma close_some_iff {w d F k : Nat} {unit : Char} (hu : unitPower unit = k)
    (hn : n = t ^ k * w + F) : Printed.Close ⟨w, some d, unit⟩ t n ↔
      NearFraction (10 ^ (decimal d).length) d (t ^ k) F := by
  subst hu
  have hpl : Printed.places ⟨w, some d, unit⟩ = (decimal d).length := rfl
  have hdg : Printed.digits ⟨w, some d, unit⟩ = w * 10 ^ (decimal d).length + d := rfl
  rw [Printed.Close, hdg, hpl, hn]
  generalize 10 ^ (decimal d).length = c
  generalize t ^ unitPower unit = U
  have hL : (w * c + d) * U = U * w * c + d * U := by ring
  have hR : (U * w + F) * c = U * w * c + c * F := by ring
  have hsc : (d + 1) * U = d * U + U := succ_mul d U
  unfold NearFraction
  omega

lemma close_none {w F k : Nat} {unit : Char} (hu : unitPower unit = k)
    (hn : n = t ^ k * w + F) (hF : F < t ^ k) (carry : Prop) [Decidable carry] :
    Printed.Close ⟨if carry then w + 1 else w, none, unit⟩ t n := by
  subst hu
  have hsc : (w + 1) * t ^ unitPower unit = t ^ unitPower unit * w + t ^ unitPower unit := by
    ring
  simp only [Printed.Close, Printed.digits, Printed.places, map_none, getD_none,
    pow_zero, mul_one, add_zero]
  split_ifs
  · omega
  · rw [mul_comm w]
    omega

section

variable {k : Nat} (hl : 4 ≤ l) (ht : t ≤ 1024) (htp : 0 < t) (hge : 10 ^ l ≤ n / t ^ k)

include hl ht htp hge

/-- How many digits are left. -/
lemma length_scaled :
    10 ^ (l - 4) * 9 ≤ n / t ^ (k + 1) ∧ l ≤ (decimal (n / t ^ (k + 1))).length + 3 := by
  have hw : 10 ^ (l - 4) * 9 ≤ n / t ^ (k + 1) := by
    rw [Nat.pow_succ, ← Nat.div_div_eq_div_mul, Nat.le_div_iff_mul_le htp]
    calc 10 ^ (l - 4) * 9 * t ≤ 10 ^ (l - 4) * 10 ^ 4 := by
          rw [Nat.mul_assoc]
          exact Nat.mul_le_mul_left _ (by omega)
      _ = 10 ^ l := by rw [← Nat.pow_add, Nat.sub_add_cancel hl]
      _ ≤ n / t ^ k := hge
  refine ⟨hw, ?_⟩
  by_contra hlt
  have hpos := List.length_pos_iff.2 (decimal_ne_nil (n / t ^ (k + 1)))
  have hlt := (@length_decimal_le_iff (n / t ^ (k + 1)) (l - 4) (by omega)).1 (by omega)
  omega

/-- What is printed of a number that was scaled down. -/
lemma printScaled_scaled (hlt : n / t ^ (k + 1) < 10 ^ l) (modulo : Nat) :
    printScaled l t (n / t ^ (k + 1), k + 1, some modulo) =
      postfixTable[k + 1]?.map fun unit =>
        let w := n / t ^ (k + 1)
        if 10 ^ (l - 2) ≤ w then
          ⟨if t / 2 ≤ modulo then w + 1 else w, none, unit⟩
        else
          ⟨w, some (shorten (if 10 ^ (l - 3) ≤ w then 1 else 2) modulo modulo), unit⟩ := by
  have hlen := (length_scaled hl ht htp hge).2
  have hlt' := (length_decimal_le_iff (by omega)).2 hlt
  have htwo := @length_decimal_le_iff (n / t ^ (k + 1)) (l - 2) (by omega)
  have hth := @length_decimal_le_iff (n / t ^ (k + 1)) (l - 3) (by omega)
  refine congrArg (Option.map · _) (funext fun unit => ?_)
  by_cases hend : 10 ^ (l - 2) ≤ n / t ^ (k + 1)
  · rw [if_pos hend]
    exact if_pos (by omega)
  · rw [if_neg hend]
    refine (if_neg (by omega)).trans ?_
    congr 3
    split_ifs <;> omega

end

/-- The table has no `'T'`: the last two postfixes stand for more than the number was divided by. -/
lemma not_close_of_unit {p : Printed} {w T : Nat} (hp : w ≤ p.whole) (hw : 9 ≤ w)
    (hu : t ^ unitPower p.unit = T * t) (hn : n < T * (w + 1)) (ht : t = 1000 ∨ t = 1024) :
    ¬p.Close t n := by
  rintro ⟨hlow, -⟩
  have hc : 0 < 10 ^ p.places := Nat.pow_pos (by decide)
  rw [hu, Printed.digits] at hlow
  generalize 10 ^ p.places = c at hlow hc
  have hlt : n * c < T * (w + 1) * c := Nat.mul_lt_mul_of_pos_right hn hc
  have hle : w * c * (T * t) ≤ (p.whole * c + p.fraction.getD 0) * (T * t) := by
    gcongr
    exact (Nat.mul_le_mul_right c hp).trans (Nat.le_add_right _ _)
  have hch : T * (w * c * t) < T * (w * c + c + t) := by
    calc T * (w * c * t) = w * c * (T * t) := by ring
      _ ≤ n * c + T * t := hle.trans hlow
      _ < T * (w + 1) * c + T * t := by omega
      _ = T * (w * c + c + t) := by ring
  have hsc := Nat.lt_of_mul_lt_mul_left hch
  have hcle : 9 * c ≤ w * c := Nat.mul_le_mul_right c hw
  rcases ht with rfl | rfl <;> omega

lemma close_scaled_iff {k : Nat} (hl : 4 ≤ l) (ht : t = 1000 ∨ t = 1024) (hk : k < 5)
    (hge : 10 ^ l ≤ n / t ^ k) (hlt : n / t ^ (k + 1) < 10 ^ l) :
    (∃ p, printScaled l t (n / t ^ (k + 1), k + 1, some (n / t ^ k % t)) = some p ∧
      p.Close t n) ↔ k + 1 ≤ 3 ∧ FractionOk t l (k + 1) n := by
  obtain ⟨unit, hu⟩ : ∃ unit, postfixTable[k + 1]? = some unit :=
    ⟨_, List.getElem?_eq_getElem (by
      simp only [postfixTable, List.length_cons, List.length_nil]
      omega)⟩
  have hpw : unitPower unit = if k + 1 ≤ 3 then k + 1 else k + 2 := by
    interval_cases k <;> cases hu <;> rfl
  rw [printScaled_scaled hl (by omega) (by omega) hge hlt, hu]
  simp only [Option.map_some, Option.some.injEq, exists_eq_left']
  have hn := (Nat.div_add_mod n (t ^ (k + 1))).symm
  have hrs := Nat.mod_lt n (Nat.pow_pos (by omega) : 0 < t ^ (k + 1))
  by_cases hk3 : k + 1 ≤ 3
  · rw [if_pos hk3] at hpw
    simp only [hk3, true_and, FractionOk, Nat.add_sub_cancel]
    by_cases htop : 10 ^ (l - 2) ≤ n / t ^ (k + 1)
    · rw [if_pos htop]
      exact iff_of_true (close_none hpw hn hrs _) (.inl htop)
    rw [if_neg htop, close_some_iff hpw hn, Nat.pow_succ]
    have hV : 0 < t ^ k := Nat.pow_pos (by omega)
    have hm := Nat.mod_lt (n / t ^ k) (by omega : 0 < t)
    have hlo := Nat.mul_div_le (n % (t ^ k * t)) (t ^ k)
    have hhi := Nat.lt_mul_div_succ (n % (t ^ k * t)) hV
    rw [Nat.mod_mul_right_div_self] at hlo hhi
    rw [Nat.pow_succ] at htop
    simp only [htop, false_or]
    split_ifs
    · rw [length_decimal_of_lt (shorten_one_lt (by omega)), pow_one]
      exact nearFraction_one_iff ht hm hV hlo hhi
    · exact nearFraction_two_iff ht hm hV hlo hhi
  · rw [if_neg hk3] at hpw
    refine iff_of_false ?_ (by simp [hk3])
    obtain ⟨hw, -⟩ := length_scaled hl (by omega) (by omega) hge
    have hpos : 0 < 10 ^ (l - 4) := Nat.pow_pos (by decide)
    refine @not_close_of_unit t n _ (n / t ^ (k + 1)) (t ^ (k + 1)) ?_ (by omega) ?_ ?_ ht
    · split_ifs <;> simp
    · split_ifs <;> rw [hpw, Nat.pow_succ]
    · rw [Nat.mul_add_one]
      omega

/-- A number is not longer after more divisions. -/
lemma eq_of_scaled {j k : Nat} (ht : 0 < t) (hk : ∀ i < k, 10 ^ l ≤ n / t ^ i)
    (hlt : n / t ^ k < 10 ^ l) (hge : 10 ^ l ≤ n / t ^ (j - 1))
    (hj : n / t ^ j < 10 ^ l) (hpos : 0 < j) : j = k := by
  rcases Nat.lt_trichotomy j k with hjk | heq | hgt
  · exact absurd (hk j hjk) (Nat.not_le.2 hj)
  · exact heq
  · have hle : n / t ^ (j - 1) ≤ n / t ^ k :=
      Nat.div_le_div_left (Nat.pow_le_pow_right ht (by omega)) (Nat.pow_pos ht)
    omega

end

/-- **When the printed number is close**: up to the postfix `'G'`, if the digits behind the point
    are right. -/
theorem num2str_close_iff (num : BitVec 64) {maxlen : Nat} (hmax : 4 ≤ maxlen) (pow2 : Bool) :
    (∃ p, num2str num maxlen 1 pow2 = some p ∧ p.Close (thousand pow2) num.toNat) ↔
      num.toNat < 10 ^ maxlen ∨ ∃ k ∈ [1, 2, 3],
        10 ^ maxlen ≤ num.toNat / thousand pow2 ^ (k - 1) ∧
        num.toNat / thousand pow2 ^ k < 10 ^ maxlen ∧
        FractionOk (thousand pow2) maxlen k num.toNat := by
  have ht : thousand pow2 = 1000 ∨ thousand pow2 = 1024 := by cases pow2 <;> decide
  obtain ⟨k, hsc, hk, hend⟩ :=
    @scaleDown_spec maxlen (thousand pow2) num.toNat (by omega) 6 0 none (by simp) rfl
  rw [pow_zero, Nat.div_one] at hsc
  simp only [num2str, basePostfix_one, Nat.sub_zero, hsc]
  rcases Nat.eq_zero_or_pos k with rfl | hpos
  · have hft : num.toNat < 10 ^ maxlen := by
      rcases hend with hla | ⟨-, hft⟩
      · cases hla
      · simpa using hft
    refine iff_of_true ⟨⟨num.toNat, none, ' '⟩, ?_, ?_⟩ (.inl hft)
    · simp [printScaled, postfixTable]
    · simp [Printed.Close, Printed.digits, Printed.places, unitPower]
  obtain ⟨k, rfl⟩ : ∃ j, k = j + 1 := ⟨k - 1, by omega⟩
  rw [if_neg k.succ_ne_zero, Nat.add_sub_cancel]
  have hnot : ¬num.toNat < 10 ^ maxlen := by simpa using hk 0 hpos
  rcases hend with hla | ⟨hla, hft⟩
  · rw [hla]
    refine iff_of_false ?_ ?_
    · rintro ⟨p, hp, -⟩
      cases hp
    · rintro (hft | ⟨j, hj, -, hsh, -⟩)
      · exact hnot hft
      · exact absurd (hk j (by simp at hj; omega)) (Nat.not_le.2 hsh)
  rw [close_scaled_iff hmax ht (by omega) (hk k (by omega)) hft]
  simp only [hnot, false_or]
  constructor
  · rintro ⟨hsm, hok⟩
    exact ⟨k + 1, by simp; omega, hk k (by omega), hft, hok⟩
  · rintro ⟨j, hj, hln, hsh, hok⟩
    cases eq_of_scaled (by omega) hk hft hln hsh (by simp at hj; omega)
    exact ⟨by simp at hj; omega, hok⟩

theorem num2str_close_fits :
    ∃ p, num2str 10240 4 1 true = some p ∧ p.Close (thousand true) (10240#64).toNat :=
  (num2str_close_iff 10240 (by decide) true).2
    (.inr ⟨1, by simp, by decide, by decide, .inr (.inl (by decide))⟩)

/-- Of 10005 the text is `"10.5K"`. -/
theorem num2str_loses_zeros : num2str 10005 4 1 false = some ⟨10, some 5, 'K'⟩ ∧
    ¬Printed.Close ⟨10, some 5, 'K'⟩ (thousand false) (10005#64).toNat := by
  constructor
  · simp [num2str, basePostfix_one, scaleDown, length_decimal_le_iff, thousand, printScaled,
      postfixTable, length_decimal_of_le, shorten_of_lt]
  · rw [close_some_iff rfl (by decide : (10005#64).toNat = thousand false ^ 1 * 10 + 5),
      length_decimal_of_lt (by decide), NearFraction]
    decide

end FioSsd
