import FioSsd.Lib.EditDistance
import Mathlib.Data.BitVec

/-! # The distance between option names

`string_distance` (`parse.c`) computes the edit distance row by row, with two rows that change
places. -/

namespace FioSsd

open List Option

/-- An `unsigned int` incremented. -/
def inc32 (x : Nat) : Nat := (x + 1) % 2 ^ 32

/-- A write into a row, none if it is outside. -/
def setRow (row : List Nat) (j x : Nat) : Option (List Nat) :=
  if j < row.length then some (row.set j x) else none

/-- `p[i] = p[i - 1] + 1`, `n` times from `i` on. -/
def countRow : Nat → Nat → List Nat → Option (List Nat)
  | 0, _, p => some p
  | n + 1, i, p => do
    let left ← p[i - 1]?
    countRow n (i + 1) (← setRow p i (inc32 left))

/-- The inner loop, for the characters of `s2` from `j - 1` on. -/
def fillRow (c : UInt8) (p : List Nat) : List UInt8 → Nat → List Nat → Option (List Nat)
  | [], _, q => some q
  | d :: s2, j, q => do
    let diagonal ← p[j - 1]?
    let sub := if c ≠ d then inc32 diagonal else diagonal
    let above ← p[j]?
    let left ← q[j - 1]?
    fillRow c p s2 (j + 1) (← setRow q j (min (inc32 above) (min (inc32 left) sub)))

/-- The outer loop, for the rest of `s1`. -/
def distanceRows (s2 : List UInt8) : List UInt8 → List Nat → List Nat → Option (List Nat)
  | [], p, _ => some p
  | c :: s1, p, q => do
    let above ← p[0]?
    let q ← fillRow c p s2 1 (← setRow q 0 (inc32 above))
    distanceRows s2 s1 q p

/-- `string_distance`: `freshP` and `freshQ` are what `malloc` finds in memory, and none a run that
    leaves a row or does not end. -/
def stringDistance (freshP freshQ : Nat → Nat) (s1 s2 : List UInt8) : Option Int := do
  let s1Len := s1.length % 2 ^ 32
  let s2Len := s2.length % 2 ^ 32
  let p := (List.range (inc32 s2Len)).map freshP
  let q := (List.range (inc32 s2Len)).map freshQ
  -- no `unsigned int` is above the greatest
  if s1Len = 2 ^ 32 - 1 then none
  let p ← countRow s2Len 1 (← setRow p 0 0)
  let p ← distanceRows (s2.take s2Len) (s1.take s1Len) p q
  let i ← p[s2Len]?
  return (i : Int).bmod (2 ^ 32)

/-- The first `k` numbers of a row: the distances of `s` from the starts of `t`, read backwards. -/
structure RowOf (s t : List UInt8) (k : Nat) (row : List Nat) : Prop where
  length : row.length = t.length + 1
  value : ∀ j < k, row[j]? = some (editDistance s (t.take j).reverse)

section

variable {s t u : List UInt8} {p q : List Nat} {c : UInt8} {k : Nat}

lemma inc32_eq {x : Nat} (h : x < 2 ^ 32 - 1) : inc32 x = x + 1 := Nat.mod_eq_of_lt (by omega)

lemma inc32_editDistance (hs : s.length < 2 ^ 32 - 1) (ht : t.length < 2 ^ 32 - 1) :
    inc32 (editDistance s t) = editDistance s t + 1 := by
  have hle := editDistance_le_max s t
  exact inc32_eq (by omega)

lemma RowOf.set (h : RowOf s t k p) (hk : k ≤ t.length) :
    ∃ row, setRow p k (editDistance s (t.take k).reverse) = some row ∧ RowOf s t (k + 1) row := by
  have hlt : k < p.length := by
    rw [h.length]
    omega
  refine ⟨_, if_pos hlt, by rw [length_set, h.length], fun j hj => ?_⟩
  rw [getElem?_set]
  split_ifs with heq
  · rw [heq]
  · exact h.value j (by omega)

lemma countRow_spec {n : Nat} (ht : t.length < 2 ^ 32 - 1) (hn : k + 1 + n = t.length + 1)
    (h : RowOf [] t (k + 1) p) :
    ∃ row, countRow n (k + 1) p = some row ∧ RowOf [] t (t.length + 1) row := by
  induction n generalizing k p with
  | zero => exact ⟨p, rfl, hn ▸ h⟩
  | succ n ih =>
    obtain ⟨row, hset, hrow⟩ := h.set (by omega)
    have hinc : inc32 (editDistance [] (t.take k).reverse) =
        editDistance [] (t.take (k + 1)).reverse := by
      rw [inc32_editDistance (by simp) (by simp; omega)]
      simp
      omega
    rw [← hinc] at hset
    rw [countRow, Nat.add_sub_cancel, h.value k (by omega)]
    simp only [bind_eq_bind, bind_some, hset]
    exact ih (by omega) hrow

lemma fillRow_spec (hs : s.length + 1 < 2 ^ 32 - 1) (ht : t.length < 2 ^ 32 - 1)
    (hp : RowOf s t (t.length + 1) p) (hu : t.drop k = u) (hq : RowOf (c :: s) t (k + 1) q)
    (hk : k ≤ t.length) :
    ∃ row, fillRow c p u (k + 1) q = some row ∧ RowOf (c :: s) t (t.length + 1) row := by
  induction u generalizing k q with
  | nil =>
    have hend := drop_eq_nil_iff.1 hu
    exact ⟨q, rfl, (by omega : k = t.length) ▸ hq⟩
  | cons d u ih =>
    have hlt : k < t.length := by
      by_contra hge
      cases (drop_of_length_le (Nat.le_of_not_lt hge)).symm.trans hu
    obtain ⟨hd, hu⟩ := cons_eq_cons.1 ((drop_eq_getElem_cons hlt).symm.trans hu)
    have htk : (t.take (k + 1)).reverse = d :: (t.take k).reverse := by
      rw [take_succ_eq_append_getElem hlt, reverse_concat, hd]
    have hlen : (t.take k).reverse.length + 1 ≤ t.length := by simp; omega
    obtain ⟨row, hset, hrow⟩ := hq.set hlt
    have hc : min (inc32 (editDistance s (t.take (k + 1)).reverse))
        (min (inc32 (editDistance (c :: s) (t.take k).reverse))
          (if c ≠ d then inc32 (editDistance s (t.take k).reverse)
          else editDistance s (t.take k).reverse)) =
          editDistance (c :: s) (t.take (k + 1)).reverse := by
      rw [htk, editDistance_cons_cons, inc32_editDistance (by omega) (by rw [length_cons]; omega),
        inc32_editDistance (by rw [length_cons]; omega) (by omega),
        inc32_editDistance (by omega) (by omega)]
      split_ifs with heq <;> simp_all
    rw [fillRow, Nat.add_sub_cancel, hp.value k (by omega), hp.value (k + 1) (by omega),
      hq.value k (by omega)]
    simp only [bind_eq_bind, bind_some, hc, hset]
    exact ih hu hrow hlt

lemma distanceRows_spec (ht : t.length < 2 ^ 32 - 1) {rest : List UInt8}
    (hs : rest.length + s.length < 2 ^ 32 - 1) (hp : RowOf s t (t.length + 1) p)
    (hq : q.length = t.length + 1) :
    ∃ row, distanceRows t rest p q = some row ∧ RowOf (rest.reverse ++ s) t (t.length + 1) row := by
  induction rest generalizing s p q with
  | nil => exact ⟨p, rfl, hp⟩
  | cons c rest ih =>
    rw [length_cons] at hs
    have h0 : RowOf (c :: s) t 0 q := ⟨hq, by simp⟩
    obtain ⟨first, hset, hfst⟩ := h0.set (Nat.zero_le _)
    have hinc : inc32 (editDistance s (t.take 0).reverse) =
        editDistance (c :: s) (t.take 0).reverse := by
      rw [inc32_editDistance (by omega) (by simp)]
      simp
    obtain ⟨row, hfl, hrow⟩ := fillRow_spec (by omega) ht hp rfl hfst (Nat.zero_le _)
    rw [← hinc] at hset
    rw [distanceRows, hp.value 0 (by omega)]
    simp only [bind_eq_bind, bind_some, hset]
    rw [drop_zero] at hfl
    rw [hfl, bind_some, reverse_cons, append_assoc]
    exact ih (by rw [singleton_append, length_cons]; omega) hrow hp.length

end

/-- **The distance is the least number of edits**, as an `int`. -/
theorem stringDistance_isLeast (freshP freshQ : Nat → Nat) {s1 s2 : List UInt8}
    (h1 : s1.length < 2 ^ 32 - 1) (h2 : s2.length < 2 ^ 32 - 1) :
    ∃ d : Nat, IsLeast {n | EditsTo n s1 s2} d ∧
      stringDistance freshP freshQ s1 s2 = some ((d : Int).bmod (2 ^ 32)) := by
  refine ⟨_, isLeast_editDistance_reverse s1 s2, ?_⟩
  have hl1 : s1.length % 2 ^ 32 = s1.length := Nat.mod_eq_of_lt (by omega)
  have hl2 : s2.length % 2 ^ 32 = s2.length := Nat.mod_eq_of_lt (by omega)
  simp only [stringDistance, hl1, hl2, inc32_eq h2]
  rw [if_neg (by omega)]
  have h0 : RowOf [] s2 0 ((List.range (s2.length + 1)).map freshP) :=
    ⟨by simp, by simp⟩
  obtain ⟨first, hset, hfst⟩ := h0.set (Nat.zero_le _)
  obtain ⟨p, hcnt, hp⟩ := countRow_spec (n := s2.length) h2 (by omega) hfst
  obtain ⟨row, hrw, hrow⟩ := @distanceRows_spec [] s2 p ((List.range (s2.length + 1)).map freshQ)
    h2 s1 (by simpa using h1) hp (by simp)
  rw [List.take_zero, List.reverse_nil, editDistance_nil_left, List.length_nil] at hset
  rw [hset, List.take_length, List.take_length]
  simp only [Option.bind_eq_bind, Option.bind_some]
  rw [hcnt, Option.bind_some, hrw, Option.bind_some, hrow.value _ (by omega), List.append_nil,
    List.take_length]
  rfl

theorem stringDistance_isLeast_short :
    ∃ d : Nat, IsLeast {n | EditsTo n [(97 : UInt8), 98] [98]} d ∧
      stringDistance (fun _ => 0) (fun _ => 0) [97, 98] [98] = some ((d : Int).bmod (2 ^ 32)) :=
  @stringDistance_isLeast (fun _ => 0) (fun _ => 0) [97, 98] [98] (by decide) (by decide)

/-- A text of `2 ^ 32` characters counts as empty. -/
theorem stringDistance_long :
    ¬∃ d : Nat, IsLeast {n | EditsTo n [] (List.replicate (2 ^ 32) (97 : UInt8))} d ∧
      stringDistance (fun _ => 0) (fun _ => 0) [] (List.replicate (2 ^ 32) 97) = some d := by
  have h0 : stringDistance (fun _ => 0) (fun _ => 0) [] (List.replicate (2 ^ 32) 97) = some 0 := by
    rw [stringDistance, List.length_replicate]
    rfl
  rintro ⟨d, hd, hret⟩
  have hd0 : (d : Int) = 0 := Option.some.inj (hret.symm.trans h0)
  have hle := hd.1.editDistance_le
  rw [editDistance_nil_left, List.length_replicate] at hle
  omega

end FioSsd
