import Mathlib.Data.List.Range
import Mathlib.Logic.Function.Basic

/-! # Arrays of which a first part is in use -/

namespace Slots

variable {α : Type}
variable (a : Nat → α)

def used (n : Nat) : List α := (List.range n).map a

@[simp] lemma used_zero : used a 0 = [] := rfl

@[simp] lemma length_used (n : Nat) : (used a n).length = n := by
  simp [used]

lemma used_update_of_le {n i : Nat} (x : α) (h : n ≤ i) :
    used (Function.update a i x) n = used a n := by
  apply List.map_congr_left
  intro j hj
  rw [Function.update_of_ne]
  exact (lt_of_lt_of_le (List.mem_range.1 hj) h).ne

lemma used_update_succ (n : Nat) (x : α) :
    used (Function.update a n x) (n + 1) = used a n ++ [x] := by
  have hbl := used_update_of_le a x (le_refl n)
  simp only [used] at hbl ⊢
  rw [List.range_succ, List.map_append, hbl]
  simp

lemma used_add (m n : Nat) :
    used a (m + n) = used a m ++ used (fun i => a (m + i)) n := by
  simp [used, List.range_add]

end Slots
