import Mathlib.Data.List.Basic
import Mathlib.Order.Bounds.Basic

/-! # The edit distance

The least number of insertions, deletions and substitutions of one element that turn a list into
another, and the recursion over both lists that computes it. -/

namespace FioSsd

variable {α : Type*}

inductive Edit : List α → List α → Prop
  | insert (l r : List α) (c : α) : Edit (l ++ r) (l ++ c :: r)
  | delete (l r : List α) (c : α) : Edit (l ++ c :: r) (l ++ r)
  | substitute (l r : List α) (c d : α) : Edit (l ++ c :: r) (l ++ d :: r)

inductive EditsTo : Nat → List α → List α → Prop
  | refl (s : List α) : EditsTo 0 s s
  | step {n : Nat} {s u t : List α} (edit : Edit s u) (edits : EditsTo n u t) : EditsTo (n + 1) s t

variable {s t : List α}

lemma Edit.cons (h : Edit s t) (c : α) : Edit (c :: s) (c :: t) := by
  cases h with
  | insert l r d => exact .insert (c :: l) r d
  | delete l r d => exact .delete (c :: l) r d
  | substitute l r d e => exact .substitute (c :: l) r d e

lemma Edit.reverse (h : Edit s t) : Edit s.reverse t.reverse := by
  cases h with
  | insert l r c => simpa using Edit.insert r.reverse l.reverse c
  | delete l r c => simpa using Edit.delete r.reverse l.reverse c
  | substitute l r c d => simpa using Edit.substitute r.reverse l.reverse c d

lemma EditsTo.cons {n : Nat} (h : EditsTo n s t) (c : α) :
    EditsTo n (c :: s) (c :: t) := by
  induction h with
  | refl s => exact .refl (c :: s)
  | step edit _ ih => exact .step (edit.cons c) ih

lemma EditsTo.reverse {n : Nat} (h : EditsTo n s t) :
    EditsTo n s.reverse t.reverse := by
  induction h with
  | refl s => exact .refl s.reverse
  | step edit _ ih => exact .step edit.reverse ih

variable [DecidableEq α]

def editDistance : List α → List α → Nat
  | [], t => t.length
  | s, [] => s.length
  | c :: s, d :: t =>
    min (editDistance s (d :: t) + 1)
      (min (editDistance (c :: s) t + 1) (editDistance s t + if c = d then 0 else 1))
termination_by s t => s.length + t.length

@[simp] lemma editDistance_nil_left (t : List α) : editDistance [] t = t.length := by
  rw [editDistance]

@[simp] lemma editDistance_nil_right (s : List α) : editDistance s [] = s.length := by
  cases s <;> simp [editDistance]

lemma editDistance_cons_cons (c d : α) (s t : List α) : editDistance (c :: s) (d :: t) =
    min (editDistance s (d :: t) + 1)
      (min (editDistance (c :: s) t + 1) (editDistance s t + if c = d then 0 else 1)) := by
  rw [editDistance]

lemma editDistance_self (s : List α) : editDistance s s = 0 := by
  induction s with
  | nil => simp
  | cons c s ih =>
    rw [editDistance_cons_cons, if_pos rfl, ih]
    omega

lemma editDistance_le_max (s t : List α) : editDistance s t ≤ max s.length t.length := by
  induction s generalizing t with
  | nil => simp
  | cons c s ih =>
    cases t with
    | nil => simp
    | cons d t =>
      have hbt := ih t
      rw [editDistance_cons_cons, List.length_cons, List.length_cons]
      split_ifs <;> omega

/-- What one edit can change. -/
lemma editDistance_cons_le (c : α) (s t : List α) : editDistance (c :: s) t ≤ editDistance s t + 1 := by
  cases t with
  | nil => simp
  | cons d t =>
    rw [editDistance_cons_cons]
    omega

lemma editDistance_le_cons (c : α) (s t : List α) : editDistance s t ≤ editDistance (c :: s) t + 1 := by
  induction t with
  | nil =>
    rw [editDistance_nil_right, editDistance_nil_right, List.length_cons]
    omega
  | cons d t ih =>
    have hins : editDistance s (d :: t) ≤ editDistance s t + 1 := by
      cases s with
      | nil => simp
      | cons e s =>
        rw [editDistance_cons_cons]
        omega
    rw [editDistance_cons_cons]
    omega

lemma editDistance_substitute_le (c d : α) (s t : List α) :
    editDistance (c :: s) t ≤ editDistance (d :: s) t + 1 := by
  induction t with
  | nil => simp
  | cons e t ih =>
    rw [editDistance_cons_cons, editDistance_cons_cons]
    split_ifs <;> omega

lemma editDistance_le_of_cons {s u : List α} (h : ∀ t, editDistance s t ≤ editDistance u t + 1) (c : α)
    (t : List α) : editDistance (c :: s) t ≤ editDistance (c :: u) t + 1 := by
  induction t with
  | nil => simpa using h []
  | cons d t ih =>
    have hsk := h (d :: t)
    have hbt := h t
    rw [editDistance_cons_cons, editDistance_cons_cons]
    omega

lemma Edit.editDistance_le {s u : List α} (h : Edit s u) (t : List α) :
    editDistance s t ≤ editDistance u t + 1 := by
  have hprf : ∀ {s u : List α} (l : List α), (∀ t, editDistance s t ≤ editDistance u t + 1) →
      ∀ t, editDistance (l ++ s) t ≤ editDistance (l ++ u) t + 1 := by
    intro s u l hsu
    induction l with
    | nil => exact hsu
    | cons c l ih => exact editDistance_le_of_cons ih c
  cases h with
  | insert l r c => exact hprf l (editDistance_le_cons c r) t
  | delete l r c => exact hprf l (editDistance_cons_le c r) t
  | substitute l r c d => exact hprf l (editDistance_substitute_le c d r) t

lemma EditsTo.editDistance_le {n : Nat} (h : EditsTo n s t) : editDistance s t ≤ n := by
  induction h with
  | refl s => rw [editDistance_self]
  | step edit _ ih => exact (edit.editDistance_le _).trans (Nat.succ_le_succ ih)

lemma editsTo_editDistance (s t : List α) : EditsTo (editDistance s t) s t := by
  induction s generalizing t with
  | nil =>
    rw [editDistance_nil_left]
    induction t with
    | nil => exact .refl []
    | cons d t ih => exact .step (.insert [] [] d) (ih.cons d)
  | cons c s ih =>
    have hdlt := fun t => EditsTo.step (.delete [] s c) (ih t)
    induction t with
    | nil => simpa using hdlt []
    | cons d t iht =>
      have hchc : editDistance (c :: s) (d :: t) = editDistance s (d :: t) + 1 ∨
          editDistance (c :: s) (d :: t) = editDistance (c :: s) t + 1 ∨
          editDistance (c :: s) (d :: t) = editDistance s t + if c = d then 0 else 1 := by
        rw [editDistance_cons_cons]
        omega
      rcases hchc with hmin | hmin | hmin <;> rw [hmin]
      · exact hdlt (d :: t)
      · exact .step (.insert [] (c :: s) d) (iht.cons d)
      · split_ifs with heq
        · subst heq
          exact (ih t).cons c
        · exact .step (.substitute [] s c d) ((ih t).cons d)

/-- The recursion may as well start from the end of both lists. -/
lemma isLeast_editDistance_reverse (s t : List α) :
    IsLeast {n | EditsTo n s t} (editDistance s.reverse t.reverse) := by
  refine ⟨?_, fun n hn => EditsTo.editDistance_le (EditsTo.reverse hn)⟩
  simpa using (editsTo_editDistance s.reverse t.reverse).reverse

end FioSsd
