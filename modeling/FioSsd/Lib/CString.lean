import FioSsd.Lib.Memory

/-! # Strings in memory

A C string is the run of non-zero bytes from an address up to the first zero byte. The relation
`IsStr` says which list of bytes stands at an address; there is at most one, and its tails are the
strings at the addresses behind it. -/

namespace Mem

open List

structure IsStr (m : Mem) (a : Nat) (s : List UInt8) : Prop where
  text : m.load a s.length = s
  stop : m (a + s.length) = 0
  noNul : 0 ∉ s

variable {m m' : Mem} {a : Nat} {s t : List UInt8}

lemma load_succ (m : Mem) (a n : Nat) : m.load a (n + 1) = m a :: m.load (a + 1) n := by
  rw [add_comm n 1, load_add]
  rfl

lemma isStr_nil : m.IsStr a [] ↔ m a = 0 := by
  constructor
  · intro h
    exact h.stop
  · intro h
    exact ⟨rfl, h, not_mem_nil⟩

lemma isStr_cons {c : UInt8} : m.IsStr a (c :: s) ↔ m a = c ∧ c ≠ 0 ∧ m.IsStr (a + 1) s := by
  constructor
  · intro h
    have htx := h.text
    have hst := h.stop
    have hnul := h.noNul
    rw [length_cons, load_succ, List.cons.injEq] at htx
    rw [length_cons, add_comm s.length 1, ← add_assoc] at hst
    rw [mem_cons, not_or] at hnul
    exact ⟨htx.1, Ne.symm hnul.1, htx.2, hst, hnul.2⟩
  · rintro ⟨hc, hne, h⟩
    refine ⟨?_, ?_, ?_⟩
    · rw [length_cons, load_succ, hc, h.text]
    · rw [length_cons, add_comm s.length 1, ← add_assoc]
      exact h.stop
    · rw [mem_cons, not_or]
      exact ⟨Ne.symm hne, h.noNul⟩

lemma IsStr.unique (hs : m.IsStr a s) (h : m.IsStr a t) : s = t := by
  induction s generalizing a t with
  | nil =>
    cases t with
    | nil => rfl
    | cons d t => exact absurd ((isStr_cons.1 h).1.symm.trans (isStr_nil.1 hs)) (isStr_cons.1 h).2.1
  | cons c s ih =>
    obtain ⟨hc, hne, hrs⟩ := isStr_cons.1 hs
    cases t with
    | nil => exact absurd (hc.symm.trans (isStr_nil.1 h)) hne
    | cons d t =>
      obtain ⟨hd, -, hrs'⟩ := isStr_cons.1 h
      rw [← hc, ← hd, ih hrs hrs']

lemma isStr_append {u : List UInt8} :
    m.IsStr a (s ++ u) ↔ m.load a s.length = s ∧ 0 ∉ s ∧ m.IsStr (a + s.length) u := by
  induction s generalizing a with
  | nil => simp [load]
  | cons c s ih =>
    rw [cons_append, isStr_cons, ih, length_cons, load_succ, List.cons.injEq,
      mem_cons, not_or, add_comm s.length 1, ← add_assoc]
    constructor
    · rintro ⟨hc, hne, htx, hnul, hu⟩
      exact ⟨⟨hc, htx⟩, ⟨Ne.symm hne, hnul⟩, hu⟩
    · rintro ⟨⟨hc, htx⟩, ⟨hne, hnul⟩, hu⟩
      exact ⟨hc, Ne.symm hne, htx, hnul, hu⟩

lemma exists_isStr_of_mem {bs : List UInt8} (hld : m.load a bs.length = bs) (h : 0 ∈ bs) :
    ∃ s, m.IsStr a s ∧ s.length < bs.length := by
  induction bs generalizing a with
  | nil => exact absurd h not_mem_nil
  | cons c bs ih =>
    rw [length_cons, load_succ, List.cons.injEq] at hld
    by_cases hc : c = 0
    · exact ⟨[], isStr_nil.2 (hld.1.trans hc), by simp⟩
    · have hmem : 0 ∈ bs := by
        rcases mem_cons.1 h with heq | hin
        · exact absurd heq.symm hc
        · exact hin
      obtain ⟨s, hs, hlen⟩ := ih hld.2 hmem
      exact ⟨c :: s, isStr_cons.2 ⟨hld.1, hc, hs⟩, by simpa using hlen⟩

end Mem
