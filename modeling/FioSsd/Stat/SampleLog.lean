import Mathlib.Tactic

/-! # The sample log

`__add_log_sample` (`stat.c`) doubles the array of a log when it is full. The number of bytes that it asks
for goes through an `int`, and so does the index of a sample. -/

namespace FioSsd

open List

structure IoSample where
  (time val ddir bs : Nat)

def ioSampleSize : Nat := 24

/-- `struct io_log` without the window of averages; `log` has what was written at each index. -/
structure IoLog where
  (nrSamples maxSamples : Nat)
  log : Int → Option IoSample

def setupLog : IoLog := ⟨0, 1024, fun _ => none⟩

/-- What `realloc` is asked for: `new_size`, an `int`, as a `size_t`. -/
def newSize (maxSamples : Nat) : Nat :=
  ((BitVec.ofNat 32 (ioSampleSize * maxSamples * 2)).signExtend 64).toNat

namespace IoLog

variable {l : IoLog} {x : IoSample} {xs ys : List IoSample}

def index (l : IoLog) : Int := (BitVec.ofNat 32 l.nrSamples).toInt

def addLogSample (l : IoLog) (x : IoSample) : IoLog :=
  { nrSamples := l.nrSamples + 1
    maxSamples := if l.nrSamples = l.maxSamples then 2 * l.maxSamples else l.maxSamples
    log := Function.update l.log l.index (some x) }

/-- The samples are added with enough memory, each at an index inside the array. -/
def GrowsRight (l : IoLog) : List IoSample → Prop
  | [] => True
  | x :: xs =>
    (l.nrSamples = l.maxSamples →
      (l.addLogSample x).maxSamples * ioSampleSize ≤ newSize l.maxSamples) ∧
      0 ≤ l.index ∧ l.index < (l.addLogSample x).maxSamples ∧ (l.addLogSample x).GrowsRight xs

def Contains (l : IoLog) (xs : List IoSample) : Prop :=
  l.nrSamples = xs.length ∧ ∀ i : Nat, l.log i = xs[i]?

def Doubled (l : IoLog) : Prop :=
  ∃ k, l.maxSamples = 1024 * 2 ^ k ∧ l.nrSamples ≤ l.maxSamples ∧
    (k = 0 ∨ 1024 * 2 ^ k < 2 * l.nrSamples)

@[simp] lemma nrSamples_add : (l.addLogSample x).nrSamples = l.nrSamples + 1 := rfl

@[simp] lemma maxSamples_add : (l.addLogSample x).maxSamples =
    if l.nrSamples = l.maxSamples then 2 * l.maxSamples else l.maxSamples := rfl

lemma Doubled.add (h : l.Doubled) (x : IoSample) : (l.addLogSample x).Doubled := by
  obtain ⟨k, hmax, hle, hhl⟩ := h
  have hpos := Nat.two_pow_pos k
  rw [Doubled, maxSamples_add, nrSamples_add]
  split_ifs with hfl
  · refine ⟨k + 1, ?_, ?_, .inr ?_⟩
    · rw [hmax, pow_succ]
      ring
    · omega
    · rw [pow_succ]
      omega
  · exact ⟨k, hmax, by omega, by omega⟩

lemma index_eq (h : l.nrSamples < 2 ^ 31) : l.index = l.nrSamples := by
  rw [index, BitVec.toInt_eq_toNat_of_lt (by rw [BitVec.toNat_ofNat]; omega), BitVec.toNat_ofNat,
    Nat.mod_eq_of_lt (by omega)]

lemma newSize_le : ∀ k < 18, 2 * (1024 * 2 ^ k) * ioSampleSize ≤ newSize (1024 * 2 ^ k) := by
  decide

lemma pow_of_near {k n : Nat} (hle : n ≤ 1024 * 2 ^ k) (h : k = 0 ∨ 1024 * 2 ^ k < 2 * n)
    (hn : n ≤ 2 ^ 28) : k ≤ 18 ∧ (n = 2 ^ 28 → k = 18) := by
  have hk : k ≤ 18 := by
    by_contra hcon
    have hpow : 2 ^ 19 ≤ 2 ^ k := Nat.pow_le_pow_right (by decide) (by omega)
    omega
  refine ⟨hk, fun heq => ?_⟩
  interval_cases k <;> omega

lemma growsRight_iff (hdbl : l.Doubled) (hnr : l.nrSamples ≤ 2 ^ 28) :
    l.GrowsRight xs ↔ l.nrSamples + xs.length ≤ 2 ^ 28 := by
  induction xs generalizing l with
  | nil => exact iff_of_true trivial hnr
  | cons x xs ih =>
    obtain ⟨k, hmax, hle, hhl⟩ := hdbl
    obtain ⟨hk, hla⟩ := pow_of_near (hmax ▸ hle) hhl hnr
    have hix := index_eq (l := l) (by omega)
    rw [GrowsRight, length_cons, maxSamples_add]
    rcases Nat.lt_or_ge l.nrSamples (2 ^ 28) with hlt | hge
    · rw [ih (Doubled.add ⟨k, hmax, hle, hhl⟩ x) hlt, hix, nrSamples_add]
      refine ⟨fun ⟨_, _, _, h⟩ => by omega, fun h => ⟨fun hfl => ?_, by omega, ?_, by omega⟩⟩
      · rw [if_pos hfl, hmax]
        refine newSize_le k (Nat.lt_of_le_of_ne hk fun hcon => ?_)
        rw [hcon] at hmax
        omega
      · have hpos := Nat.two_pow_pos k
        split_ifs <;> omega
    · have heq : l.nrSamples = 2 ^ 28 := by omega
      obtain rfl := hla heq
      refine iff_of_false (fun h => ?_) (by omega)
      have hfl : l.nrSamples = l.maxSamples := by omega
      have hsz := h.1 hfl
      rw [if_pos hfl, hmax] at hsz
      exact absurd hsz (by decide)

lemma Contains.foldl (h : l.Contains xs) (hfew : xs.length + ys.length ≤ 2 ^ 31) :
    (ys.foldl addLogSample l).Contains (xs ++ ys) := by
  induction ys generalizing l xs with
  | nil => rwa [append_nil]
  | cons y ys ih =>
    rw [length_cons] at hfew
    have hnx : (l.addLogSample y).Contains (xs ++ [y]) := by
      refine ⟨by simp [h.1], fun i => ?_⟩
      show Function.update l.log l.index (some y) i = _
      rw [index_eq (by rw [h.1]; omega), h.1]
      by_cases hi : i = xs.length
      · subst hi
        simp
      · rw [Function.update_of_ne (by exact_mod_cast hi), h.2 i]
        rcases Nat.lt_or_gt_of_ne hi with hlt | hgt
        · rw [getElem?_append_left hlt]
        · rw [getElem?_eq_none (by omega), getElem?_eq_none (by simp; omega)]
    rw [foldl_cons, append_cons]
    refine ih hnx ?_
    simp only [length_append, length_singleton]
    omega

end IoLog

/-- **When the sample log is right**: it grows with enough memory, writes inside it and has the samples in
    order exactly if there are at most `2 ^ 28` of them. -/
theorem sampleLog_right_iff (xs : List IoSample) :
    setupLog.GrowsRight xs ∧ (xs.foldl IoLog.addLogSample setupLog).Contains xs ↔
      xs.length ≤ 2 ^ 28 := by
  have hgr : setupLog.GrowsRight xs ↔ _ :=
    IoLog.growsRight_iff ⟨0, rfl, by decide, .inl rfl⟩ (by decide)
  rw [hgr, show setupLog.nrSamples = 0 from rfl, zero_add, and_iff_left_iff_imp]
  intro hlen
  have hst : setupLog.Contains [] := ⟨rfl, fun _ => rfl⟩
  exact hst.foldl (by rw [List.length_nil]; omega)

theorem sampleLog_overflows : ¬(setupLog.GrowsRight (List.replicate (2 ^ 28 + 1) ⟨0, 0, 0, 0⟩) ∧
    ((List.replicate (2 ^ 28 + 1) ⟨0, 0, 0, 0⟩).foldl IoLog.addLogSample setupLog).Contains
      (List.replicate (2 ^ 28 + 1) ⟨0, 0, 0, 0⟩)) := by
  rintro ⟨hgr, -⟩
  have hlen := (IoLog.growsRight_iff ⟨0, rfl, by decide, .inl rfl⟩ (by decide)).1 hgr
  rw [List.length_replicate] at hlen
  exact absurd hlen (by decide)

end FioSsd
