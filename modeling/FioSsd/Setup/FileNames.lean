import Mathlib.Data.List.Basic

/-! # Lists of file names

`get_next_file_name` (`options.c`) cuts the text behind `filename=` at every `':'` that no backslash
stands before, and edits the text as it goes. -/

namespace FioSsd

open List

/-- The next `':'` from the byte `str` on. -/
def findColon (text : List UInt8) (str : Nat) : Option Nat := ((text.drop str).idxOf? 58).map (str + ·)

lemma findColon_lt {text : List UInt8} {str p : Nat} (h : findColon text str = some p) :
    str ≤ p ∧ p < text.length := by
  obtain ⟨k, hk, rfl⟩ := Option.map_eq_some_iff.1 h
  have hlt := (findIdx?_eq_some_iff_findIdx_eq.1 hk).1
  rw [length_drop] at hlt
  omega

/-- The loop of `get_next_file_name` over the text behind `*ptr`: the name, and what `*ptr` holds then. -/
def nextFileName (text : List UInt8) (start str : Nat) : List UInt8 × Option (List UInt8) :=
  match h : findColon text str with
  | none => (text.drop start, none)
  | some p =>
    if hstart : p = start then nextFileName text (start + 1) (start + 1)
    else if hesc : text[p - 1]? ≠ some 92 then ((text.take p).drop start, some (text.drop (p + 1)))
    -- `memmove` drops the backslash
    else nextFileName (text.eraseIdx (p - 1)) start p
termination_by text.length - str
decreasing_by
  · have hp := findColon_lt h
    omega
  · have hp := findColon_lt h
    rw [length_eraseIdx_of_lt (by omega)]
    omega

/-- A `*ptr` of none is `NULL`. -/
def getNextFileName : Option (List UInt8) → Option (List UInt8 × Option (List UInt8))
  | none => none
  | some str => if str = [] then none else some (nextFileName str 0 0)

/-- The calls until one returns `NULL`. -/
def fileNames : Nat → Option (List UInt8) → Option (List (List UInt8))
  | 0, _ => none
  | fuel + 1, ptr =>
    match getNextFileName ptr with
    | none => some []
    | some (name, ptr) => (fileNames fuel ptr).map (name :: ·)

/-- A non-empty C string without backslashes. -/
structure PlainName where
  bytes : List UInt8
  ne_nil : bytes ≠ []
  noBackslash : 92 ∉ bytes
  noNul : 0 ∉ bytes

def escapeName (name : List UInt8) : List UInt8 := name.flatMap fun c => if c = 58 then [92, 58] else [c]

def joinNames (names : List PlainName) : List UInt8 := [58].intercalate (names.map (escapeName ·.bytes))

section

variable {text before name : List UInt8} {start str p : Nat} {c : UInt8}

lemma nextFileName_eq (text : List UInt8) (start str : Nat) : nextFileName text start str =
    match findColon text str with
    | none => (text.drop start, none)
    | some p =>
      if p = start then nextFileName text (start + 1) (start + 1)
      else if text[p - 1]? ≠ some 92 then ((text.take p).drop start, some (text.drop (p + 1)))
      else nextFileName (text.eraseIdx (p - 1)) start p := by
  rw [nextFileName]
  split
  · next h => rw [h]
  · next h =>
    rw [h]
    simp [dite_eq_ite]

lemma nextFileName_skip (hc : c ≠ 58) (rest : List UInt8) :
    nextFileName (before ++ c :: rest) start before.length =
      nextFileName (before ++ c :: rest) start (before.length + 1) := by
  have hfn : findColon (before ++ c :: rest) before.length =
      findColon (before ++ c :: rest) (before.length + 1) := by
    unfold findColon
    rw [drop_left, ← drop_drop, drop_left, drop_one, tail_cons, idxOf?_cons, beq_false_of_ne hc]
    cases rest.idxOf? 58 with
    | none => rfl
    | some k => simp [Nat.add_assoc, Nat.add_comm 1 k]
  rw [nextFileName_eq, hfn, ← nextFileName_eq]

lemma findColon_here (rest : List UInt8) :
    findColon (before ++ 58 :: rest) before.length = some before.length := by
  simp [findColon, idxOf?_cons]

lemma nextFileName_escaped (rest : List UInt8) :
    nextFileName (before ++ 92 :: 58 :: rest) 0 before.length =
      nextFileName (before ++ 58 :: rest) 0 (before.length + 1) := by
  have hfn := @findColon_here (before ++ [92]) rest
  rw [append_assoc, singleton_append, length_append, length_singleton] at hfn
  rw [nextFileName_skip (by decide), nextFileName_eq, hfn]
  simp [eraseIdx_append_of_length_le]

/-- One name is read to its end: what stands from `str` on is still escaped. -/
lemma nextFileName_name (hnm : 92 ∉ name) (hpre : before.getLast? ≠ some 92) :
    nextFileName (before ++ escapeName name) 0 before.length = (before ++ name, none) ∧
      (before ++ name ≠ [] → ∀ rest,
        nextFileName (before ++ (escapeName name ++ 58 :: rest)) 0 before.length =
          (before ++ name, some rest)) := by
  induction name generalizing before with
  | nil =>
    constructor
    · simp [nextFileName_eq, escapeName, findColon]
    · intro hne rest
      rw [append_nil] at hne
      have hlen := length_pos_iff.2 hne
      rw [escapeName, flatMap_nil, nil_append, nextFileName_eq, findColon_here]
      dsimp only
      rw [if_neg (by omega), getElem?_append_left (by omega), ← getLast?_eq_getElem?, if_pos hpre]
      simp
  | cons c name ih =>
    obtain ⟨hc, hnm⟩ : c ≠ 92 ∧ 92 ∉ name := by simpa [eq_comm] using hnm
    have ih := @ih (before ++ [c]) hnm (by simpa using hc)
    simp only [length_append, length_singleton, append_assoc, singleton_append] at ih
    by_cases hcl : c = 58
    · subst hcl
      have hesc : escapeName (58 :: name) = 92 :: 58 :: escapeName name := rfl
      rw [hesc, nextFileName_escaped, ih.1]
      refine ⟨rfl, fun _ rest => ?_⟩
      rw [cons_append, cons_append, nextFileName_escaped, ih.2 (by simp)]
    · have hesc : escapeName (c :: name) = c :: escapeName name := by simp [escapeName, hcl]
      rw [hesc, nextFileName_skip hcl, ih.1]
      refine ⟨rfl, fun _ rest => ?_⟩
      rw [cons_append, nextFileName_skip hcl, ih.2 (by simp)]

lemma escapeName_ne_nil (h : name ≠ []) : escapeName name ≠ [] := by
  obtain ⟨c, hc⟩ := exists_mem_of_ne_nil name h
  refine ne_nil_of_mem (mem_flatMap.2 ⟨c, hc, ?_⟩) (a := c)
  split_ifs <;> simp [*]

end

/-- **File names round-trip.** -/
theorem fileNames_joinNames (name : PlainName) (names : List PlainName) :
    fileNames ((name :: names).length + 1) (some (joinNames (name :: names))) =
      some ((name :: names).map (·.bytes)) := by
  induction names generalizing name with
  | nil =>
    have hnm := (@nextFileName_name [] name.bytes name.noBackslash (by simp)).1
    have hjn : joinNames [name] = escapeName name.bytes := by simp [joinNames, intercalate]
    rw [hjn, fileNames, getNextFileName, if_neg (escapeName_ne_nil name.ne_nil)]
    simp [length_nil] at hnm
    rw [hnm]
    rfl
  | cons next names ih =>
    have hnm := (@nextFileName_name [] name.bytes name.noBackslash (by simp)).2 name.ne_nil
      (joinNames (next :: names))
    have hjn : joinNames (name :: next :: names) =
        escapeName name.bytes ++ 58 :: joinNames (next :: names) := by simp [joinNames, intercalate]
    rw [length_cons, hjn, fileNames, getNextFileName, if_neg (by simp)]
    simp [length_nil] at hnm
    rw [hnm]
    simp only [ih next]
    rfl

end FioSsd
