import FioSsd.Lib.Scan
import Mathlib.Data.List.GetD

/-! # A line handed on to the engine's parser

`parse_option` cuts the line at its `'='` and the name at its trailing blanks to look the name up,
and puts the line together again when the name is not in the table. -/

namespace FioSsd

open List

variable (buf : List UInt8)

/-- The string at the head of a buffer. -/
def cstr : List UInt8 := buf.takeWhile (· ≠ 0)

def cutAt (c : UInt8) (buf : List UInt8) : List UInt8 :=
  if c ∈ cstr buf then buf.set ((cstr buf).idxOf c) 0 else buf

def isBlank (c : UInt8) : Bool := Scan.isSpace c || c < 32 || c == 127

/-- The loop of `strip_blank_end`, which goes back from index `s` to a character that is no blank
    and stops at the first one in any case. -/
def lastChar (buf : List UInt8) : Nat → Nat
  | 0 => 0
  | s + 1 => if isBlank (buf.getD (s + 1) 0) then lastChar buf s else s + 1

def stripBlankEnd : List UInt8 :=
  if cstr buf = [] then buf
  else
    let cut := cutAt 35 (cutAt 59 buf)
    cut.set (lastChar cut (cstr cut).length + 1) 0

/-- `get_option`: the buffer it leaves, with the name at its head, and where the value starts. -/
def getOption : List UInt8 × Option Nat :=
  if 61 ∈ cstr buf then
    let eq := (cstr buf).idxOf 61
    (stripBlankEnd (buf.set eq 0), some (eq + 1))
  else (buf, none)

def optionRead : List UInt8 × Option (List UInt8) :=
  let found := getOption buf
  (cstr found.1, found.2.map fun post => cstr (found.1.drop post))

/-- `parse_option` with the names of its table: the buffer it leaves for a name that is not there. -/
def parseOption (table : List (List UInt8)) (buf : List UInt8) : Option (List UInt8) :=
  let (opt, post) := getOption buf
  if cstr opt ∈ table then none
  else match post with
    | none => some opt
    | some post =>
      let len := (cstr opt).length
      let value := cstr (opt.drop post)
      let moved := if len + 1 = post then opt
        else opt.take (len + 1) ++ value ++ opt.drop (len + 1 + value.length)
      some (moved.set len 61)

/-- A line `name=value` in its buffer, with any blanks and comments before the `'='` in `pre`. -/
def optionLine (pre value : List UInt8) : List UInt8 := pre ++ 61 :: (value ++ [0])

section

variable {s rest name pre value : List UInt8} {c : UInt8}

lemma cstr_append (h : 0 ∉ s) : cstr (s ++ rest) = s ++ cstr rest := by
  refine takeWhile_append_of_pos fun c hc => ?_
  simpa using ne_of_mem_of_not_mem hc h

lemma cstr_nul (h : 0 ∉ s) : cstr (s ++ 0 :: rest) = s := by
  rw [cstr_append h]
  exact append_nil s

lemma set_append_length (x y : UInt8) : (s ++ x :: rest).set s.length y = s ++ y :: rest := by
  rw [set_append_right _ _ (Nat.le_refl _), Nat.sub_self, set_cons_zero]

lemma cutAt_of_not_mem (h : 0 ∉ s) (hc : c ∉ s) : cutAt c (s ++ 0 :: rest) = s ++ 0 :: rest := by
  rw [cutAt, cstr_nul h, if_neg hc]

lemma cutAt_append (h : 0 ∉ s) (c : UInt8) (rest : List UInt8) : ∃ kept junk, c ∉ kept ∧ kept ⊆ s ∧
    kept.length + junk.length = s.length ∧ cutAt c (s ++ 0 :: rest) = kept ++ 0 :: (junk ++ rest) := by
  by_cases hc : c ∈ s
  · obtain ⟨kept, junk, rfl, hkp⟩ := eq_append_cons_of_mem hc
    refine ⟨kept, junk ++ [0], hkp, subset_append_left _ _, by simp, ?_⟩
    have hidx : (kept ++ c :: junk).idxOf c = kept.length := by
      rw [idxOf_append_of_notMem hkp, idxOf_cons_self, add_zero]
    rw [cutAt, cstr_nul h, if_pos hc, hidx, append_assoc, cons_append, set_append_length,
      append_assoc, singleton_append]
  · exact ⟨s, [], hc, List.Subset.refl s, rfl, cutAt_of_not_mem h hc⟩

lemma lastChar_spec (buf : List UInt8) (i : Nat) : lastChar buf i ≤ i ∧
    (lastChar buf i = 0 ∨ isBlank (buf.getD (lastChar buf i) 0) = false) := by
  induction i with
  | zero => exact ⟨le_refl 0, Or.inl rfl⟩
  | succ i ih =>
    rw [lastChar]
    split
    · exact ⟨Nat.le_succ_of_le ih.1, ih.2⟩
    · next h => exact ⟨le_refl _, Or.inr (Bool.eq_false_of_not_eq_true h)⟩

lemma lastChar_stays {buf : List UInt8} {i : Nat} (h : i = 0 ∨ isBlank (buf.getD i 0) = false) :
    lastChar buf i = i := by
  cases i with
  | zero => rfl
  | succ i => rw [lastChar, h.resolve_left (Nat.succ_ne_zero i), if_neg Bool.false_ne_true]

/-- A name `strip_blank_end` leaves alone: nothing in it starts a comment and it does not end in a
    blank, except that its first character is never stripped. -/
structure Stripped (name : List UInt8) : Prop where
  noNul : 0 ∉ name
  noSemicolon : 59 ∉ name
  noHash : 35 ∉ name
  last : name.length - 1 = 0 ∨ isBlank (name.getD (name.length - 1) 0) = false

lemma stripBlankEnd_stripped (h : Stripped name) (rest : List UInt8) :
    stripBlankEnd (name ++ 0 :: rest) = name ++ 0 :: rest := by
  rw [stripBlankEnd, cstr_nul h.noNul]
  split
  · rfl
  · next hne =>
    have hpos := length_pos_iff.2 hne
    obtain ⟨m, hm⟩ : ∃ m, name.length = m + 1 := ⟨name.length - 1, by omega⟩
    have hla : lastChar (name ++ 0 :: rest) (m + 1) = m := by
      have hnul : (name ++ 0 :: rest).getD (m + 1) 0 = 0 := by
        rw [← hm, getD_append_right _ _ _ _ (Nat.le_refl _), Nat.sub_self, getD_cons_zero]
      rw [lastChar, hnul, if_pos (by decide)]
      refine lastChar_stays ?_
      rw [getD_append _ _ _ _ (by omega)]
      simpa [hm] using h.last
    rw [cutAt_of_not_mem h.noNul h.noSemicolon, cutAt_of_not_mem h.noNul h.noHash]
    dsimp only
    rw [cstr_nul h.noNul, hm, hla, ← hm, set_append_length]

lemma set_take_drop {n : Nat} (junk : List UInt8) (h : n ≤ name.length) :
    (name ++ 0 :: (junk ++ rest)).set n 0 =
      name.take n ++ 0 :: ((name ++ 0 :: junk).drop (n + 1) ++ rest) := by
  rw [set_eq_take_append_cons_drop, if_pos (by simp; omega), take_append_of_le_length h,
    ← drop_append_of_le_length (by simp; omega), append_assoc, cons_append]

lemma stripBlanks (hnul : 0 ∉ s) (hsm : 59 ∉ s) (hhs : 35 ∉ s) (hne : s ≠ []) (rest : List UInt8)
    : ∃ n, n ≤ s.length ∧ Stripped (s.take n) ∧
    lastChar (s ++ 0 :: rest) s.length + 1 = n := by
  obtain ⟨hle, hla⟩ := lastChar_spec (s ++ 0 :: rest) s.length
  have hpos := length_pos_iff.2 hne
  generalize lastChar (s ++ 0 :: rest) s.length = i at hle hla ⊢
  -- the loop starts on the NUL, which is a blank
  have hi : i < s.length := by
    refine lt_of_le_of_ne hle fun heq => ?_
    rw [heq, getD_append_right _ _ _ _ (Nat.le_refl _), Nat.sub_self] at hla
    exact hla.elim (fun h => by omega) (fun h => by cases h)
  have hlen : (s.take (i + 1)).length = i + 1 := length_take_of_le hi
  refine ⟨i + 1, hi, ⟨fun h => hnul (mem_of_mem_take h), fun h => hsm (mem_of_mem_take h),
    fun h => hhs (mem_of_mem_take h), ?_⟩, rfl⟩
  rw [hlen, Nat.add_sub_cancel]
  rw [getD_append _ _ _ _ hi] at hla
  rw [getD_eq_getElem?_getD, getElem?_take_of_lt (Nat.lt_succ_self i), ← getD_eq_getElem?_getD]
  exact hla

lemma stripBlankEnd_append (hpre : 0 ∉ pre) (rest : List UInt8) : ∃ name junk, Stripped name ∧
    name ⊆ pre ∧ name.length + junk.length = pre.length ∧
    stripBlankEnd (pre ++ 0 :: rest) = name ++ 0 :: (junk ++ rest) := by
  by_cases hnil : pre = []
  · subst hnil
    exact ⟨[], [], ⟨hpre, not_mem_nil, not_mem_nil, Or.inl rfl⟩, List.Subset.refl _, rfl, rfl⟩
  · obtain ⟨upTo, junk, hsm, hsub, hlen, hcut⟩ := cutAt_append hpre 59 rest
    have hupt : 0 ∉ upTo := fun h => hpre (hsub h)
    obtain ⟨kept, junk', hhs, hsb', hln', hct'⟩ := cutAt_append hupt 35 (junk ++ rest)
    have hkp : 0 ∉ kept := fun h => hupt (hsb' h)
    have hsm' : 59 ∉ kept := fun h => hsm (hsb' h)
    have hpos := length_pos_iff.2 hnil
    rw [stripBlankEnd, cstr_nul hpre, if_neg hnil, hcut, hct', ← append_assoc]
    dsimp only
    rw [cstr_nul hkp]
    by_cases hno : kept = []
    · subst hno
      obtain ⟨x, xs, hx⟩ : ∃ x xs, junk' ++ junk = x :: xs :=
        exists_cons_of_length_pos (by rw [length_append]; simp at hln'; omega)
      refine ⟨[], 0 :: xs, ⟨hkp, hsm', hhs, Or.inl rfl⟩, nil_subset _, ?_, ?_⟩
      · have := congrArg length hx
        simp at this hln' ⊢
        omega
      · rw [hx]
        rfl
    · obtain ⟨n, hn, hstr, hla⟩ := stripBlanks hkp hsm' hhs hno (junk' ++ junk ++ rest)
      refine ⟨kept.take n, (kept ++ 0 :: (junk' ++ junk)).drop (n + 1), hstr, ?_, ?_, ?_⟩
      · exact fun c hc => hsub (hsb' (mem_of_mem_take hc))
      · simp
        omega
      · rw [hla, set_take_drop _ hn]

lemma getOption_append (h : 0 ∉ pre) (heq : 61 ∉ pre) (rest : List UInt8) :
    getOption (pre ++ 61 :: rest) = (stripBlankEnd (pre ++ 0 :: rest), some (pre.length + 1)) := by
  have hcs : cstr (pre ++ 61 :: rest) = pre ++ 61 :: cstr rest := cstr_append h
  have hidx : (pre ++ 61 :: cstr rest).idxOf 61 = pre.length := by
    rw [idxOf_append_of_notMem heq, idxOf_cons_self, add_zero]
  rw [getOption, hcs, if_pos (by simp)]
  dsimp only
  rw [hidx, set_append_length]

lemma optionRead_stripped (h : Stripped name) (heq : 61 ∉ name) (hval : 0 ∉ value) :
    optionRead (name ++ 61 :: (value ++ rest)) = (name, some (value ++ cstr rest)) := by
  have hdrop : (name ++ 0 :: (value ++ rest)).drop (name.length + 1) = value ++ rest := by
    rw [drop_append, drop_of_length_le (by omega), Nat.add_sub_cancel_left]
    rfl
  rw [optionRead, getOption_append h.noNul heq, stripBlankEnd_stripped h]
  dsimp only [Option.map]
  rw [cstr_nul h.noNul, hdrop, cstr_append hval]

lemma cstr_eq_nil_iff (h : rest ≠ []) : cstr rest = [] ↔ rest.getD 0 1 = 0 := by
  cases rest with
  | nil => exact absurd rfl h
  | cons c rest => by_cases hc : c = 0 <;> simp [cstr, hc]

end

/-- The line handed on reads as before exactly if the byte behind the value's new place is a NUL:
nothing was stripped from the name, or one byte more than the value is long, or the byte was the
`';'` or `'#'` the name was cut at. -/
theorem parseOption_intact_iff {table : List (List UInt8)} {pre value : List UInt8} (hnul : 0 ∉ pre)
    (heq : 61 ∉ pre) (hvalue : 0 ∉ value) (hnew : (optionRead (optionLine pre value)).1 ∉ table) :
    (∃ again, parseOption table (optionLine pre value) = some again ∧
        optionRead again = ((optionRead (optionLine pre value)).1, some value)) ↔
      (getOption (optionLine pre value)).1.getD
        ((optionRead (optionLine pre value)).1.length + 1 + value.length) 1 = 0 := by
  obtain ⟨name, junk, hnm, hsub, hlen, hst⟩ := stripBlankEnd_append hnul (value ++ [0])
  have hget : getOption (optionLine pre value) =
      (name ++ 0 :: (junk ++ (value ++ [0])), some (pre.length + 1)) := by
    rw [optionLine, getOption_append hnul heq, hst]
  have hcs : cstr (name ++ 0 :: (junk ++ (value ++ [0]))) = name := cstr_nul hnm.noNul
  have hread : (optionRead (optionLine pre value)).1 = name := by
    rw [optionRead, hget]
    exact hcs
  have hps : (name ++ 0 :: (junk ++ (value ++ [0]))).drop (pre.length + 1) = value ++ [0] := by
    rw [← cons_append, ← append_assoc]
    exact drop_left' (by simp; omega)
  have hbc (n : Nat) : (name ++ 0 :: (junk ++ (value ++ [0]))).drop (name.length + 1 + n) =
      (junk ++ (value ++ [0])).drop n := by
    rw [← drop_drop, append_cons]
    exact congrArg (drop n) (drop_left' (by simp))
  have hpr : parseOption table (optionLine pre value) =
      some (name ++ 61 :: (value ++ (junk ++ (value ++ [0])).drop value.length)) := by
    rw [hread] at hnew
    rw [parseOption, hget]
    dsimp only
    rw [hcs, if_neg hnew, hps, cstr_nul hvalue, hbc]
    split
    · next h =>
      have hjn : junk = [] := eq_nil_of_length_eq_zero (by omega)
      subst hjn
      rw [set_append_length, nil_append, drop_left]
    · rw [append_cons, take_left' (by simp), append_assoc, ← append_cons, set_append_length]
  have hne : (junk ++ (value ++ [0])).drop value.length ≠ [] := by
    rw [Ne, drop_eq_nil_iff]
    simp
    omega
  rw [hread, hget, hpr]
  dsimp only
  have hby : (name ++ 0 :: (junk ++ (value ++ [0]))).getD (name.length + 1 + value.length) 1 =
      ((junk ++ (value ++ [0])).drop value.length).getD 0 1 := by
    simp [← hbc, getD_eq_getElem?_getD, getElem?_drop]
  rw [hby, ← cstr_eq_nil_iff hne]
  constructor
  · rintro ⟨again, hag, hsam⟩
    cases hag
    rw [optionRead_stripped hnm (fun h => heq (hsub h)) hvalue, Prod.mk.injEq, Option.some.injEq,
      append_right_eq_self] at hsam
    exact hsam.2
  · intro hnil
    refine ⟨_, rfl, ?_⟩
    rw [optionRead_stripped hnm (fun h => heq (hsub h)) hvalue, hnil, append_nil]

/-- The line `"ab=v"` is handed on as it was. -/
theorem parseOption_intact_plain : ∃ again,
    parseOption [] (optionLine [97, 98] [118]) = some again ∧
      optionRead again = ([97, 98], some [118]) :=
  (parseOption_intact_iff (by decide) (by decide) (by decide) not_mem_nil).2 (by decide)

/-- Two blanks before the `'='` of `"ab  =val"`: the engine's parser reads the value `"valal"`. -/
theorem parseOption_doubles_value : (parseOption [] (optionLine [97, 98, 32, 32] [118, 97, 108])).map
    optionRead = some ([97, 98], some [118, 97, 108, 97, 108]) ∧
    optionRead (optionLine [97, 98, 32, 32] [118, 97, 108]) = ([97, 98], some [118, 97, 108]) := by
  decide

end FioSsd
