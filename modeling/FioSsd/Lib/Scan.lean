import Mathlib.Tactic
import Mathlib.Data.Nat.Digits.Lemmas

/-! # Text: decimal numbers, tokens and lines

Printing of unsigned numbers, and the pieces of formatted input: a token of at most so many
characters (`%256s`), an unsigned 64-bit number (`%llu`), and the lines that a reader with a buffer
of fixed size returns. -/

namespace Scan

open List

variable {rest : List UInt8} {n : Nat} {c : UInt8}

def isSpace (c : UInt8) : Bool := c == 32 || (9 ≤ c && c ≤ 13)

def isDigit (c : UInt8) : Bool := 48 ≤ c && c ≤ 57

variable {p : UInt8 → Bool}

def Stops (p : UInt8 → Bool) (rest : List UInt8) : Prop := ∀ c ∈ rest.head?, p c = false

section

variable {xs : List UInt8} (hxs : ∀ c ∈ xs, p c = true) (h : Stops p rest)

include hxs h

lemma takeWhile_append_stops : (xs ++ rest).takeWhile p = xs := by
  induction xs with
  | nil =>
    cases rest with
    | nil => rfl
    | cons c rest => simp [h c rfl]
  | cons x xs ih =>
    rw [cons_append, takeWhile_cons_of_pos (hxs x mem_cons_self),
      ih fun c hc => hxs c (mem_cons_of_mem _ hc)]

lemma dropWhile_append_stops : (xs ++ rest).dropWhile p = rest := by
  induction xs with
  | nil =>
    cases rest with
    | nil => rfl
    | cons c rest => simp [h c rfl]
  | cons x xs ih =>
    rw [cons_append, dropWhile_cons_of_pos (hxs x mem_cons_self),
      ih fun c hc => hxs c (mem_cons_of_mem _ hc)]

end

lemma dropWhile_of_stops (h : Stops p rest) : rest.dropWhile p = rest := by
  have hno : ∀ c ∈ ([] : List UInt8), p c = true := by simp
  exact dropWhile_append_stops hno h

def digitChar (d : Nat) : UInt8 := UInt8.ofNat (48 + d)

def decimal (n : Nat) : List UInt8 :=
  if n = 0 then [48] else (Nat.digits 10 n).reverse.map digitChar

def digitsVal (ds : List UInt8) : Nat := ds.foldl (fun v c => 10 * v + (c.toNat - 48)) 0

lemma toNat_digitChar {d : Nat} (h : d < 10) : (digitChar d).toNat = 48 + d := by
  rw [digitChar, UInt8.toNat_ofNat']
  omega

lemma isDigit_digitChar {d : Nat} (h : d < 10) : isDigit (digitChar d) = true := by
  interval_cases d <;> decide

lemma decimal_ne_nil (n : Nat) : decimal n ≠ [] := by
  unfold decimal
  split
  · simp
  · rename_i hn
    simpa [Nat.digits_eq_nil_iff_eq_zero] using hn

lemma length_decimal_le {k : Nat} (h : 0 < k) (hn : n < 10 ^ k) : (decimal n).length ≤ k := by
  unfold decimal
  split
  · exact h
  · rw [length_map, length_reverse]
    exact (Nat.digits_length_le_iff (by norm_num) n).2 hn

lemma isDigit_of_mem_decimal (h : c ∈ decimal n) : isDigit c = true := by
  unfold decimal at h
  split at h
  · rw [mem_singleton.1 h]
    decide
  · obtain ⟨d, hd, rfl⟩ := mem_map.1 h
    exact isDigit_digitChar (Nat.digits_lt_base (by norm_num) (mem_reverse.1 hd))

lemma digitsVal_decimal (n : Nat) : digitsVal (decimal n) = n := by
  unfold decimal
  split
  · rename_i hn
    rw [hn]
    rfl
  · -- the digits, least significant first, are the fold from the right
    have hfl : ∀ ds : List Nat, (∀ d ∈ ds, d < 10) →
        ds.foldr (fun d v => 10 * v + ((digitChar d).toNat - 48)) 0 = Nat.ofDigits 10 ds := by
      intro ds hds
      induction ds with
      | nil => rfl
      | cons d ds ih =>
        have hd := hds d (.head _)
        rw [foldr_cons, ih fun x hx => hds x (.tail _ hx), Nat.ofDigits_cons, toNat_digitChar hd]
        omega
    rw [digitsVal, foldl_map, foldl_reverse,
      hfl _ fun d hd => Nat.digits_lt_base (by norm_num) hd, Nat.ofDigits_digits]

def strtoull (neg : Bool) (ds : List UInt8) : BitVec 64 :=
  if 2 ^ 64 ≤ digitsVal ds then BitVec.ofNat 64 (2 ^ 64 - 1)
  else if neg then - BitVec.ofNat 64 (digitsVal ds)
  else BitVec.ofNat 64 (digitsVal ds)

def scanSign : List UInt8 → Bool × List UInt8
  | c :: rest => if c = 45 then (true, rest) else if c = 43 then (false, rest) else (false, c :: rest)
  | [] => (false, [])

/-- `%llu`: white space is skipped, then at least one digit must come. -/
def scanUnsigned (text : List UInt8) : Option (BitVec 64 × List UInt8) :=
  let number := scanSign (text.dropWhile isSpace)
  let ds := number.2.takeWhile isDigit
  if ds = [] then none else some (strtoull number.1 ds, number.2.dropWhile isDigit)

lemma isSpace_of_isDigit (h : isDigit c = true) : isSpace c = false := by
  simp only [isDigit, Bool.and_eq_true, decide_eq_true_eq, UInt8.le_iff_toNat_le] at h
  simp only [isSpace, Bool.or_eq_false_iff, Bool.and_eq_false_iff, beq_eq_false_iff_ne, ne_eq,
    decide_eq_false_iff_not, UInt8.le_iff_toNat_le, ← UInt8.toNat_inj]
  simp only [UInt8.reduceToNat] at h ⊢
  omega

lemma scanSign_of_digit (rest : List UInt8) (h : isDigit c = true) :
    scanSign (c :: rest) = (false, c :: rest) := by
  have h45 : c ≠ 45 := by
    rintro rfl
    cases h
  have h43 : c ≠ 43 := by
    rintro rfl
    cases h
  rw [scanSign, if_neg h45, if_neg h43]

lemma scanUnsigned_decimal (hn : n < 2 ^ 64) (h : Stops isDigit rest) :
    scanUnsigned (32 :: (decimal n ++ rest)) = some (BitVec.ofNat 64 n, rest) := by
  obtain ⟨d, ds, hdec⟩ := exists_cons_of_ne_nil (decimal_ne_nil n)
  have hd : isDigit d = true := isDigit_of_mem_decimal (n := n) (by simp [hdec])
  have hsk : (32 :: (decimal n ++ rest)).dropWhile isSpace = decimal n ++ rest := by
    rw [dropWhile_cons_of_pos (by decide), dropWhile_of_stops]
    intro c hc
    rw [hdec] at hc
    cases hc
    exact isSpace_of_isDigit hd
  have hsg : scanSign (decimal n ++ rest) = (false, decimal n ++ rest) := by
    rw [hdec, cons_append]
    exact scanSign_of_digit _ hd
  have htk : (decimal n ++ rest).takeWhile isDigit = decimal n :=
    takeWhile_append_stops (fun c hc => isDigit_of_mem_decimal hc) h
  have hdrop : (decimal n ++ rest).dropWhile isDigit = rest :=
    dropWhile_append_stops (fun c hc => isDigit_of_mem_decimal hc) h
  simp only [scanUnsigned, hsk, hsg, htk, hdrop]
  rw [if_neg (decimal_ne_nil n), strtoull, digitsVal_decimal, if_neg (by omega)]
  simp

/-- `%<width>s`: white space is skipped, then at least one other byte must come. -/
def scanToken (width : Nat) (text : List UInt8) : Option (List UInt8 × List UInt8) :=
  let text := text.dropWhile isSpace
  let token := (text.take width).takeWhile fun c => !isSpace c
  if token = [] then none else some (token, text.drop token.length)

lemma scanToken_append {width : Nat} {token pre : List UInt8} (hne : token ≠ [])
    (hlen : token.length ≤ width) (h : ∀ c ∈ token, isSpace c = false)
    (hpre : ∀ c ∈ pre, isSpace c) (hrs : Stops (fun c => !isSpace c) rest) :
    scanToken width (pre ++ (token ++ rest)) = some (token, rest) := by
  have hsk : (pre ++ (token ++ rest)).dropWhile isSpace = token ++ rest := by
    refine dropWhile_append_stops hpre ?_
    obtain ⟨c, cs, rfl⟩ := exists_cons_of_ne_nil hne
    intro x hx
    cases hx
    exact h c (.head _)
  have htk : ((token ++ rest).take width).takeWhile (fun c => !isSpace c) = token := by
    rw [take_append, take_of_length_le hlen]
    refine takeWhile_append_stops (fun c hc => by simp [h c hc]) ?_
    intro c hc
    refine hrs c ?_
    cases rest with
    | nil => simp at hc
    | cons x rest =>
      cases hw : width - token.length with
      | zero => simp [hw] at hc
      | succ k => simpa [hw] using hc
  simp only [scanToken, hsk, htk]
  rw [if_neg hne, drop_left]

/-- What a reader with room for `room` bytes returns: up to a newline, and with it, or as much as
there is room for. -/
def bufLines (room : Nat) (line : List UInt8) : List UInt8 → List (List UInt8)
  | [] => if line = [] then [] else [line]
  | c :: rest =>
    if c = 10 ∨ line.length + 1 = room then (line ++ [c]) :: bufLines room [] rest
    else bufLines room (line ++ [c]) rest

lemma bufLines_line {room : Nat} {line body : List UInt8} (h : ∀ c ∈ body, c ≠ 10)
    (hlen : line.length + body.length + 1 ≤ room) :
    bufLines room line (body ++ 10 :: rest) = (line ++ body ++ [10]) :: bufLines room [] rest := by
  induction body generalizing line with
  | nil => simp [bufLines]
  | cons c body ih =>
    have hc : ¬ (c = 10 ∨ line.length + 1 = room) := by
      rintro (h10 | hrm)
      · exact h c (.head _) h10
      · rw [length_cons] at hlen
        omega
    rw [cons_append, bufLines, if_neg hc, ih]
    · simp
    · intro x hx
      exact h x (.tail _ hx)
    · rw [length_append, length_singleton]
      rw [length_cons] at hlen
      omega

lemma bufLines_flatten {room : Nat} {bodies : List (List UInt8)}
    (h : ∀ body ∈ bodies, (∀ c ∈ body, c ≠ 10) ∧ body.length + 1 ≤ room) :
    bufLines room [] (bodies.map (· ++ [10])).flatten = bodies.map (· ++ [10]) := by
  induction bodies with
  | nil => rfl
  | cons body bodies ih =>
    obtain ⟨hne, hlen⟩ := h body (.head _)
    rw [map_cons, flatten_cons, append_assoc, singleton_append,
      bufLines_line hne (by simpa using hlen), ih fun b hb => h b (.tail _ hb)]
    rfl

end Scan
