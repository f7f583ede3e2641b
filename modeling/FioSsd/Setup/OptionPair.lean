import FioSsd.Lib.Scan
import FioSsd.Types

/-! # Integer options with two targets

An option such as `bs` takes a value for reads and one for writes, `4k,8k`. -/

namespace FioSsd

open Scan List Option

def toLower (c : UInt8) : UInt8 := if 65 ≤ c ∧ c ≤ 90 then c + 32 else c

def isAlpha (c : UInt8) : Bool := (65 ≤ c && c ≤ 90) || (97 ≤ c && c ≤ 122)

/-- The suffixes of `__get_mult_bytes` in its order: the power, and whether the base is 1000
    whatever `kb_base` is. -/
def suffixTable : List (List UInt8 × Nat × Bool) :=
  [([112, 105, 98], 5, true), ([116, 105, 98], 4, true), ([103, 105, 98], 3, true),
   ([109, 105, 98], 2, true), ([107, 105, 98], 1, true),
   ([112], 5, false), ([112, 98], 5, false), ([116], 4, false), ([116, 98], 4, false),
   ([103], 3, false), ([103, 98], 3, false), ([109], 2, false), ([109, 98], 2, false),
   ([107], 1, false), ([107, 98], 1, false)]

variable (kbBase : Nat)

def suffixMult (c : List UInt8) : Nat :=
  match suffixTable.lookup c with
  | some (pow, base10) => (if base10 then 1000 else kbBase) ^ pow
  | none => 1

/-- `__get_mult_bytes`: the multiplier, and whether the text is a percentage. -/
def getMultBytesOf : Option (List UInt8) → Nat × Bool
  | none => (1, false)
  | some p =>
    let c := p.map toLower
    if c = [37] then (1, true) else (suffixMult kbBase c, false)

/-- The loop of `get_mult_bytes`: over digits, and a sign in front of them. -/
def skipNumber (digitSeen : Bool) : List UInt8 → List UInt8
  | [] => []
  | c :: rest =>
    if isDigit c then skipNumber true rest
    else if (c = 43 ∨ c = 45) ∧ digitSeen = false then skipNumber digitSeen rest
    else c :: rest

def getMultBytes (str : List UInt8) : Nat × Bool :=
  if str.length < 2 then getMultBytesOf kbBase (some str)
  else
    match skipNumber false str with
    | [] => getMultBytesOf kbBase none
    | c :: rest =>
      getMultBytesOf kbBase (if isAlpha c || c = 37 then some (c :: rest) else none)

def hasHex : List UInt8 → Bool
  | c :: d :: rest => (c = 48 && (d = 120 || d = 88)) || hasHex (d :: rest)
  | _ => false

def digitOf (c : UInt8) : Nat :=
  if isDigit c then c.toNat - 48
  else if 97 ≤ c ∧ c ≤ 102 then c.toNat - 87
  else if 65 ≤ c ∧ c ≤ 70 then c.toNat - 55
  else 16

def skipHex : List UInt8 → List UInt8
  | 48 :: x :: rest => if x = 120 ∨ x = 88 then rest else 48 :: x :: rest
  | text => text

/-- `strtoll`: the number, and whether it was out of range. -/
def strtoll (base : Nat) (text : List UInt8) : Int × Bool :=
  let number := scanSign (text.dropWhile isSpace)
  let digits := (if base = 16 then skipHex number.2 else number.2).takeWhile (digitOf · < base)
  let magnitude : Int := digits.foldl (fun v c => base * v + digitOf c) 0
  let value := if number.1 then -magnitude else magnitude
  if 2 ^ 63 ≤ value then (2 ^ 63 - 1, true)
  else if value < -2 ^ 63 then (-2 ^ 63, true)
  else (value, false)

def strToDecimal (str : List UInt8) : Option Int :=
  if str = [] then none
  else
    let number := strtoll (if hasHex str then 16 else 10) str
    if number.1 = 2 ^ 63 - 1 ∧ number.2 = true then none
    else
      let mult := getMultBytes kbBase str
      if mult.2 then some ((-1 - number.1).bmod (2 ^ 64))
      else some ((number.1 * mult.1).bmod (2 ^ 64))

/-- The limits of an option of type `FIO_OPT_INT` without callbacks; 0 stands for none. -/
structure IntOption where
  (maxval minval : BitVec 32)

structure Targets where
  (first second : BitVec 32)
  deriving DecidableEq, Repr

variable (o : IntOption)

def IntOption.InLimits (ull : Int) : Prop :=
  (o.maxval = 0 ∨ ull ≤ o.maxval.toNat) ∧ (o.minval = 0 ∨ o.minval.toInt ≤ ull)
deriving Decidable

/-- `__handle_option` for such an option; the flag is its nonzero result. -/
def IntOption.handle (kbBase : Nat) (ptr : List UInt8) (data : Targets)
    (first more : Bool) : Bool × Targets :=
  match strToDecimal kbBase ptr with
  | none => (true, data)
  | some ull =>
    if o.InLimits ull then
      let data := if first then { data with first := BitVec.ofInt 32 ull } else data
      (false, if more then data else { data with second := BitVec.ofInt 32 ull })
    else (true, data)

def behind (sep : UInt8) (text : List UInt8) : Option (List UInt8) :=
  match text.dropWhile (· ≠ sep) with
  | [] => none
  | _ :: rest => some rest

/-- The text that a round of `handle_option` takes, and what is left for the next: behind the first
comma, else the first colon, else the first minus. -/
def nextPart (ptr : List UInt8) : List UInt8 × Option (List UInt8) :=
  match behind 44 ptr with
  | some [] => (ptr.takeWhile (· ≠ 44), some [])
  | some rest => (ptr, some rest)
  | none =>
    match behind 58 ptr with
    | some rest => (ptr, some rest)
    | none => (ptr, behind 45 ptr)

def IntOption.handleLoop (o : IntOption) (kbBase : Nat) :
    Nat → List UInt8 → Targets → Bool → Bool → Bool × Targets
  | 0, _, data, _, ret => (ret, data)
  | fuel + 1, ptr, data, first, ret =>
    let part := nextPart ptr
    let handled := o.handle kbBase part.1 data first part.2.isSome
    match part.2 with
    | none => (ret && handled.1, handled.2)
    | some rest => o.handleLoop kbBase fuel rest handled.2 false (ret && handled.1)

def IntOption.handleOption (kbBase : Nat) (ptr : List UInt8) (data : Targets) :
    Bool × Targets :=
  o.handleLoop kbBase (ptr.length + 1) ptr data true true

def KbBase : Type := { n : Nat // n = 1000 ∨ n = 1024 }

structure SizeText where
  (digits suffix : List UInt8)
  digits_ne : digits ≠ []
  digits_digit : ∀ c ∈ digits, isDigit c = true
  suffix_known : suffix = [] ∨ (suffixTable.lookup (suffix.map toLower)).isSome

namespace SizeText

def text (t : SizeText) : List UInt8 := t.digits ++ t.suffix

def number (t : SizeText) : Nat := digitsVal t.digits

def value (kb : KbBase) (t : SizeText) : Nat :=
  t.number * suffixMult kb.1 (t.suffix.map toLower)

end SizeText

def sizeLetters : List UInt8 := [107, 109, 103, 116, 112, 98, 105]

variable {c : List UInt8}

lemma mem_table_of_lookup {entry : Nat × Bool}
    (h : suffixTable.lookup c = some entry) : (c, entry) ∈ suffixTable := by
  obtain ⟨before, after, htb, -⟩ := lookup_eq_some_iff.1 h
  rw [htb]
  exact mem_append_right _ (.head _)

lemma mem_sizeLetters_of_lookup (h : (suffixTable.lookup c).isSome = true)
    {x : UInt8} (hx : x ∈ c) : x ∈ sizeLetters := by
  obtain ⟨entry, hen⟩ := isSome_iff_exists.1 h
  have htb : (suffixTable.all fun e => e.1.all fun y => sizeLetters.contains y) = true := by
    decide
  have hkey := all_eq_true.1 htb _ (mem_table_of_lookup hen)
  simpa using all_eq_true.1 hkey x hx

lemma mem_of_toLower {c : UInt8} (h : toLower c ∈ sizeLetters) :
    c ∈ sizeLetters ++ sizeLetters.map (· - 32) := by
  unfold toLower at h
  split_ifs at h with hup
  · refine mem_append_right _ (mem_map.2 ⟨c + 32, h, ?_⟩)
    simp
  · exact mem_append_left _ h

lemma sizeLetter_class {c : UInt8} (h : toLower c ∈ sizeLetters) :
    isAlpha c = true ∧ isDigit c = false ∧ c ≠ 44 ∧ c ≠ 58 ∧ c ≠ 45 ∧ c ≠ 120 ∧ c ≠ 88 := by
  have hall : ((sizeLetters ++ sizeLetters.map (· - 32)).all fun c =>
      isAlpha c && !isDigit c && c != 44 && c != 58 && c != 45 && c != 120 && c != 88) = true := by
    decide
  have hc := all_eq_true.1 hall c (mem_of_toLower h)
  simpa [and_assoc] using hc

lemma digit_class {c : UInt8} (h : isDigit c = true) :
    c ≠ 44 ∧ c ≠ 58 ∧ c ≠ 45 ∧ c ≠ 120 ∧ c ≠ 88 ∧ toLower c ∉ sizeLetters := by
  have hne : ∀ d : UInt8, isDigit d = false → c ≠ d := by
    rintro d hd rfl
    rw [h] at hd
    cases hd
  refine ⟨hne 44 (by decide), hne 58 (by decide), hne 45 (by decide), hne 120 (by decide),
    hne 88 (by decide), fun hmem => ?_⟩
  have := (sizeLetter_class hmem).2.1
  rw [h] at this
  cases this

lemma suffixMult_eq_one {kbBase : Nat} {x : UInt8} (hx : x ∈ c)
    (h : x ∉ sizeLetters) : suffixMult kbBase c = 1 := by
  unfold suffixMult
  cases hlkp : suffixTable.lookup c with
  | none => rfl
  | some entry =>
    have hso : (suffixTable.lookup c).isSome = true := by rw [hlkp]; rfl
    exact absurd (mem_sizeLetters_of_lookup hso hx) h

lemma suffixMult_large (kb : KbBase)
    (h : (suffixTable.lookup c).isSome = true) : 1000 ≤ suffixMult kb.1 c := by
  obtain ⟨⟨pow, base10⟩, hen⟩ := isSome_iff_exists.1 h
  have htb : (suffixTable.all fun e => decide (e.2.1 ≠ 0)) = true := by decide
  have hpow : pow ≠ 0 := by
    simpa using all_eq_true.1 htb _ (mem_table_of_lookup hen)
  have hbs : 1000 ≤ if base10 then 1000 else kb.1 := by
    rcases kb.2 with hkb | hkb <;> rw [hkb] <;> split_ifs <;> omega
  rw [suffixMult, hen]
  exact hbs.trans (Nat.le_self_pow hpow _)

lemma digitOf_lt_ten (c : UInt8) : decide (digitOf c < 10) = isDigit c := by
  unfold digitOf
  by_cases hdg : isDigit c
  · have hrn := hdg
    simp [isDigit, UInt8.le_iff_toNat_le, UInt8.reduceToNat] at hrn
    rw [if_pos hdg, hdg, decide_eq_true_eq]
    omega
  · rw [if_neg hdg]
    simp only [UInt8.le_iff_toNat_le, UInt8.reduceToNat]
    have hfl : isDigit c = false := by simpa using hdg
    rw [hfl, decide_eq_false_iff_not]
    split_ifs <;> omega

lemma foldl_digitOf {ds : List UInt8} (h : ∀ c ∈ ds, isDigit c) (v : Nat) :
    ds.foldl (fun (v : Int) c => ((10 : Nat) : Int) * v + digitOf c) v =
      (ds.foldl (fun v c => 10 * v + (c.toNat - 48)) v : Nat) := by
  induction ds generalizing v with
  | nil => rfl
  | cons c ds ih =>
    have hc : digitOf c = c.toNat - 48 := if_pos (h c (.head _))
    rw [foldl_cons, foldl_cons, ← ih fun x hx => h x (mem_cons_of_mem c hx), hc]
    congr 1

lemma hasHex_mem {text : List UInt8} (h : hasHex text) : 120 ∈ text ∨ 88 ∈ text := by
  induction text with
  | nil => cases h
  | cons c rest ih =>
    cases rest with
    | nil => cases h
    | cons d rest =>
      simp [hasHex] at h
      rcases h with ⟨-, rfl | rfl⟩ | hrs
      · exact .inl (by simp)
      · exact .inr (by simp)
      · exact (ih hrs).imp (mem_cons_of_mem c) (mem_cons_of_mem c)

lemma skipNumber_seen {rest : List UInt8} (h : Stops isDigit rest) :
    skipNumber true rest = rest := by
  cases rest with
  | nil => rfl
  | cons c rest =>
    have hc := h c rfl
    simp [skipNumber, hc]

lemma skipNumber_digits {ds rest : List UInt8} (hne : ds ≠ [])
    (hds : ∀ c ∈ ds, isDigit c) (h : Stops isDigit rest) (seen : Bool) :
    skipNumber seen (ds ++ rest) = rest := by
  induction ds generalizing seen with
  | nil => exact absurd rfl hne
  | cons c ds ih =>
    rw [cons_append, skipNumber, if_pos (hds c mem_cons_self)]
    cases ds with
    | nil => exact skipNumber_seen h
    | cons d ds => exact ih (by simp) (fun x hx => hds x (mem_cons_of_mem c hx)) true

namespace SizeText

variable (t : SizeText)

lemma suffix_letter {c : UInt8} (h : c ∈ t.suffix) : toLower c ∈ sizeLetters := by
  rcases t.suffix_known with hnil | hso
  · rw [hnil] at h
    cases h
  · exact mem_sizeLetters_of_lookup hso (mem_map_of_mem h)

lemma text_class {c : UInt8} (h : c ∈ t.text) : c ≠ 44 ∧ c ≠ 58 ∧ c ≠ 45 ∧ c ≠ 120 ∧ c ≠ 88 := by
  rcases mem_append.1 h with hdg | hsfx
  · obtain ⟨h44, h58, h45, h120, h88, -⟩ := digit_class (t.digits_digit c hdg)
    exact ⟨h44, h58, h45, h120, h88⟩
  · exact (sizeLetter_class (t.suffix_letter hsfx)).2.2

lemma text_ne_nil : t.text ≠ [] := by
  intro hnil
  exact t.digits_ne (append_eq_nil_iff.1 hnil).1

lemma strtoll_text {rest : List UInt8} (h : Stops isDigit rest)
    (hnmb : t.number < 2 ^ 32) : strtoll 10 (t.digits ++ rest) = ((t.number : Int), false) := by
  obtain ⟨d, ds, hdgt⟩ := exists_cons_of_ne_nil t.digits_ne
  have hd := t.digits_digit d (by simp [hdgt])
  have hsk : (t.digits ++ rest).dropWhile isSpace = t.digits ++ rest := by
    apply dropWhile_of_stops
    intro c hc
    rw [hdgt] at hc
    cases hc
    exact isSpace_of_isDigit hd
  have hsg : scanSign (t.digits ++ rest) = (false, t.digits ++ rest) := by
    rw [hdgt, cons_append]
    exact scanSign_of_digit _ hd
  have htk : (t.digits ++ rest).takeWhile (fun c => decide (digitOf c < 10)) = t.digits := by
    have hpr : (fun c => decide (digitOf c < 10)) = isDigit := funext digitOf_lt_ten
    rw [hpr]
    exact takeWhile_append_stops t.digits_digit h
  have hfl := foldl_digitOf t.digits_digit 0
  have hval : (t.digits.foldl (fun v c => 10 * v + (c.toNat - 48)) 0) = t.number := rfl
  simp only [strtoll, hsk, hsg, htk, Nat.reduceEqDiff, if_false, Bool.false_eq_true]
  rw [hval] at hfl
  rw [show ((0 : Nat) : Int) = 0 from rfl] at hfl
  rw [hfl, if_neg (by omega), if_neg (by omega)]

lemma stops_suffix : Stops isDigit t.suffix := by
  intro c hc
  exact (sizeLetter_class (t.suffix_letter (mem_of_mem_head? hc))).2.1

lemma stops_comma (rest : List UInt8) : Stops isDigit (t.suffix ++ 44 :: rest) := by
  intro c hc
  cases hsfx : t.suffix with
  | nil =>
    rw [hsfx] at hc
    cases hc
    decide
  | cons d ds =>
    rw [hsfx] at hc
    cases hc
    exact (sizeLetter_class (t.suffix_letter (by rw [hsfx]; exact .head _))).2.1

variable (kbBase : Nat)

lemma multBytesOf_suffix :
    (match t.suffix with
      | [] => getMultBytesOf kbBase none
      | c :: rest => getMultBytesOf kbBase (if isAlpha c || c = 37 then some (c :: rest) else none)) =
      (suffixMult kbBase (t.suffix.map toLower), false) := by
  cases hsfx : t.suffix with
  | nil => rfl
  | cons c rest =>
    have hc : c ∈ t.suffix := by rw [hsfx]; exact .head _
    have hal := (sizeLetter_class (t.suffix_letter hc)).1
    have hprc : (c :: rest).map toLower ≠ [37] := by
      intro hmap
      have hmem := t.suffix_letter hc
      rw [(List.cons.inj hmap).1] at hmem
      exact absurd hmem (by decide)
    simp only [hal, Bool.true_or, if_true, getMultBytesOf]
    rw [if_neg hprc]

lemma getMultBytes_sign {s : UInt8} (h : s = 43 ∨ s = 45) :
    getMultBytes kbBase (s :: t.text) = (suffixMult kbBase (t.suffix.map toLower), false) := by
  have hsk : skipNumber false (s :: t.text) = t.suffix := by
    rw [skipNumber, if_neg (by rcases h with rfl | rfl <;> decide), if_pos ⟨h, rfl⟩, text,
      skipNumber_digits t.digits_ne t.digits_digit t.stops_suffix]
  have hlen := length_pos_iff.2 t.text_ne_nil
  rw [getMultBytes, if_neg (by rw [length_cons]; omega), hsk]
  exact t.multBytesOf_suffix kbBase

lemma getMultBytes_text :
    getMultBytes kbBase t.text = (suffixMult kbBase (t.suffix.map toLower), false) := by
  unfold getMultBytes
  by_cases hsh : t.text.length < 2
  · -- one digit, which is no suffix itself
    obtain ⟨d, ds, hdgt⟩ := exists_cons_of_ne_nil t.digits_ne
    have hd := t.digits_digit d (by simp [hdgt])
    have hlen : ds.length + 1 + t.suffix.length < 2 := by
      rw [text, hdgt, length_append, length_cons] at hsh
      exact hsh
    have hds : ds = [] := length_eq_zero_iff.1 (by omega)
    have hsfx : t.suffix = [] := length_eq_zero_iff.1 (by omega)
    have hltr := (digit_class hd).2.2.2.2.2
    have hprc : ([d].map toLower) ≠ [37] := by
      intro hmap
      have hd37 : toLower d = 37 := by simpa using hmap
      unfold toLower at hd37
      split_ifs at hd37 with hup
      · have hd5 : d = 5 := by
          have := congrArg (· - 32) hd37
          simpa using this
        rw [hd5] at hd
        exact absurd hd (by decide)
      · rw [hd37] at hd
        exact absurd hd (by decide)
    rw [if_pos hsh, text, hdgt, hds, hsfx]
    simp only [append_nil, getMultBytesOf]
    rw [if_neg hprc, suffixMult_eq_one (x := toLower d) (by simp) hltr]
    rfl
  · rw [if_neg hsh, text, skipNumber_digits t.digits_ne t.digits_digit t.stops_suffix]
    exact t.multBytesOf_suffix kbBase

lemma getMultBytes_comma (rest : List UInt8) (h : rest ≠ []) :
    getMultBytes kbBase (t.text ++ 44 :: rest) = (1, false) := by
  have hlen : ¬ (t.text ++ 44 :: rest).length < 2 := by
    have hpos := length_pos_iff.2 h
    rw [length_append, length_cons]
    omega
  rw [getMultBytes, if_neg hlen, text, append_assoc,
    skipNumber_digits t.digits_ne t.digits_digit (t.stops_comma rest)]
  cases hsfx : t.suffix with
  | nil => rfl
  | cons c ds =>
    have hc : c ∈ t.suffix := by rw [hsfx]; exact .head _
    have hal := (sizeLetter_class (t.suffix_letter hc)).1
    have hcm : (44 : UInt8) ∈ (c :: (ds ++ 44 :: rest)).map toLower :=
      mem_map.2 ⟨44, by simp, by decide⟩
    have hprc : (c :: (ds ++ 44 :: rest)).map toLower ≠ [37] := by
      intro hmap
      rw [hmap] at hcm
      exact absurd hcm (by decide)
    simp only [cons_append, hal, Bool.true_or, if_true, getMultBytesOf]
    rw [if_neg hprc, suffixMult_eq_one hcm (by decide)]

lemma number_le_value (kb : KbBase) : t.number ≤ t.value kb := by
  have hone : 1 ≤ suffixMult kb.1 (t.suffix.map toLower) := by
    rcases t.suffix_known with hnil | hso
    · rw [hnil]
      exact le_of_eq rfl
    · exact (suffixMult_large kb hso).trans' (by decide)
  exact Nat.le_mul_of_pos_right _ hone

lemma bmod_of_lt {n : Nat} (h : n < 2 ^ 63) : (n : Int).bmod (2 ^ 64) = n := by
  rw [Int.bmod_def]
  omega

lemma strToDecimal_text (kb : KbBase) (h : t.value kb < 2 ^ 32) :
    strToDecimal kb.1 t.text = some (t.value kb : Int) := by
  have hnmb := (t.number_le_value kb).trans_lt h
  have hhex : hasHex t.text = false := by
    rw [← Bool.not_eq_true]
    intro hhex
    rcases hasHex_mem hhex with hx | hx
    · exact (t.text_class hx).2.2.2.1 rfl
    · exact (t.text_class hx).2.2.2.2 rfl
  have hread : strtoll 10 t.text = ((t.number : Int), false) := t.strtoll_text t.stops_suffix hnmb
  rw [strToDecimal, if_neg t.text_ne_nil, hhex]
  simp only [Bool.false_eq_true, if_false, hread, getMultBytes_text, and_false]
  rw [← Nat.cast_mul]
  exact congrArg some (bmod_of_lt (h.trans (by decide)))

lemma strToDecimal_comma (u : SizeText) (h : t.number < 2 ^ 32) :
    strToDecimal kbBase (t.text ++ 44 :: u.text) = some (t.number : Int) := by
  have hhex : hasHex (t.text ++ 44 :: u.text) = false := by
    rw [← Bool.not_eq_true]
    intro hhex
    have hmem : ∀ c : UInt8, c ≠ 44 → (∀ v : SizeText, c ∉ v.text) → c ∉ t.text ++ 44 :: u.text := by
      intro c hc hno hin
      rcases mem_append.1 hin with hlf | hrg
      · exact hno t hlf
      · rcases mem_cons.1 hrg with heq | hrg
        · exact hc heq
        · exact hno u hrg
    rcases hasHex_mem hhex with hx | hx
    · exact hmem 120 (by decide) (fun v hv => (v.text_class hv).2.2.2.1 rfl) hx
    · exact hmem 88 (by decide) (fun v hv => (v.text_class hv).2.2.2.2 rfl) hx
  have hread : strtoll 10 (t.text ++ 44 :: u.text) = ((t.number : Int), false) := by
    rw [text, append_assoc]
    exact t.strtoll_text (t.stops_comma u.text) h
  rw [strToDecimal, if_neg (by simp), hhex]
  simp only [Bool.false_eq_true, if_false, hread, t.getMultBytes_comma kbBase u.text u.text_ne_nil,
    and_false, Nat.cast_one, mul_one]
  exact congrArg some (bmod_of_lt (h.trans (by decide)))

end SizeText

lemma behind_of_not_mem {sep : UInt8} {text : List UInt8} (h : sep ∉ text) :
    behind sep text = none := by
  have hnil : text.dropWhile (· ≠ sep) = [] := by
    have hall : ∀ c ∈ text, decide (c ≠ sep) = true := by
      intro c hc
      simpa using fun heq : c = sep => h (heq ▸ hc)
    have hst : Stops (fun c => decide (c ≠ sep)) [] := fun c hc => nomatch hc
    simpa using dropWhile_append_stops hall hst
  rw [behind, hnil]

lemma behind_append {sep : UInt8} {text rest : List UInt8} (h : sep ∉ text) :
    behind sep (text ++ sep :: rest) = some rest := by
  have hdrop : (text ++ sep :: rest).dropWhile (· ≠ sep) = sep :: rest := by
    refine dropWhile_append_stops (fun c hc => ?_) ?_
    · simpa using fun heq : c = sep => h (heq ▸ hc)
    · intro c hc
      cases hc
      simp
  rw [behind, hdrop]

lemma nextPart_text (t : SizeText) : nextPart t.text = (t.text, none) := by
  rw [nextPart, behind_of_not_mem fun h => (t.text_class h).1 rfl,
    behind_of_not_mem fun h => (t.text_class h).2.1 rfl,
    behind_of_not_mem fun h => (t.text_class h).2.2.1 rfl]

lemma nextPart_comma (t u : SizeText) :
    nextPart (t.text ++ 44 :: u.text) = (t.text ++ 44 :: u.text, some u.text) := by
  rw [nextPart, behind_append fun h => (t.text_class h).1 rfl]
  cases htx : u.text with
  | nil => exact absurd htx u.text_ne_nil
  | cons c rest => rfl

namespace IntOption

variable (o : IntOption) (kb : KbBase)

lemma handleOption_text (t : SizeText) (h : t.value kb < 2 ^ 32) (data : Targets) :
    (o.handleOption kb.1 t.text data).2 =
      if o.InLimits (t.value kb) then
        ⟨BitVec.ofNat 32 (t.value kb), BitVec.ofNat 32 (t.value kb)⟩ else data := by
  simp only [handleOption, handleLoop, handle, nextPart_text, t.strToDecimal_text kb h, isSome_none,
    if_true, Bool.false_eq_true, if_false]
  split_ifs with hlmt
  · simp
  · rfl

lemma handleOption_pair (t u : SizeText) (h : t.value kb < 2 ^ 32) (hu : u.value kb < 2 ^ 32)
    (data : Targets) :
    (o.handleOption kb.1 (t.text ++ 44 :: u.text) data).2 =
      ⟨if o.InLimits t.number then BitVec.ofNat 32 t.number else data.first,
        if o.InLimits (u.value kb) then BitVec.ofNat 32 (u.value kb) else data.second⟩ := by
  have hnmb := (t.number_le_value kb).trans_lt h
  have hlen : ∃ fuel, (t.text ++ 44 :: u.text).length = fuel + 1 :=
    ⟨t.text.length + u.text.length, by rw [length_append, length_cons]; omega⟩
  obtain ⟨fuel, hfl⟩ := hlen
  rw [handleOption, hfl, handleLoop]
  simp only [nextPart_comma, isSome_some]
  rw [handleLoop]
  simp only [nextPart_text, isSome_none, handle, t.strToDecimal_comma kb.1 u hnmb,
    u.strToDecimal_text kb hu, if_true, Bool.false_eq_true, if_false]
  split_ifs <;> simp

end IntOption

structure SizePair (kb : KbBase) where
  (a b : SizeText)
  a_fits : a.value kb < 2 ^ 32
  b_fits : b.value kb < 2 ^ 32

/-- A pair stores each value in its target, and a single value is stored in both, whatever the targets
    held. -/
def SizePair.ParsedSeparately {kb : KbBase} (p : SizePair kb) (o : IntOption) : Prop :=
  ∀ data : Targets,
    (o.handleOption kb.1 (p.a.text ++ 44 :: p.b.text) data).2 =
        ⟨BitVec.ofNat 32 (p.a.value kb), BitVec.ofNat 32 (p.b.value kb)⟩ ∧
      (o.handleOption kb.1 p.a.text data).2 =
        ⟨BitVec.ofNat 32 (p.a.value kb), BitVec.ofNat 32 (p.a.value kb)⟩

lemma ite_eq_of_forall {P : Prop} [Decidable P] {v w : BitVec 32}
    (h : ∀ old : BitVec 32, (if P then v else old) = w) : P ∧ v = w := by
  have hold := h (w + 1)
  split_ifs at hold with hP
  · exact ⟨hP, hold⟩
  · simp at hold

lemma SizeText.value_eq_number_iff (kb : KbBase) (t : SizeText) :
    t.number = t.value kb ↔ t.suffix = [] ∨ t.number = 0 := by
  constructor
  · intro heq
    rcases t.suffix_known with hnil | hso
    · exact .inl hnil
    · right
      have hlr := suffixMult_large kb hso
      unfold SizeText.value at heq
      by_contra hne
      have hmul : t.number * 1000 ≤ t.number * suffixMult kb.1 (t.suffix.map toLower) :=
        Nat.mul_le_mul_left _ hlr
      omega
  · rintro (hnil | h0)
    · rw [SizeText.value, hnil]
      exact (mul_one _).symm
    · rw [SizeText.value, h0, zero_mul]

/-- **Pairs are parsed separately exactly if the first value has no suffix or is 0**, and the values
    are within the limits of the option. -/
theorem SizePair.parsedSeparately_iff (kb : KbBase) (p : SizePair kb) (o : IntOption) :
    p.ParsedSeparately o ↔
      (p.a.suffix = [] ∨ p.a.number = 0) ∧ o.InLimits (p.a.value kb) ∧ o.InLimits (p.b.value kb) := by
  have hnmb := (p.a.number_le_value kb).trans_lt p.a_fits
  simp only [SizePair.ParsedSeparately, o.handleOption_pair kb p.a p.b p.a_fits p.b_fits,
    o.handleOption_text kb p.a p.a_fits]
  rw [← SizeText.value_eq_number_iff kb]
  constructor
  · intro hall
    obtain ⟨-, hfr⟩ := ite_eq_of_forall (w := BitVec.ofNat 32 (p.a.value kb)) fun old =>
      congrArg Targets.first (hall ⟨old, 0⟩).1
    obtain ⟨hb, -⟩ := ite_eq_of_forall (w := BitVec.ofNat 32 (p.b.value kb)) fun old =>
      congrArg Targets.second (hall ⟨0, old⟩).1
    have ha : o.InLimits (p.a.value kb) := by
      by_contra hout
      have hsam := (hall ⟨BitVec.ofNat 32 (p.a.value kb) + 1, 0⟩).2
      rw [if_neg hout] at hsam
      exact absurd (congrArg Targets.first hsam) (by simp)
    refine ⟨?_, ha, hb⟩
    have hmod := congrArg BitVec.toNat hfr
    rw [BitVec.toNat_ofNat, BitVec.toNat_ofNat, Nat.mod_eq_of_lt hnmb,
      Nat.mod_eq_of_lt p.a_fits] at hmod
    exact hmod
  · rintro ⟨heq, ha, hb⟩ data
    rw [heq, if_pos ha, if_pos hb, if_pos ha]
    exact ⟨rfl, rfl⟩

def fourEight : SizePair ⟨1024, .inr rfl⟩ :=
  { a := ⟨[52], [107], by decide, List.all_eq_true.1 (by decide), .inr (by decide)⟩
    b := ⟨[56], [107], by decide, List.all_eq_true.1 (by decide), .inr (by decide)⟩
    a_fits := by decide
    b_fits := by decide }

/-- `bs=4k,8k` sets the block size for reads to 4. -/
theorem pair_loses_suffix : ¬ fourEight.ParsedSeparately ⟨0, 1⟩ := by
  intro hpr
  exact absurd (hpr ⟨4096, 4096⟩).1 (by decide)

end FioSsd
