import FioSsd.Setup.OptionPair

/-! # Numbers with a size or time suffix

What `str_to_decimal` stores for a sign, decimal or hexadecimal digits, and a suffix. -/

namespace FioSsd

open Scan List

def getMultTime (c : UInt8) : Nat :=
  if c = 109 ∨ c = 77 then 60
  else if c = 104 ∨ c = 72 then 3600
  else if c = 100 ∨ c = 68 then 86400
  else 1

def strToSeconds (str : List UInt8) : Option Int :=
  if str = [] then none
  else
    let number := strtoll (if hasHex str then 16 else 10) str
    if number.1 = 2 ^ 63 - 1 ∧ number.2 = true then none
    else some ((number.1 * getMultTime (str.getLastD 0)).bmod (2 ^ 64))

inductive SuffixMode
  | kilo (kb : KbBase)
  | time

namespace SuffixMode

def strToDecimal : SuffixMode → List UInt8 → Option Int
  | kilo kb => FioSsd.strToDecimal kb.1
  | time => strToSeconds

/-- The suffixes, with none for a multiplier of 1; a time may end in `s`. -/
def Known : SuffixMode → List UInt8 → Prop
  | kilo _, suffix => suffix = [] ∨ (suffixTable.lookup (suffix.map toLower)).isSome
  | time, suffix => suffix = [] ∨ ∃ c ∈ [109, 77, 104, 72, 100, 68, 115, 83], suffix = [c]

def mult : SuffixMode → List UInt8 → Nat
  | kilo kb, suffix => suffixMult kb.1 (suffix.map toLower)
  | time, suffix => getMultTime (suffix.headD 0)

end SuffixMode

/-- A number as it is written; `zeroX` is empty for a decimal one. No digit is left to the suffix. -/
structure NumText (mode : SuffixMode) where
  (sign zeroX digits suffix : List UInt8)
  sign_known : sign = [] ∨ sign = [43] ∨ sign = [45]
  zeroX_known : zeroX = [] ∨ zeroX = [48, 120] ∨ zeroX = [48, 88]
  digits_ne : digits ≠ []
  digits_lt : ∀ c ∈ digits, digitOf c < if zeroX = [] then 10 else 16
  suffix_known : mode.Known suffix
  suffix_stops : Stops (fun c => digitOf c < if zeroX = [] then 10 else 16) suffix

namespace NumText

variable {mode : SuffixMode} (t : NumText mode)

def text : List UInt8 := t.sign ++ (t.zeroX ++ (t.digits ++ t.suffix))

def number : Int :=
  let magnitude := t.digits.foldl (fun (v : Int) c => ((if t.zeroX = [] then 10 else 16 : Nat) : Int) * v +
    digitOf c) 0
  if t.sign = [45] then -magnitude else magnitude

/-- A size suffix behind a hexadecimal number is not seen, and a last digit `d` is taken for one of a
    time. -/
def Misread : Prop := t.zeroX ≠ [] ∧ match mode with
  | .kilo _ => t.suffix ≠ []
  | .time => t.suffix = [] ∧ t.digits.getLastD 0 ∈ [100, 68]

/-- The multiplier that is used. -/
def used : Nat := match mode with
  | .kilo _ => if t.zeroX = [] then mode.mult t.suffix else 1
  | .time => getMultTime (t.text.getLastD 0)

end NumText

/-- What is stored for the number `n` with the multiplier `k`. -/
def readAs (n : Int) (k : Nat) : Option Int :=
  if 2 ^ 63 ≤ n then none else some ((max n (-2 ^ 63) * k).bmod (2 ^ 64))

lemma readAs_exact_iff {n : Int} {k m : Nat} (hm : m ≠ 0) (h : k = m ∨ Odd ((k : Int) - m)) :
    (∀ v ∈ readAs n k, v = n * m) ↔
      2 ^ 63 ≤ n ∨ (-2 ^ 63 ≤ n * m ∧ n * m < 2 ^ 63) ∧ (k = m ∨ n = 0) := by
  unfold readAs
  split_ifs with hbig
  · exact iff_of_true (by simp) (.inl hbig)
  rw [or_iff_right hbig]
  have hpos : (1 : Int) ≤ m := by exact_mod_cast Nat.one_le_iff_ne_zero.2 hm
  constructor
  · intro hall
    have hval := hall _ rfl
    have hlow := Int.le_bmod (x := max n (-2 ^ 63) * k) (m := 2 ^ 64) (by decide)
    have hhg := Int.bmod_lt (x := max n (-2 ^ 63) * k) (m := 2 ^ 64) (by decide)
    rw [hval] at hlow hhg
    have hrn : -2 ^ 63 ≤ n * m ∧ n * m < 2 ^ 63 := ⟨by omega, by omega⟩
    have hn : -2 ^ 63 ≤ n := by nlinarith
    refine ⟨hrn, h.imp_right fun h => ?_⟩
    rw [max_eq_left hn] at hval
    obtain ⟨j, hj⟩ := h
    have hdvd : (2 ^ 64 : Int) ∣ n * (k - m) := by
      have hmod : n * m ≡ n * k [ZMOD 2 ^ 64] := hval ▸ Int.bmod_emod
      rw [mul_sub]
      exact hmod.dvd
    have hcpr : IsCoprime ((2 : Int) ^ 64) (k - m) := .pow_left ⟨-j, 1, by rw [hj]; ring⟩
    obtain ⟨q, hq⟩ := hcpr.dvd_of_dvd_mul_right hdvd
    omega
  · rintro ⟨hrn, hk⟩ v hv
    cases hv
    have hn : -2 ^ 63 ≤ n := by nlinarith
    rw [max_eq_left hn]
    rcases hk with rfl | rfl
    · exact Int.bmod_eq_of_le (by omega) (by omega)
    · simp

namespace NumText

variable {mode : SuffixMode} (t : NumText mode)

lemma body_head : ∃ c rest, isDigit c = true ∧ t.zeroX ++ (t.digits ++ t.suffix) = c :: rest := by
  obtain ⟨d, ds, hdgt⟩ := exists_cons_of_ne_nil t.digits_ne
  rcases t.zeroX_known with hx | hx | hx
  · have hd := t.digits_lt d (by simp [hdgt])
    rw [if_pos hx] at hd
    exact ⟨d, ds ++ t.suffix, by simpa [← digitOf_lt_ten] using hd, by simp [hx, hdgt]⟩
  all_goals exact ⟨48, _, by decide, by rw [hx]; rfl⟩

lemma text_ne_nil : t.text ≠ [] := by
  obtain ⟨c, rest, -, hbd⟩ := t.body_head
  simp [text, hbd]

lemma strtoll_text : strtoll (if t.zeroX = [] then 10 else 16) t.text =
    if 2 ^ 63 ≤ t.number then (2 ^ 63 - 1, true)
    else if t.number < -2 ^ 63 then (-2 ^ 63, true) else (t.number, false) := by
  obtain ⟨c, rest, hc, hbd⟩ := t.body_head
  have hsc : scanSign (t.text.dropWhile isSpace) =
      (decide (t.sign = [45]), t.zeroX ++ (t.digits ++ t.suffix)) := by
    rcases t.sign_known with hs | hs | hs
    · rw [text, hs, nil_append, hbd, dropWhile_of_stops, scanSign_of_digit _ hc]
      · simp
      · rintro d ⟨⟩
        exact isSpace_of_isDigit hc
    all_goals simp [text, hs, isSpace, scanSign]
  have htk : (if (if t.zeroX = [] then 10 else 16) = 16 then
      skipHex (t.zeroX ++ (t.digits ++ t.suffix)) else t.zeroX ++ (t.digits ++ t.suffix)).takeWhile
        (digitOf · < if t.zeroX = [] then 10 else 16) = t.digits := by
    have hdgt := takeWhile_append_stops
      (fun c hc => decide_eq_true (t.digits_lt c hc)) t.suffix_stops
    rcases t.zeroX_known with hx | hx | hx <;> simpa [hx, skipHex] using hdgt
  unfold strtoll number
  simp only [hsc, htk, decide_eq_true_eq]

variable {c : UInt8}

lemma suffix_noX (t : NumText mode) (h : c ∈ t.suffix) : c ≠ 120 ∧ c ≠ 88 := by
  have hkn := t.suffix_known
  cases mode with
  | kilo kb =>
    rcases hkn with hnil | hso
    · simp [hnil] at h
    · have hltr := mem_sizeLetters_of_lookup hso (mem_map_of_mem h)
      exact (sizeLetter_class hltr).2.2.2.2.2
  | time =>
    rcases hkn with hnil | ⟨d, hd, hsfx⟩
    · simp [hnil] at h
    · obtain rfl : c = d := by simpa [hsfx] using h
      constructor <;> (rintro rfl; revert hd; decide)

lemma digits_noX (h : t.zeroX = []) (hc : c ∈ t.digits) : isDigit c = true := by
  have hlt := t.digits_lt c hc
  rw [if_pos h] at hlt
  rw [← digitOf_lt_ten]
  exact decide_eq_true hlt

lemma hasHex_text : hasHex t.text = decide (t.zeroX ≠ []) := by
  rcases t.zeroX_known with hx | hx | hx
  · rw [decide_eq_false (not_not.2 hx), ← Bool.not_eq_true]
    have hno : ∀ c ∈ t.text, c ≠ 120 ∧ c ≠ 88 := by
      intro c hc
      simp [text, hx, mem_append] at hc
      rcases hc with hc | hc | hc
      · rcases t.sign_known with hs | hs | hs <;> simp [hs] at hc <;> simp [hc]
      · exact ⟨(digit_class (t.digits_noX hx hc)).2.2.2.1, (digit_class (t.digits_noX hx hc)).2.2.2.2.1⟩
      · exact t.suffix_noX hc
    intro hhex
    rcases hasHex_mem hhex with h | h
    · exact (hno _ h).1 rfl
    · exact (hno _ h).2 rfl
  all_goals rcases t.sign_known with hs | hs | hs <;> simp [text, hs, hx, hasHex]

lemma multBytesOf_hex (kbBase : Nat) {x : UInt8} (h : x = 120 ∨ x = 88) (rest : List UInt8) :
    getMultBytesOf kbBase (some (x :: rest)) = (1, false) := by
  have hlow : toLower x = 120 := by rcases h with rfl | rfl <;> decide
  simp only [getMultBytesOf, map_cons, hlow]
  rw [if_neg (by simp), suffixMult_eq_one (x := 120) mem_cons_self (by decide)]

lemma getMultBytes_kilo {kb : KbBase} (t : NumText (.kilo kb)) :
    getMultBytes kb.1 t.text = (t.used, false) := by
  by_cases hx : t.zeroX = []
  · let st : SizeText := ⟨t.digits, t.suffix, t.digits_ne, fun c => t.digits_noX hx, t.suffix_known⟩
    have hus : t.used = suffixMult kb.1 (st.suffix.map toLower) := if_pos hx
    rw [hus]
    rcases t.sign_known with hs | hs | hs
    · rw [text, hs, hx]
      exact st.getMultBytes_text kb.1
    · rw [text, hs, hx]
      exact st.getMultBytes_sign kb.1 (.inl rfl)
    · rw [text, hs, hx]
      exact st.getMultBytes_sign kb.1 (.inr rfl)
  · have hus : t.used = 1 := if_neg hx
    have h0 := t.zeroX_known.resolve_left hx
    rw [hus]
    rcases t.sign_known with hs | hs | hs <;> rcases h0 with hz | hz <;>
      simp [text, hs, hz, getMultBytes, skipNumber, isDigit, isAlpha, multBytesOf_hex]

lemma stored_eq (k : Nat) :
    (if (strtoll (if hasHex t.text then 16 else 10) t.text).1 = 2 ^ 63 - 1 ∧
        (strtoll (if hasHex t.text then 16 else 10) t.text).2 = true then none
      else some (((strtoll (if hasHex t.text then 16 else 10) t.text).1 * k).bmod (2 ^ 64))) =
      readAs t.number k := by
  have hbs : (if hasHex t.text then 16 else 10) = if t.zeroX = [] then 10 else 16 := by
    rw [hasHex_text]
    by_cases h : t.zeroX = [] <;> simp [h]
  rw [hbs, strtoll_text, readAs]
  by_cases hbig : 2 ^ 63 ≤ t.number
  · rw [if_pos hbig, if_pos ⟨rfl, rfl⟩, if_pos hbig]
  · by_cases hsm : t.number < -2 ^ 63
    · rw [if_neg hbig, if_pos hsm, if_neg (by decide), if_neg hbig, max_eq_right hsm.le]
    · rw [if_neg hbig, if_neg hsm, if_neg (by simp), if_neg hbig, max_eq_left (not_lt.1 hsm)]

lemma strToDecimal_eq : mode.strToDecimal t.text = readAs t.number t.used := by
  cases mode with
  | kilo kb =>
    rw [← t.stored_eq, SuffixMode.strToDecimal, strToDecimal, if_neg t.text_ne_nil]
    simp [getMultBytes_kilo]
  | time =>
    rw [← t.stored_eq, SuffixMode.strToDecimal, strToSeconds, if_neg t.text_ne_nil]
    rfl

lemma getLastD_append {a b : List UInt8} (h : b ≠ []) : (a ++ b).getLastD 0 = b.getLastD 0 := by
  simp [getLastD_eq_getLast?, List.getLast?_append_of_ne_nil _ h]

lemma getMultTime_digit (hc : digitOf c < 16) (h : c ∉ [100, 68]) : getMultTime c = 1 := by
  have hne : ∀ x : UInt8, digitOf x = 16 → c ≠ x := by
    rintro x hx rfl
    omega
  simp at h
  simp [getMultTime, h, hne 109 (by decide), hne 77 (by decide), hne 104 (by decide),
    hne 72 (by decide)]

lemma used_time (t : NumText .time) : t.used = getMultTime (if t.suffix = [] then t.digits.getLastD 0
    else t.suffix.headD 0) := by
  rw [used, text]
  rcases t.suffix_known with hnil | ⟨c, -, hc⟩
  · rw [if_pos hnil, hnil, append_nil, getLastD_append (by simp [t.digits_ne]),
      getLastD_append t.digits_ne]
  · rw [hc, ← append_assoc, ← append_assoc, getLastD_append (by simp)]
    rfl

lemma used_eq (h : ¬t.Misread) : t.used = mode.mult t.suffix := by
  cases mode with
  | kilo kb =>
    by_cases hx : t.zeroX = []
    · exact if_pos hx
    · have hnil := not_not.1 fun hne => h ⟨hx, hne⟩
      rw [hnil]
      exact if_neg hx
  | time =>
    rw [used_time, SuffixMode.mult]
    split_ifs with hnil
    · have hla : t.digits.getLastD 0 ∈ t.digits := by
        rw [getLastD_eq_getLast?, List.getLast?_eq_some_getLast t.digits_ne]
        exact getLast_mem _
      have hlt := t.digits_lt _ hla
      rw [hnil]
      refine getMultTime_digit (hlt.trans_le (by split_ifs <;> decide)) fun hd => ?_
      by_cases hx : t.zeroX = []
      · rw [if_pos hx] at hlt
        rcases mem_pair.1 hd with hd | hd <;> rw [hd] at hlt <;> exact absurd hlt (by decide)
      · exact h ⟨hx, hnil, hd⟩
    · rfl

lemma suffixMult_even (kb : KbBase) {c : List UInt8} (h : (suffixTable.lookup c).isSome = true) :
    Even (suffixMult kb.1 c) := by
  obtain ⟨⟨pow, base10⟩, hen⟩ := Option.isSome_iff_exists.1 h
  have htb : (suffixTable.all fun e => decide (e.2.1 ≠ 0)) = true := by decide
  have hpow : pow ≠ 0 := by
    simpa using all_eq_true.1 htb _ (mem_table_of_lookup hen)
  have hbs : Even (if base10 then 1000 else kb.1) := by
    rcases kb.2 with hkb | hkb <;> rw [hkb] <;> split_ifs <;> decide
  rw [suffixMult, hen]
  exact hbs.pow_of_ne_zero hpow

lemma used_odd (h : t.Misread) : Odd ((t.used : Int) - mode.mult t.suffix) := by
  cases mode with
  | kilo kb =>
    have hus : t.used = 1 := if_neg h.1
    rw [hus]
    exact odd_one.sub_even (by exact_mod_cast suffixMult_even kb (t.suffix_known.resolve_left h.2))
  | time =>
    rw [used_time, if_pos h.2.1, h.2.1]
    rcases mem_pair.1 h.2.2 with hd | hd <;> rw [hd] <;> decide

lemma mult_ne_zero : mode.mult t.suffix ≠ 0 := by
  cases mode with
  | kilo kb =>
    rcases t.suffix_known with hnil | hso
    · rw [hnil]
      exact one_ne_zero
    · exact Nat.ne_zero_of_lt (suffixMult_large kb hso)
  | time =>
    change getMultTime _ ≠ 0
    unfold getMultTime
    split_ifs <;> decide

end NumText

/-- **When a number is exact or rejected**: it is out of range, or the product fits a `long long` and the
    suffix is read as it stands. -/
theorem strToDecimal_exact_iff (mode : SuffixMode) (t : NumText mode) :
    (∀ v ∈ mode.strToDecimal t.text, v = t.number * mode.mult t.suffix) ↔
      2 ^ 63 ≤ t.number ∨ (-2 ^ 63 ≤ t.number * mode.mult t.suffix ∧
        t.number * mode.mult t.suffix < 2 ^ 63) ∧ (¬t.Misread ∨ t.number = 0) := by
  rw [t.strToDecimal_eq]
  by_cases hread : t.Misread
  · have hodd := t.used_odd hread
    have hne : t.used ≠ mode.mult t.suffix := by
      rintro heq
      rw [heq, sub_self] at hodd
      exact absurd hodd (by decide)
    rw [readAs_exact_iff t.mult_ne_zero (.inr hodd)]
    simp [hread, hne]
  · rw [readAs_exact_iff t.mult_ne_zero (.inl (t.used_eq hread))]
    simp [hread, t.used_eq hread]

/-- `0x10k` is read as 16, not as 16384. -/
theorem strToDecimal_hex_kilo : strToDecimal 1024 [48, 120, 49, 48, 107] = some 16 ∧
    strtoll 16 [48, 120, 49, 48] = (16, false) ∧ suffixMult 1024 [107] = 1024 := by
  decide +kernel

end FioSsd
