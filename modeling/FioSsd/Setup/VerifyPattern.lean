import FioSsd.Setup.OptionPair

/-! # `verify_pattern`

`str_verify_pattern_cb` takes the bytes of the pattern from the number that `strtol` returns, or if
that is too large from the hexadecimal digits. -/

namespace FioSsd

open Scan List Nat

def behindHex (x : UInt8) : List UInt8 → Option (List UInt8)
  | c :: d :: rest => if c = 48 ∧ d = x then some rest else behindHex x (d :: rest)
  | _ => none

def hexDigits (input : List UInt8) : Option (List UInt8) := (behindHex 120 input).or (behindHex 88 input)

def patternBase (input : List UInt8) : Nat := if (hexDigits input).isSome then 16 else 10

def shiftBytes : Nat → Int → Option (List UInt8)
  | 0, off => if off = 0 then some [] else none
  | fuel + 1, off =>
    if off = 0 then some []
    else (shiftBytes fuel (off / 256)).map (UInt8.ofNat (off % 256).toNat :: ·)

def convertHexCharToInt (a : UInt8) : UInt8 :=
  if isDigit a then a - 48 else if 65 ≤ a ∧ a ≤ 70 then a - 55 else if 97 ≤ a ∧ a ≤ 102 then a - 87 else a

def hexPairs : List UInt8 → List UInt8
  | [] => []
  | [a] => [convertHexCharToInt a]
  | a :: b :: rest => (convertHexCharToInt a + convertHexCharToInt b * 16) :: hexPairs rest

def doublePattern : Nat → Nat → Mem → Nat × Mem
  | 0, i, m => (i, m)
  | fuel + 1, i, m =>
    if 1 < i ∧ i * 2 ≤ maxPatternSize then doublePattern fuel (i * 2) (m.store i (m.load 0 i)) else (i, m)

structure PatternResult where
  failed : Bool
  extent : Nat
  o : ThreadOptions

variable (o : ThreadOptions)

def setPattern (bytes : List UInt8) : PatternResult :=
  let (i, m) := doublePattern maxPatternSize bytes.length (Mem.store o.verifyPattern 0 bytes)
  let m := if i = 1 then m.store 0 (List.replicate maxPatternSize (m 0)) else m
  { failed := false
    extent := max bytes.length (if i = 1 then maxPatternSize else i)
    o := { o with
      verifyPattern := m, verifyPatternBytes := i
      verify := if o.verify = .verifyNone then .verifyPattern else o.verify } }

variable (erange : Bool)

/-- The test for the long way; `erange` says that `errno` is `ERANGE` from before. -/
def LongWay (input : List UInt8) : Prop :=
  (strtoll (patternBase input) input).1 = 2 ^ 63 - 1 ∧
    ((strtoll (patternBase input) input).2 = true ∨ erange = true)
deriving Decidable

/-- `str_verify_pattern_cb`: none if its first loop does not end within `fuel` rounds. -/
def strVerifyPatternCb (o : ThreadOptions) (input : List UInt8) (fuel : Nat) :
    Option PatternResult :=
  if LongWay erange input then
    match hexDigits input with
    | none => some { failed := true, extent := 0, o := o }
    | some digits =>
      some (setPattern o (if digits.length < maxPatternSize * 2 then hexPairs digits.reverse else []))
  else (shiftBytes fuel (strtoll (patternBase input) input).1).map (setPattern o)

structure Numeral where
  (hex upper : Bool)
  digits : List UInt8
  ne_nil : digits ≠ []
  lt : ∀ c ∈ digits, digitOf c < if hex then 16 else 10

namespace Numeral

variable (t : Numeral)

def text : List UInt8 := if t.hex then 48 :: (if t.upper then 88 else 120) :: t.digits else t.digits

def base : Nat := if t.hex then 16 else 10

def value : Nat := t.digits.foldl (fun v c => t.base * v + digitOf c) 0

end Numeral

def Faithful (n : Nat) : Prop :=
  0 < o.verifyPatternBytes ∧ ∀ k, 256 ^ k ≤ n →
    (o.verifyPattern (k % o.verifyPatternBytes)).toNat = n / 256 ^ k % 256

/-- The callback ends, writes inside the array, and gives a number its bytes. -/
def PatternParsed (o : ThreadOptions) (input : List UInt8) : Prop :=
  ∃ fuel r, strVerifyPatternCb erange o input fuel = some r ∧ r.extent ≤ maxPatternSize ∧
    ∀ t : Numeral, input = t.text → r.failed = false → Faithful r.o t.value

def ParsesPattern (input : List UInt8) : Prop :=
  0 ≤ (strtoll (patternBase input) input).1 ∧ ∀ t : Numeral, input = t.text →
    t.value ≠ 0 ∧ (t.hex = true → LongWay erange input → t.digits.length < maxPatternSize * 2)

lemma toNat_getD_leNat (bs : List UInt8) (k : Nat) : (bs.getD k 0).toNat = leNat bs / 256 ^ k % 256 := by
  induction bs generalizing k with
  | nil => simp [leNat]
  | cons b rest ih =>
    have hb := b.toNat_lt
    cases k with
    | zero =>
      rw [leNat, pow_zero, Nat.div_one, Nat.add_mul_mod_self_left, Nat.mod_eq_of_lt hb]
      rfl
    | succ k =>
      have hdiv : (b.toNat + 256 * leNat rest) / 256 = leNat rest := by omega
      rw [leNat, Nat.pow_succ', ← Nat.div_div_eq_div_mul, hdiv, ← ih]
      rfl

lemma shiftBytes_spec {fuel k n : Nat} (h : n ≤ fuel) (hn : n < 256 ^ k) :
    ∃ bs, shiftBytes fuel n = some bs ∧ leNat bs = n ∧ bs.length ≤ k := by
  induction fuel generalizing n k with
  | zero =>
    obtain rfl := le_zero.1 h
    exact ⟨[], rfl, rfl, zero_le k⟩
  | succ fuel ih =>
    unfold shiftBytes
    by_cases h0 : n = 0
    · subst h0
      exact ⟨[], rfl, rfl, zero_le k⟩
    · cases k with
      | zero => omega
      | succ k =>
        rw [pow_succ] at hn
        obtain ⟨bs, hr, hval, hlen⟩ := @ih k (n / 256) (by omega) (by omega)
        have hby : (UInt8.ofNat ((n : Int) % 256).toNat).toNat = n % 256 := by
          rw [UInt8.toNat_ofNat']
          omega
        refine ⟨UInt8.ofNat ((n : Int) % 256).toNat :: bs, ?_, ?_, succ_le_succ hlen⟩
        · rw [if_neg (by omega), show (n : Int) / 256 = (n / 256 : Nat) from rfl, hr]
          rfl
        · rw [leNat, hby, hval]
          omega

lemma shiftBytes_neg {off : Int} (h : off < 0) (fuel : Nat) : shiftBytes fuel off = none := by
  induction fuel generalizing off with
  | zero => exact if_neg (by omega)
  | succ fuel ih =>
    rw [shiftBytes, if_neg (by omega), ih (by omega)]
    rfl

lemma toNat_convertHexCharToInt {a : UInt8} (h : digitOf a < 16) :
    (convertHexCharToInt a).toNat = digitOf a := by
  have hall : ∀ n < 256, digitOf (UInt8.ofNat n) < 16 →
      (convertHexCharToInt (UInt8.ofNat n)).toNat = digitOf (UInt8.ofNat n) := by decide +kernel
  have hsl := hall a.toNat a.toNat_lt
  rw [UInt8.ofNat_toNat] at hsl
  exact hsl h

lemma leNat_hexPairs (r : List UInt8) (h : ∀ c ∈ r, digitOf c < 16) :
    leNat (hexPairs r) = r.foldr (fun c v => 16 * v + digitOf c) 0 := by
  induction r using hexPairs.induct with
  | case1 => rfl
  | case2 a =>
    rw [hexPairs, leNat, toNat_convertHexCharToInt (h a mem_cons_self)]
    simp [leNat]
  | case3 a b rest ih =>
    have ha := h a mem_cons_self
    have hb := h b (mem_cons_of_mem _ mem_cons_self)
    have hval := ih fun c hc => h c (mem_cons_of_mem _ (mem_cons_of_mem _ hc))
    rw [hexPairs, leNat, hval, UInt8.toNat_add, UInt8.toNat_mul, toNat_convertHexCharToInt ha,
      toNat_convertHexCharToInt hb]
    simp only [foldr_cons, UInt8.reduceToNat]
    omega

lemma length_hexPairs (r : List UInt8) : (hexPairs r).length = (r.length + 1) / 2 := by
  induction r using hexPairs.induct with
  | case1 => rfl
  | case2 a => simp [hexPairs]
  | case3 a b rest ih =>
    rw [hexPairs, length_cons, ih, length_cons, length_cons]
    omega

lemma doublePattern_spec {fuel i : Nat} {m : Mem} (h : i ≤ maxPatternSize) :
    i ≤ (doublePattern fuel i m).1 ∧ (doublePattern fuel i m).1 ≤ maxPatternSize ∧
      (i ≤ 1 → (doublePattern fuel i m).1 = i) ∧ ∀ x < i, (doublePattern fuel i m).2 x = m x := by
  induction fuel generalizing i m with
  | zero => exact ⟨le_refl i, h, fun _ => rfl, fun _ _ => rfl⟩
  | succ fuel ih =>
    unfold doublePattern
    split_ifs with hmr
    · obtain ⟨hle, hmax, -, hkp⟩ := @ih (i * 2) (m.store i (m.load 0 i)) hmr.2
      refine ⟨by omega, hmax, fun hone => absurd hone (by omega), fun x hx => ?_⟩
      rw [hkp x (by omega), Mem.store_of_not_mem _ (.inl hx)]
    · exact ⟨le_refl i, h, fun _ => rfl, fun _ _ => rfl⟩

lemma setPattern_spec {bytes : List UInt8} (h : bytes.length ≤ maxPatternSize) :
    (setPattern o bytes).failed = false ∧ (setPattern o bytes).extent ≤ maxPatternSize ∧
      (bytes = [] → (setPattern o bytes).o.verifyPatternBytes = 0) ∧
      (leNat bytes ≠ 0 → Faithful (setPattern o bytes).o (leNat bytes)) := by
  obtain ⟨hle, hmax, hsm, hkp⟩ :=
    @doublePattern_spec maxPatternSize bytes.length (Mem.store o.verifyPattern 0 bytes) h
  unfold setPattern
  generalize doublePattern maxPatternSize bytes.length (Mem.store o.verifyPattern 0 bytes) = d
    at hle hmax hsm hkp ⊢
  refine ⟨rfl, ?_, ?_, fun hne => ?_⟩
  · simp only []
    split_ifs <;> omega
  · rintro rfl
    exact hsm (Nat.zero_le 1)
  · have hby : bytes ≠ [] := by
      rintro rfl
      exact hne rfl
    have hpos := length_pos_of_ne_nil hby
    refine ⟨show 0 < d.1 by omega, fun k hk => ?_⟩
    have hkl := (Nat.pow_lt_pow_iff_right (by decide)).1 (hk.trans_lt (leNat_lt bytes))
    rw [← toNat_getD_leNat, show k % _ = k from Nat.mod_eq_of_lt (show k < d.1 by omega)]
    have hst : d.2 k = bytes.getD k 0 :=
      (hkp k hkl).trans (Mem.store_of_mem _ (Nat.zero_le k) (by rwa [Nat.zero_add]))
    show UInt8.toNat ((if d.1 = 1 then d.2.store 0 (List.replicate maxPatternSize (d.2 0)) else d.2) k) = _
    split_ifs with hone
    · obtain rfl : k = 0 := by omega
      rw [← hst, Mem.store_of_mem _ (Nat.le_refl 0) (by rw [length_replicate]; decide)]
      rfl
    · rw [hst]

lemma behindHex_of_not_mem {x : UInt8} {text : List UInt8} (h : x ∉ text) : behindHex x text = none := by
  fun_induction behindHex x text with
  | case1 c d rest hfn => exact absurd (by simp [hfn.2]) h
  | case2 c d rest _ ih => exact ih fun hmem => h (.tail _ hmem)
  | case3 => rfl

lemma foldl_base (base : Nat) (ds : List UInt8) (v : Nat) :
    ds.foldl (fun (v : Int) c => (base : Int) * v + digitOf c) v =
      (ds.foldl (fun v c => base * v + digitOf c) v : Nat) := by
  induction ds generalizing v with
  | nil => rfl
  | cons c ds ih =>
    rw [foldl_cons, foldl_cons, ← ih]
    push_cast
    rfl

namespace Numeral

variable (t : Numeral)

lemma digitOf_lt {c : UInt8} (h : c ∈ t.digits) : digitOf c < t.base := t.lt c h

lemma not_mem_digits {x : UInt8} (h : digitOf x = 16) : x ∉ t.digits := by
  intro hmem
  have hlt := t.digitOf_lt hmem
  unfold base at hlt
  split_ifs at hlt <;> omega

lemma hexDigits_text : hexDigits t.text = if t.hex then some t.digits else none := by
  have hlw := behindHex_of_not_mem (t.not_mem_digits (x := 120) (by decide))
  have hup := behindHex_of_not_mem (t.not_mem_digits (x := 88) (by decide))
  unfold hexDigits text
  cases t.hex with
  | false => simp [hlw, hup]
  | true =>
    cases t.upper with
    | false => rfl
    | true =>
      have hsk : behindHex 120 (48 :: 88 :: t.digits) = none := by
        refine behindHex_of_not_mem fun hmem => ?_
        simp only [mem_cons] at hmem
        rcases hmem with h | h | h
        · cases h
        · cases h
        · exact t.not_mem_digits (by decide) h
      simp [hsk, behindHex]

lemma patternBase_text : patternBase t.text = t.base := by
  rw [patternBase, base, t.hexDigits_text]
  cases t.hex <;> rfl

lemma strtoll_text_eq : strtoll t.base t.text =
    if 2 ^ 63 ≤ (t.value : Int) then (2 ^ 63 - 1, true) else ((t.value : Int), false) := by
  obtain ⟨c, rest, htx, hdg⟩ : ∃ c rest, t.text = c :: rest ∧ isDigit c = true := by
    unfold text
    cases hhex : t.hex with
    | true => exact ⟨48, _, rfl, by decide⟩
    | false =>
      obtain ⟨c, rest, hds⟩ := exists_cons_of_ne_nil t.ne_nil
      refine ⟨c, rest, hds, ?_⟩
      have hlt := t.lt c (by rw [hds]; exact .head _)
      rw [hhex] at hlt
      rw [← digitOf_lt_ten]
      exact decide_eq_true hlt
  have hsg : scanSign (t.text.dropWhile isSpace) = (false, t.text) := by
    rw [htx, dropWhile_cons_of_neg (by rw [isSpace_of_isDigit hdg]; decide),
      scanSign_of_digit _ hdg]
  have hsk : (if t.base = 16 then skipHex t.text else t.text) = t.digits := by
    unfold base text
    cases t.hex with
    | false => rfl
    | true => cases t.upper <;> rfl
  have htk : t.digits.takeWhile (fun c => decide (digitOf c < t.base)) = t.digits := by
    have hapn := @takeWhile_append_stops [] (fun c => decide (digitOf c < t.base)) t.digits
      (fun c hc => decide_eq_true (t.digitOf_lt hc)) fun c hc => nomatch hc
    rwa [append_nil] at hapn
  have hval := foldl_base t.base t.digits 0
  rw [cast_zero] at hval
  simp only [strtoll, hsg, hsk, htk, hval, Bool.false_eq_true, if_false]
  show (if 2 ^ 63 ≤ (t.value : Int) then _ else if (t.value : Int) < -2 ^ 63 then _ else _) = _
  rw [if_neg (show ¬(t.value : Int) < -2 ^ 63 by omega)]
  rfl

lemma strtoll_of_not_longWay {erange : Bool} (h : ¬LongWay erange t.text) :
    (strtoll (patternBase t.text) t.text).1 = t.value := by
  unfold LongWay at h
  rw [t.patternBase_text, t.strtoll_text_eq] at h ⊢
  split_ifs at h ⊢
  · exact absurd ⟨rfl, .inl rfl⟩ h
  · rfl

lemma value_eq_leNat (h : t.hex) : leNat (hexPairs t.digits.reverse) = t.value := by
  have hbs : t.base = 16 := by
    rw [base, h]
    rfl
  rw [leNat_hexPairs _ fun c hc => hbs ▸ t.digitOf_lt (mem_reverse.1 hc), foldr_reverse]
  rw [value, hbs]

end Numeral

lemma strtoll_lt (base : Nat) (text : List UInt8) : (strtoll base text).1 < 2 ^ 63 := by
  simp only [strtoll]
  split_ifs <;> simp only [] <;> omega

lemma shiftBytes_zero (fuel : Nat) : shiftBytes fuel 0 = some [] := by
  cases fuel <;> rfl

lemma not_faithful_nil (n : Nat) : ¬Faithful (setPattern o []).o n := by
  intro hfth
  have hno := (@setPattern_spec o [] (zero_le _)).2.2.1 rfl
  exact absurd hfth.1 (by rw [hno]; decide)

/-- **When `verify_pattern` is parsed**: exactly when `strtol` returns no negative number and the
    text, if it is a number, is not 0 and on the long way has less than 1024 digits. -/
theorem patternParsed_iff (erange : Bool) (o : ThreadOptions) (input : List UInt8) :
    PatternParsed erange o input ↔ ParsesPattern erange input := by
  unfold PatternParsed ParsesPattern strVerifyPatternCb
  by_cases hln : LongWay erange input
  · have hnon : 0 ≤ (strtoll (patternBase input) input).1 := by
      rw [hln.1]
      decide
    simp only [if_pos hln]
    constructor
    · rintro ⟨fuel, r, hr, -, hfth⟩
      refine ⟨hnon, fun t ht => ⟨fun h0 => ?_, fun hhex _ => ?_⟩⟩
      · subst ht
        have hmax := hln.1
        rw [t.patternBase_text, t.strtoll_text_eq, h0] at hmax
        cases hmax
      · by_contra hmn
        rw [ht, t.hexDigits_text, if_pos hhex] at hr
        simp [if_neg hmn] at hr
        subst hr
        exact not_faithful_nil o _ (hfth t ht rfl)
    · rintro ⟨-, hnmb⟩
      cases hdgt : hexDigits input with
      | none => exact ⟨0, _, rfl, Nat.zero_le _, nofun⟩
      | some digits =>
        have hlen : (if digits.length < maxPatternSize * 2 then hexPairs digits.reverse else []).length ≤
            maxPatternSize := by
          split_ifs with hfew
          · rw [length_hexPairs, length_reverse]
            omega
          · exact Nat.zero_le _
        obtain ⟨-, hext, -, hfth⟩ := setPattern_spec o hlen
        refine ⟨0, _, rfl, hext, fun t ht _ => ?_⟩
        rw [ht, t.hexDigits_text] at hdgt
        split_ifs at hdgt with hhex
        cases hdgt
        obtain ⟨hne, hfew⟩ := hnmb t ht
        rw [if_pos (hfew hhex hln), t.value_eq_leNat hhex] at hfth
        rw [if_pos (hfew hhex hln)]
        exact hfth hne
  · simp only [if_neg hln, Option.map_eq_some_iff]
    constructor
    · rintro ⟨fuel, r, ⟨bytes, hby, rfl⟩, -, hfth⟩
      refine ⟨?_, fun t ht => ⟨fun h0 => ?_, fun _ hcon => absurd hcon hln⟩⟩
      · by_contra hneg
        rw [shiftBytes_neg (by omega)] at hby
        cases hby
      · subst ht
        rw [t.strtoll_of_not_longWay hln, h0] at hby
        cases (shiftBytes_zero fuel).symm.trans hby
        exact not_faithful_nil o _ (hfth t rfl rfl)
    · rintro ⟨hnon, hnmb⟩
      obtain ⟨n, hn⟩ := Int.eq_ofNat_of_zero_le hnon
      have hlt := strtoll_lt (patternBase input) input
      rw [hn] at hlt
      obtain ⟨bytes, hrun, hval, hlen⟩ := @shiftBytes_spec n 8 n (Nat.le_refl n) (by omega)
      obtain ⟨-, hext, -, hfth⟩ := setPattern_spec o (hlen.trans (by decide : 8 ≤ maxPatternSize))
      refine ⟨n, _, ⟨bytes, by rw [hn]; exact hrun, rfl⟩, hext, fun t ht _ => ?_⟩
      subst ht
      have hvalue : leNat bytes = t.value := by
        have := t.strtoll_of_not_longWay hln
        omega
      rw [hvalue] at hfth
      exact hfth (hnmb t rfl).1

theorem patternParsed_minus_one : ¬PatternParsed false default [45, 49] := by
  have hoff : strtoll (patternBase [45, 49]) [45, 49] = (-1, false) := by decide
  have hsh : ¬LongWay false [45, 49] := by decide
  rintro ⟨fuel, r, hr, -⟩
  rw [strVerifyPatternCb, if_neg hsh, hoff, shiftBytes_neg (by decide)] at hr
  cases hr

end FioSsd
