import FioSsd.Setup.Restore

/-! # Keywords in option strings

`fio_keyword_replace` (`options.c`) builds a new string for every keyword it finds. -/

namespace FioSsd

open List Option

structure Keyword where
  (word replace : List UInt8)
  word_long : 2 ≤ word.length
  replace_noNul : 0 ∉ replace

/-- The place of the first `word` in the text. -/
def strstr (word : List UInt8) : List UInt8 → Option Nat
  | [] => none
  | c :: rest => if word <+: c :: rest then some 0 else (strstr word rest).map (· + 1)

namespace Keyword

variable (kw : Keyword) (olen : Nat) (opt : List UInt8)

def text : List UInt8 := opt.take olen ++ kw.replace

def tail : List UInt8 := opt.drop (olen + kw.word.length)

/-- What the second `memcpy` copies: as many bytes as stand before the tail, less one. -/
def count : Nat := if kw.tail olen opt = [] then 0 else olen + kw.word.length - 1

/-- The new string, with what `malloc` returns in `fresh` and what follows the old string in `past`. -/
def newBuffer (fresh past : Nat → UInt8) : List UInt8 :=
  kw.text olen opt ++
    ((kw.tail olen opt ++ 0 :: (range (kw.count olen opt)).map past).take (kw.count olen opt) ++
      (0 :: (range (opt.length - (kw.text olen opt).length)).map fresh).drop (kw.count olen opt))

/-- One replacement, none if it writes beyond its `strlen(opt) + 1` bytes or leaves no terminator. -/
def replaceIn (fresh past : Nat → UInt8) : Option (List UInt8) :=
  if opt.length + 1 < olen + kw.replace.length + max 1 (kw.count olen opt) then none
  else if 0 ∈ kw.newBuffer olen opt fresh past then some (cstr (kw.newBuffer olen opt fresh past))
  else none

/-- The copied bytes hold the tail with its NUL and end inside the buffer. -/
def Fits : Prop :=
  if kw.tail olen opt = [] then kw.replace.length ≤ kw.word.length
  else olen + kw.replace.length ≤ (kw.tail olen opt).length + 2 ∧
    (kw.tail olen opt).length + 2 ≤ olen + kw.word.length
deriving Decidable

end Keyword

abbrev KeywordStep := Keyword → Nat → List UInt8 → Option (List UInt8)

/-- The loops over the keywords and the places of each, with a function for the replacement. -/
def keywordLoop (step : KeywordStep) (kw : Keyword) :
    Nat → List UInt8 → Option (List UInt8)
  | 0, _ => none
  | fuel + 1, opt =>
    match strstr kw.word opt with
    | none => some opt
    | some olen => (step kw olen opt).bind (keywordLoop step kw fuel)

def keywordReplace (step : KeywordStep) (fuel : Nat) :
    List Keyword → List UInt8 → Option (List UInt8)
  | [], opt => some opt
  | kw :: kws, opt => (keywordLoop step kw fuel opt).bind (keywordReplace step fuel kws)

section

variable {kw : Keyword} {olen fuel : Nat} {opt word res : List UInt8} {fresh past : Nat → UInt8}
  {step step' : KeywordStep}

lemma strstr_le (h : strstr word opt = some olen) : olen + word.length ≤ opt.length := by
  induction opt generalizing olen with
  | nil => cases h
  | cons c rest ih =>
    rw [strstr] at h
    split_ifs at h with hstr
    · cases h
      simpa using hstr.length_le
    · obtain ⟨i, hi, rfl⟩ := map_eq_some_iff.1 h
      have := ih hi
      rw [length_cons]
      omega

namespace Keyword

lemma noNul (hopt : 0 ∉ opt) : 0 ∉ kw.text olen opt ++ kw.tail olen opt := by
  simp only [text, tail, mem_append, not_or]
  exact ⟨⟨fun h => hopt (mem_of_mem_take h), kw.replace_noNul⟩, fun h => hopt (mem_of_mem_drop h)⟩

lemma newBuffer_of_fits (h : kw.Fits olen opt) : ∃ rest,
    kw.newBuffer olen opt fresh past = (kw.text olen opt ++ kw.tail olen opt) ++ 0 :: rest := by
  unfold newBuffer
  by_cases hnil : kw.tail olen opt = []
  · rw [count, if_pos hnil, hnil]
    exact ⟨_, by simp; rfl⟩
  · rw [Fits, if_neg hnil] at h
    obtain ⟨m, hm⟩ : ∃ m, kw.count olen opt = (kw.tail olen opt).length + (m + 1) :=
      ⟨kw.count olen opt - (kw.tail olen opt).length - 1, by rw [count, if_neg hnil]; omega⟩
    rw [hm, take_length_add_append, take_succ_cons]
    exact ⟨_, by simp; rfl⟩

lemma replaceIn_of_fits (hopt : 0 ∉ opt) (hle : olen + kw.word.length ≤ opt.length)
    (h : kw.Fits olen opt) :
    kw.replaceIn olen opt fresh past = some (kw.text olen opt ++ kw.tail olen opt) := by
  obtain ⟨rest, hbuf⟩ := @newBuffer_of_fits kw olen opt fresh past h
  have hlen : (kw.tail olen opt).length = opt.length - (olen + kw.word.length) := length_drop
  have hrm : ¬opt.length + 1 < olen + kw.replace.length + max 1 (kw.count olen opt) := by
    unfold Fits at h
    unfold count
    split_ifs at h ⊢ with hnil
    all_goals omega
  rw [replaceIn, if_neg hrm, hbuf, if_pos (by simp), cstr_nul (noNul hopt)]

lemma replaceIn_of_not_fits (hopt : 0 ∉ opt) (hle : olen + kw.word.length ≤ opt.length)
    (hft : ¬kw.Fits olen opt) : kw.replaceIn olen opt (fun _ => 1) past = none := by
  have hlen : (kw.tail olen opt).length = opt.length - (olen + kw.word.length) := length_drop
  have hln := kw.word_long
  unfold replaceIn
  split_ifs with hrm hnul
  · rfl
  · exfalso
    by_cases hnil : kw.tail olen opt = []
    · rw [Fits, if_pos hnil] at hft
      rw [hnil, length_nil] at hlen
      omega
    · rw [Fits, if_neg hnil] at hft
      have hcnt : kw.count olen opt = olen + kw.word.length - 1 := if_neg hnil
      -- the bytes that are copied end before the NUL, and no other NUL is left
      obtain ⟨m, hm⟩ : ∃ m, kw.count olen opt = m + 1 := ⟨kw.count olen opt - 1, by omega⟩
      rw [newBuffer, take_append_of_le_length (by omega), hm, drop_succ_cons, ← hm] at hnul
      have hno := @noNul kw olen opt hopt
      simp only [mem_append, not_or] at hnul hno
      rcases hnul with h | h | h
      · exact hno.1 h
      · exact hno.2 (mem_of_mem_take h)
      · have := mem_of_mem_drop h
        simp at this
  · rfl

end Keyword

lemma keywordLoop_mono (hopt : 0 ∉ opt)
    (hst : ∀ olen opt t, 0 ∉ opt → olen + kw.word.length ≤ opt.length → step kw olen opt = some t →
      step' kw olen opt = some t ∧ 0 ∉ t) (h : keywordLoop step kw fuel opt = some res) :
    keywordLoop step' kw fuel opt = some res ∧ 0 ∉ res := by
  induction fuel generalizing opt with
  | zero => cases h
  | succ fuel ih =>
    rw [keywordLoop] at h ⊢
    cases hfn : strstr kw.word opt with
    | none =>
      rw [hfn] at h
      cases h
      exact ⟨rfl, hopt⟩
    | some olen =>
      rw [hfn] at h
      obtain ⟨t, ht, hrs⟩ := bind_eq_some_iff.1 h
      obtain ⟨ht', hnul⟩ := hst olen opt t hopt (strstr_le hfn) ht
      dsimp only
      rw [ht', bind_some]
      exact ih hnul hrs

lemma keywordReplace_mono {kws : List Keyword} (hopt : 0 ∉ opt)
    (hst : ∀ kw olen opt t, 0 ∉ opt → olen + kw.word.length ≤ opt.length →
      step kw olen opt = some t → step' kw olen opt = some t ∧ 0 ∉ t)
    (h : keywordReplace step fuel kws opt = some res) : keywordReplace step' fuel kws opt = some res := by
  induction kws generalizing opt with
  | nil => exact h
  | cons kw kws ih =>
    obtain ⟨t, ht, hrs⟩ := bind_eq_some_iff.1 h
    obtain ⟨ht', hnul⟩ := keywordLoop_mono hopt (hst kw) ht
    rw [keywordReplace, ht', bind_some]
    exact ih hnul hrs

end

/-- The replacement as text. -/
def substituteText : KeywordStep := fun kw olen opt => some (kw.text olen opt ++ kw.tail olen opt)

/-- The replacement as text, where it fits. -/
def substituteFitting : KeywordStep := fun kw olen opt =>
  if kw.Fits olen opt then substituteText kw olen opt else none

/-- The replacement in memory. -/
def substituteIn (fresh past : Nat → UInt8) : KeywordStep := fun kw olen opt =>
  kw.replaceIn olen opt fresh past

/-- **When keywords are replaced as text**, inside the memory and with a terminator whatever the memory
    held before: exactly if every replacement on the way fits. -/
theorem keywordReplace_right_iff (kws : List Keyword) {opt : List UInt8} (hopt : 0 ∉ opt) :
    (∃ fuel res, keywordReplace substituteText fuel kws opt = some res ∧
      ∀ fresh past, keywordReplace (substituteIn fresh past) fuel kws opt = some res) ↔
    ∃ fuel, (keywordReplace substituteFitting fuel kws opt).isSome := by
  constructor
  · rintro ⟨fuel, res, -, hall⟩
    refine ⟨fuel, Option.isSome_iff_exists.2 ⟨res, ?_⟩⟩
    refine keywordReplace_mono hopt (fun kw olen opt t hopt hle ht => ?_) (hall (fun _ => 1) fun _ => 1)
    by_cases hft : kw.Fits olen opt
    · rw [substituteIn, kw.replaceIn_of_fits hopt hle hft] at ht
      cases ht
      exact ⟨if_pos hft, Keyword.noNul hopt⟩
    · rw [substituteIn, kw.replaceIn_of_not_fits hopt hle hft] at ht
      cases ht
  · rintro ⟨fuel, hso⟩
    obtain ⟨res, hres⟩ := Option.isSome_iff_exists.1 hso
    have hfit : ∀ (kw : Keyword) olen opt t, 0 ∉ opt → substituteFitting kw olen opt = some t →
        kw.Fits olen opt ∧ kw.text olen opt ++ kw.tail olen opt = t ∧ 0 ∉ t := by
      intro kw olen opt t hopt ht
      unfold substituteFitting at ht
      split_ifs at ht with hft
      cases ht
      exact ⟨hft, rfl, Keyword.noNul hopt⟩
    refine ⟨fuel, res, keywordReplace_mono hopt ?_ hres, fun fresh past => keywordReplace_mono hopt ?_ hres⟩
    · intro kw olen opt t hopt _ ht
      obtain ⟨-, rfl, hnul⟩ := hfit kw olen opt t hopt ht
      exact ⟨rfl, hnul⟩
    · intro kw olen opt t hopt hle ht
      obtain ⟨hft, rfl, hnul⟩ := hfit kw olen opt t hopt ht
      exact ⟨kw.replaceIn_of_fits hopt hle hft, hnul⟩

/-- `$ncpus` on a machine with 8 of them. -/
def ncpus : Keyword := ⟨[36, 110, 99, 112, 117, 115], [56], by decide, by decide⟩

theorem keywordReplace_right_ncpus : ∃ fuel res,
    keywordReplace substituteText fuel [ncpus] (61 :: ncpus.word) = some res ∧
      ∀ fresh past, keywordReplace (substituteIn fresh past) fuel [ncpus] (61 :: ncpus.word) = some res :=
  (keywordReplace_right_iff [ncpus] (by decide)).2 ⟨2, by decide⟩

/-- Of the eight bytes behind `"=$ncpus"` only six are copied, and no terminator. -/
theorem keywordReplace_cuts_tail :
    keywordReplace substituteText 2 [ncpus] (61 :: ncpus.word ++ replicate 8 48) =
      some (61 :: 56 :: replicate 8 48) ∧
    keywordReplace (substituteIn (fun _ => 1) fun _ => 1) 2 [ncpus]
      (61 :: ncpus.word ++ replicate 8 48) = none := by
  decide

end FioSsd
