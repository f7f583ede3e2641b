import Mathlib.Tactic

/-! # Substitutions in option strings

`option_dup_subs` (`options.c`) expands `${NAME}` from the environment. -/

namespace FioSsd

open List

def optLenMax : Nat := 4096

/-- The name and the text behind it, if `${NAME}` stands at `inptr`. -/
def variableAt : List UInt8 → Option (List UInt8 × List UInt8)
  | 36 :: 123 :: ch1 =>
    match ch1.dropWhile (· ≠ 125) with
    | _ :: behind => some (ch1.takeWhile (· ≠ 125), behind)
    | [] => none
  | _ => none

lemma variableAt_length {inptr name behind : List UInt8}
    (h : variableAt inptr = some (name, behind)) : behind.length < inptr.length := by
  unfold variableAt at h
  split at h
  · next ch1 =>
    split at h
    · next hdrop =>
      cases h
      have hle := (dropWhile_sublist (· ≠ 125) (l := ch1)).length_le
      rw [hdrop] at hle
      simp at hle ⊢
      omega
    · cases h
  · cases h

variable (getenv : List UInt8 → Option (List UInt8))

/-- The loop of `option_dup_subs` with `nchr` characters of room: what it writes for the text at
    `inptr`. -/
def subsLoop (nchr : Nat) (inptr : List UInt8) : List UInt8 :=
  if nchr = 0 then []
  else
    match hvar : variableAt inptr with
    | some (name, behind) =>
      have := variableAt_length hvar
      match getenv name with
      | some env =>
        if env.length ≤ nchr then env ++ subsLoop (nchr - env.length) behind
        else subsLoop nchr behind
      | none => subsLoop nchr behind
    | none =>
      match inptr with
      | [] => []
      | c :: rest => c :: subsLoop (nchr - 1) rest
  termination_by inptr.length

def optionDupSubs (opt : List UInt8) : Option (List UInt8) :=
  if optLenMax < opt.length + 1 then none else some (subsLoop getenv optLenMax opt)

/-- The full expansion. -/
def expand (text : List UInt8) : List UInt8 :=
  match hvar : variableAt text with
  | some (name, behind) =>
    have := variableAt_length hvar
    (getenv name).getD [] ++ expand behind
  | none =>
    match text with
    | [] => []
    | c :: rest => c :: expand rest
  termination_by text.length

lemma expand_variable {text name behind : List UInt8} (h : variableAt text = some (name, behind)) :
    expand getenv text = (getenv name).getD [] ++ expand getenv behind := by
  rw [expand]
  split
  · next hvr' =>
    cases h.symm.trans hvr'
    rfl
  · next hvr' => cases h.symm.trans hvr'

lemma expand_cons {c : UInt8} {rest : List UInt8} (h : variableAt (c :: rest) = none) :
    expand getenv (c :: rest) = c :: expand getenv rest := by
  rw [expand]
  split
  · next hvr' => cases h.symm.trans hvr'
  · rfl

lemma length_subsLoop_le (nchr : Nat) (inptr : List UInt8) :
    (subsLoop getenv nchr inptr).length ≤ nchr := by
  fun_induction subsLoop getenv nchr inptr with
  | case1 => exact Nat.le_refl 0
  | case2 nchr inptr _ name behind _ _ env _ hrm ih =>
    rw [length_append]
    omega
  | case3 nchr inptr _ name behind _ _ env _ hrm ih => exact ih
  | case4 nchr inptr _ name behind _ _ _ ih => exact ih
  | case5 => exact Nat.zero_le _
  | case6 nchr hpos c rest _ ih =>
    rw [length_cons]
    omega

lemma subsLoop_eq_expand (nchr : Nat) (inptr : List UInt8)
    (h : (expand getenv inptr).length ≤ nchr) : subsLoop getenv nchr inptr = expand getenv inptr := by
  fun_induction subsLoop getenv nchr inptr with
  | case1 inptr => exact (eq_nil_of_length_eq_zero (Nat.le_zero.1 h)).symm
  | case2 nchr inptr _ name behind hvar _ env henv hrm ih =>
    rw [expand_variable getenv hvar, henv, Option.getD_some] at h ⊢
    rw [length_append] at h
    rw [ih (by omega)]
  | case3 nchr inptr _ name behind hvar _ env henv hrm ih =>
    -- a value that does not fit makes the expansion too long
    rw [expand_variable getenv hvar, henv, Option.getD_some, length_append] at h
    omega
  | case4 nchr inptr _ name behind hvar _ henv ih =>
    rw [expand_variable getenv hvar, henv, Option.getD_none, nil_append] at h ⊢
    exact ih h
  | case5 => rw [expand]; rfl
  | case6 nchr hpos c rest hvar ih =>
    rw [expand_cons getenv hvar] at h ⊢
    rw [length_cons] at h
    rw [ih (by omega)]

/-- A string shorter than `OPT_LEN_MAX` is expanded within the buffer, and whole if it fits. -/
theorem optionDupSubs_expands (opt : List UInt8) (hlen : opt.length < optLenMax) :
    ∃ out, optionDupSubs getenv opt = some out ∧ out.length ≤ optLenMax ∧
      ((expand getenv opt).length ≤ optLenMax → out = expand getenv opt) :=
  ⟨_, if_neg (by omega), length_subsLoop_le getenv _ opt, subsLoop_eq_expand getenv _ opt⟩

theorem optionDupSubs_expands_home :
    ∃ out, optionDupSubs (fun _ => some [47]) [36, 123, 72, 125] = some out ∧ out.length ≤ optLenMax ∧
      ((expand (fun _ => some [47]) [36, 123, 72, 125]).length ≤ optLenMax →
        out = expand (fun _ => some [47]) [36, 123, 72, 125]) :=
  optionDupSubs_expands _ _ (by decide)

end FioSsd
