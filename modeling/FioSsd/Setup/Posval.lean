import FioSsd.Lib.Scan
import Mathlib.Data.List.TakeWhile
import Mathlib.Data.List.Nodup

/-! # The values an option accepts

`add_opt_posval` and `del_opt_posval` edit the table of an option, and `__handle_option` looks a text up
in it, for `FIO_OPT_STR`, whose entries all have `or = 0`. -/

namespace FioSsd

open List

structure ValuePair where
  ival : Option (List UInt8)
  oval : BitVec 32
  deriving DecidableEq

namespace ValuePair

def named (vp : ValuePair) : Bool := vp.ival.getD [] ≠ []

def len (vp : ValuePair) : Nat := (vp.ival.getD []).length

end ValuePair

def addOptPosval (ival : List UInt8) : List ValuePair → List ValuePair
  | [] => []
  | vp :: rest =>
    if vp.ival = none then { vp with ival := some ival } :: rest else vp :: addOptPosval ival rest

def delOptPosval (ival : List UInt8) (posval : List ValuePair) : List ValuePair :=
  posval.map fun vp => if vp.ival = some ival then { vp with ival := none } else vp

/-- `qsort` with `vp_cmp`, which leaves the order of names of one length open. -/
structure Qsort where
  sort : List ValuePair → List ValuePair
  perm : ∀ vps, sort vps ~ vps
  sorted : ∀ vps, (sort vps).Pairwise fun a b => b.len ≤ a.len

def posvalSort (q : Qsort) (posval : List ValuePair) : List ValuePair :=
  q.sort (posval.takeWhile (·.named))

/-- `__handle_option`: the entry whose value is stored last, none if no value is. -/
def handleStrOption (q : Qsort) (posval : List ValuePair) (ptr : List UInt8) : Option ValuePair :=
  (posvalSort q posval).foldl
    (fun found vp => if ptr.takeWhile (· ≠ 58) <+: vp.ival.getD [] then some vp else found) none

inductive PosvalEdit
  | add (ival : List UInt8)
  | del (ival : List UInt8)

def PosvalEdit.apply : List ValuePair → PosvalEdit → List ValuePair
  | posval, .add ival => addOptPosval ival posval
  | posval, .del ival => delOptPosval ival posval

def liveNames (posval : List ValuePair) : List (List UInt8) := posval.filterMap (·.ival)

/-- The names are pairwise distinct, and none is empty or has a `':'`. -/
structure NamesOk (posval : List ValuePair) : Prop where
  nodup : (liveNames posval).Nodup
  plain : ∀ name ∈ liveNames posval, name ≠ [] ∧ 58 ∉ name

/-- Only new names are added. -/
def EditsOk (posval : List ValuePair) : List PosvalEdit → Prop
  | [] => True
  | .add ival :: edits => (ival ∉ liveNames posval ∧ ival ≠ [] ∧ 58 ∉ ival) ∧
    EditsOk (addOptPosval ival posval) edits
  | .del ival :: edits => EditsOk (delOptPosval ival posval) edits

/-- No free slot stands before a name. -/
def NoHole (posval : List ValuePair) : Prop := ∀ vp ∈ posval.dropWhile (·.named), vp.ival = none

section

variable {q : Qsort} {posval start : List ValuePair} {vp : ValuePair} {name : List UInt8}
  {edits : List PosvalEdit}

lemma liveNames_add (ival : List UInt8) (posval : List ValuePair) :
    liveNames (addOptPosval ival posval) ~ ival :: liveNames posval ∨
      liveNames (addOptPosval ival posval) = liveNames posval := by
  unfold liveNames
  induction posval with
  | nil => exact .inr rfl
  | cons vp rest ih =>
    rw [addOptPosval]
    cases hnm : vp.ival with
    | none =>
      rw [if_pos rfl, filterMap_cons_none hnm]
      exact .inl (Perm.refl _)
    | some name =>
      rw [if_neg (by simp), filterMap_cons_some hnm, filterMap_cons_some hnm]
      rcases ih with hpr | heq
      · exact .inl ((hpr.cons name).trans (Perm.swap _ _ _))
      · exact .inr (congrArg _ heq)

lemma liveNames_del (ival : List UInt8) (posval : List ValuePair) :
    liveNames (delOptPosval ival posval) <+ liveNames posval := by
  unfold liveNames delOptPosval
  induction posval with
  | nil => exact nil_sublist _
  | cons vp rest ih =>
    rw [map_cons]
    cases hnm : vp.ival with
    | none => simpa [hnm] using ih
    | some name =>
      rw [filterMap_cons_some hnm]
      split_ifs with h
      · rw [filterMap_cons_none rfl]
        exact ih.cons name
      · rw [filterMap_cons_some hnm]
        exact ih.cons_cons name

lemma NamesOk.edit {edit : PosvalEdit} (h : NamesOk posval) (hed : EditsOk posval (edit :: edits)) :
    NamesOk (edit.apply posval) ∧ EditsOk (edit.apply posval) edits := by
  cases edit with
  | add ival =>
    obtain ⟨⟨hnew, hpl⟩, hrs⟩ := hed
    refine ⟨?_, hrs⟩
    rcases liveNames_add ival posval with hpr | heq
    · refine ⟨hpr.nodup_iff.2 (nodup_cons.2 ⟨hnew, h.nodup⟩), fun name hnm => ?_⟩
      rcases mem_cons.1 (hpr.subset hnm) with rfl | hold
      · exact hpl
      · exact h.plain name hold
    · exact ⟨heq ▸ h.nodup, heq ▸ h.plain⟩
  | del ival =>
    have hsub := liveNames_del ival posval
    exact ⟨⟨h.nodup.sublist hsub, fun name hnm => h.plain name (hsub.subset hnm)⟩, hed⟩

lemma NamesOk.run (h : NamesOk posval) (hed : EditsOk posval edits) :
    NamesOk (edits.foldl PosvalEdit.apply posval) := by
  induction edits generalizing posval with
  | nil => exact h
  | cons edit edits ih =>
    obtain ⟨hnx, hrs⟩ := h.edit hed
    exact ih hnx hrs

variable {p : ValuePair → Bool}

lemma foldl_found_append {before behind : List ValuePair} (hvp : p vp = true)
    (h : ∀ b ∈ behind, p b = false) :
    (before ++ vp :: behind).foldl (fun found b => if p b then some b else found) none = some vp := by
  rw [foldl_append, foldl_cons, if_pos hvp]
  clear hvp
  induction behind with
  | nil => rfl
  | cons b behind ih =>
    rw [foldl_cons, if_neg (by simp [h b mem_cons_self])]
    exact ih fun c hc => h c (mem_cons_of_mem b hc)

lemma mem_of_foldl_found {vps : List ValuePair} {found : Option ValuePair}
    (h : vps.foldl (fun found b => if p b then some b else found) found = some vp) :
    vp ∈ vps ∨ found = some vp := by
  induction vps generalizing found with
  | nil => exact .inr h
  | cons b vps ih =>
    rcases ih h with hmem | hfn
    · exact .inl (mem_cons_of_mem b hmem)
    · change (if p b = true then _ else _) = _ at hfn
      split_ifs at hfn with hb
      · cases hfn
        exact .inl mem_cons_self
      · exact .inr hfn

lemma mem_liveNames (h : vp ∈ posval) (hnm : vp.ival = some name) : name ∈ liveNames posval :=
  mem_filterMap.2 ⟨vp, h, hnm⟩

/-- A name of the sorted part is found: what stands behind it is not longer. -/
lemma handleStrOption_of_mem (h : NamesOk posval) (hmem : vp ∈ posval.takeWhile (·.named))
    (hnm : vp.ival = some name) : handleStrOption q posval name = some vp := by
  obtain ⟨before, behind, hsp⟩ := append_of_mem ((q.perm _).mem_iff.2 hmem)
  obtain ⟨hne, hpl⟩ := h.plain name (mem_liveNames ((takeWhile_sublist _).subset hmem) hnm)
  have hptr : name.takeWhile (· ≠ 58) = name :=
    takeWhile_eq_self_iff.2 fun c hc => by simpa using ne_of_mem_of_not_mem hc hpl
  rw [handleStrOption, posvalSort, hsp, hptr]
  have hsrt := q.sorted (posval.takeWhile (·.named))
  have hdst : (liveNames (q.sort (posval.takeWhile (·.named)))).Nodup :=
    ((q.perm _).filterMap _).nodup_iff.2
      (h.nodup.sublist ((takeWhile_sublist _).filterMap _))
  rw [hsp] at hsrt hdst
  have hfl := @foldl_found_append vp (fun b => decide (name <+: b.ival.getD [])) before behind
    (by simp [hnm]) fun b hb => ?_
  · simpa using hfl
  · have hlen := (pairwise_cons.1 (pairwise_append.1 hsrt).2.1).1 b hb
    have hoth : b.ival ≠ some name := fun heq => by
      rw [liveNames, filterMap_append, filterMap_cons_some hnm] at hdst
      exact (nodup_cons.1 (nodup_append.1 hdst).2.1).1 (mem_liveNames hb heq)
    refine decide_eq_false fun hstr => hoth ?_
    -- a prefix that is not shorter is the whole name
    have hwh := hstr.eq_of_length_le (by simpa [ValuePair.len, hnm] using hlen)
    cases hb : b.ival with
    | none => exact absurd (by simpa [hb] using hwh) hne
    | some text => simpa [hb] using hwh.symm

/-- **When every live name can be selected**: exactly if no free slot stands before one. -/
theorem posval_selectable_iff (q : Qsort) (hstart : NamesOk start) (hedits : EditsOk start edits) :
    (∀ vp ∈ edits.foldl PosvalEdit.apply start, ∀ name, vp.ival = some name →
      handleStrOption q (edits.foldl PosvalEdit.apply start) name = some vp) ↔
    NoHole (edits.foldl PosvalEdit.apply start) := by
  have h := hstart.run hedits
  generalize edits.foldl PosvalEdit.apply start = posval at h
  have hpr : posval.takeWhile (·.named) ++ posval.dropWhile (·.named) = posval :=
    takeWhile_append_dropWhile
  constructor
  · intro hall vp hvp
    by_contra hlv
    obtain ⟨name, hnm⟩ := Option.ne_none_iff_exists'.1 hlv
    have hfn := hall vp ((dropWhile_suffix _).subset hvp) name hnm
    have hmem : vp ∈ posval.takeWhile (·.named) := by
      rcases mem_of_foldl_found (p := fun b => decide (name.takeWhile (· ≠ 58) <+: b.ival.getD []))
        (by simpa [handleStrOption] using hfn) with hin | hno
      · exact (q.perm _).mem_iff.1 hin
      · cases hno
    -- the name would stand in both parts of the table
    have hnd := h.nodup
    rw [← hpr, liveNames, filterMap_append] at hnd
    exact disjoint_of_nodup_append hnd (mem_liveNames hmem hnm) (mem_liveNames hvp hnm)
  · intro hhl vp hvp name hnm
    rw [← hpr, mem_append] at hvp
    rcases hvp with hin | hbhn
    · exact handleStrOption_of_mem h hin hnm
    · cases hnm.symm.trans (hhl vp hbhn)

end

def mergeQsort : Qsort where
  sort vps := vps.mergeSort fun a b => b.len ≤ a.len
  perm vps := mergeSort_perm vps _
  sorted vps := (pairwise_mergeSort (by simpa using fun _ _ _ h h' => h'.trans h)
    (by simpa using fun a b => Nat.le_total (ValuePair.len b) (ValuePair.len a)) vps).imp (by simp)

/-- The values `"a"` and `"ab"` of an option, in front of the free slots. -/
def abTable : List ValuePair := ⟨some [97], 1⟩ :: ⟨some [97, 98], 2⟩ :: replicate 14 ⟨none, 0⟩

lemma abTable_ok : NamesOk abTable := ⟨by decide, by decide⟩

theorem posval_selectable_short :
    handleStrOption mergeQsort (addOptPosval [97, 99] abTable) [97] = some ⟨some [97], 1⟩ :=
  (@posval_selectable_iff abTable [.add [97, 99]] mergeQsort abTable_ok ⟨by decide, trivial⟩).2
    (by unfold NoHole; decide) _ (by decide) [97] rfl

/-- With `"ab"` deleted, `"ac"` is not accepted any more. -/
theorem posval_hidden :
    ⟨some [97, 99], 0⟩ ∈ delOptPosval [97, 98] (addOptPosval [97, 99] abTable) ∧ ¬∃ q,
      (handleStrOption q (delOptPosval [97, 98] (addOptPosval [97, 99] abTable)) [97, 99]).isSome := by
  refine ⟨by decide, ?_⟩
  rintro ⟨q, hacp⟩
  have hsr : q.sort ((delOptPosval [97, 98] (addOptPosval [97, 99] abTable)).takeWhile (·.named)) =
      [⟨some [97], 1⟩] := perm_singleton.1 (q.perm _)
  rw [handleStrOption, posvalSort, hsr] at hacp
  exact absurd hacp (by decide)

end FioSsd
