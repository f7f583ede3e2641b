import Mathlib.Tactic

/-! # Reading the clock

`fio_gettime` (`gettime.c`) returns the time of its clock source, and the last time it returned
where the source has gone back. -/

namespace FioSsd

structure Timeval where
  (tvSec tvUsec : Nat)
  normal : tvUsec < 1000000

def Timeval.usecs (tv : Timeval) : Nat := tv.tvSec * 1000000 + tv.tvUsec

def fixTime (last : Option Timeval) (tp : Timeval) : Timeval :=
  match last with
  | none => tp
  | some last =>
    if tp.tvSec < last.tvSec then { tp with tvSec := last.tvSec }
    else if last.tvSec = tp.tvSec ∧ tp.tvUsec < last.tvUsec then
      { tvSec := tp.tvSec, tvUsec := last.tvUsec, normal := last.normal }
    else tp

/-- The times that calls of `fio_gettime` return for the readings of the clock. -/
def fioGettimes (offload : Bool) (last : Option Timeval) : List Timeval → List Timeval
  | [] => []
  | tp :: readings =>
    if offload then tp :: fioGettimes offload last readings
    else fixTime last tp :: fioGettimes offload (some (fixTime last tp)) readings

def KeepsUsec (last : Option Timeval) : List Timeval → Prop
  | [] => True
  | tp :: readings => (∀ l ∈ last, tp.tvSec < l.tvSec → l.tvUsec ≤ tp.tvUsec) ∧
      KeepsUsec (some (fixTime last tp)) readings

lemma usecs_le_fixTime_iff (last tp : Timeval) : last.usecs ≤ (fixTime (some last) tp).usecs ↔
    (tp.tvSec < last.tvSec → last.tvUsec ≤ tp.tvUsec) := by
  have hla := last.normal
  have htp := tp.normal
  unfold fixTime Timeval.usecs
  simp only
  split_ifs with hbc heq
  · simp only [hbc, forall_const]
    omega
  all_goals
    simp only [hbc, false_implies, iff_true]
    omega

lemma fioGettimes_sorted_iff {last : Option Timeval} {readings : List Timeval} :
    (last.toList ++ fioGettimes false last readings).IsChain (·.usecs ≤ ·.usecs) ↔
      KeepsUsec last readings := by
  induction readings generalizing last with
  | nil => cases last <;> simp [fioGettimes, KeepsUsec]
  | cons tp readings ih =>
    rw [KeepsUsec, ← ih]
    cases last with
    | none => simp [fioGettimes]
    | some last => simp [fioGettimes, usecs_le_fixTime_iff]

/-- **When time does not go backwards**: no reading goes back over a second to a smaller part of
    one, or, read by another thread, the readings are in order. -/
theorem fioGettimes_monotone_iff (offload : Bool) (readings : List Timeval) :
    (fioGettimes offload none readings).Pairwise (·.usecs ≤ ·.usecs) ↔
      if offload then readings.Pairwise (·.usecs ≤ ·.usecs) else KeepsUsec none readings := by
  cases offload with
  | true =>
    have hall : fioGettimes true none readings = readings := by
      induction readings with
      | nil => rfl
      | cons tp readings ih => rw [fioGettimes, if_pos rfl, ih]
    rw [hall, if_pos rfl]
  | false =>
    rw [if_neg (by decide), ← fioGettimes_sorted_iff, ← List.isChain_iff_pairwise]
    rfl

/-- A reading of 0.4 seconds behind one of 1.5 seconds gives 1.4 seconds. -/
theorem fioGettimes_goes_back :
    ¬(fioGettimes false none [⟨1, 500000, by decide⟩, ⟨0, 400000, by decide⟩]).Pairwise
      (·.usecs ≤ ·.usecs) := by
  unfold fioGettimes
  decide

end FioSsd
