import Mathlib.Algebra.BigOperators.Group.Finset.Basic
import Mathlib.Algebra.Order.BigOperators.Group.Finset
import FioSsd.Backend.GetIoU
import FioSsd.History.Files

/-! # References to the files of a job

`f->references` is taken by `td_io_open_file` for the open itself and by each unit that gets the
file (`set_io_u_file`, `get_next_verify`, `get_next_trim`), and given back by `put_io_u`,
`verify_io_u_async` and `td_io_close_file`. -/

namespace FioSsd

open Finset History Bool IoU

open Function (update update_self update_of_ne)

/-- The unit has the file and has not given its reference back: `verify_io_u_async` does that before
    it sets `IO_U_F_FREE_DEF`. -/
def IoU.Holds (ioU : IoU) (f : FileId) : Prop := ioU.file = some f ∧ ioU.freeDef = false
deriving Decidable

def IoU.ref (ioU : IoU) (f : FileId) : Int := if ioU.Holds f then 1 else 0

lemma IoU.ref_nonneg (ioU : IoU) (f : FileId) : 0 ≤ ioU.ref f := by
  unfold ref
  split_ifs <;> decide

variable {f : FileId} {ioU : IoU}

lemma IoU.ref_of_file (h : ioU.file = some f) (hdef : ioU.freeDef = false) (g : FileId)
    : ioU.ref g = if g = f then 1 else 0 := by
  unfold ref
  by_cases hg : g = f
  · subst hg
    rw [if_pos ⟨h, hdef⟩, if_pos rfl]
  · rw [if_neg hg, if_neg]
    intro hhl
    exact hg (Option.some.inj (hhl.1.symm.trans h))

lemma IoU.ref_of_none (h : ioU.file = none) (f : FileId) : ioU.ref f = 0 := by
  rw [ref, if_neg]
  intro hhl
  cases h.symm.trans hhl.1

lemma IoU.ref_of_freeDef (h : ioU.freeDef = true) (f : FileId) : ioU.ref f = 0 := by
  rw [ref, if_neg]
  intro hhl
  cases h.symm.trans hhl.2

lemma IoU.ref_congr {ioU ioU' : IoU} (h : ioU'.file = ioU.file) (hdef : ioU'.freeDef = ioU.freeDef)
    (f : FileId) : ioU'.ref f = ioU.ref f := by
  have hhl : ioU'.Holds f ↔ ioU.Holds f := by
    unfold Holds
    rw [h, hdef]
  exact if_congr hhl rfl rfl

namespace Td

def held (td : Td) (n : Nat) (f : FileId) : Int := ∑ u ∈ Finset.range n, (td.ioUs u).ref f

lemma held_nonneg (td : Td) (n : Nat) (f : FileId) : 0 ≤ td.held n f :=
  sum_nonneg fun u _ => (td.ioUs u).ref_nonneg f

lemma held_write {td td' : Td} {n u : Nat} (hu : u < n) (h : ∀ v, v ≠ u → td'.ioUs v = td.ioUs v)
    (f : FileId) :
    td'.held n f = td.held n f - (td.ioUs u).ref f + (td'.ioUs u).ref f := by
  have hmem := mem_range.2 hu
  have hrs : ∑ v ∈ (range n).erase u, (td'.ioUs v).ref f =
      ∑ v ∈ (range n).erase u, (td.ioUs v).ref f := by
    refine sum_congr rfl fun v hv => ?_
    rw [h v (ne_of_mem_erase hv)]
  have hpre := add_sum_erase (range n) (fun v => (td.ioUs v).ref f) hmem
  have hbhn := add_sum_erase (range n) (fun v => (td'.ioUs v).ref f) hmem
  simp only [hrs] at hbhn
  unfold held
  omega

end Td

/-- **The references of a file**: the one of the open, until `td_io_close_file` gives it back, and
one for each holder. -/
structure FioFile.Balanced (file : FioFile) (held : Int) : Prop where
  references : file.isOpen = true → file.references = (if file.closing then 0 else 1) + held
  positive : file.isOpen = true → 0 < file.references
  shut : file.isOpen = false → file.references = 0 ∧ held = 0

structure FioFile.Keeps (file file' : FioFile) (held : Int) : Prop where
  balanced : file'.Balanced held
  closes : file.isOpen = true → file'.isOpen = false → held = 0 ∧ file'.closing = true

structure FioFile.Puts (file file' : FioFile) : Prop where
  closing : file'.closing = file.closing
  shut : file.isOpen = false → file' = file
  references : file.isOpen = true → file'.references = file.references - 1
  isOpen : file.isOpen = true → (file'.isOpen = false ↔ file.references = 1)

namespace FioFile

variable {file file' : FioFile} {held : Int}

lemma Balanced.congr (hb : file.Balanced held) (hopn : file'.isOpen = file.isOpen)
    (hcls : file'.closing = file.closing) (hrf : file'.references = file.references) :
    file'.Balanced held := by
  refine ⟨fun h => ?_, fun h => ?_, fun h => ?_⟩
  · rw [hrf, hcls]
    exact hb.references (hopn ▸ h)
  · rw [hrf]
    exact hb.positive (hopn ▸ h)
  · rw [hrf]
    exact hb.shut (hopn ▸ h)

lemma Balanced.keeps_of_isOpen (hb : file'.Balanced held) (hopn : file'.isOpen = file.isOpen) :
    file.Keeps file' held :=
  ⟨hb, fun h h' => nomatch hopn.symm.trans h' |>.symm.trans h⟩

lemma Balanced.puts (hb : file.Balanced (held + 1)) (hhl : 0 ≤ held) (hput : file.Puts file') :
    file.Keeps file' held := by
  cases hopn : file.isOpen with
  | false =>
    -- nobody holds a file that is not open
    have hno := (hb.shut hopn).2
    omega
  | true =>
    have hrf := hb.references hopn
    have hpos := hb.positive hopn
    have hls := hput.references hopn
    refine ⟨⟨fun h => ?_, fun h => ?_, fun h => ?_⟩, fun _ h => ?_⟩
    · rw [hls, hrf, hput.closing]
      omega
    · have hne : file.references ≠ 1 := fun hone => by
        rw [(hput.isOpen hopn).2 hone] at h
        cases h
      omega
    · have hone := (hput.isOpen hopn).1 h
      split_ifs at hrf <;> omega
    · have hone := (hput.isOpen hopn).1 h
      rw [hput.closing]
      cases hcls : file.closing with
      | true =>
        simp only [hcls, if_true] at hrf
        exact ⟨by omega, rfl⟩
      | false =>
        simp only [hcls, false_eq_true, if_false] at hrf
        omega

lemma Balanced.asked (hb : file.Balanced held) (hhl : 0 ≤ held)
    (hask : file.isOpen = true → file.closing = false)
    (hput : { file with closing := true }.Puts file') : file.Keeps file' held := by
  have hcls := hput.closing
  cases hopn : file.isOpen with
  | false =>
    obtain rfl := hput.shut hopn
    refine ⟨⟨fun h => ?_, fun h => ?_, fun _ => hb.shut hopn⟩, fun h => ?_⟩
    all_goals cases hopn.symm.trans h
  | true =>
    have hrf := hb.references hopn
    rw [hask hopn] at hrf
    simp only [false_eq_true, if_false] at hrf
    have hls : file'.references = file.references - 1 := hput.references hopn
    have hen : file'.isOpen = false ↔ file.references = 1 := hput.isOpen hopn
    refine ⟨⟨fun h => ?_, fun h => ?_, fun h => ?_⟩, fun _ h => ?_⟩
    · rw [hcls, if_pos rfl]
      omega
    · have hne : file.references ≠ 1 := fun hone => by
        rw [hen.2 hone] at h
        cases h
      omega
    · have hone := hen.1 h
      omega
    · have hone := hen.1 h
      exact ⟨by omega, hcls⟩

end FioFile

namespace History

variable {h h' : History} {f g : FileId} {o : ThreadOptions} {ioU ioU' : IoU} {failed : Bool}

def SameRefs (h h' : History) : Prop :=
  ∀ g, (h'.files g).isOpen = (h.files g).isOpen ∧ (h'.files g).closing = (h.files g).closing ∧
    (h'.files g).references = (h.files g).references

lemma SameRefs.of_files (hfl : h'.files = h.files) : SameRefs h h' := by
  intro g
  rw [hfl]
  exact ⟨rfl, rfl, rfl⟩

lemma putFile_puts {close ret : Int} (hr : h.putFile f close = .ok (ret, h')) :
    (h.files f).Puts (h'.files f) ∧ ∀ g, g ≠ f → h'.files g = h.files g := by
  unfold putFile at hr
  by_cases hopn : (h.files f).isOpen = true
  · rw [if_pos hopn] at hr
    by_cases h0 : (h.files f).references = 0
    · rw [if_pos h0] at hr
      cases hr
    · rw [if_neg h0] at hr
      by_cases hla : (h.files f).references - 1 ≠ 0
      · rw [if_pos hla] at hr
        cases hr
        refine ⟨⟨by simp, by simp [hopn], by simp, fun _ => ?_⟩, fun g hg => by simp [hg]⟩
        simp only [update_self, hopn, true_eq_false, false_iff]
        omega
      · rw [if_neg hla] at hr
        cases hr
        have hone : (h.files f).references = 1 := by omega
        exact ⟨⟨by simp, by simp [hopn], by simp [hone], by simp [hone]⟩, fun g hg => by simp [hg]⟩
  · rw [if_neg hopn] at hr
    split_ifs at hr
    cases hr
    exact ⟨⟨rfl, fun _ => rfl, fun hcon => absurd hcon hopn, fun hcon => absurd hcon hopn⟩,
      fun _ _ => rfl⟩

lemma getFile_takes (hr : h.getFile f = .ok h') :
    (h.files f).isOpen = true ∧
      h'.files f = { h.files f with references := (h.files f).references + 1 } ∧
      ∀ g, g ≠ f → h'.files g = h.files g := by
  unfold getFile at hr
  simp only at hr
  split_ifs at hr with hopn
  cases hr
  exact ⟨hopn, by simp, fun g hg => by simp [hg]⟩

variable {outcome : OpenOutcome}

lemma tdIoOpenFile_refs (hr : h.tdIoOpenFile f outcome = .ok (failed, h')) :
    (∀ g, g ≠ f → h'.files g = h.files g) ∧ (h.files f).isOpen = false ∧
      (h' = h ∧ failed = true ∨ (h'.files f).isOpen = true ∧ (h'.files f).closing = false ∧
        (h'.files f).references = (h.files f).references + 1) := by
  unfold tdIoOpenFile at hr
  simp only at hr
  split_ifs at hr with hopn
  have hcls : (h.files f).isOpen = false := by
    cases hiso : (h.files f).isOpen with
    | false => rfl
    | true => exact absurd (.inl hiso) hopn
  cases outcome with
  | engineFails =>
    cases hr
    exact ⟨fun _ _ => rfl, hcls, .inl ⟨rfl, rfl⟩⟩
  | failsLate | succeeds =>
    obtain ⟨h1, hget, hr⟩ := of_bind hr
    cases hr
    obtain ⟨-, hfl, hoth⟩ := getFile_takes hget
    refine ⟨fun g hg => ?_, hcls, .inr ?_⟩
    · have heq := hoth g hg
      simpa [fioFileReset, hg] using heq
    · simp [hfl, fioFileReset, FioFile.reset]

lemma setMap2_sameRefs (h : History) (f : FileId) (m : Map2) : SameRefs h (h.setMap2 f m) := by
  intro g
  by_cases hg : g = f
  · subst hg
    simp [setMap2]
  · simp [setMap2, hg]

lemma takeNext_sameRefs {next : Option Nat} (hr : h.takeNext o = .ok (next, h')) :
    SameRefs h h' := by
  rcases takeNext_files hr with hfl | ⟨f, m, hfl⟩
  · exact .of_files hfl
  · intro g
    rw [hfl]
    exact setMap2_sameRefs h f m g

/-- What a fetcher does to the files and the unit: nothing, or it opens a file if it has to and takes
    a reference for the unit. -/
inductive TakesRef (h : History) (ioU : IoU) : IoU → History → Prop
  | nothing {ioU' : IoU} {h' : History} : SameRefs h h' → ioU'.file = ioU.file →
      ioU'.freeDef = ioU.freeDef → TakesRef h ioU ioU' h'
  | entry {ioU' : IoU} {h' h₁ h₂ h₃ : History} {f : FileId} : SameRefs h h₁ →
      h₁.ensureOpen f .succeeds = .ok (false, h₂) → h₂.getFile f = .ok h₃ → SameRefs h₃ h' →
      ioU.file = none → ioU'.file = some f →
      ioU'.freeDef = ioU.freeDef → TakesRef h ioU ioU' h'

lemma ensureOpen_succeeds (hr : h.ensureOpen f .succeeds = .ok (failed, h')) : failed = false := by
  unfold ensureOpen tdIoOpenFile at hr
  simp only at hr
  split_ifs at hr
  · exact (ok_pair hr).1.symm
  · obtain ⟨h1, -, hr⟩ := of_bind hr
    exact (ok_pair hr).1.symm

lemma getNextVerify_takesRef (hr : h.getNextVerify o ioU .succeeds = .ok (failed, ioU', h')) :
    TakesRef h ioU ioU' h' := by
  unfold getNextVerify at hr
  by_cases hfl : ioU.file.isSome = true
  · rw [if_pos hfl] at hr
    cases hr
    exact .nothing (.of_files rfl) rfl rfl
  rw [if_neg hfl] at hr
  obtain ⟨⟨next, h1⟩, htak, hr⟩ := of_bind hr
  have htk := takeNext_sameRefs htak
  cases next with
  | none =>
    cases hr
    exact .nothing htk rfl rfl
  | some p =>
    obtain ⟨ipo, -, hr⟩ := of_bind hr
    obtain ⟨⟨failed1, h2⟩, hopn, hr⟩ := of_bind hr
    obtain rfl := ensureOpen_succeeds hopn
    simp only [false_eq_true, if_false] at hr
    obtain ⟨h3, hget, hr⟩ := of_bind hr
    have hiso : (h3.files ipo.file).isOpen = true := by
      obtain ⟨hiso, hfl3, -⟩ := getFile_takes hget
      rw [hfl3]
      exact hiso
    rw [if_pos hiso] at hr
    obtain ⟨h4, hrmv, hr⟩ := of_bind hr
    cases hr
    have hno : ioU.file = none := by simpa using hfl
    have hfil := removeTrimEntry_files hrmv
    have hcnt : SameRefs h { h1 with ioHistLen := h1.ioHistLen - 1 } := htk
    exact .entry hcnt hopn hget (.of_files hfil) hno rfl rfl

lemma getNextTrim_takesRef (hr : h.getNextTrim o ioU .succeeds = .ok (failed, ioU', h')) :
    TakesRef h ioU ioU' h' := by
  unfold getNextTrim at hr
  by_cases hfl : ioU.file.isSome = true
  · rw [if_pos hfl] at hr
    cases hr
    exact .nothing (.of_files rfl) rfl rfl
  rw [if_neg hfl] at hr
  cases htr : h.trimList with
  | nil =>
    rw [htr] at hr
    cases hr
    exact .nothing (.of_files rfl) rfl rfl
  | cons p rest =>
    simp only [htr] at hr
    split_ifs at hr
    obtain ⟨h1, hrmv, hr⟩ := of_bind hr
    obtain ⟨ipo, -, hr⟩ := of_bind hr
    obtain ⟨h2, hpc, hr⟩ := of_bind hr
    obtain ⟨⟨failed1, h3⟩, hopn, hr⟩ := of_bind hr
    obtain rfl := ensureOpen_succeeds hopn
    simp only [false_eq_true, if_false] at hr
    obtain ⟨h4, hget, hr⟩ := of_bind hr
    split_ifs at hr
    cases hr
    have hno : ioU.file = none := by simpa using hfl
    have hfil := (trimPiece_files hpc).trans (removeTrimEntry_files hrmv)
    exact .entry (.of_files hfil) hopn hget (.of_files rfl) hno rfl rfl

def Balanced (h : History) (held : FileId → Int) : Prop := ∀ g, (h.files g).Balanced (held g)

def StaysOpen (h h' : History) : Prop :=
  ∀ g, (h.files g).isOpen = true → (h'.files g).isOpen = true

variable {held held' : FileId → Int}

lemma SameRefs.staysOpen (heq : SameRefs h h') : StaysOpen h h' :=
  fun g hopn => (heq g).1.trans hopn

section

variable (hb : h.Balanced held)

include hb

lemma Balanced.sameRefs (heq : SameRefs h h') : h'.Balanced held :=
  fun g => (hb g).congr (heq g).1 (heq g).2.1 (heq g).2.2

lemma Balanced.tdIoOpenFile
    (hr : h.tdIoOpenFile f outcome = .ok (failed, h')) : h'.Balanced held ∧ StaysOpen h h' := by
  obtain ⟨hoth, hclo, ⟨rfl, -⟩ | ⟨hopn, hcls, hrf⟩⟩ := tdIoOpenFile_refs hr
  · exact ⟨hb, fun _ h => h⟩
  · obtain ⟨h0, hno⟩ := (hb f).shut hclo
    refine ⟨fun g => ?_, fun g hg => ?_⟩
    · by_cases hgf : g = f
      · subst hgf
        refine ⟨fun _ => ?_, fun _ => ?_, fun h => nomatch hopn.symm.trans h⟩
        · rw [hrf, hcls, h0, hno]
          rfl
        · omega
      · rw [hoth g hgf]
        exact hb g
    · by_cases hgf : g = f
      · rw [hgf]
        exact hopn
      · rw [hoth g hgf]
        exact hg

lemma Balanced.ensureOpen
    (hr : h.ensureOpen f outcome = .ok (failed, h')) : h'.Balanced held ∧ StaysOpen h h' := by
  unfold History.ensureOpen at hr
  split_ifs at hr
  · cases hr
    exact ⟨hb, fun _ h => h⟩
  · exact hb.tdIoOpenFile hr

lemma Balanced.getFile (hr : h.getFile f = .ok h')
    (hhl : ∀ g, held' g = held g + if g = f then 1 else 0) :
    h'.Balanced held' ∧ StaysOpen h h' := by
  obtain ⟨hopn, hfl, hoth⟩ := getFile_takes hr
  have hrf := (hb f).references hopn
  have hpos := (hb f).positive hopn
  refine ⟨fun g => ?_, fun g hg => ?_⟩
  · rw [hhl g]
    by_cases hgf : g = f
    · subst hgf
      rw [hfl, if_pos rfl]
      refine ⟨fun _ => ?_, fun _ => ?_, fun h => nomatch hopn.symm.trans h⟩
      · show (h.files g).references + 1 = (if (h.files g).closing then 0 else 1) + (held g + 1)
        omega
      · show 0 < (h.files g).references + 1
        omega
    · rw [hoth g hgf, if_neg hgf, Int.add_zero]
      exact hb g
  · by_cases hgf : g = f
    · rw [hgf, hfl]
      exact hopn
    · rw [hoth g hgf]
      exact hg

end

end History

/-- A step that takes or gives back a reference, by the site in the source it stands for. -/
inductive RefCall
  | /-- `td_io_open_file`. -/ opens
  | /-- `td_io_close_file`. -/ closes (f : FileId)
  | /-- `set_io_u_file` and `read_iolog_get` give a unit a file. -/ picks
  | /-- `get_next_verify` and `get_next_trim`, with what opening the file comes to. -/
    fetches (outcome : History.OpenOutcome)
  | /-- `put_io_u`. -/ puts
  | /-- `verify_io_u_async`. -/ hands
  | /-- `set_io_u_file` gives up a file that has no room left. -/ done
  | /-- `fio_io_sync` gives a unit a file. -/ syncs
  | /-- Anything else. -/ beside

namespace Td

variable {o : ThreadOptions} {n : Nat} {td td' td'' : Td} {call : RefCall}

structure Beside (td td' : Td) : Prop where
  refs : History.SameRefs td.hist td'.hist
  units : ∀ u g, (td'.ioUs u).ref g = (td.ioUs u).ref g

/-- One step of a job whose units are those below `n`. -/
inductive RefStep (o : ThreadOptions) (n : Nat) (td : Td) : RefCall → Td → Prop
  | opens {f outcome failed hist} : td.hist.tdIoOpenFile f outcome = .ok (failed, hist) →
      RefStep o n td .opens { td with hist := hist }
  | closes {f closed} {td' : Td} : td.tdIoCloseFile f closed = .ok td' →
      RefStep o n td (.closes f) td'
  | picks {u f hist} : u < n → (td.ioUs u).file = none → (td.ioUs u).freeDef = false →
      td.hist.getFile f = .ok hist →
      RefStep o n td .picks ({ td with hist := hist }.setIoU u { td.ioUs u with file := some f })
  | verifies {u outcome failed ioU hist} : u < n → (td.ioUs u).freeDef = false →
      td.hist.getNextVerify o (td.ioUs u) outcome = .ok (failed, ioU, hist) →
      RefStep o n td (.fetches outcome) ({ td with hist := hist }.setIoU u ioU)
  | trims {u outcome failed ioU hist} : u < n → (td.ioUs u).freeDef = false →
      td.hist.getNextTrim o (td.ioUs u) outcome = .ok (failed, ioU, hist) →
      RefStep o n td (.fetches outcome) ({ td with hist := hist }.setIoU u ioU)
  | puts {u close} {td' : Td} : u < n → td.putIoU u close = .ok td' → RefStep o n td .puts td'
  | hands {u close} {td' : Td} : u < n → (td.ioUs u).freeDef = false →
      td.verifyIoUAsync u close = .ok td' → RefStep o n td .hands td'
  -- `get_next_file` gives no file that is about to be closed.
  | done {u f pick} {td' : Td} : u < n → (td.ioUs u).file = some f →
      (td.ioUs u).freeDef = false → (td.hist.files f).closing = false →
      td.fileDone u f pick = .ok td' → RefStep o n td .done td'
  | syncs {u f} : u < n → (td.ioUs u).file = none →
      RefStep o n td .syncs (td.setIoU u { td.ioUs u with ddir := .sync, file := some f })
  | beside {td' : Td} : td.Beside td' → RefStep o n td .beside td'

def RefReady (td : Td) : RefCall → Prop
  | .closes f => (td.hist.files f).isOpen = true → (td.hist.files f).closing = false
  | .fetches outcome => outcome = .succeeds
  | .syncs => False
  | _ => True

inductive RefRun (o : ThreadOptions) (n : Nat) (td : Td) : Td → Prop
  | refl : RefRun o n td td
  | step {td' td'' : Td} {call : RefCall} : RefRun o n td td' → td'.RefReady call →
      RefStep o n td' call td'' → RefRun o n td td''

structure NoneOpen (td : Td) (n : Nat) : Prop where
  files : ∀ f, (td.hist.files f).isOpen = false ∧ (td.hist.files f).references = 0
  units : ∀ u, u < n → (td.ioUs u).file = none

/-! ### The steps -/

def KeepsRefs (n : Nat) (td td' : Td) : Prop :=
  ∀ g, (td.hist.files g).Keeps (td'.hist.files g) (td'.held n g)

lemma KeepsRefs.of_staysOpen (hb : td'.hist.Balanced (td'.held n))
    (hopn : History.StaysOpen td.hist td'.hist) : KeepsRefs n td td' :=
  fun g => ⟨hb g, fun h h' => nomatch (hopn g h).symm.trans h'⟩

lemma KeepsRefs.of_file (hb : td.hist.Balanced (td.held n))
    (h : ∀ g, g ≠ f → td'.hist.files g = td.hist.files g ∧ td'.held n g = td.held n g)
    (hfil : (td.hist.files f).Keeps (td'.hist.files f) (td'.held n f)) : KeepsRefs n td td' := by
  intro g
  by_cases hg : g = f
  · rw [hg]
    exact hfil
  · obtain ⟨hfl, hhl⟩ := h g hg
    rw [hfl, hhl]
    exact (hb g).keeps_of_isOpen rfl

variable {u : Nat}

lemma keeps_of_put {close ret : Int} {hist : History} (hb : td.hist.Balanced (td.held n))
    (hu : u < n) (hfil : (td.ioUs u).file = some f) (hdef : (td.ioUs u).freeDef = false)
    (hput : td.hist.putFile f close = .ok (ret, hist)) (h : td'.hist = hist)
    (hoth : ∀ v, v ≠ u → td'.ioUs v = td.ioUs v) (hun : ∀ g, (td'.ioUs u).ref g = 0)
    : KeepsRefs n td td' := by
  obtain ⟨hpt, hfl⟩ := putFile_puts hput
  have hhl : ∀ g, td'.held n g = td.held n g - if g = f then 1 else 0 := by
    intro g
    rw [held_write hu hoth g, hun g, ref_of_file hfil hdef g, Int.add_zero]
  refine .of_file (f := f) hb (fun g hg => ?_) ?_
  · rw [h, hhl g, if_neg hg, Int.sub_zero]
    exact ⟨hfl g hg, rfl⟩
  · rw [h]
    have hone := hhl f
    rw [if_pos rfl] at hone
    refine FioFile.Balanced.puts ?_ (td'.held_nonneg n f) hpt
    rw [show td'.held n f + 1 = td.held n f by omega]
    exact hb f

lemma keeps_of_none (hb : td.hist.Balanced (td.held n)) (hu : u < n)
    (hpre : ∀ g, (td.ioUs u).ref g = 0) (hhs : td'.hist = td.hist)
    (hoth : ∀ v, v ≠ u → td'.ioUs v = td.ioUs v) (hun : ∀ g, (td'.ioUs u).ref g = 0) :
    KeepsRefs n td td' := by
  have hhl : td'.held n = td.held n := by
    funext g
    rw [held_write hu hoth g, hun g, hpre g]
    omega
  refine .of_staysOpen ?_ ?_
  · rw [hhs, hhl]
    exact hb
  · rw [hhs]
    exact fun _ h => h

lemma linkFree_unit (td : Td) (u : Nat) (g : FileId) : ((td.linkFree u).ioUs u).ref g = 0 :=
  ref_of_none (by simp [linkFree, unlink, setIoU]) g

lemma linkFree_other (td : Td) {u v : Nat} (h : v ≠ u) : (td.linkFree u).ioUs v = td.ioUs v := by
  simp [linkFree, unlink, setIoU, h]

lemma handOver_unit (td : Td) (u : Nat) (g : FileId) : ((td.handOver u).ioUs u).ref g = 0 :=
  ref_of_freeDef (by simp [handOver, unlink, setIoU]) g

lemma handOver_other (td : Td) {u v : Nat} (h : v ≠ u) : (td.handOver u).ioUs v = td.ioUs v := by
  simp [handOver, unlink, setIoU, h]

section

variable {u : Nat} {close : Int} (hb : td.hist.Balanced (td.held n)) (hu : u < n)

include hb hu

lemma putIoU_keepsRefs
    (h : td.putIoU u close = .ok td') : KeepsRefs n td td' := by
  rcases putIoU_split h with ⟨hno, rfl⟩ | ⟨f, td1, hfl, hdef, hput, rfl⟩
  · exact keeps_of_none hb hu (hno.elim ref_of_none ref_of_freeDef) rfl
      (fun _ => td.linkFree_other) (td.linkFree_unit u)
  · obtain ⟨ret, hist, error, hrls, rfl⟩ := putFileLog_cases hput
    exact keeps_of_put hb hu hfl hdef hrls rfl (fun _ hv => linkFree_other _ hv) (linkFree_unit _ u)

lemma verifyIoUAsync_keepsRefs
    (h : (td.ioUs u).freeDef = false) (hr : td.verifyIoUAsync u close = .ok td') :
    KeepsRefs n td td' := by
  rcases verifyIoUAsync_split hr with ⟨hno, rfl⟩ | ⟨f, td1, hfl, hput, rfl⟩
  · exact keeps_of_none hb hu (ref_of_none hno) rfl (fun _ => td.handOver_other)
      (td.handOver_unit u)
  · obtain ⟨ret, hist, error, hrls, rfl⟩ := putFileLog_cases hput
    exact keeps_of_put hb hu hfl h hrls rfl (fun _ hv => handOver_other _ hv) (handOver_unit _ u)

end

lemma tdIoCloseFile_puts {closed : Int} (h : td.tdIoCloseFile f closed = .ok td') :
    { td.hist.files f with closing := true }.Puts (td'.hist.files f) ∧
      (∀ g, g ≠ f → td'.hist.files g = td.hist.files g) ∧ td'.ioUs = td.ioUs := by
  obtain ⟨⟨ret, hist⟩, hput, h⟩ := of_bind h
  cases h
  obtain ⟨hpt, hoth⟩ := putFile_puts hput
  simp only [update_self] at hpt
  refine ⟨hpt, fun g hg => ?_, rfl⟩
  have heq := hoth g hg
  simp only [update_of_ne hg] at heq
  exact heq

section

variable (hb : td.hist.Balanced (td.held n))

include hb

lemma tdIoCloseFile_keepsRefs {closed : Int}
    (h : (td.hist.files f).isOpen = true → (td.hist.files f).closing = false)
    (hr : td.tdIoCloseFile f closed = .ok td') : KeepsRefs n td td' := by
  obtain ⟨hpt, hoth, hun⟩ := tdIoCloseFile_puts hr
  have hhl : td'.held n = td.held n := by
    funext g
    unfold held
    rw [hun]
  refine .of_file (f := f) hb (fun g hg => ⟨hoth g hg, by rw [hhl]⟩) ?_
  rw [hhl]
  exact (hb f).asked (td.held_nonneg n f) h hpt

lemma fileDone_keepsRefs {pick : FilePick} (hu : u < n) (hfl : (td.ioUs u).file = some f)
    (hdef : (td.ioUs u).freeDef = false) (hcls : (td.hist.files f).closing = false)
    (h : td.fileDone u f pick = .ok td') :
    KeepsRefs n td td' := by
  obtain ⟨td1, hput, h⟩ := of_bind h
  obtain ⟨td2, hcl, h⟩ := of_bind h
  cases h
  obtain ⟨ret, hist, error, hrls, rfl⟩ := putFileLog_cases hput
  obtain ⟨hpt, hoth⟩ := putFile_puts hrls
  obtain ⟨hask, hot2, hun⟩ := tdIoCloseFile_puts hcl
  have hfr := hpt.closing.trans hcls
  -- The unit's own reference is what `put_file_log` gives back.
  have hhl : ∀ g, (td2.setIoU u { td2.ioUs u with file := none }).held n g =
      td.held n g - if g = f then 1 else 0 := by
    intro g
    have hwr : (td2.setIoU u { td2.ioUs u with file := none }).held n g = td.held n g -
        (td.ioUs u).ref g + ((td2.setIoU u { td2.ioUs u with file := none }).ioUs u).ref g :=
      held_write hu (fun v hv => by simp [setIoU, hv, hun]) g
    rw [hwr, ref_of_file hfl hdef g, ref_of_none (by simp [setIoU]) g, Int.add_zero]
  have hnon := (td2.setIoU u { td2.ioUs u with file := none }).held_nonneg n f
  have hone := hhl f
  rw [if_pos rfl] at hone
  have hpt1 : (td.hist.files f).Keeps (hist.files f) (td.held n f - 1) := by
    refine FioFile.Balanced.puts ?_ (by omega) hpt
    rw [Int.sub_add_cancel]
    exact hb f
  have has2 := hpt1.balanced.asked (by omega) (fun _ => hfr) hask
  refine .of_file (f := f) hb (fun g hg => ?_) ?_
  · refine ⟨?_, ?_⟩
    · show update td2.hist.files f { td2.hist.files f with done := true } g = td.hist.files g
      rw [update_of_ne hg, hot2 g hg]
      exact hoth g hg
    · have heq := hhl g
      rw [if_neg hg, Int.sub_zero] at heq
      exact heq
  · show (td.hist.files f).Keeps
      (update td2.hist.files f { td2.hist.files f with done := true } f)
      ((td2.setIoU u { td2.ioUs u with file := none }).held n f)
    rw [update_self, hone]
    refine ⟨has2.balanced.congr rfl rfl rfl, fun hopn hsh => ?_⟩
    cases hmid : (hist.files f).isOpen with
    | true => exact has2.closes hmid hsh
    | false =>
      have hcon := (hpt1.closes hopn hmid).2
      cases hfr.symm.trans hcon

lemma takesRef_keepsRefs {hist : History} (hu : u < n) (hdef : (td.ioUs u).freeDef = false)
    (h : History.TakesRef td.hist (td.ioUs u) ioU hist) :
    KeepsRefs n td ({ td with hist := hist }.setIoU u ioU) := by
  have hsl : ({ td with hist := hist }.setIoU u ioU).ioUs u = ioU := by simp [setIoU]
  have hwr : ∀ g, ({ td with hist := hist }.setIoU u ioU).held n g =
      td.held n g - (td.ioUs u).ref g + ioU.ref g := by
    intro g
    have hoth : ∀ v, v ≠ u → ({ td with hist := hist }.setIoU u ioU).ioUs v = td.ioUs v :=
      fun v hv => by simp [setIoU, hv]
    rw [held_write hu hoth g, hsl]
  cases h with
  | nothing heq hfl hdf =>
    have hhl : ({ td with hist := hist }.setIoU u ioU).held n = td.held n := by
      funext g
      rw [hwr g, ref_congr hfl hdf g]
      omega
    refine .of_staysOpen ?_ heq.staysOpen
    rw [hhl]
    exact hb.sameRefs heq
  | @entry h1 h2 h3 f hpre hopn hget hbhn hno hfl hdf =>
    obtain ⟨hb2, hop2⟩ := (hb.sameRefs hpre).ensureOpen hopn
    have hhl : ∀ g, ({ td with hist := hist }.setIoU u ioU).held n g =
        td.held n g + if g = f then 1 else 0 := by
      intro g
      rw [hwr g, ref_of_file hfl (hdf.trans hdef) g, ref_of_none hno g, Int.sub_zero]
    obtain ⟨hb3, hop3⟩ := hb2.getFile hget hhl
    refine .of_staysOpen (hb3.sameRefs hbhn) fun g hg => ?_
    exact hbhn.staysOpen g (hop3 g (hop2 g (hpre.staysOpen g hg)))

lemma refStep_keeps (h : td.RefReady call) (hst : RefStep o n td call td')
    : KeepsRefs n td td' := by
  cases hst with
  | opens hr =>
    obtain ⟨hb', hopn⟩ := hb.tdIoOpenFile hr
    exact .of_staysOpen hb' hopn
  | closes hr => exact tdIoCloseFile_keepsRefs hb h hr
  | @picks u f hist hu hno hdef hget =>
    refine takesRef_keepsRefs hb hu hdef ?_
    have hopn := (getFile_takes hget).1
    exact .entry (.of_files rfl) (if_pos hopn) hget (.of_files rfl) hno rfl rfl
  | verifies hu hdef hr =>
    obtain rfl : _ = _ := h
    exact takesRef_keepsRefs hb hu hdef (getNextVerify_takesRef hr)
  | trims hu hdef hr =>
    obtain rfl := h
    exact takesRef_keepsRefs hb hu hdef (getNextTrim_takesRef hr)
  | puts hu hr => exact putIoU_keepsRefs hb hu hr
  | hands hu hdef hr => exact verifyIoUAsync_keepsRefs hb hu hdef hr
  | done hu hfl hdef hcls hr => exact fileDone_keepsRefs hb hu hfl hdef hcls hr
  | syncs _ _ => exact h.elim
  | beside hbsd =>
    have hhl : td'.held n = td.held n := by
      funext g
      exact sum_congr rfl fun u _ => hbsd.units u g
    refine .of_staysOpen ?_ hbsd.refs.staysOpen
    rw [hhl]
    exact hb.sameRefs hbsd.refs

end

lemma NoneOpen.balanced (hst : td.NoneOpen n) : td.hist.Balanced (td.held n) := by
  intro g
  obtain ⟨hsh, hrf⟩ := hst.files g
  refine ⟨fun h => absurd (hsh.symm.trans h) (by simp),
    fun h => absurd (hsh.symm.trans h) (by simp), fun _ => ⟨hrf, ?_⟩⟩
  exact sum_eq_zero fun u hu => ref_of_none (hst.units u (mem_range.1 hu)) g

lemma refRun_balanced (h : td.NoneOpen n) (hr : RefRun o n td td') :
    td'.hist.Balanced (td'.held n) := by
  induction hr with
  | refl => exact h.balanced
  | step _ hrd hst ih => exact fun g => (refStep_keeps ih hrd hst g).balanced

/-- **References are balanced** in a run in which no unit gets a file without a reference and no
    file is asked twice to close; a file is closed only when nobody holds it and it was asked to
    close. -/
theorem references_balanced (hstart : td.NoneOpen n) (hrun : RefRun o n td td') :
    (∀ f, (td'.hist.files f).isOpen = true →
      (td'.hist.files f).references = (if (td'.hist.files f).closing then 0 else 1) + td'.held n f) ∧
    ∀ call td'', td'.RefReady call → RefStep o n td' call td'' → ∀ f,
      (td'.hist.files f).isOpen = true → (td''.hist.files f).isOpen = false →
        td''.held n f = 0 ∧ (td''.hist.files f).closing = true := by
  have hb := refRun_balanced hstart hrun
  refine ⟨fun f hopn => (hb f).references hopn, fun call td'' hrd hst f hopn hsh => ?_⟩
  exact (refStep_keeps hb hrd hst f).closes hopn hsh

theorem references_balanced_picks :
    ∃ td : Td, RefRun default 1 default td ∧ td.held 1 0 = 1 ∧ (td.hist.files 0).references = 2 := by
  obtain ⟨failed, hist, hopn, taken, hget, hiso, hcls⟩ :
      ∃ failed hist, (default : History).tdIoOpenFile 0 .succeeds = .ok (failed, hist) ∧
      ∃ taken, hist.getFile 0 = .ok taken ∧
        (taken.files 0).isOpen = true ∧ (taken.files 0).closing = false := by decide +kernel
  have hrd : ∀ td : Td, td.RefReady .opens ∧ td.RefReady .picks := fun _ => ⟨trivial, trivial⟩
  have hfr : RefRun default 1 default { hist := hist } :=
    .step .refl (hrd _).1 (.opens hopn)
  have hr := hfr.step (hrd _).2 (.picks Nat.zero_lt_one rfl rfl hget)
  have hbln := (references_balanced ⟨fun _ => ⟨rfl, rfl⟩, fun _ _ => rfl⟩ hr).1 0 hiso
  refine ⟨_, hr, rfl, hbln.trans ?_⟩
  show (if (taken.files 0).closing then (0 : Int) else 1) + 1 = 2
  rw [hcls]
  rfl

def plainSync : FileSync default :=
  { waits := [], prepFails := false, hooks := [⟨fioQCompleted, ⟨0, 0, fun _ => 0⟩, 0, 0⟩]
    reap := .events [], close := 0, draw := 0, invalidate := 0 }

def oneUnit (hist : History) : Td := { hist := hist, ioUFreelist := [0] }

/-- A unit syncs a file that was just opened: it puts back a reference that it did not take, and the
    file is closed although nobody asked for it. -/
theorem fioIoSync_closes :
    ∃ failed hist td, (default : History).tdIoOpenFile 0 .succeeds = .ok (failed, hist) ∧
      (hist.files 0).isOpen = true ∧ (hist.files 0).references = 1 ∧
      (oneUnit hist).fioIoSync sumChecksums (fun _ => 0) default 0 plainSync = .ok (false, td) ∧
      (td.hist.files 0).isOpen = false ∧ (td.hist.files 0).closing = false := by
  obtain ⟨failed, hist, hopn, hiso, hrf, td, hrs⟩ :
      ∃ failed hist, (default : History).tdIoOpenFile 0 .succeeds = .ok (failed, hist) ∧
        (hist.files 0).isOpen = true ∧ (hist.files 0).references = 1 ∧
      ∃ td, (oneUnit hist).fioIoSync sumChecksums (fun _ => 0) default 0 plainSync = .ok (false, td) ∧
        (td.hist.files 0).isOpen = false ∧ (td.hist.files 0).closing = false := by decide +kernel
  exact ⟨failed, hist, td, hopn, hiso, hrf, hrs⟩

end Td

end FioSsd
