import FioSsd.Backend.FileService
import Mathlib.Data.List.TakeWhile

/-! # Taking the files in turn

`get_next_file_rr` (`io_u.c`) looks at the files of a job in a circle, from `next_file` on. -/

namespace FioSsd.Td

open List Nat History

/-- What opening each file does, and its error number. -/
abbrev Opens := FileId → History.OpenOutcome × Int

variable {o : ThreadOptions} {opens : Opens} {td td' : Td} {f : FileId}

/-- The file will do: it is open and not about to be closed, or it can be opened, which clears that
    flag. -/
def serves (opens : Opens) (td : Td) (f : FileId) : Bool :=
  !(td.hist.files f).done &&
    if (td.hist.files f).isOpen then !(td.hist.files f).closing else (opens f).1 == .succeeds

/-- Looking at the file opens it. -/
def opened (opens : Opens) (td : Td) (f : FileId) : Bool :=
  !(td.hist.files f).done && !(td.hist.files f).isOpen && (opens f).1 != .engineFails

def circle (n next : Nat) : List FileId := (List.range n).map fun k => (next + k) % n

def look (opens : Opens) (f : FileId) : FileTry := ⟨f, (opens f).1, (opens f).2⟩

lemma noteError_hist (td : Td) (failed : Bool) (err : Int) :
    (td.noteError failed err).hist = td.hist := by
  unfold noteError
  split_ifs
  · rw [tdVerror_eq]
  · rfl

lemma tryFile_look (h : (td.hist.files f).fdOpen = true → (td.hist.files f).isOpen = true) :
    ∃ td', td.tryFile (look opens f) = .ok (td.serves opens f, td') ∧
      (∀ g ≠ f, td'.hist.files g = td.hist.files g) ∧
      (td'.hist.files f).isOpen = ((td.hist.files f).isOpen || td.opened opens f) := by
  unfold tryFile serves opened look
  by_cases hdn : (td.hist.files f).done = true
  · exact ⟨td, by simp [hdn], fun _ _ => rfl, by simp [hdn]⟩
  by_cases hopn : (td.hist.files f).isOpen = true
  · refine ⟨_, by simp [hdn, hopn, ensureOpen]; rfl, ?_, ?_⟩
    · simp [noteError_hist]
    · simp [noteError_hist, hopn]
  · have h : (td.hist.files f).fdOpen = false := by simpa [hopn] using h
    cases hout : (opens f).1 with
    | engineFails =>
      refine ⟨_, by simp [hdn, hopn, h, ensureOpen, tdIoOpenFile]; rfl, ?_, ?_⟩
      all_goals simp [noteError_hist]
    | failsLate | succeeds =>
      refine ⟨_, by simp [hdn, hopn, h, ensureOpen, tdIoOpenFile, getFile,
        bind, Except.bind, pure, Except.pure]; rfl, fun g hg => ?_, ?_⟩
      · simp [noteError_hist, hg, fioFileReset]
      · simp [noteError_hist, hdn, hopn]

lemma tryFiles_look {fs : List FileId} {good opened' : FileId → Bool} (h : fs.Nodup)
    (hfd : ∀ f ∈ fs, (td.hist.files f).fdOpen = true → (td.hist.files f).isOpen = true)
    (hgd : ∀ f ∈ fs, td.serves opens f = good f) (hopn : ∀ f ∈ fs, td.opened opens f = opened' f) :
    ∃ td', td.tryFiles (fs.map (look opens)) = .ok (fs.find? good, td') ∧
      ∀ g, (td'.hist.files g).isOpen = true ↔ (td.hist.files g).isOpen = true ∨
        opened' g = true ∧ (g ∈ fs.takeWhile (!good ·) ∨ fs.find? good = some g) := by
  induction fs generalizing td with
  | nil => exact ⟨td, rfl, by simp⟩
  | cons f fs ih =>
    obtain ⟨hnot, h⟩ := nodup_cons.1 h
    obtain ⟨td₁, hlk, hoth, hopen⟩ := @tryFile_look opens td f (hfd f (.head _))
    rw [hgd f (.head _)] at hlk
    rw [hopn f (.head _)] at hopen
    rw [map_cons, tryFiles_cons, hlk]
    cases hsrv : good f with
    | true =>
      refine ⟨td₁, by simp [hsrv, look]; rfl, fun g => ?_⟩
      by_cases hg : g = f
      · simp [hg, hopen, hsrv]
      · simp [hoth g hg, hsrv, Ne.symm hg]
    | false =>
      have heq : ∀ g ∈ fs, td₁.hist.files g = td.hist.files g := fun g hg =>
        hoth g (ne_of_mem_of_not_mem hg hnot)
      obtain ⟨td', hr, hen⟩ := @ih td₁ h
        (fun g hg => by rw [heq g hg]; exact hfd g (.tail _ hg))
        (fun g hg => by rw [serves, heq g hg]; exact hgd g (.tail _ hg))
        (fun g hg => by rw [opened, heq g hg]; exact hopn g (.tail _ hg))
      rw [List.find?_cons_of_neg (by simp [hsrv]), takeWhile_cons_of_pos (by simp [hsrv])]
      refine ⟨td', hr, fun g => (hen g).trans ?_⟩
      by_cases hg : g = f
      · simp only [hg, hopen, Bool.or_eq_true, mem_cons, true_or, and_true]
        tauto
      · simp [hoth g hg, hg]

lemma add_one_mod {n next k : Nat} (h : k < n) :
    (if n ≤ (next + k) % n + 1 then 0 else (next + k) % n + 1) = (next + (k + 1)) % n := by
  have hlt := mod_lt (next + k) (zero_lt_of_lt h)
  rw [← add_assoc, ← mod_add_mod (next + k) n 1]
  split_ifs with hend
  · rw [show (next + k) % n + 1 = n by omega, mod_self]
  · exact (mod_eq_of_lt (by omega)).symm

lemma add_mod_eq_iff {n next k : Nat} (h : next < n) (hk : k < n) :
    (next + (k + 1)) % n = next ↔ k + 1 = n := by
  constructor
  · intro hbc
    by_contra hne
    by_cases hlt : next + (k + 1) < n
    · rw [mod_eq_of_lt hlt] at hbc
      omega
    · rw [mod_eq_sub_mod (by omega), mod_eq_of_lt (by omega)] at hbc
      omega
  · rintro rfl
    rw [add_mod_right, mod_eq_of_lt h]

lemma getNextFileRr_succ {next k fuel : Nat} {good : Bool} (h : next < o.nrFiles)
    (hk : k < o.nrFiles)
    (hlk : td.tryFile (look opens ((next + k) % o.nrFiles)) = .ok (good, td')) :
    getNextFileRr o opens next (fuel + 1) td ((next + k) % o.nrFiles) =
      if good then .ok (some ((next + k) % o.nrFiles), td', (next + (k + 1)) % o.nrFiles)
      else if k + 1 ≠ o.nrFiles then
        getNextFileRr o opens next fuel td' ((next + (k + 1)) % o.nrFiles)
      else .ok (none, td', (next + (k + 1)) % o.nrFiles) := by
  rw [getNextFileRr, show td.tryFile ⟨_, _, _⟩ = .ok (good, td') from hlk]
  simp only [bind, Except.bind, add_one_mod hk, ne_eq, add_mod_eq_iff h hk]
  rfl

lemma getNextFileRr_circle {next k m : Nat} {res : Option FileId} (hnx : next < o.nrFiles)
    (hkm : k + m = o.nrFiles) (hm : m ≠ 0)
    (h : td.tryFiles (((List.range' k m).map fun i => (next + i) % o.nrFiles).map (look opens)) =
      .ok (res, td')) :
    ∃ next', getNextFileRr o opens next m td ((next + k) % o.nrFiles) = .ok (res, td', next') := by
  induction m generalizing k td with
  | zero => exact absurd rfl hm
  | succ m ih =>
    rw [List.range'_succ, map_cons, map_cons, tryFiles_cons] at h
    obtain ⟨⟨good, td₁⟩, hlk, h⟩ := of_bind h
    rw [getNextFileRr_succ hnx (by omega) hlk]
    cases good with
    | true =>
      cases h
      exact ⟨_, rfl⟩
    | false =>
      rw [if_neg Bool.false_ne_true]
      by_cases hla : k + 1 = o.nrFiles
      · obtain rfl : m = 0 := by omega
        cases h
        exact ⟨_, if_neg (not_not.2 hla)⟩
      · rw [if_pos hla]
        exact ih (by omega) (by omega) h

/-- What `get_next_file_rr` promises: the first file that will do, and no other file opened. -/
structure TakesTurns (n next : Nat) (opens : Opens) (td : Td)
    (res : Option FileId) (td' : Td) : Prop where
  first : res = (circle n next).find? (td.serves opens)
  closes : ∀ f, (td.hist.files f).isOpen = false → (td'.hist.files f).isOpen = true → res = some f

/-- `nr_files` rounds are enough. -/
theorem getNextFileRr_takesTurns_iff (o : ThreadOptions) (opens : Opens)
    (td : Td) (next : Nat) (hnext : next < o.nrFiles)
    (hfd : ∀ f, (td.hist.files f).fdOpen = true → (td.hist.files f).isOpen = true) :
    (∃ res td' next', getNextFileRr o opens next o.nrFiles td next = .ok (res, td', next') ∧
        TakesTurns o.nrFiles next opens td res td') ↔
      ∀ f ∈ (circle o.nrFiles next).takeWhile (!td.serves opens ·), (td.hist.files f).done = false →
        (td.hist.files f).isOpen = false → (opens f).1 ≠ .failsLate := by
  have hnd : (circle o.nrFiles next).Nodup := by
    refine nodup_range.map_on fun i hi j hj hij => ?_
    exact (Nat.ModEq.add_left_cancel' next hij).eq_of_lt_of_lt (mem_range.1 hi) (mem_range.1 hj)
  obtain ⟨td', htr, hopen⟩ := @tryFiles_look opens td _ (td.serves opens) (td.opened opens) hnd
    (fun f _ => hfd f) (fun _ _ => rfl) (fun _ _ => rfl)
  have hr : ∃ next', getNextFileRr o opens next o.nrFiles td next =
      .ok ((circle o.nrFiles next).find? (td.serves opens), td', next') := by
    rw [circle, range_eq_range'] at htr
    have hlp := getNextFileRr_circle hnext (zero_add _) (Nat.ne_zero_of_lt hnext) htr
    rwa [add_zero, Nat.mod_eq_of_lt hnext, ← range_eq_range'] at hlp
  obtain ⟨next', hr⟩ := hr
  constructor
  · rintro ⟨res, td'', next'', hrn', htur⟩ f hf hdn hcls hlat
    obtain ⟨rfl, rfl, rfl⟩ : _ ∧ _ ∧ _ := by simpa using hr.symm.trans hrn'
    have hst := (hopen f).2 (.inr ⟨by simp [opened, hdn, hcls, hlat], .inl hf⟩)
    have hsrv := List.find?_some (htur.closes f hcls hst)
    exact absurd hsrv (by simpa using mem_takeWhile_imp hf)
  · intro hlat
    refine ⟨_, td', next', hr, rfl, fun f hcls hst => ?_⟩
    rcases (hopen f).1 hst with hopen | ⟨hopn, hpre | hfn⟩
    · cases hcls.symm.trans hopen
    · -- a file before the first that will do was not opened
      have hnot := mem_takeWhile_imp hpre
      simp only [opened, serves, hcls, Bool.and_eq_true, Bool.not_eq_true'] at hopn hnot
      cases hout : (opens f).1 with
      | engineFails => simp [hout] at hopn
      | failsLate => exact absurd hout (hlat f hpre hopn.1.1 hcls)
      | succeeds => simp [hout, hopn.1.1] at hnot
    · exact hfn

def filesOption (n : Nat) : ThreadOptions := { defaultOptions with nrFiles := n }

def lastFails : Opens := fun f => (if f = 2 then .engineFails else .succeeds, 0)

/-- The last of three files cannot be opened: the first one is next. -/
theorem getNextFileRr_takesTurns_second : ∃ td' next',
    getNextFileRr (filesOption 3) lastFails 2 3 default 2 = .ok (some 0, td', next') ∧
      TakesTurns 3 2 lastFails default (some 0) td' := by
  obtain ⟨res, td', next', hrun, hturns⟩ := (getNextFileRr_takesTurns_iff (filesOption 3) lastFails
    default 2 (by decide) fun _ h => absurd h Bool.false_ne_true).2 (by decide)
  change Except.ok (_, _, _) = _ at hrun
  cases hrun
  exact ⟨_, _, rfl, hturns⟩

/-- The only file cannot be used behind the engine's open: none is returned, and it stays open. -/
theorem getNextFileRr_leaves_open : ¬∃ res td' next',
    getNextFileRr (filesOption 1) (fun _ => (.failsLate, 0)) 0 1 default 0 = .ok (res, td', next') ∧
      TakesTurns 1 0 (fun _ => (.failsLate, 0)) default res td' := by
  rintro ⟨res, td', next', hr, htr⟩
  change Except.ok (_, _, _) = _ at hr
  cases hr
  cases htr.closes 0 rfl rfl

end FioSsd.Td
