import FioSsd.History.Prune
import FioSsd.History.Unlink

/-! # What the history does to the files -/

namespace FioSsd

/-- The relation allows every write to a file that the history makes. -/
structure FioFile.Frame (R : FioFile → FioFile → Prop) : Prop where
  refl : ∀ file, R file file
  trans : ∀ {file file' file''}, R file file' → R file' file'' → R file file''
  references : ∀ file n, R file { file with references := n }
  segments : ∀ file m, R file { file with fileMap2 := m }
  /-- `fio_file_reset` and the flags that `td_io_open_file` sets. -/
  opens : ∀ file len, file.isOpen = false →
    R file { FioFile.reset file len with isOpen := true, fdOpen := true, closing := false }
  closesFd : ∀ file, R file { file with fdOpen := false }

namespace History

def FilesRel (R : FioFile → FioFile → Prop) (h h' : History) : Prop :=
  ∀ g, R (h.files g) (h'.files g)

variable {R : FioFile → FioFile → Prop} (hR : FioFile.Frame R) {hash : KeyHash}
  {o : ThreadOptions} {h h' h'' : History} {f : FileId} {p : Nat} {ioU ioU' : IoU}
  {outcome : OpenOutcome} {failed : Bool}

include hR

lemma FilesRel.of_files (hfl : h'.files = h.files) : FilesRel R h h' := by
  intro g
  rw [hfl]
  exact hR.refl _

lemma FilesRel.trans (a : FilesRel R h h') (b : FilesRel R h' h'') : FilesRel R h h'' :=
  fun g => hR.trans (a g) (b g)

lemma FilesRel.update {file : FioFile} (hfil : R (h.files f) file)
    (hfl : h'.files = Function.update h.files f file) : FilesRel R h h' := by
  intro g
  rw [hfl]
  by_cases hg : g = f
  · subst hg
    rw [Function.update_self]
    exact hfil
  · rw [Function.update_of_ne hg]
    exact hR.refl _

lemma getFile_filesRel (hr : h.getFile f = .ok h') : FilesRel R h h' := by
  unfold getFile at hr
  simp only at hr
  split_ifs at hr
  cases hr
  exact .update hR (hR.references _ _) rfl

lemma ensureOpen_filesRel (hr : h.ensureOpen f outcome = .ok (failed, h')) : FilesRel R h h' := by
  unfold ensureOpen tdIoOpenFile at hr
  simp only at hr
  split_ifs at hr with hopn
  · cases hr
    exact .of_files hR rfl
  · have hcls : (h.files f).isOpen = false := by simpa using hopn
    have hops : ∀ {h0 h1 : History}, h0.getFile f = .ok h1 →
        h0.files = Function.update h.files f
          { FioFile.reset (h.files f) h.ioHistLen with isOpen := true, fdOpen := true, closing := false } →
        FilesRel R h h1 :=
      fun hget hfl => .trans hR (.update hR (hR.opens _ _ hcls) hfl) (getFile_filesRel hR hget)
    cases outcome with
    | engineFails =>
      cases hr
      exact .of_files hR rfl
    | failsLate =>
      obtain ⟨h1, hget, hr⟩ := of_bind hr
      cases hr
      exact .trans hR (hops hget (by simp [fioFileReset])) (.update hR (hR.closesFd _) rfl)
    | succeeds =>
      obtain ⟨h1, hget, hr⟩ := of_bind hr
      cases hr
      exact hops hget (by simp [fioFileReset])

lemma setMap2_filesRel (h : History) (f : FileId) (m : Map2) : FilesRel R h (h.setMap2 f m) :=
  .update hR (hR.segments _ m) rfl

omit hR in
lemma iohistHashDel_files (hr : h.iohistHashDel p = .ok h') : h'.files = h.files := by
  obtain ⟨ipo, -, ⟨-, rfl⟩ | ⟨b, -, -, rfl⟩⟩ := iohistHashDel_cases hr <;> rfl

omit hR in
lemma removeTrimEntry_files (hr : h.removeTrimEntry p = .ok h') : h'.files = h.files := by
  obtain ⟨ipo, -, ⟨-, rfl⟩ | ⟨-, rfl⟩⟩ := removeTrimEntry_cases hr <;> rfl

omit hR in
lemma takeNext_files {next : Option Nat} (hr : h.takeNext o = .ok (next, h')) :
    h'.files = h.files ∨ ∃ f m, h'.files = (h.setMap2 f m).files := by
  unfold takeNext at hr
  split at hr
  · obtain ⟨ipo, -, hr⟩ := of_bind hr
    split_ifs at hr
    cases hr
    exact .inl rfl
  · obtain ⟨ipo, -, hr⟩ := of_bind hr
    split_ifs at hr
    · obtain ⟨m, -, hr⟩ := of_bind hr
      obtain ⟨h1, hdel, hr⟩ := of_bind hr
      obtain ⟨ipo1, -, hr⟩ := of_bind hr
      cases hr
      have hfl := iohistHashDel_files hdel
      exact .inr ⟨ipo.file, m, hfl⟩
    · cases hr
      exact .inl rfl
  · cases hr
    exact .inl rfl

lemma takeNext_filesRel {next : Option Nat} (hr : h.takeNext o = .ok (next, h')) :
    FilesRel R h h' := by
  rcases takeNext_files hr with hfl | ⟨f, m, hfl⟩
  · exact .of_files hR hfl
  · exact .trans hR (setMap2_filesRel hR h f m) (.of_files hR hfl)

lemma fillVerify_filesRel (hr : h.fillVerify o p ioU outcome = .ok (failed, ioU', h')) :
    FilesRel R h h' ∧ ioU'.busyOk = ioU.busyOk := by
  obtain ⟨ipo, -, hr⟩ := of_bind hr
  obtain ⟨⟨failed1, h1⟩, hopen, hr⟩ := of_bind hr
  have hopn := ensureOpen_filesRel hR hopen
  have hfl := hopn
  cases failed1 with
  | true =>
    cases hr
    exact ⟨hfl, rfl⟩
  | false =>
    simp only [Bool.false_eq_true, if_false] at hr
    obtain ⟨h2, hget, hr⟩ := of_bind hr
    by_cases hop2 : (h2.files ipo.file).isOpen
    · rw [if_pos hop2] at hr
      obtain ⟨h3, hrmv, hr⟩ := of_bind hr
      cases hr
      have heq : FilesRel R h2 h3 := .of_files hR (removeTrimEntry_files hrmv)
      exact ⟨.trans hR (.trans hR hfl (getFile_filesRel hR hget)) heq, rfl⟩
    · rw [if_neg hop2] at hr
      cases hr

lemma getNextVerify_filesRel (hr : h.getNextVerify o ioU outcome = .ok (failed, ioU', h')) :
    FilesRel R h h' ∧ ioU'.busyOk = ioU.busyOk := by
  unfold getNextVerify at hr
  split_ifs at hr
  · cases hr
    exact ⟨.of_files hR rfl, rfl⟩
  · obtain ⟨⟨next, h1⟩, htak, hr⟩ := of_bind hr
    have htk := takeNext_filesRel hR htak
    cases next with
    | none =>
      cases hr
      exact ⟨htk, rfl⟩
    | some p =>
      obtain ⟨hfl, hun⟩ := fillVerify_filesRel hR hr
      exact ⟨.trans hR htk hfl, hun⟩

omit hR in
lemma trimPiece_files {ipo : IoPiece} (hr : h.trimPiece o p ipo = .ok h') : h'.files = h.files := by
  unfold trimPiece at hr
  split_ifs at hr <;> obtain rfl := Except.ok.inj hr <;> rfl

lemma getNextTrim_filesRel (hr : h.getNextTrim o ioU outcome = .ok (failed, ioU', h')) :
    FilesRel R h h' ∧ ioU'.busyOk = ioU.busyOk := by
  unfold getNextTrim at hr
  by_cases hfil : ioU.file.isSome
  · rw [if_pos hfil] at hr
    cases hr
    exact ⟨.of_files hR rfl, rfl⟩
  · rw [if_neg hfil] at hr
    cases htr : h.trimList with
    | nil =>
      rw [htr] at hr
      cases hr
      exact ⟨.of_files hR rfl, rfl⟩
    | cons p rest =>
      simp only [htr] at hr
      split_ifs at hr
      obtain ⟨h1, hrmv, hr⟩ := of_bind hr
      obtain ⟨ipo, -, hr⟩ := of_bind hr
      obtain ⟨h2, hpc, hr⟩ := of_bind hr
      obtain ⟨⟨failed1, h3⟩, hopn, hr⟩ := of_bind hr
      have heq : FilesRel R h h2 :=
        .of_files hR ((trimPiece_files hpc).trans (removeTrimEntry_files hrmv))
      have hfl := FilesRel.trans hR heq (ensureOpen_filesRel hR hopn)
      cases failed1 with
      | true =>
        cases hr
        exact ⟨hfl, rfl⟩
      | false =>
        simp only [Bool.false_eq_true, if_false] at hr
        obtain ⟨h4, hget, hr⟩ := of_bind hr
        split_ifs at hr
        cases hr
        exact ⟨.trans hR hfl (getFile_filesRel hR hget), rfl⟩

end History

end FioSsd
