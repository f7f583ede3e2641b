import FioSsd.Generator.RandomMap
import FioSsd.History.Files

/-! # What becomes of the marks of a file

The random map of a file is emptied whenever the file is opened. As long as a file stays open, or no
request is made for it any more because it is done, no mark that matters is lost (`Survives`). -/

namespace FioSsd

open FioFile

structure FioFile.KeepsMarks (file file' : FioFile) : Prop where
  fileOffset : file'.fileOffset = file.fileOffset
  marked : ∀ {b}, file.Marked b → file'.Marked b

/-- A file that is open stays open with its marks, unless it is done; and a file that is done stays
    so. -/
structure FioFile.Survives (file file' : FioFile) : Prop where
  done : file.done = true → file'.done = true
  rands : file.failedRands = 0 → file'.failedRands = 0
  kept : file.isOpen = true → file'.done = false → file'.isOpen = true ∧ KeepsMarks file file'

structure FioFile.Tracks (file file' : FioFile) : Prop where
  done : file.done = true → file'.done = true
  marks : file'.done = false → KeepsMarks file file'

namespace FioFile

variable {file file' file'' : FioFile}

lemma KeepsMarks.trans (h : KeepsMarks file file') (h' : KeepsMarks file' file'') :
    KeepsMarks file file'' :=
  ⟨h'.fileOffset.trans h.fileOffset, fun hb => h'.marked (h.marked hb)⟩

lemma KeepsMarks.of_eq (h : file'.fileOffset = file.fileOffset)
    (hmap : file'.fileMap = file.fileMap) : KeepsMarks file file' := by
  refine ⟨h, fun hb => ?_⟩
  obtain ⟨map, hso, hbit⟩ := hb
  exact ⟨map, hmap.trans hso, hbit⟩

lemma Survives.refl (file : FioFile) : Survives file file :=
  ⟨id, id, fun hopn _ => ⟨hopn, .of_eq rfl rfl⟩⟩

lemma Survives.trans (h : Survives file file') (h' : Survives file' file'') :
    Survives file file'' := by
  refine ⟨fun hd => h'.done (h.done hd), fun hr => h'.rands (h.rands hr), fun hopn hdn => ?_⟩
  have hdn' : file'.done = false := by
    by_contra hcon
    cases (h'.done (by simpa using hcon)).symm.trans hdn
  obtain ⟨hop', hmr⟩ := h.kept hopn hdn'
  obtain ⟨hop'', hmr'⟩ := h'.kept hop' hdn
  exact ⟨hop'', hmr.trans hmr'⟩

lemma Survives.tracks (h : Survives file file') (h' : Tracks file' file'')
    (hhl : file.isOpen = true ∨ file.done) : Tracks file file'' := by
  refine ⟨fun hd => h'.done (h.done hd), fun hdn => ?_⟩
  have hbc : file'.done = false := by
    by_contra hcon
    cases (h'.done (by simpa using hcon)).symm.trans hdn
  rcases hhl with hopn | hd
  · exact (h.kept hopn hbc).2.trans (h'.marks hdn)
  · cases (h.done hd).symm.trans hbc

lemma Survives.of_done (h : file'.done)
    (hrn : file.failedRands = 0 → file'.failedRands = 0) : Survives file file' :=
  ⟨fun _ => h, hrn, fun _ hcon => nomatch hcon.symm.trans h⟩

lemma survives_frame : Frame Survives where
  refl := .refl
  trans h h' := h.trans h'
  references _ _ := ⟨id, id, fun hopn _ => ⟨hopn, .of_eq rfl rfl⟩⟩
  segments _ _ := ⟨id, id, fun hopn _ => ⟨hopn, .of_eq rfl rfl⟩⟩
  opens _ _ hcls := ⟨id, fun _ => rfl, fun hopn => nomatch hopn.symm.trans hcls⟩
  closesFd _ := ⟨id, id, fun hopn _ => ⟨hopn, .of_eq rfl rfl⟩⟩

lemma done_frame : Frame fun file file' => file'.done = file.done where
  refl _ := rfl
  trans h h' := h'.trans h
  references _ _ := rfl
  segments _ _ := rfl
  opens _ _ _ := rfl
  closesFd _ := rfl

end FioFile

namespace History

variable {o : ThreadOptions} {h h' : History} {f : FileId} {ioU ioU' : IoU} {outcome : OpenOutcome}
  {failed : Bool}

def FilesSurvive (h h' : History) : Prop := ∀ g, (h.files g).Survives (h'.files g)

lemma FilesSurvive.refl (h : History) : FilesSurvive h h := fun _ => .refl _

lemma FilesSurvive.trans {h'' : History} (a : FilesSurvive h h') (b : FilesSurvive h' h'') :
    FilesSurvive h h'' :=
  fun g => (a g).trans (b g)

lemma FilesSurvive.of_files (hfl : h'.files = h.files) : FilesSurvive h h' :=
  FilesRel.of_files survives_frame hfl

lemma FilesSurvive.update {file : FioFile} (hfil : (h.files f).Survives file)
    (hfl : h'.files = Function.update h.files f file) : FilesSurvive h h' :=
  FilesRel.update survives_frame hfil hfl

lemma getFile_survive (hr : h.getFile f = .ok h') : FilesSurvive h h' :=
  getFile_filesRel survives_frame hr

lemma ensureOpen_survive (hr : h.ensureOpen f outcome = .ok (failed, h')) : FilesSurvive h h' :=
  ensureOpen_filesRel survives_frame hr

lemma getNextVerify_survive (hr : h.getNextVerify o ioU outcome = .ok (failed, ioU', h')) :
    FilesSurvive h h' ∧ ioU'.busyOk = ioU.busyOk :=
  getNextVerify_filesRel survives_frame hr

lemma getNextTrim_survive (hr : h.getNextTrim o ioU outcome = .ok (failed, ioU', h')) :
    FilesSurvive h h' ∧ ioU'.busyOk = ioU.busyOk :=
  getNextTrim_filesRel survives_frame hr

def SameDone (h h' : History) : Prop := FilesRel (fun file file' => file'.done = file.done) h h'

lemma getFile_done (hr : h.getFile f = .ok h') : SameDone h h' :=
  getFile_filesRel done_frame hr

lemma ensureOpen_done (hr : h.ensureOpen f outcome = .ok (failed, h')) : SameDone h h' :=
  ensureOpen_filesRel done_frame hr

end History

end FioSsd
