import FioSsd.History.Cases

/-! # A fetch that fails

`get_next_verify` takes the first entry off its containers, counts it out of `io_hist_len` and fills
the unit before it makes sure that the entry's file is open. -/

namespace FioSsd

open Function

namespace History

variable {o : ThreadOptions} {h h' : History} {p : Nat} {ioU ioU' : IoU} {outcome : OpenOutcome}
  {failed : Bool}

def nextFile (h : History) : Option FileId :=
  ((h.ioHistTree ++ h.ioHistList).head?.bind h.heap).map IoPiece.file

structure SameHistory (h h' : History) : Prop where
  tree : h'.ioHistTree = h.ioHistTree
  list : h'.ioHistList = h.ioHistList
  hash : h'.iohistHash = h.iohistHash
  len : h'.ioHistLen = h.ioHistLen
  map2 : ∀ g, (h'.files g).fileMap2 = (h.files g).fileMap2

structure Taken (h h₁ : History) (p : Nat) (ipo : IoPiece) : Prop where
  heap : h₁.heap p = some ipo
  next : h.nextFile = some ipo.file
  len : h₁.ioHistLen = h.ioHistLen
  isOpen : ∀ g, (h₁.files g).isOpen = (h.files g).isOpen
  fileMap : ∀ g, (h₁.files g).fileMap = (h.files g).fileMap

lemma iohistHashDel_heap {ipo : IoPiece} (hp : h.heap p = some ipo)
    (hr : h.iohistHashDel p = .ok h') : h'.files = h.files ∧ h'.ioHistLen = h.ioHistLen ∧
      ∃ ipo', h'.heap p = some ipo' ∧ ipo'.file = ipo.file := by
  obtain ⟨_, hp', ⟨-, rfl⟩ | ⟨b, -, -, rfl⟩⟩ := iohistHashDel_cases hr
  · exact ⟨rfl, rfl, ipo, hp, rfl⟩
  · cases hp.symm.trans hp'
    exact ⟨rfl, rfl, _, update_self .., rfl⟩

lemma takeNext_cases {next : Option Nat} (hr : h.takeNext o = .ok (next, h')) :
    (next = none ∧ h.nextFile = none ∧ h' = h) ∨ ∃ p ipo, next = some p ∧ Taken h h' p ipo := by
  unfold takeNext at hr
  cases htr : h.ioHistTree with
  | cons p rest =>
    simp only [htr] at hr
    obtain ⟨ipo, hder, hr⟩ := of_bind hr
    have hp := heap_of_deref hder
    split_ifs at hr
    cases hr
    refine .inr ⟨p, _, rfl, update_self .., ?_, rfl, fun _ => rfl, fun _ => rfl⟩
    simp [nextFile, htr, hp]
  | nil =>
    cases hls : h.ioHistList with
    | nil =>
      simp only [htr, hls] at hr
      cases hr
      exact .inl ⟨rfl, by simp [nextFile, htr, hls], rfl⟩
    | cons p rest =>
      simp only [htr, hls] at hr
      obtain ⟨ipo, hder, hr⟩ := of_bind hr
      have hp := heap_of_deref hder
      have hnx : h.nextFile = some ipo.file := by simp [nextFile, htr, hls, hp]
      split_ifs at hr with honl hhsh
      · obtain ⟨m, -, hr⟩ := of_bind hr
        obtain ⟨h2, hdel, hr⟩ := of_bind hr
        obtain ⟨hfl, hlen, ipo2, hp2, hfil⟩ :=
          iohistHashDel_heap (update_self p (some { ipo with onList := false }) h.heap) hdel
        simp only [deref, hp2] at hr
        cases hr
        have hfl2 : ∀ g, h2.files g = h.files g ∨
            h2.files g = { h.files g with fileMap2 := m } := by
          intro g
          rw [hfl]
          by_cases hg : g = ipo.file
          · subst hg
            exact .inr (update_self ..)
          · exact .inl (update_of_ne hg ..)
        refine .inr ⟨p, _, rfl, update_self .., ?_, hlen, fun g => ?_, fun g => ?_⟩
        · exact hnx.trans (congrArg some hfil.symm)
        all_goals rcases hfl2 g with hg | hg <;> simp only [setPiece, hg]
      · cases hr
        exact .inr ⟨p, _, rfl, update_self .., hnx, rfl, fun _ => rfl, fun _ => rfl⟩

lemma fioFileReset_randommap (h : History) (f g : FileId) :
    ((h.fioFileReset f).files g).fileMap.isSome = (h.files g).fileMap.isSome := by
  by_cases hg : g = f
  · subst hg
    simp [fioFileReset, FioFile.reset]
  · simp [fioFileReset, update_of_ne hg]

lemma getFile_randommap {f : FileId} (hr : h.getFile f = .ok h') (g : FileId) :
    (h'.files g).fileMap = (h.files g).fileMap := by
  unfold getFile at hr
  simp only at hr
  split_ifs at hr
  cases hr
  by_cases hg : g = f
  · subst hg
    simp
  · simp [update_of_ne hg]

lemma ensureOpen_cases {f : FileId} (hr : h.ensureOpen f outcome = .ok (failed, h')) :
    (failed = true ↔ (h.files f).isOpen = false ∧ outcome ≠ .succeeds) ∧
      h'.ioHistLen = h.ioHistLen ∧
      ∀ g, (h'.files g).fileMap.isSome = (h.files g).fileMap.isSome := by
  unfold ensureOpen at hr
  split_ifs at hr with hopn
  · cases hr
    simp [hopn]
  · have hcls : (h.files f).isOpen = false := by simpa using hopn
    unfold tdIoOpenFile at hr
    simp only at hr
    split_ifs at hr
    have hrs := fioFileReset_randommap h f
    cases outcome with
    | engineFails =>
      cases hr
      simp [hcls]
    | failsLate =>
      simp only [getFile, update_self, if_true, bind, Except.bind] at hr
      cases hr
      refine ⟨by simp [hcls], rfl, fun g => ?_⟩
      by_cases hg : g = f
      · subst hg
        simpa using hrs g
      · simpa [update_of_ne hg] using hrs g
    | succeeds =>
      simp only [getFile, update_self, if_true, bind, Except.bind] at hr
      cases hr
      refine ⟨by simp, rfl, fun g => ?_⟩
      by_cases hg : g = f
      · subst hg
        simpa using hrs g
      · simpa [update_of_ne hg] using hrs g

lemma fillVerify_cases {h1 : History} {ipo : IoPiece} (hp : h1.heap p = some ipo)
    (h : h1.fillVerify o p ioU outcome = .ok (failed, ioU', h')) :
    (failed = true ↔ (h1.files ipo.file).isOpen = false ∧ outcome ≠ .succeeds) ∧
      (failed = true → h'.ioHistLen = h1.ioHistLen - 1 ∧ ioU'.file = some ipo.file) ∧
      ∀ g, (h'.files g).fileMap.isSome = (h1.files g).fileMap.isSome := by
  obtain ⟨_, hder, h⟩ := of_bind h
  rw [deref, hp, Except.ok.injEq] at hder
  subst hder
  obtain ⟨⟨failed2, h2⟩, hopn, h⟩ := of_bind h
  obtain ⟨hfl, hlen, hmp⟩ := ensureOpen_cases hopn
  by_cases hfld : failed2 = true
  · simp only [hfld, if_true] at h
    cases h
    exact ⟨iff_of_true rfl (hfl.1 hfld), fun _ => ⟨hlen, rfl⟩, hmp⟩
  · simp only [hfld, if_false, Bool.false_eq_true] at h
    obtain ⟨h3, hfil, hget⟩ := of_bind h
    by_cases hop3 : (h3.files ipo.file).isOpen = true
    · rw [if_pos hop3] at hget
      obtain ⟨h4, htr, hret⟩ := of_bind hget
      cases hret
      refine ⟨iff_of_false (by simp) fun hc => hfld (hfl.2 hc), by simp, fun g => ?_⟩
      have heq : h4.files = h3.files := by
        obtain ⟨piece, -, ⟨-, rfl⟩ | ⟨-, rfl⟩⟩ := removeTrimEntry_cases htr <;> rfl
      simp [freePiece, heq, getFile_randommap hfil g, hmp g]
    · rw [if_neg hop3] at hget
      cases hget

/-- **A failed fetch changes nothing** exactly when the unit has a file already, the history is
    empty, or the file of its first entry is open or can be opened. -/
theorem getNextVerify_failed_iff (hrun : h.getNextVerify o ioU outcome = .ok (failed, ioU', h')) :
    (failed = true → SameHistory h h' ∧ ioU'.file = ioU.file) ↔
      ioU.file.isSome = true ∨ h.nextFile = none ∨
        ∃ f, h.nextFile = some f ∧ ((h.files f).isOpen = true ∨ outcome = .succeeds) := by
  unfold getNextVerify at hrun
  split_ifs at hrun with hfil
  · cases hrun
    exact iff_of_true (by simp) (.inl hfil)
  obtain ⟨⟨next, h1⟩, htak, hfill⟩ := of_bind hrun
  rcases takeNext_cases htak with ⟨rfl, hno, rfl⟩ | ⟨p, ipo, rfl, htk⟩
  · cases hfill
    exact iff_of_true (fun _ => ⟨⟨rfl, rfl, rfl, rfl, fun _ => rfl⟩, rfl⟩) (.inr (.inl hno))
  · obtain ⟨hfl, hefc, -⟩ := fillVerify_cases htk.heap hfill
    rw [htk.isOpen] at hfl
    by_cases hfld : failed = true
    · obtain ⟨hcls, hout⟩ := hfl.1 hfld
      refine iff_of_false (fun heq => ?_) ?_
      · have hlen := (heq hfld).1.len
        rw [(hefc hfld).1, htk.len] at hlen
        omega
      · rintro (h | h | ⟨f, hf, h⟩)
        · exact hfil h
        · cases htk.next.symm.trans h
        · cases htk.next.symm.trans hf
          rcases h with h | h
          · rw [hcls] at h
            cases h
          · exact hout h
    · refine iff_of_true (fun h => absurd h hfld) (.inr (.inr ⟨_, htk.next, ?_⟩))
      by_contra hcon
      push Not at hcon
      exact hfld (hfl.2 ⟨by simpa using hcon.1, hcon.2⟩)

theorem getNextVerify_failed_empty :
    ∃ ioU' h', (default : History).getNextVerify default default .engineFails =
        .ok (true, ioU', h') ∧ SameHistory default h' ∧ ioU'.file = (default : IoU).file := by
  have hr : (default : History).getNextVerify default default .engineFails =
      .ok (true, default, default) := rfl
  exact ⟨default, default, hr, (getNextVerify_failed_iff hr).2 (.inr (.inl rfl)) rfl⟩

def oneWrite : Except Fault History :=
  (default : History).logIoPiece (fun _ => 0) default
    { ddir := .write, file := some 0, buflen := 4096 } 0

/-- When the file cannot be opened again, the only entry is lost and the unit keeps its file. -/
theorem getNextVerify_drops_entry :
    ∃ h ioU' h', oneWrite = .ok h ∧ h.ioHistTree = [0] ∧ h.ioHistLen = 1 ∧
      h.getNextVerify default default .engineFails = .ok (true, ioU', h') ∧
      h'.ioHistTree = [] ∧ h'.ioHistList = [] ∧ h'.ioHistLen = 0 ∧ ioU'.file = some 0 ∧
      ¬(SameHistory h h' ∧ ioU'.file = (default : IoU).file) := by
  obtain ⟨h, hlog, htr, hlen, ⟨ioU', h'⟩, hft, htr', hls', hln', hfl⟩ :
      ∃ h, oneWrite = .ok h ∧ h.ioHistTree = [0] ∧ h.ioHistLen = 1 ∧
      ∃ r, h.getNextVerify default default .engineFails = .ok (true, r) ∧ r.2.ioHistTree = [] ∧
        r.2.ioHistList = [] ∧ r.2.ioHistLen = 0 ∧ r.1.file = some 0 := by decide +kernel
  refine ⟨h, ioU', h', hlog, htr, hlen, hft, htr', hls', hln', hfl, fun heq => ?_⟩
  exact absurd (hfl.symm.trans heq.2) (by decide)

end History

end FioSsd
