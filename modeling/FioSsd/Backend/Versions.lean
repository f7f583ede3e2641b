import FioSsd.Backend.GetIoU
import FioSsd.Generator.First
import FioSsd.Generator.Marks

/-! # Versions

With `randomagain` a job writes blocks more than once, and `verify_inner` tells the writes apart by
the version in their headers. -/

namespace FioSsd

variable {got : Bool} {pick : FilePick} {tries : List FileTry} {block : Nat} {res : Option FileId}

open History

open Function (update_self update_of_ne)

variable {failed : Bool} {s : Fill} {close : Int} {bs : Nat} {td'' td₀ : Td} {k : Checksums}
  {o : ThreadOptions} {scale : Scale} {randMax : Nat} {td td' : Td} {u : Nat} {f : FileId}
  {m : Meets o}

namespace Td

/-- No mark that matters is lost, no version is drawn, and the unit has not become a further request. -/
structure Survives (u : Nat) (td td' : Td) : Prop where
  files : td.hist.FilesSurvive td'.hist
  unique : td'.issue.unique = td.issue.unique
  timeN : td'.issue.timeN = td.issue.timeN
  seqNr : td.issue.ddirSeqNr = 1 → td'.issue.ddirSeqNr = 1
  busyOk : (td'.ioUs u).busyOk = (td.ioUs u).busyOk

namespace Survives

lemma refl (u : Nat) (td : Td) : Survives u td td := ⟨.refl _, rfl, rfl, id, rfl⟩

lemma trans (a : Survives u td td') (b : Survives u td' td'') : Survives u td td'' :=
  ⟨a.files.trans b.files, b.unique.trans a.unique, b.timeN.trans a.timeN, fun h => b.seqNr (a.seqNr h),
    b.busyOk.trans a.busyOk⟩

lemma of_hist {hist : History} (h : td.hist.FilesSurvive hist) :
    Survives u td { td with hist := hist } :=
  ⟨h, rfl, rfl, id, rfl⟩

lemma setIoU {ioU : IoU} (h : ioU.busyOk = (td.ioUs u).busyOk) :
    Survives u td (td.setIoU u ioU) := by
  refine ⟨.refl _, rfl, rfl, id, ?_⟩
  simp only [Td.setIoU, update_self]
  exact h

lemma noteError (td : Td) (failed : Bool) (err : Int) : Survives u td (td.noteError failed err) := by
  unfold Td.noteError
  split_ifs
  · rw [tdVerror_eq]
    exact ⟨.refl _, rfl, rfl, id, rfl⟩
  · exact .refl u td

lemma entry {hist : History} {ioU : IoU} (failed : Bool) (err : Int)
    (h : td.hist.FilesSurvive hist ∧ ioU.busyOk = (td.ioUs u).busyOk) :
    Survives u td (({ td with hist := hist }.setIoU u ioU).noteError failed err) :=
  ((of_hist h.1).trans (.setIoU h.2)).trans (.noteError _ failed err)

end Survives

lemma checkGetVerify_survives (h : td.checkGetVerify o u m = .ok (got, td')) :
    Survives u td td' := by
  unfold checkGetVerify at h
  split_ifs at h
  · obtain ⟨⟨failed, ioU, hist⟩, hnx, h⟩ := of_bind h
    cases h
    have hen := Survives.entry failed m.openError (getNextVerify_survive hnx)
    exact ⟨hen.files, hen.unique, hen.timeN, hen.seqNr, hen.busyOk⟩
  · cases h
    exact .refl u td

lemma checkGetTrim_survives (h : td.checkGetTrim o u m = .ok (got, td')) : Survives u td td' := by
  unfold checkGetTrim at h
  split_ifs at h
  · obtain ⟨⟨failed, ioU, hist⟩, hnx, h⟩ := of_bind h
    cases h
    have hen := Survives.entry failed m.openError (getNextTrim_survive hnx)
    exact ⟨hen.files, hen.unique, hen.timeN, hen.seqNr, hen.busyOk⟩
  · cases h
    exact .refl u td

lemma tryFiles_survives
    (h : td.tryFiles tries = .ok (res, td')) : Survives u td td' ∧ ∀ f, res = some f →
      (td.hist.files f).done = false ∧ (td'.hist.files f).done = false := by
  induction tries generalizing td with
  | nil =>
    obtain ⟨rfl, rfl⟩ := ok_pair h
    exact ⟨.refl u td, fun f hf => absurd hf (by simp)⟩
  | cons t rest ih =>
    unfold tryFiles at h
    split_ifs at h with hdn
    · exact ih h
    · obtain ⟨⟨failed, hist⟩, hopn, h⟩ := of_bind h
      have htr : Survives u td ({ td with hist := hist }.noteError failed t.openError) :=
        (Survives.of_hist (ensureOpen_survive hopn)).trans (.noteError _ failed t.openError)
      simp only at h
      split_ifs at h
      · obtain ⟨hrs, hpck⟩ := ih h
        refine ⟨htr.trans hrs, fun f hf => ⟨?_, (hpck f hf).2⟩⟩
        -- what is done before the file that could not be opened is done behind it
        by_contra hcon
        have := (htr.files f).done (by simpa using hcon)
        cases this.symm.trans (hpck f hf).1
      · cases h
        refine ⟨htr, fun f hf => ?_⟩
        cases hf
        have hnot : (td.hist.files t.file).done = false := by simpa using hdn
        refine ⟨hnot, ?_⟩
        have heq : (({ td with hist := hist }.noteError failed t.openError).hist.files t.file).done =
            (hist.files t.file).done := by
          unfold noteError
          split_ifs
          · rw [tdVerror_eq]
          · rfl
        rw [heq, ensureOpen_done hopn t.file]
        exact hnot

lemma getNextFile_survives
    (h : td.getNextFile o tries = .ok (res, td')) : Survives u td td' ∧ ∀ f, res = some f →
      (td.hist.files f).done = false ∧ (td'.hist.files f).done = false := by
  unfold getNextFile at h
  split_ifs at h
  · cases h
    exact ⟨.refl u td, nofun⟩
  · exact tryFiles_survives h

lemma putFile_files {h h' : History} {ret : Int} (hr : h.putFile f close = .ok (ret, h')) :
    (∀ g, g ≠ f → h'.files g = h.files g) ∧ (h'.files f).failedRands = (h.files f).failedRands ∧
      (h'.files f).done = (h.files f).done ∧ (h.files f).KeepsMarks (h'.files f) := by
  unfold putFile at hr
  simp only at hr
  split_ifs at hr
  all_goals
    cases hr
  · refine ⟨fun g hg => update_of_ne hg _ _, ?_⟩
    simp only [update_self]
    exact ⟨trivial, trivial, .of_eq rfl rfl⟩
  · refine ⟨fun g hg => update_of_ne hg _ _, ?_⟩
    simp only [update_self]
    exact ⟨trivial, trivial, .of_eq rfl rfl⟩
  · exact ⟨fun g _ => rfl, rfl, rfl, .of_eq rfl rfl⟩

lemma fileDone_spec (h : td.fileDone u f pick = .ok td') :
    td'.issue.unique = td.issue.unique ∧ td'.issue.timeN = td.issue.timeN ∧
      td'.issue.ddirSeqNr = td.issue.ddirSeqNr ∧ (td'.ioUs u).busyOk = (td.ioUs u).busyOk ∧
      (∀ g, g ≠ f → td'.hist.files g = td.hist.files g) ∧ (td'.hist.files f).done = true ∧
      (td'.hist.files f).failedRands = (td.hist.files f).failedRands := by
  obtain ⟨td1, hput, h⟩ := of_bind h
  obtain ⟨td2, hcl, h⟩ := of_bind h
  cases h
  obtain ⟨ret, hist, error, hrls, rfl⟩ := putFileLog_cases hput
  obtain ⟨⟨ret', hist'⟩, hfl, hcl⟩ := of_bind hcl
  cases hcl
  obtain ⟨hoth, hrn, -⟩ := putFile_files hrls
  obtain ⟨hot', hrn', -⟩ := putFile_files hfl
  refine ⟨rfl, rfl, rfl, ?_, fun g hg => ?_, ?_, ?_⟩
  · simp [setIoU]
  · simp only [setIoU, update_of_ne hg]
    rw [hot' g hg]
    simp only [update_of_ne hg]
    exact hoth g hg
  · simp [setIoU]
  · simp only [setIoU, update_self]
    rw [hrn']
    simpa using hrn

/-- The unit has a request for `f` whose blocks are marked; it carries `randomagain` if one of them was
    marked before. -/
structure Requested (o : ThreadOptions) (u : Nat) (td td' : Td) (f : FileId) : Prop where
  file : (td'.ioUs u).file = some f
  picked : (td.hist.files f).done = false
  blocks : ddirRw (td'.ioUs u).ddir = true → ∃ b file, (td.hist.files f).Survives file ∧
    file.done = false ∧ (td'.ioUs u).buflen.toNat < 2 ^ 32 ∧
    ((td'.ioUs u).offset - (td'.hist.files f).fileOffset).toNat =
      b * (o.baOf (td'.ioUs u).ddir).toNat ∧
    ∀ c, History.blockOf o (td'.hist.files f) (td'.ioUs u) ≤ c →
      c < History.blockOf o (td'.hist.files f) (td'.ioUs u) + mapBlocksOf o (td'.ioUs u) →
      (td'.hist.files f).Marked c ∧ (file.Marked c → (td'.ioUs u).randomagain = true)

lemma fillIoU_again (hpc : o.PicksAnew) (hsc : ScalesInto scale) (h : o.randomagain = true)
    {ioHistLen : Int} {s' : Fill} {d : FillDraws} (hnr : s.ddirSeqNr = 1)
    (hrn : s.file.failedRands = 0) (hbs : s.ioU.busyOk = false)
    (hr : fillIoU scale randMax o false ioHistLen s d = .ok (failed, s')) :
    s'.ddirSeqNr = 1 ∧ s'.ioU.busyOk = false ∧ s'.ioU.file = s.ioU.file ∧ s'.file.failedRands = 0 ∧
      (failed = false → s.file.Survives s'.file ∧
        (ddirRw s'.ioU.ddir = true → ∃ b, s'.ioU.buflen.toNat < 2 ^ 32 ∧
          (s'.ioU.offset - s'.file.fileOffset).toNat = b * (o.baOf s'.ioU.ddir).toNat ∧
          ∀ c, blockOf o s'.file s'.ioU ≤ c →
            c < blockOf o s'.file s'.ioU + mapBlocksOf o s'.ioU →
            s'.file.Marked c ∧ (s.file.Marked c → s'.ioU.randomagain = true))) := by
  obtain ⟨hnr', hun, hfl⟩ := fillIoU_first hpc hsc hnr hr
  have hddi := hun.ddir
  have hbs' := hun.busyOk.trans hbs
  refine ⟨hnr', hbs', hun.file, ?_⟩
  split_ifs at hfl with hrw
  · obtain ⟨b?, file1, hlk, hcs⟩ := hfl
    have hlow : s.file.failedRands < 200 := by omega
    cases failed with
    | true =>
      rw [if_pos rfl] at hcs
      have hle := hlk.rands h hlow
      refine ⟨by rw [hcs]; omega, nofun⟩
    | false =>
      rw [if_neg (by simp)] at hcs
      obtain ⟨b, ioU, rfl, hrqs, hmr⟩ := hcs
      have hfl1 := hlk.again h hlow (by simp)
      rw [markMaps, if_pos h] at hmr
      obtain ⟨offset, buflen, heq⟩ := hrqs.same
      have hnot : ioU.busyOk = false := by rw [heq]; exact hbs
      obtain ⟨⟨⟨map, hmap⟩, hgr⟩, ⟨again, heq'⟩, hblk⟩ := markBitMap_spec hnot hmr
      have hst : ∀ {c}, s.file.Marked c → file1.Marked c :=
        (FioFile.KeepsMarks.of_eq (by rw [hfl1]) (by rw [hfl1])).marked
      have hoff : s'.file.fileOffset = file1.fileOffset := by rw [hmap]
      have hpl : s'.ioU.offset = ioU.offset := by rw [heq']
      have hlen : s'.ioU.buflen = ioU.buflen := by rw [heq']
      refine ⟨by rw [hmap, hfl1], fun _ => ⟨⟨?_, ?_, ?_⟩, fun _ => ⟨b, ?_, ?_, ?_⟩⟩⟩
      · rw [hmap, hfl1]
        exact id
      · rw [hmap, hfl1]
        exact fun _ => rfl
      · intro hopn _
        refine ⟨by rw [hmap, hfl1]; exact hopn, ?_, fun hc => hgr (hst hc)⟩
        rw [hmap, hfl1]
      · rw [hlen]
        exact hrqs.short
      · rw [hpl, hoff, hddi]
        exact hrqs.place
      · rw [blockOf, mapBlocksOf, nrBlkOf, hpl, hoff, hlen]
        exact fun c hle hlt => ⟨(hblk c hle hlt).1, fun hc => (hblk c hle hlt).2 (hst hc)⟩
  · obtain ⟨rfl, hfil⟩ := hfl
    refine ⟨by rw [hfil]; exact hrn, fun _ => ⟨by rw [hfil]; exact .refl _, fun hcon => ?_⟩⟩
    rw [hddi] at hcon
    exact absurd hcon hrw

lemma Requested.of_survives (h : Survives u td₀ td) (hreq : Requested o u td td' f) :
    Requested o u td₀ td' f := by
  refine ⟨hreq.file, ?_, fun hrw => ?_⟩
  · by_contra hcon
    have hdn := (h.files f).done (by simpa using hcon)
    cases hdn.symm.trans hreq.picked
  · obtain ⟨b, file, hsrv, hrs⟩ := hreq.blocks hrw
    exact ⟨b, file, (h.files f).trans hsrv, hrs⟩

@[simp] lemma afterFill_unit (td : Td) (u : Nat) (f : FileId) (s : Fill) :
    (td.afterFill u f s).ioUs u = s.ioU := by
  simp [afterFill, Td.setIoU]

@[simp] lemma afterFill_file (td : Td) (u : Nat) (f : FileId) (s : Fill) :
    (td.afterFill u f s).hist.files f = s.file := by
  simp [afterFill]

lemma Survives.of_afterFill (hnr : s.ddirSeqNr = 1) (h : s.ioU.busyOk = (td.ioUs u).busyOk)
    (hfl : (td.hist.files f).Survives s.file) :
    Survives u td (td.afterFill u f s) := by
  refine ⟨.update hfl rfl, rfl, rfl, fun _ => hnr, ?_⟩
  rw [afterFill_unit, h]

lemma Survives.of_fileDone (hnr : s.ddirSeqNr = 1) (hbs : s.ioU.busyOk = (td.ioUs u).busyOk)
    (h : s.file.failedRands = 0) (hdn : (td.afterFill u f s).fileDone u f pick = .ok td')
    : Survives u td td' := by
  obtain ⟨hunq, htmn, hsqn, hbs', hoth, hisd, hrn'⟩ := fileDone_spec hdn
  refine ⟨fun g => ?_, hunq, htmn, fun _ => hsqn.trans hnr, ?_⟩
  · by_cases hg : g = f
    · subst hg
      refine .of_done hisd fun _ => hrn'.trans ?_
      rw [afterFill_file, h]
    · have heq : (td.afterFill u f s).hist.files g = td.hist.files g := by
        simp [afterFill, update_of_ne hg]
      rw [hoth g hg, heq]
      exact .refl _
  · rw [hbs', ← hbs, afterFill_unit]

lemma setIoUFile_spec (hpic : o.PicksAnew) (hsc : ScalesInto scale) (hag : o.randomagain)
    {picks : List FilePick} (hnr : td.issue.ddirSeqNr = 1)
    (hrn : ∀ g, (td.hist.files g).failedRands = 0) (hbs : (td.ioUs u).busyOk = false)
    (h : td.setIoUFile o scale randMax false u picks = .ok (failed, td')) :
    Survives u td td' ∧ (failed = false → ∃ f, Requested o u td td' f) := by
  induction picks generalizing td with
  | nil => exact absurd h (by simp [setIoUFile])
  | cons pick rest ih =>
    obtain ⟨⟨res, td1⟩, hnx, h⟩ := of_bind h
    obtain ⟨hpc, hpck⟩ := getNextFile_survives (u := u) hnx
    cases res with
    | none =>
      cases h
      exact ⟨hpc, nofun⟩
    | some f =>
      obtain ⟨hnot, hnt1⟩ := hpck f rfl
      obtain ⟨hist, hget, h⟩ := of_bind h
      obtain ⟨⟨dropped, s⟩, hfl, h⟩ := of_bind h
      have hdn1 := (getFile_done hget f).trans hnt1
      have hhl : Survives u td
          ({ td1 with hist := hist }.setIoU u { td1.ioUs u with file := some f }) :=
        (hpc.trans (.of_hist (getFile_survive hget))).trans (.setIoU rfl)
      have hbs2 := hhl.busyOk.trans hbs
      obtain ⟨hnr', hbs', hfl', hrn', hfld⟩ := fillIoU_again hpic hsc hag
        (hhl.seqNr hnr) ((hhl.files f).rands (hrn f)) hbs2 hfl
      cases dropped with
      | true =>
        obtain ⟨td2, hdn, h⟩ := of_bind h
        have hpre := hhl.trans (Survives.of_fileDone hnr' (hbs'.trans hbs2.symm) hrn' hdn)
        obtain ⟨hrs, hreq⟩ := ih (hpre.seqNr hnr) (fun g => (hpre.files g).rands (hrn g))
          (hpre.busyOk.trans hbs) h
        refine ⟨hpre.trans hrs, fun hok => ?_⟩
        obtain ⟨g, hreq⟩ := hreq hok
        exact ⟨g, hreq.of_survives hpre⟩
      | false =>
        cases h
        obtain ⟨hsrv, hblk⟩ := hfld rfl
        refine ⟨hhl.trans (.of_afterFill hnr' (hbs'.trans hbs2.symm) hsrv), fun _ => ⟨f, ?_⟩⟩
        refine ⟨?_, hnot, fun hrw => ?_⟩
        · rw [afterFill_unit, hfl']
          simp [setIoU]
        · rw [afterFill_unit] at hrw
          obtain ⟨b, hlen, hpl, hmr⟩ := hblk hrw
          rw [afterFill_unit, afterFill_file]
          exact ⟨b, _, hhl.files f, hdn1, hlen, hpl, hmr⟩

end Td

def FioUnique.number (unique : FioUnique) : BitVec 32 := unique.word.setWidth 32

lemma populateVerifyIoU_unit {info : MetaInfo} {seed : BitVec 64} {ioU ioU' : IoU} {fuel : Nat}
    (h : populateVerifyIoU k o info seed ioU fuel = .ok ioU') : ∃ buf randSeed filled,
      ioU' = { ioU with buf := buf, randSeed := randSeed, bufFilledLen := filled } := by
  unfold populateVerifyIoU fillPatternHeaders at h
  split_ifs at h
  · cases h
    exact ⟨_, _, _, rfl⟩
  · obtain ⟨buf, -, h⟩ := of_bind h
    cases h
    unfold fillPattern
    simp only
    split_ifs <;> exact ⟨_, _, _, rfl⟩

namespace Td

/-- The write has got the current version, which is a new one if a block of it was written before. -/
structure Versioned (u : Nat) (td td' : Td) : Prop where
  version : (td'.ioUs u).uniqueVersion = td'.issue.unique
  fresh : (td.ioUs u).randomagain = true → td'.issue.unique.number = td.issue.timeN.lastNumber ∧
    td'.issue.timeN.lastNumber = td.issue.timeN.lastNumber + 1
  current : (td.ioUs u).randomagain = false →
    td'.issue.unique = td.issue.unique ∧ td'.issue.timeN = td.issue.timeN

lemma setVersion_versioned (h : o.verifyInner = true) (hops : o.uniqueOps = .timeN) (td : Td)
    (u : Nat) (now : FioUnique) : Versioned u td (td.setVersion o u now) := by
  rw [setVersion, nextVersion, if_pos h, hops]
  refine ⟨by simp [setIoU, UniqueOps.copy], fun hag => ?_, fun hag => ?_⟩
  · simp [hag, UniqueOps.set, TimeNumber.set, FioUnique.number]
  · simp [hag]

/-- What `get_io_u` keeps of the request and the job while it prepares a read or write. -/
structure Prepared (u : Nat) (td td' : Td) : Prop where
  files : td.hist.FilesSurvive td'.hist
  marks : ∀ g, (td.hist.files g).KeepsMarks (td'.hist.files g)
  seqNr : td'.issue.ddirSeqNr = td.issue.ddirSeqNr
  ddir : (td'.ioUs u).ddir = (td.ioUs u).ddir
  file : (td'.ioUs u).file = (td.ioUs u).file
  offset : (td'.ioUs u).offset = (td.ioUs u).offset
  buflen : (td'.ioUs u).buflen = (td.ioUs u).buflen

lemma notePos_prepared (td : Td) (u : Nat) (f : FileId) (ioU : IoU) :
    Prepared u td (td.notePos f ioU) := by
  refine ⟨.update ?_ rfl, fun g => ?_, rfl, rfl, rfl, rfl, rfl⟩
  · exact ⟨id, id, fun hopn _ => ⟨hopn, .of_eq rfl rfl⟩⟩
  · by_cases hg : g = f
    · subst hg
      simp only [notePos, update_self]
      exact .of_eq rfl rfl
    · simp only [notePos, update_of_ne hg]
      exact .of_eq rfl rfl

lemma Prepared.trans (a : Prepared u td td') (b : Prepared u td' td'') : Prepared u td td'' :=
  ⟨a.files.trans b.files, fun g => (a.marks g).trans (b.marks g), b.seqNr.trans a.seqNr,
    b.ddir.trans a.ddir, b.file.trans a.file, b.offset.trans a.offset, b.buflen.trans a.buflen⟩

lemma Prepared.of_unit (h : td'.hist = td.hist) (hsqn : td'.issue.ddirSeqNr = td.issue.ddirSeqNr)
    (hddi : (td'.ioUs u).ddir = (td.ioUs u).ddir) (hfl : (td'.ioUs u).file = (td.ioUs u).file)
    (hoff : (td'.ioUs u).offset = (td.ioUs u).offset)
    (hbfl : (td'.ioUs u).buflen = (td.ioUs u).buflen) : Prepared u td td' :=
  ⟨.of_files (by rw [h]), fun g => by rw [h]; exact .of_eq rfl rfl, hsqn, hddi, hfl, hoff, hbfl⟩

lemma setVersion_prepared (td : Td) (u : Nat) (now : FioUnique) :
    Prepared u td (td.setVersion o u now) := by
  unfold setVersion
  split_ifs
  · refine .of_unit rfl rfl ?_ ?_ ?_ ?_ <;> simp [setIoU]
  · exact .of_unit rfl rfl rfl rfl rfl rfl

section

variable (hin : o.verifyInner = true) (hops : o.uniqueOps = .timeN) (hvrf : o.verify ≠ .verifyNone)

include hin hops hvrf

lemma prepareRw_spec (h : td.prepareRw o k u f m = .ok td') :
    Prepared u td td' ∧ if (td.ioUs u).ddir = .write then Versioned u td td'
      else td'.issue.unique = td.issue.unique ∧ td'.issue.timeN = td.issue.timeN := by
  unfold prepareRw prepareWrite at h
  have hnt := notePos_prepared td u f (td.ioUs u)
  by_cases hwr : (td.ioUs u).ddir = .write
  · have hrw : ddirRw (td.ioUs u).ddir = true := by rw [hwr]; rfl
    rw [if_pos hrw, if_pos ⟨hnt.ddir.trans hwr, hvrf⟩] at h
    rw [if_pos hwr]
    obtain ⟨ioU, hplt, h⟩ := of_bind h
    cases h
    obtain ⟨buf, randSeed, filled, rfl⟩ := populateVerifyIoU_unit hplt
    have hvrs := setVersion_versioned hin hops (td.notePos f (td.ioUs u)) u m.now
    have hver := hnt.trans (setVersion_prepared (o := o) _ u m.now)
    refine ⟨hver.trans (.of_unit rfl rfl ?_ ?_ ?_ ?_), ?_, hvrs.fresh, hvrs.current⟩
    · simp [setIoU]
    · simp [setIoU]
    · simp [setIoU]
    · simp [setIoU]
    · simpa [setIoU] using hvrs.version
  · rw [if_neg hwr]
    split_ifs at h with hrw hnot
    · exact absurd (hnt.ddir.symm.trans hnot.1) hwr
    · cases h
      exact ⟨hnt, rfl, rfl⟩
    · cases h
      exact ⟨.of_unit rfl rfl rfl rfl rfl rfl, rfl, rfl⟩

lemma finishRequest_spec {dropped : Bool}
    (h : td.finishRequest o k false u f m = .ok (dropped, td')) :
    dropped = true ∧ td' = td ∨ dropped = false ∧ Prepared u td td' ∧
      if (td.ioUs u).ddir = .write then Versioned u td td'
      else td'.issue.unique = td.issue.unique ∧ td'.issue.timeN = td.issue.timeN := by
  unfold finishRequest at h
  simp only at h
  split_ifs at h
  · cases h
    exact .inl ⟨rfl, rfl⟩
  · obtain ⟨td1, hpre, h⟩ := of_bind h
    cases h
    obtain ⟨hprp, hvrs⟩ := prepareRw_spec hin hops hvrf hpre
    have hun : Prepared u td1 (td1.setIoU u
        { td1.ioUs u with xferBuf := 0, xferBuflen := (td1.ioUs u).buflen }) := by
      refine .of_unit rfl rfl ?_ ?_ ?_ ?_ <;> simp [setIoU]
    refine .inr ⟨rfl, hprp.trans hun, ?_⟩
    by_cases hwr : (td.ioUs u).ddir = .write
    · rw [if_pos hwr] at hvrs ⊢
      refine ⟨?_, hvrs.fresh, hvrs.current⟩
      simpa [setIoU] using hvrs.version
    · rw [if_neg hwr] at hvrs ⊢
      exact hvrs

end

lemma putIoU_tracks (h : td.putIoU u close = .ok td') :
    td'.issue = td.issue ∧ ∀ g, (td'.hist.files g).failedRands = (td.hist.files g).failedRands ∧
      (td.hist.files g).Tracks (td'.hist.files g) := by
  have heq : ∀ g, (td.hist.files g).failedRands = (td.hist.files g).failedRands ∧
      (td.hist.files g).Tracks (td.hist.files g) := fun g => ⟨rfl, id, fun _ => .of_eq rfl rfl⟩
  rcases putIoU_split h with ⟨-, rfl⟩ | ⟨f, td1, -, -, hput, rfl⟩
  · exact ⟨rfl, heq⟩
  · obtain ⟨ret, hist, error, hrls, rfl⟩ := putFileLog_cases hput
    obtain ⟨hoth, hrn, hdn, hmr⟩ := putFile_files hrls
    refine ⟨rfl, fun g => ?_⟩
    by_cases hg : g = f
    · subst hg
      exact ⟨hrn, fun hd => hdn.trans hd, fun _ => hmr⟩
    · have hotr : ((({ td with hist := hist, error := error } : Td).linkFree u).hist.files g) =
          td.hist.files g := hoth g hg
      rw [hotr]
      exact heq g

end Td

/-- A write as it is handed out, with its place counted from `file_offset`. -/
structure Write where
  file : FileId
  (start len : Nat)
  version : FioUnique
  deriving DecidableEq

namespace Write

def Touches (w : Write) (bs block : Nat) : Prop :=
  w.start < (block + 1) * bs ∧ block * bs < w.start + w.len

def ShareBlock (bs : Nat) (w w' : Write) : Prop :=
  w.file = w'.file ∧ ∃ block, w.Touches bs block ∧ w'.Touches bs block

end Write

namespace Td

def writeOf (td : Td) (u : Nat) (f : FileId) : Write :=
  ⟨f, ((td.ioUs u).offset - (td.hist.files f).fileOffset).toNat, (td.ioUs u).buflen.toNat,
    (td.ioUs u).uniqueVersion⟩

def handedOut (td : Td) : Option (Nat × Origin) → List Write
  | some (u, .generated) =>
    match (td.ioUs u).ddir, (td.ioUs u).file with
    | .write, some f => [td.writeOf u f]
    | _, _ => []
  | _ => []

lemma writeOf_touches (hlen : (td.ioUs u).buflen.toNat < 2 ^ 32)
    (hal : o.rwMinBs.toNat ∣ ((td.ioUs u).offset - (td.hist.files f).fileOffset).toNat)
    (h : (td.writeOf u f).Touches o.rwMinBs.toNat block) :
    blockOf o (td.hist.files f) (td.ioUs u) ≤ block ∧
      block < blockOf o (td.hist.files f) (td.ioUs u) + mapBlocksOf o (td.ioUs u) := by
  obtain ⟨hlow, hhg⟩ := h
  have hpos := o.rwMinBs_pos
  obtain ⟨q, hq⟩ := hal
  have hblk : blockOf o (td.hist.files f) (td.ioUs u) = q := by
    rw [blockOf, hq, Nat.mul_div_cancel_left _ hpos]
  have hcl := le_mapBlocksOf_mul (o := o) hlen
  simp only [writeOf] at hlow hhg
  rw [hq] at hlow hhg
  rw [hblk]
  constructor
  · by_contra hcon
    have hle : (block + 1) * o.rwMinBs.toNat ≤ q * o.rwMinBs.toNat :=
      Nat.mul_le_mul_right _ (by omega)
    rw [mul_comm q] at hle
    omega
  · by_contra hcon
    have hle : (q + mapBlocksOf o (td.ioUs u)) * o.rwMinBs.toNat ≤ block * o.rwMinBs.toNat :=
      Nat.mul_le_mul_right _ (by omega)
    rw [add_mul, mul_comm q] at hle
    omega

def Numbered (td td' : Td) : Prop :=
  td'.issue.unique = td.issue.unique ∧ td'.issue.timeN = td.issue.timeN ∨
    td'.issue.unique.number = td.issue.timeN.lastNumber ∧
      td'.issue.timeN.lastNumber = td.issue.timeN.lastNumber + 1

/-- What a call of `get_io_u` does to a job that tells its writes apart. -/
structure Moves (bs : Nat) (td td' : Td) (ws : List Write) : Prop where
  rands : ∀ g, (td.hist.files g).failedRands = 0 → (td'.hist.files g).failedRands = 0
  seqNr : td'.issue.ddirSeqNr = 1
  files : ∀ g, (td.hist.files g).isOpen = true ∨ (td.hist.files g).done = true →
    (td.hist.files g).Tracks (td'.hist.files g)
  numbered : Numbered td td'
  single : ws.length ≤ 1
  version : ∀ w ∈ ws, w.version = td'.issue.unique
  picked : ∀ w ∈ ws, (td.hist.files w.file).done = false
  marked : ∀ w ∈ ws, ∀ b, w.Touches bs b → (td'.hist.files w.file).Marked b
  fresh : ∀ w ∈ ws, ∀ b, w.Touches bs b → (td.hist.files w.file).isOpen = true →
    (td.hist.files w.file).Marked b → td'.issue.unique.number = td.issue.timeN.lastNumber

lemma Survives.moves (h : Survives u td td') (hnr : td.issue.ddirSeqNr = 1) : Moves bs td td' [] :=
  { rands := fun g => (h.files g).rands
    seqNr := h.seqNr hnr
    files := fun g => (h.files g).tracks ⟨id, fun _ => .of_eq rfl rfl⟩
    numbered := .inl ⟨h.unique, h.timeN⟩
    single := by simp
    version := nofun
    picked := nofun
    marked := nofun
    fresh := nofun }

variable {ws : List Write}

lemma Moves.of_survives (hpre : Survives u td₀ td) (h : Moves bs td td' ws)
    : Moves bs td₀ td' ws := by
  have hopn : ∀ g, (td.hist.files g).done = false → (td₀.hist.files g).isOpen = true →
      (td.hist.files g).isOpen = true ∧ (td₀.hist.files g).KeepsMarks (td.hist.files g) :=
    fun g hnot hopn => (hpre.files g).kept hopn hnot
  refine ⟨fun g hr => h.rands g ((hpre.files g).rands hr), h.seqNr, fun g hhl => ?_, ?_, h.single,
    h.version, fun w hw => ?_, h.marked, fun w hw b htch hwas hmrk => ?_⟩
  · refine (hpre.files g).tracks (h.files g ?_) hhl
    cases hdn : (td.hist.files g).done with
    | true => exact .inr rfl
    | false =>
      rcases hhl with hwas | hwas
      · exact .inl (hopn g hdn hwas).1
      · cases ((hpre.files g).done hwas).symm.trans hdn
  · rw [Numbered, ← hpre.unique, ← hpre.timeN]
    exact h.numbered
  · by_contra hcon
    have hdn := (hpre.files w.file).done (by simpa using hcon)
    cases hdn.symm.trans (h.picked w hw)
  · obtain ⟨hst, hmr⟩ := hopn w.file (h.picked w hw) hwas
    rw [← hpre.timeN]
    exact h.fresh w hw b htch hst (hmr.marked hmrk)

lemma Moves.of_same (hhs : td.hist = td₀.hist) (his : td.issue = td₀.issue) (h : Moves bs td td' ws)
    : Moves bs td₀ td' ws := by
  refine ⟨hhs ▸ h.rands, h.seqNr, hhs ▸ h.files, ?_, h.single, h.version, hhs ▸ h.picked, h.marked,
    ?_⟩
  · rw [Numbered, ← his]
    exact h.numbered
  · rw [← hhs, ← his]
    exact h.fresh

lemma Moves.putIoU (h : Moves bs td td' ws) (hput : td'.putIoU u close = .ok td'')
    : Moves bs td td'' [] := by
  obtain ⟨his, hfl⟩ := putIoU_tracks hput
  refine { rands := fun g hr => (hfl g).1.trans (h.rands g hr), seqNr := by rw [his]; exact h.seqNr,
           files := fun g hg => ?_, numbered := ?_, single := by simp,
           version := nofun, picked := nofun,
           marked := nofun, fresh := nofun }
  · have hpre := h.files g hg
    have hps := (hfl g).2
    refine ⟨fun hd => hps.done (hpre.done hd), fun hd => ?_⟩
    have hbc : (td'.hist.files g).done = false := by
      by_contra hcon
      cases (hps.done (by simpa using hcon)).symm.trans hd
    exact (hpre.marks hbc).trans (hps.marks hd)
  · rw [Numbered, his]
    exact h.numbered

lemma Prepared.tracks (h : Prepared u td td') (g : FileId) :
    (td.hist.files g).Tracks (td'.hist.files g) :=
  ⟨(h.files g).done, fun _ => h.marks g⟩

lemma handedOut_of_ne {origin : Origin} (h : (td.ioUs u).ddir ≠ .write) :
    td.handedOut (some (u, origin)) = [] := by
  unfold handedOut
  split
  · next hso =>
      cases hso
      split
      · next hwr _ => exact absurd hwr h
      · rfl
  · rfl

lemma handedOut_write (h : (td.ioUs u).ddir = .write) (hfl : (td.ioUs u).file = some f) :
    td.handedOut (some (u, .generated)) = [td.writeOf u f] := by
  simp [handedOut, h, hfl]

lemma finishRequest_moves (hin : o.verifyInner = true) (hops : o.uniqueOps = .timeN)
    (hvrf : o.verify ≠ .verifyNone) (hal : o.rwMinBs.toNat ∣ (o.baOf .write).toNat) {td1 : Td}
    (hnr : td.issue.ddirSeqNr = 1) (h : Survives u td td1) (hreq : Requested o u td td1 f)
    (hr : td1.finishRequest o k false u f m = .ok (false, td')) :
    Moves o.rwMinBs.toNat td td' (td'.handedOut (some (u, .generated))) := by
  rcases finishRequest_spec hin hops hvrf hr with ⟨hcon, -⟩ | ⟨-, hprp, hvrs⟩
  · cases hcon
  have hrn : ∀ g, (td.hist.files g).failedRands = 0 → (td'.hist.files g).failedRands = 0 :=
    fun g => (h.files.trans hprp.files g).rands
  have hsqn := hprp.seqNr.trans (h.seqNr hnr)
  have hfl : ∀ g, (td.hist.files g).isOpen = true ∨ (td.hist.files g).done = true →
      (td.hist.files g).Tracks (td'.hist.files g) :=
    fun g => (h.files g).tracks (hprp.tracks g)
  split_ifs at hvrs with hwr
  · rw [handedOut_write (hprp.ddir.trans hwr) (hprp.file.trans hreq.file)]
    obtain ⟨b, file, hsrv, hnot, hlen, hpl, hblk⟩ := hreq.blocks (by rw [hwr]; exact rfl)
    have hoff := (hprp.marks f).fileOffset
    have hmn : ∀ c, (td'.writeOf u f).Touches o.rwMinBs.toNat c →
        (td1.hist.files f).Marked c ∧ (file.Marked c → (td1.ioUs u).randomagain = true) := by
      intro c htch
      have heq : td'.writeOf u f = { td1.writeOf u f with version := (td'.ioUs u).uniqueVersion } := by
        unfold writeOf
        rw [hprp.offset, hoff, hprp.buflen]
      have hst : o.rwMinBs.toNat ∣ ((td1.ioUs u).offset - (td1.hist.files f).fileOffset).toNat := by
        rw [hpl, hwr]
        exact Dvd.dvd.mul_left hal b
      rw [heq] at htch
      have h := htch
      obtain ⟨hle, hlt⟩ := writeOf_touches hlen hst h
      exact hblk c hle hlt
    have hdrawn : (td1.ioUs u).randomagain = true →
        td'.issue.unique.number = td.issue.timeN.lastNumber ∧
          td'.issue.timeN.lastNumber = td.issue.timeN.lastNumber + 1 := by
      rw [← h.timeN]
      exact hvrs.fresh
    refine ⟨hrn, hsqn, hfl, ?_, by simp, ?_, ?_, ?_, ?_⟩
    · cases hag : (td1.ioUs u).randomagain with
      | true => exact .inr (hdrawn hag)
      | false =>
        obtain ⟨hunq, htmn⟩ := hvrs.current hag
        exact .inl ⟨hunq.trans h.unique, htmn.trans h.timeN⟩
    all_goals
      intro w hw
      obtain rfl := List.mem_singleton.1 hw
    · exact hvrs.version
    · exact hreq.picked
    · exact fun c htch => (hprp.marks f).marked (hmn c htch).1
    · intro c htch hopn hmrk
      exact (hdrawn ((hmn c htch).2 ((hsrv.kept hopn hnot).2.marked hmrk))).1
  · rw [handedOut_of_ne (fun hcon => hwr (hprp.ddir.symm.trans hcon))]
    refine ⟨hrn, hsqn, hfl, .inl ?_, by simp, ?_, ?_, ?_, ?_⟩
    · exact ⟨hvrs.1.trans h.unique, hvrs.2.trans h.timeN⟩
    all_goals exact nofun

end Td

structure ThreadOptions.Versions (o : ThreadOptions) : Prop where
  randomagain : o.randomagain = true
  inner : o.verifyInner = true
  ops : o.uniqueOps = .timeN
  verify : o.verify ≠ .verifyNone

structure ThreadOptions.MapsWrites (o : ThreadOptions) : Prop where
  anew : o.PicksAnew
  aligned : o.rwMinBs.toNat ∣ (o.baOf .write).toNat

namespace Td

variable (o) in
/-- The unit that `__get_io_u` picks is not one that goes on with an earlier request. -/
def PicksPlain (td : Td) (m : Meets o) : Prop :=
  ∀ u td₁, td.getIoUWait o m.waits = .ok (some u, td₁) → (td₁.ioUs u).busyOk = false

lemma newRequest_moves (h : o.Versions) (hmp : o.MapsWrites) (hsc : ScalesInto scale)
    (hnr : td.issue.ddirSeqNr = 1) (hrn : ∀ g, (td.hist.files g).failedRands = 0)
    (hbs : (td.ioUs u).busyOk = false)
    (hr : td.newRequest o k scale randMax false u m = .ok (failed, td')) :
    Moves o.rwMinBs.toNat td td' (if failed then [] else td'.handedOut (some (u, .generated))) := by
  obtain ⟨⟨nofile, td1⟩, hset, hr⟩ := of_bind hr
  obtain ⟨hpre, hreq⟩ := setIoUFile_spec hmp.anew hsc h.randomagain hnr hrn hbs hset
  cases nofile with
  | true =>
    cases hr
    exact hpre.moves hnr
  | false =>
    obtain ⟨f, hreq⟩ := hreq rfl
    simp only [Bool.false_eq_true, if_false, hreq.file] at hr
    cases failed with
    | true =>
      rcases finishRequest_spec h.inner h.ops h.verify hr with ⟨-, rfl⟩ | ⟨hcon, -⟩
      · exact hpre.moves hnr
      · cases hcon
    | false =>
      exact finishRequest_moves h.inner h.ops h.verify hmp.aligned hnr hpre hreq hr

section

variable (hjob : o.Versions) (hmp : o.MapsWrites) (hsc : ScalesInto scale)
  (hnr : td.issue.ddirSeqNr = 1) (hrn : ∀ g, (td.hist.files g).failedRands = 0)

include hjob hmp hsc hnr hrn

lemma chooseRequest_moves
    (hbs : (td.ioUs u).busyOk = false) {origin : Option Origin}
    (h : td.chooseRequest o k scale randMax false u m = .ok (origin, td')) :
    Moves o.rwMinBs.toNat td td' (td'.handedOut (origin.map (u, ·))) := by
  obtain ⟨⟨got, td1⟩, hvrf, h⟩ := of_bind h
  have hen := checkGetVerify_survives hvrf
  cases got with
  | true =>
    cases h
    exact hen.moves hnr
  | false =>
    obtain ⟨⟨got, td2⟩, htr, h⟩ := of_bind h
    have hent := hen.trans (checkGetTrim_survives htr)
    cases got with
    | true =>
      cases h
      exact hent.moves hnr
    | false =>
      simp only [Bool.false_eq_true, if_false] at h
      split_ifs at h
      · cases h
        exact hent.moves hnr
      · obtain ⟨⟨failed, td3⟩, hnew, h⟩ := of_bind h
        cases h
        have hmv := newRequest_moves hjob hmp hsc (hent.seqNr hnr)
          (fun g => (hent.files g).rands (hrn g)) (hent.busyOk.trans hbs) hnew
        have hout := hmv.of_survives hent
        cases failed <;> exact hout

lemma getReadyIoU_moves
    (hpl : td.PicksPlain o m) {got : Option (Nat × Origin)}
    (h : td.getReadyIoU o k scale randMax false m = .ok (got, td')) :
    Moves o.rwMinBs.toNat td td' (td'.handedOut got) := by
  obtain ⟨⟨res, td1⟩, hwt, h⟩ := of_bind h
  obtain ⟨td₀, ⟨hhs0, his0⟩, hget⟩ := getIoUWait_rely
    (I := fun t => t.hist = td.hist ∧ t.issue = td.issue)
    (fun hI hrl => ⟨hrl.hist.trans hI.1, hrl.issue.trans hI.2⟩) ⟨rfl, rfl⟩ hwt
  cases res with
  | none =>
    cases h
    obtain rfl := getIoU_none hget
    exact ((Survives.refl 0 _).moves (his0 ▸ hnr)).of_same hhs0 his0
  | some u =>
    obtain ⟨hhs1, his1, -, -⟩ := getIoU_spec hget
    rw [hhs0] at hhs1
    rw [his0] at his1
    obtain ⟨⟨chosen, td2⟩, hcho, h⟩ := of_bind h
    have hchs : Moves o.rwMinBs.toNat td td2 (td2.handedOut (chosen.map (u, ·))) :=
      (chooseRequest_moves hjob hmp hsc (his1 ▸ hnr) (hhs1 ▸ hrn)
        (hpl u td1 hwt) hcho).of_same hhs1 his1
    cases chosen with
    | none =>
      obtain ⟨td3, hput, h⟩ := of_bind h
      cases h
      exact hchs.putIoU hput
    | some origin =>
      simp only [prepIoU] at h
      split_ifs at h
      · obtain ⟨td3, hput, h⟩ := of_bind h
        cases h
        exact hchs.putIoU hput
      · cases h
        exact hchs

end

structure StartsVersions (td : Td) : Prop where
  seqNr : td.issue.ddirSeqNr = 1
  rands : ∀ g, (td.hist.files g).failedRands = 0
  number : td.issue.unique.number < td.issue.timeN.lastNumber

/-- What happens between two calls of `get_io_u`: no file that has been written loses its marks before
    it is done, and no number is drawn twice. -/
structure Between (ws : List Write) (td td' : Td) : Prop where
  written : ∀ w ∈ ws, (td.hist.files w.file).Tracks (td'.hist.files w.file)
  rands : ∀ g, (td.hist.files g).failedRands = 0 → (td'.hist.files g).failedRands = 0
  seqNr : td'.issue.ddirSeqNr = td.issue.ddirSeqNr
  unique : td'.issue.unique = td.issue.unique
  lastNumber : td.issue.timeN.lastNumber ≤ td'.issue.timeN.lastNumber

variable (k o scale randMax) in
/-- The writes that a job has handed out, with calls of `get_io_u` as `P` allows them. -/
inductive Issues (P : List Write → Td → Meets o → Prop) (start : Td) : List Write → Td → Prop
  | start : Issues P start [] start
  | between {ws : List Write} {td td' : Td} :
      Issues P start ws td → Between ws td td' → Issues P start ws td'
  | get {ws : List Write} {td td' : Td} {m : Meets o} {got : Option (Nat × Origin)} :
      Issues P start ws td → P ws td m →
      td.getReadyIoU o k scale randMax false m = .ok (got, td') →
      Issues P start (ws ++ td'.handedOut got) td'

def HasNumber (td : Td) : Prop := td.issue.timeN.lastNumber.toNat + 1 < 2 ^ 32

variable (o) in
structure KeepsTrack (ws : List Write) (td : Td) (m : Meets o) : Prop where
  number : td.HasNumber
  held : ∀ w ∈ ws, (td.hist.files w.file).isOpen = true ∨ (td.hist.files w.file).done = true
  plain : td.PicksPlain o m

structure Tracked (bs : Nat) (ws : List Write) (td : Td) : Prop where
  seqNr : td.issue.ddirSeqNr = 1
  rands : ∀ g, (td.hist.files g).failedRands = 0
  number : td.issue.unique.number < td.issue.timeN.lastNumber
  numbers : ∀ w ∈ ws, w.version.number < td.issue.timeN.lastNumber
  written : ∀ w ∈ ws, ∀ b, w.Touches bs b →
    (td.hist.files w.file).done = true ∨ (td.hist.files w.file).Marked b
  apart : ws.Pairwise fun w w' => w.ShareBlock bs w' → w.version.number ≠ w'.version.number

lemma Tracked.between (h : Tracked bs ws td) (hbtw : Between ws td td') : Tracked bs ws td' := by
  refine ⟨hbtw.seqNr.trans h.seqNr, fun g => hbtw.rands g (h.rands g), ?_, fun w hw => ?_,
    fun w hw b htch => ?_, h.apart⟩
  · rw [hbtw.unique]
    exact Nat.lt_of_lt_of_le h.number hbtw.lastNumber
  · exact Nat.lt_of_lt_of_le (h.numbers w hw) hbtw.lastNumber
  · cases hdn : (td'.hist.files w.file).done with
    | true => exact .inl rfl
    | false =>
      have htrc := hbtw.written w hw
      rcases h.written w hw b htch with hd | hmrk
      · cases (htrc.done hd).symm.trans hdn
      · exact .inr ((htrc.marks hdn).marked hmrk)

lemma Numbered.lt (h : Numbered td td') (hrm : td.HasNumber)
    (hnmb : td.issue.unique.number < td.issue.timeN.lastNumber) :
    td'.issue.unique.number < td'.issue.timeN.lastNumber ∧
      td.issue.timeN.lastNumber ≤ td'.issue.timeN.lastNumber := by
  rcases h with ⟨hunq, htmn⟩ | ⟨hunq, hnx⟩
  · rw [hunq, htmn]
    exact ⟨hnmb, BitVec.le_refl _⟩
  · unfold HasNumber at hrm
    rw [hunq, hnx, BitVec.lt_def, BitVec.le_def, BitVec.toNat_add]
    constructor <;> simp <;> omega

lemma Tracked.get {ws new : List Write} (h : Tracked bs ws td) (hrm : td.HasNumber)
    (hhl : ∀ w ∈ ws, (td.hist.files w.file).isOpen = true ∨ (td.hist.files w.file).done = true)
    (hmv : Moves bs td td' new) : Tracked bs (ws ++ new) td' := by
  obtain ⟨hlt, hle⟩ := hmv.numbered.lt hrm h.number
  refine ⟨hmv.seqNr, fun g => hmv.rands g (h.rands g), hlt, fun w hw => ?_, fun w hw b htch => ?_,
    ?_⟩
  · rcases List.mem_append.1 hw with hold | hnew
    · exact Nat.lt_of_lt_of_le (h.numbers w hold) hle
    · rw [hmv.version w hnew]
      exact hlt
  · rcases List.mem_append.1 hw with hold | hnew
    · cases hdn : (td'.hist.files w.file).done with
      | true => exact .inl rfl
      | false =>
        have htrc := hmv.files w.file (hhl w hold)
        rcases h.written w hold b htch with hd | hmrk
        · cases (htrc.done hd).symm.trans hdn
        · exact .inr ((htrc.marks hdn).marked hmrk)
    · exact .inr (hmv.marked w hnew b htch)
  · refine List.pairwise_append.2 ⟨h.apart, ?_, fun w hold w' hnew hsh => ?_⟩
    · have hsng := hmv.single
      match new with
      | [] => exact .nil
      | [w] => exact List.pairwise_singleton _ w
    · -- the file of the new write is not done, so it is open and the map still has the earlier write
      obtain ⟨hfl, b, htch, htc'⟩ := hsh
      have hnot : (td.hist.files w.file).done = false := by rw [hfl]; exact hmv.picked w' hnew
      have hopn : (td.hist.files w.file).isOpen = true := by
        rcases hhl w hold with ho | hd
        · exact ho
        · cases hd.symm.trans hnot
      have hmrk : (td.hist.files w.file).Marked b := by
        rcases h.written w hold b htch with hd | hm
        · cases hd.symm.trans hnot
        · exact hm
      rw [hfl] at hopn hmrk
      have hfr := hmv.fresh w' hnew b htc' hopn hmrk
      rw [hmv.version w' hnew, hfr]
      exact BitVec.ne_of_lt (h.numbers w hold)

lemma Issues.tracked {start : Td} (hjob : o.Versions) (hmp : o.MapsWrites) (hsc : ScalesInto scale)
    (h : StartsVersions start) (hr : Issues k o scale randMax (KeepsTrack o) start ws td)
    : Tracked o.rwMinBs.toNat ws td := by
  induction hr with
  | start =>
    exact ⟨h.seqNr, h.rands, h.number, nofun, nofun, .nil⟩
  | between _ hbtw ih => exact ih.between hbtw
  | get _ hkp hget ih =>
    exact ih.get hkp.number hkp.held
      (getReadyIoU_moves hjob hmp hsc ih.seqNr ih.rands hkp.plain hget)

/-- **Two writes of one block have different versions**, if the map has a mark of every write. -/
theorem issues_versions_apart {start : Td} {ws : List Write} (hjob : o.Versions) (hmaps : o.MapsWrites)
    (hscale : ScalesInto scale) (hstart : StartsVersions start)
    (hrun : Issues k o scale randMax (KeepsTrack o) start ws td) :
    ws.Pairwise fun w w' => w.ShareBlock o.rwMinBs.toNat w' →
      o.uniqueOps.isMatch w.version w'.version = false := by
  refine (hrun.tracked hjob hmaps hscale hstart).apart.imp fun {w w'} hap hsh => ?_
  have hne := hap hsh
  rw [hjob.ops]
  simp only [UniqueOps.isMatch, decide_eq_false_iff_not, not_and]
  exact fun _ => hne

/-- Random writes of one block, with `ddir_seq_nr` of them in a row. -/
def versionOptions (seqNr : Nat) : ThreadOptions := { defaultOptions with
  ddirRead := false, ddirWrite := true, ddirRand := true, ddirSeqNr := seqNr, verify := .verifyMeta
  verifyInner := true, randomagain := true }

def versionJob : Td := {
  ioUFreelist := [0, 1, 2]
  hist := { files := fun _ => {
    realFileSize := 65536, ioSize := 65536, fileMap := some fun _ => 0, numMaps := 1, isOpen := true
    fdOpen := true, references := 1 } }
  issue := { unique := ⟨1, 0⟩, timeN := ⟨1, 1⟩ } }

/-- A call of `get_io_u` that makes a write, for the draw of its block. -/
def drawsVersion (seqNr block : Nat) : Meets (versionOptions seqNr) where
  waits := []
  verifyOpened := .succeeds
  trimOpened := .succeeds
  openError := 0
  picks := [⟨[⟨0, .succeeds, 0⟩], ⟨.write, false, ⟨fun _ => block, fun _ => 0⟩, []⟩, 0, 0⟩]
  now := ⟨0, 0⟩
  info := ⟨0, 0, 0, 0⟩
  seed := 0
  prepFails := false
  close := 0

def getsVersion (seqNr : Nat) (td : Td) (block : Nat) : Except Fault (Option (Nat × Origin) × Td) :=
  td.getReadyIoU (versionOptions seqNr) sumChecksums drawScale (2 ^ 32 - 1) false
    (drawsVersion seqNr block)

abbrev VersionIssues (seqNr : Nat)
    (P : List Write → Td → Meets (versionOptions seqNr) → Prop) (ws : List Write) (td : Td) : Prop :=
  Issues sumChecksums (versionOptions seqNr) drawScale (2 ^ 32 - 1) P versionJob ws td

lemma versionJob_starts : StartsVersions versionJob := ⟨rfl, fun _ => rfl, by decide⟩

lemma picksPlain_of_run {seqNr : Nat}
    (h : ∃ r, td.getIoUWait (versionOptions seqNr) [] = .ok r ∧ ∀ u ∈ r.1, (r.2.ioUs u).busyOk = false) :
    td.PicksPlain (versionOptions seqNr) (drawsVersion seqNr block) := by
  intro u td1 hwt
  obtain ⟨r, hr, hpl⟩ := h
  cases hr.symm.trans hwt
  exact hpl u rfl

theorem issues_versions_apart_twice :
    ∃ ws td, VersionIssues 1 (KeepsTrack (versionOptions 1)) ws td ∧
      ws.map (fun w => (w.start, w.len)) = [(0, 4096), (0, 4096)] ∧
      ws.Pairwise fun w w' => w.ShareBlock (versionOptions 1).rwMinBs.toNat w' →
        (versionOptions 1).uniqueOps.isMatch w.version w'.version = false := by
  obtain ⟨⟨got1, td1⟩, hgt1, hnmb, hopn, hpl, ⟨got2, td2⟩, hgt2, hwrt⟩ :
      ∃ r, getsVersion 1 versionJob 0 = .ok r ∧ r.2.issue.timeN.lastNumber = 1 ∧
        (∀ w ∈ r.2.handedOut r.1, (r.2.hist.files w.file).isOpen = true) ∧
        (∃ r', r.2.getIoUWait (versionOptions 1) [] = .ok r' ∧ ∀ u ∈ r'.1, (r'.2.ioUs u).busyOk = false) ∧
      ∃ r', getsVersion 1 r.2 0 = .ok r' ∧ (r.2.handedOut r.1 ++ r'.2.handedOut r'.1).map
        (fun w => (w.start, w.len)) = [(0, 4096), (0, 4096)] := by decide +kernel
  have hfr : VersionIssues 1 (KeepsTrack (versionOptions 1)) ([] ++ td1.handedOut got1) td1 := by
    refine .get .start ⟨?_, nofun, ?_⟩ hgt1
    · exact (by decide : versionJob.issue.timeN.lastNumber.toNat + 1 < 2 ^ 32)
    · exact picksPlain_of_run (by decide +kernel)
  have hkp : KeepsTrack (versionOptions 1) ([] ++ td1.handedOut got1) td1 (drawsVersion 1 0) :=
    ⟨by rw [HasNumber, hnmb]; decide, fun w hw => .inl (hopn w hw), picksPlain_of_run hpl⟩
  have hr := Issues.get hfr hkp hgt2
  exact ⟨_, td2, hr, hwrt,
    issues_versions_apart ⟨rfl, rfl, rfl, by decide⟩ ⟨⟨rfl, rfl, rfl⟩, by decide⟩ drawScale_into
      versionJob_starts hr⟩

/-- With two writes in a row the second one is not marked, and the third one, at a random place, gets the
    version of the second. -/
theorem issues_versions_equal :
    (versionOptions 2).Versions ∧ StartsVersions versionJob ∧ ∃ ws td,
      VersionIssues 2 (fun _ td _ => td.HasNumber) ws td ∧
      ∃ w₁ w₂ w₃, ws = [w₁, w₂, w₃] ∧ w₂.ShareBlock (versionOptions 2).rwMinBs.toNat w₃ ∧
        (versionOptions 2).uniqueOps.isMatch w₂.version w₃.version = true := by
  refine ⟨⟨rfl, rfl, rfl, by decide⟩, versionJob_starts, ?_⟩
  obtain ⟨⟨got1, td1⟩, hgt1, hnm1, ⟨got2, td2⟩, hgt2, hnm2, ⟨got3, td3⟩, hgt3, hwrt⟩ :
      ∃ r1, getsVersion 2 versionJob 0 = .ok r1 ∧ r1.2.issue.timeN.lastNumber = 1 ∧
      ∃ r2, getsVersion 2 r1.2 0 = .ok r2 ∧ r2.2.issue.timeN.lastNumber = 2 ∧
      ∃ r3, getsVersion 2 r2.2 (2 ^ 32 / 15 + 1) = .ok r3 ∧
        r1.2.handedOut r1.1 ++ r2.2.handedOut r2.1 ++ r3.2.handedOut r3.1 =
          [⟨0, 0, 4096, ⟨1, 0⟩⟩, ⟨0, 4096, 4096, ⟨1, 1⟩⟩, ⟨0, 4096, 4096, ⟨1, 1⟩⟩] := by decide +kernel
  have hrm : ∀ {td : Td} {n : BitVec 32}, td.issue.timeN.lastNumber = n → n ≤ 2 → td.HasNumber := by
    intro td n hn hle
    rw [HasNumber, hn]
    have := BitVec.le_def.1 hle
    simp at this
    omega
  have hr : VersionIssues 2 (fun _ td _ => td.HasNumber)
      ([] ++ td1.handedOut got1 ++ td2.handedOut got2 ++ td3.handedOut got3) td3 :=
    .get (.get (.get .start (hrm rfl (by decide)) hgt1) (hrm hnm1 (by decide)) hgt2)
      (hrm hnm2 (by decide)) hgt3
  refine ⟨_, td3, hr, _, _, _, hwrt, ⟨rfl, 1, ?_, ?_⟩, rfl⟩
  all_goals exact ⟨by decide, by decide⟩

end Td

end FioSsd
