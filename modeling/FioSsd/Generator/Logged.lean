import FioSsd.Generator.Apart
import FioSsd.History.Tree

/-! # Writes on the sorted tree -/

namespace FioSsd

open Function List History

variable {f : FileId} {ioU : IoU}

open Extents

structure WriteRun where
  hist : History
  pending : List (FileId × IoU)
  log : List (Extent FileId Nat)

inductive WriteAct
  /-- `fill_io_u` for a unit and a file of the job. -/
  | issue (f : FileId) (s : Fill) (d : FillDraws)
  /-- `log_io_piece` on the tree. -/
  | log (ioU : IoU) (r : Nat)
  /-- All else that is done to the files: their positions and flags, and the reset of their maps. -/
  | refile (files : FileId → FioFile)

namespace WriteRun

def issued (st : WriteRun) (f : FileId) (ddir : Ddir) (failed : Bool) (s' : Fill) : WriteRun where
  hist := { st.hist with files := update st.hist.files f s'.file }
  pending :=
    if failed = false ∧ ddir = .write then (f, { s'.ioU with file := some f }) :: st.pending
    else st.pending
  log := st.log

section

variable (hash : KeyHash) (scale : Scale) (randMax : Nat) (o : ThreadOptions)

/-- `fill_io_u` issues a write for any unit and any draws, and `log_io_piece` logs the pending writes in
    any order. -/
inductive Step : WriteRun → WriteAct → WriteRun → Prop
  | issue {st : WriteRun} {f : FileId} {s s' : Fill} {d : FillDraws} {failed : Bool} :
      s.file = st.hist.files f →
      fillIoU scale randMax o false st.hist.ioHistLen s d = .ok (failed, s') →
      Step st (.issue f s d) (st.issued f d.ddir failed s')
  | log {st : WriteRun} {f : FileId} {ioU : IoU} {r : Nat} {before behind : List (FileId × IoU)}
      {h' : History} :
      st.pending = before ++ (f, ioU) :: behind → History.OnTree o (st.hist.files f) →
      st.hist.logIoPiece hash o ioU r = .ok h' →
      Step st (.log ioU r)
        ⟨h', before ++ behind, st.log ++ [History.pieceExtent f ioU st.hist.nextAddr]⟩
  | refile {st : WriteRun} {files : FileId → FioFile} :
      (∀ f, (files f).fileOffset = (st.hist.files f).fileOffset) →
      Step st (.refile files) { st with hist := { st.hist with files := files } }

inductive Runs (C : WriteRun → WriteAct → Prop) (st : WriteRun) : WriteRun → Prop
  | refl : Runs C st st
  | step {st₁ st₂ : WriteRun} {a : WriteAct} :
      Runs C st st₁ → C st₁ a → Step hash scale randMax o st₁ a st₂ → Runs C st st₂

end

structure Starts (st : WriteRun) : Prop where
  linked : History.Linked [] st.hist
  tree : st.hist.ioHistTree = []
  pending : st.pending = []
  log : st.log = []

def OnGrid (o : ThreadOptions) (_ : WriteRun) : WriteAct → Prop
  | .issue _ s d => o.zoneSkip = 0 ∧ (d.ddir = .write → GridFill o s)
  | .log _ _ | .refile _ => True

def OnMap (o : ThreadOptions) (st : WriteRun) : WriteAct → Prop
  | .issue _ s d => o.zoneSkip = 0 ∧ MapFill o s d.ddir
  | .log _ _ => True
  | .refile files => ∀ f, (files f).fileMap = (st.hist.files f).fileMap

variable {hash : KeyHash} {scale : Scale} {randMax : Nat} {o : ThreadOptions}
  {C : WriteRun → WriteAct → Prop} {P : FioFile → Nat → Nat → Prop} {st st' : WriteRun} {a : WriteAct}

/-- **A condition on the steps keeps ranges apart** if under it a property of ranges survives every step
    and sets each new write apart. -/
structure Separates (scale : Scale) (randMax : Nat) (o : ThreadOptions)
    (C : WriteRun → WriteAct → Prop) (P : FioFile → Nat → Nat → Prop) : Prop where
  fill : ∀ {st f s d failed s'}, C st (.issue f s d) →
    fillIoU scale randMax o false st.hist.ioHistLen s d = .ok (failed, s') →
    (∀ start len, P s.file start len → P s'.file start len) ∧
      (failed = false → d.ddir = .write → SetsApart P s.file s'.file s'.ioU)
  refile : ∀ {st files}, C st (.refile files) →
    (∀ f, (files f).fileOffset = (st.hist.files f).fileOffset) →
    ∀ f start len, P (st.hist.files f) start len → P (files f) start len

lemma onGrid_separates (hsc : ScalesInto scale) :
    Separates scale randMax o (OnGrid o) (GridRange o) := by
  constructor
  · rintro st f s d failed s' ⟨hzn, hgr⟩ hr
    refine ⟨fun start len h => ?_, fun hok hddi => ?_⟩
    · unfold GridRange at h ⊢
      rwa [fillIoU_fileOffset hsc hzn hr]
    · subst hok
      exact (hgr hddi).setsApart hsc hzn hddi hr
  · intro st files _ hoff f start len h
    unfold GridRange at h ⊢
    rwa [hoff f]

lemma onMap_separates (hsc : ScalesInto scale) :
    Separates scale randMax o (OnMap o) (MarkedRange o) := by
  constructor
  · rintro st f s d failed s' ⟨hzn, hfl⟩ hr
    refine ⟨fun start len h => ?_, fun hok hddi => ?_⟩
    · exact h.mono (fillIoU_fileOffset hsc hzn hr) fun b hb => hfl.marks hsc hzn hr hb
    · subst hok
      exact hfl.setsApart hsc hzn hddi hr
  · intro st files hmap hoff f start len h
    exact h.mono (hoff f) fun b hb => (marked_of_fileMap (hmap f)).2 hb

def ranges (st : WriteRun) : Set (Extent FileId Unit) :=
  {r | (∃ e ∈ History.treeExtents st.hist, r = ⟨e.key, e.start, e.len, ()⟩) ∨
    ∃ q ∈ st.pending, r = ⟨q.1, q.2.offset.toNat, q.2.buflen.toNat, ()⟩}

structure Inv (P : FioFile → Nat → Nat → Prop) (st : WriteRun) : Prop where
  linked : History.Linked [] st.hist
  exact : Represents st.log (History.treeExtents st.hist)
  whole : ∀ e ∈ History.treeExtents st.hist, e ∈ st.log
  pending : ∀ q ∈ st.pending, q.2.file = some q.1 ∧ 0 < q.2.buflen.toNat
  mine : ∀ r ∈ st.ranges, P (st.hist.files r.key) r.start r.len
  apart : ∀ r ∈ st.ranges, Fits st.ranges r

lemma Inv.fits (h : Inv P st) (hmem : (f, ioU) ∈ st.pending) (p : Nat) :
    Fits (treeExtents st.hist) (pieceExtent f ioU p) := by
  intro e he hkey
  exact h.apart ⟨f, ioU.offset.toNat, ioU.buflen.toNat, ()⟩ (.inr ⟨_, hmem, rfl⟩)
    ⟨e.key, e.start, e.len, ()⟩ (.inl ⟨e, he, rfl⟩) hkey

lemma Inv.logs (h : Inv P st) (hash : KeyHash) (hmem : (f, ioU) ∈ st.pending)
    (htr : History.OnTree o (st.hist.files f)) (r : Nat) :
    ∃ h', st.hist.logIoPiece hash o ioU r = .ok h' ∧
      treeExtents h' = insert (pieceExtent f ioU st.hist.nextAddr)
        (notAt (treeExtents st.hist) (pieceExtent f ioU st.hist.nextAddr)) := by
  obtain ⟨hfl, hpos⟩ := h.pending _ hmem
  exact logIoPiece_fits h.linked hfl htr h.exact.valid hpos (h.fits hmem _) r

lemma Starts.inv (h : st.Starts) : Inv P st := by
  have htr : treeExtents st.hist = ∅ := by
    ext e
    simp [treeExtents, h.tree]
  have hno : ∀ r, r ∉ st.ranges := by
    rintro r (⟨e, he, -⟩ | ⟨q, hq, -⟩)
    · rw [htr] at he
      exact he
    · rw [h.pending] at hq
      cases hq
  refine ⟨h.linked, ?_, fun e he => ?_, fun q hq => ?_, fun r hr => absurd hr (hno r),
    fun r hr => absurd hr (hno r)⟩
  · rw [htr, h.log]
    exact represents_empty
  · rw [htr] at he
    exact absurd he (Set.notMem_empty e)
  · rw [h.pending] at hq
    cases hq

lemma Inv.apart_mono (h : Inv P st) (hsub : st'.ranges ⊆ st.ranges) :
    ∀ r ∈ st'.ranges, Fits st'.ranges r :=
  fun r hr e he => h.apart r (hsub hr) e (hsub he)

lemma Inv.logged (h : Inv P st) {r : Nat} {before behind : List (FileId × IoU)} {h' : History}
    (hpnd : st.pending = before ++ (f, ioU) :: behind) (htr : History.OnTree o (st.hist.files f))
    (hrun : st.hist.logIoPiece hash o ioU r = .ok h') :
    Inv P ⟨h', before ++ behind, st.log ++ [pieceExtent f ioU st.hist.nextAddr]⟩ := by
  have hmem : (f, ioU) ∈ st.pending := by simp [hpnd]
  have hrs : ∀ q ∈ before ++ behind, q ∈ st.pending := by
    intro q hq
    rw [hpnd]
    rcases mem_append.1 hq with hq | hq
    · exact mem_append_left _ hq
    · exact mem_append_right _ (.tail _ hq)
  obtain ⟨hfil, hpos⟩ := h.pending _ hmem
  obtain ⟨h'', hrn', hext⟩ := h.logs hash hmem htr r
  obtain rfl := Except.ok.inj (hrn'.symm.trans hrun)
  have hfl : h''.files = st.hist.files := by
    refine (logIoPiece_plain ?_ hrun).files
    rintro ⟨g, hg, hseg⟩
    obtain rfl := Option.some.inj (hfil.symm.trans hg)
    cases htr.1.symm.trans hseg
  -- a pending range moves to the tree, and no range is new
  have hsub : WriteRun.ranges ⟨h'', before ++ behind,
      st.log ++ [pieceExtent f ioU st.hist.nextAddr]⟩ ⊆ st.ranges := by
    rintro r (⟨e, he, rfl⟩ | ⟨q, hq, rfl⟩)
    · change e ∈ treeExtents h'' at he
      rw [hext] at he
      rcases he with rfl | ⟨he, -⟩
      · exact .inr ⟨_, hmem, rfl⟩
      · exact .inl ⟨e, he, rfl⟩
    · exact .inr ⟨q, hrs q hq, rfl⟩
  refine ⟨h.linked.logIoPiece hrun, ?_, fun e he => ?_, fun q hq => h.pending q (hrs q hq),
    fun r hr => ?_, h.apart_mono hsub⟩
  · change Represents _ (treeExtents h'')
    rw [hext]
    exact h.exact.replace (h.fits hmem _) hpos
  · change e ∈ treeExtents h'' at he
    rw [hext] at he
    rcases he with rfl | ⟨he, -⟩
    · exact mem_append_right _ (.head _)
    · exact mem_append_left _ (h.whole e he)
  · change P (h''.files r.key) r.start r.len
    rw [hfl]
    exact h.mine r (hsub hr)

lemma Inv.refiled (h : Inv P st) {files : FileId → FioFile}
    (hmn : ∀ f start len, P (st.hist.files f) start len → P (files f) start len) :
    Inv P { st with hist := { st.hist with files := files } } :=
  ⟨h.linked.withFiles files, h.exact, h.whole, h.pending, fun r hr => hmn _ _ _ (h.mine r hr), h.apart⟩

lemma Inv.joined (h : Inv P st) {file : FioFile} (hf : st.hist.files f = file)
    (hfl : ioU.file = some f) (hmn : P file ioU.offset.toNat ioU.buflen.toNat)
    (hpos : 0 < ioU.buflen.toNat) (hft : Fits st.ranges ⟨f, ioU.offset.toNat, ioU.buflen.toNat, ()⟩)
    :
    Inv P { st with pending := (f, ioU) :: st.pending } := by
  have hrng : ∀ r, r ∈ WriteRun.ranges { st with pending := (f, ioU) :: st.pending } →
      r = ⟨f, ioU.offset.toNat, ioU.buflen.toNat, ()⟩ ∨ r ∈ st.ranges := by
    rintro r (hr | ⟨q, hq, rfl⟩)
    · exact .inr (.inl hr)
    · rcases mem_cons.1 hq with rfl | hq
      · exact .inl rfl
      · exact .inr (.inr ⟨q, hq, rfl⟩)
  refine ⟨h.linked, h.exact, h.whole, fun q hq => ?_, fun r hr => ?_, fun r hr e he hkey => ?_⟩
  · rcases mem_cons.1 hq with rfl | hq
    · exact ⟨hfl, hpos⟩
    · exact h.pending q hq
  · rcases hrng r hr with rfl | hr
    · change P (st.hist.files f) _ _
      rwa [hf]
    · exact h.mine r hr
  · rcases hrng r hr with rfl | hr
    · rcases hrng e he with rfl | he
      · exact .inl ⟨rfl, rfl⟩
      · exact hft e he hkey
    · rcases hrng e he with rfl | he
      · rcases hft r hr hkey.symm with ⟨hst, hlen⟩ | hpre | hbhn
        · exact .inl ⟨hst.symm, hlen.symm⟩
        · exact .inr (.inr hpre)
        · exact .inr (.inl hbhn)
      · exact h.apart r hr e he hkey

section

variable (hC : Separates scale randMax o C P)

include hC

lemma Inv.issued (h : Inv P st) {s s' : Fill} {d : FillDraws} {failed : Bool}
    (hc : C st (.issue f s d)) (hfl : s.file = st.hist.files f)
    (hrun : fillIoU scale randMax o false st.hist.ioHistLen s d = .ok (failed, s')) :
    Inv P (st.issued f d.ddir failed s') := by
  obtain ⟨hkp, hnew⟩ := hC.fill hc hrun
  have hmn : ∀ g start len, P (st.hist.files g) start len →
      P (update st.hist.files f s'.file g) start len := by
    intro g start len hg
    by_cases hgf : g = f
    · subst hgf
      rw [update_self]
      exact hkp start len (hfl ▸ hg)
    · rwa [update_of_ne hgf]
  have hrfl := h.refiled hmn
  unfold WriteRun.issued
  split_ifs with hwr
  · have hset := hnew hwr.1 hwr.2
    refine hrfl.joined (update_self ..) rfl hset.mine hset.pos fun r hr hkey => ?_
    have hP := h.mine r hr
    rw [hkey] at hP
    exact hset.apart _ _ (hfl ▸ hP)
  · exact hrfl

lemma Inv.step (h : Inv P st) (hc : C st a) (hst : Step hash scale randMax o st a st')
    : Inv P st' := by
  cases hst with
  | issue hfl hr => exact h.issued hC hc hfl hr
  | log hpnd htr hr => exact h.logged hpnd htr hr
  | refile hoff => exact h.refiled (hC.refile hc hoff)

lemma Runs.inv (h : st.Starts) (hr : Runs hash scale randMax o C st st') : Inv P st' := by
  induction hr with
  | refl => exact h.inv
  | step _ hc hst ih => exact ih.step hC hc hst

end

/-- What the tree is for: it has the ranges of the last writes, each as it was written and apart
    from the others, and no write still to be logged fails the assertion on its length. -/
structure Exact (hash : KeyHash) (o : ThreadOptions) (st : WriteRun) : Prop where
  represents : Represents st.log (History.treeExtents st.hist)
  whole : ∀ e ∈ History.treeExtents st.hist, e ∈ st.log
  logs : ∀ f ioU, (f, ioU) ∈ st.pending → History.OnTree o (st.hist.files f) →
    ∀ r, ∃ h', st.hist.logIoPiece hash o ioU r = .ok h'

lemma Inv.toExact (h : Inv P st) : Exact hash o st := by
  refine ⟨h.exact, h.whole, fun f ioU hmem htr r => ?_⟩
  obtain ⟨h', hr, -⟩ := h.logs hash hmem htr r
  exact ⟨h', hr⟩

/-- **The sorted tree is exact** along every run of writes that lie on a grid, and along every run of
    requests for which the map hands out each block once. -/
theorem sortedTree_exact (hscale : ScalesInto scale) (hstart : st.Starts)
    (hrun : Runs hash scale randMax o (OnGrid o) st st' ∨ Runs hash scale randMax o (OnMap o) st st') :
    Exact hash o st' := by
  rcases hrun with hgr | hmap
  · exact (hgr.inv (onGrid_separates hscale) hstart).toExact
  · exact (hmap.inv (onMap_separates hscale) hstart).toExact

/-- A random write job with `bs=4096`, `blockalign` as given and `verify=md5`. -/
def alignedOptions (ba : BitVec 32) : ThreadOptions :=
  { defaultOptions with
    ddirRand := true, ddirWrite := true, ddirRead := false, verify := .verifyMd5, ba := ba, readBa := ba
    norandommap := true }

def unwritten : WriteRun where
  hist := { files := fun _ => { realFileSize := 16384, ioSize := 16384 } }
  pending := []
  log := []

def nextFill (h : History) : Fill := ⟨default, h.files 0, 1, 0⟩

def nextDraws (r : Nat) : FillDraws := ⟨.write, false, ⟨fun _ => r, fun _ => 0⟩, []⟩

def writeNext (o : ThreadOptions) (h : History) (r : Nat) : Except Fault History := do
  let (failed, s') ← fillIoU drawScale 0 o false h.ioHistLen (nextFill h) (nextDraws r)
  let h := { h with files := update h.files 0 s'.file }
  if failed then return h else h.logIoPiece (fun _ => 0) o { s'.ioU with file := some 0 } 0

lemma alignedOptions_onTree (ba : BitVec 32) (file : FioFile) :
    History.OnTree ((alignedOptions ba).fixupOptions default).2 file := by
  refine ⟨?_, ?_⟩
  · rw [segBranch,
      show (((alignedOptions ba).fixupOptions default).2.minBs != ((alignedOptions ba).fixupOptions default).2.maxBs) = false from rfl,
      Bool.and_false]
    rfl
  · rw [useTree, show ((alignedOptions ba).fixupOptions default).2.verifysort = true from rfl,
      Bool.or_true]

lemma unwritten_starts : unwritten.Starts :=
  ⟨History.Unused.linked ⟨rfl, rfl, rfl, fun _ => rfl, rfl, rfl, fun _ => rfl,
    fun _ x hx => absurd hx (Nat.not_lt_zero x)⟩, rfl, rfl, rfl⟩

lemma Runs.writeNext {ba : BitVec 32} {h h' : History} {log : List (Extent FileId Nat)} {r : Nat}
    (hpr : Runs (fun _ => 0) drawScale 0 ((alignedOptions ba).fixupOptions default).2 C st ⟨h, [], log⟩)
    (his : C ⟨h, [], log⟩ (.issue 0 (nextFill h) (nextDraws r))) (hlog : ∀ st ioU, C st (.log ioU 0))
    (hr : WriteRun.writeNext ((alignedOptions ba).fixupOptions default).2 h r = .ok h') :
    ∃ log', Runs (fun _ => 0) drawScale 0 ((alignedOptions ba).fixupOptions default).2 C st
      ⟨h', [], log'⟩ := by
  obtain ⟨⟨failed, s'⟩, hfl, hr⟩ := of_bind hr
  have hisd := Runs.step hpr his (.issue rfl hfl)
  cases failed with
  | true =>
    cases hr
    exact ⟨log, hisd⟩
  | false =>
    have hpnd : (WriteRun.issued ⟨h, [], log⟩ 0 (nextDraws r).ddir false s').pending =
        [] ++ (0, { s'.ioU with file := some 0 }) :: [] := rfl
    exact ⟨_, hisd.step (hlog _ _) (.log hpnd (alignedOptions_onTree ba _) hr)⟩

theorem sortedTree_exact_aligned :
    ∃ h log, (h.ioHistTree = [0] ∧ unwritten.Starts) ∧
      Exact (fun _ => 0) ((alignedOptions 4096).fixupOptions default).2 ⟨h, [], log⟩ := by
  obtain ⟨h, hr, htr⟩ : ∃ h, writeNext ((alignedOptions 4096).fixupOptions default).2
      unwritten.hist 0 = .ok h ∧ h.ioHistTree = [0] := by decide +kernel
  have hgr : GridFill ((alignedOptions 4096).fixupOptions default).2 (nextFill unwritten.hist) :=
    ⟨rfl, by unfold FioFile.NoWrap; decide,
      ⟨by decide, by decide, rfl, ⟨by decide, by decide⟩, .inr ⟨by decide, by decide⟩⟩, .inl (.inr (.inl rfl))⟩
  have hst : Runs (fun _ => 0) drawScale 0 ((alignedOptions 4096).fixupOptions default).2
      (OnGrid ((alignedOptions 4096).fixupOptions default).2) unwritten unwritten := .refl
  obtain ⟨log, hrn⟩ := hst.writeNext ⟨rfl, fun _ => hgr⟩ (fun _ _ => trivial) hr
  exact ⟨h, log, ⟨htr, unwritten_starts⟩,
    sortedTree_exact drawScale_into unwritten_starts (.inl hrn)⟩

/-- With `blockalign=2048` the second write starts in the middle of the first, and both ranges are on the
    tree. -/
theorem sortedTree_overlaps :
    ((alignedOptions 2048).fixupOptions default).1 = false ∧ unwritten.Starts ∧
      ∃ st', Runs (fun _ => 0) drawScale 0 ((alignedOptions 2048).fixupOptions default).2
        (fun _ _ => True) unwritten st' ∧
        ∃ e ∈ History.treeExtents st'.hist, ∃ e' ∈ History.treeExtents st'.hist,
          e ≠ e' ∧ e.Covers 0 2048 ∧ e'.Covers 0 2048 := by
  refine ⟨rfl, unwritten_starts, ?_⟩
  obtain ⟨h1, hrun1, h2, hrun2, htr, hfr, hscn⟩ :
      ∃ h1, writeNext ((alignedOptions 2048).fixupOptions default).2 unwritten.hist 0 = .ok h1 ∧
      ∃ h2, writeNext ((alignedOptions 2048).fixupOptions default).2 h1 900000000 = .ok h2 ∧
        h2.ioHistTree = [0, 1] ∧
        (h2.heap 0).map (fun ipo => (ipo.file, ipo.offset, ipo.len)) = some (0, 0, 4096) ∧
        (h2.heap 1).map (fun ipo => (ipo.file, ipo.offset, ipo.len)) = some (0, 2048, 4096) := by
    decide +kernel
  have hst : Runs (fun _ => 0) drawScale 0 ((alignedOptions 2048).fixupOptions default).2
      (fun _ _ => True) unwritten unwritten := .refl
  obtain ⟨log1, hrn1⟩ := hst.writeNext trivial (fun _ _ => trivial) hrun1
  obtain ⟨log2, hrn2⟩ := hrn1.writeNext trivial (fun _ _ => trivial) hrun2
  obtain ⟨ipo, hipo, hrn⟩ := Option.map_eq_some_iff.1 hfr
  obtain ⟨ipo', hip', hrn'⟩ := Option.map_eq_some_iff.1 hscn
  simp only [Prod.mk.injEq] at hrn hrn'
  refine ⟨_, hrn2, _, ⟨0, ipo, by simp [htr], hipo, rfl⟩, _, ⟨1, ipo', by simp [htr], hip', rfl⟩,
    fun heq => absurd (congrArg Extent.val heq) (by simp [History.entryExtent]), ?_, ?_⟩
  · simp only [Extent.Covers, Extent.stop, History.entryExtent, hrn]
    decide
  · simp only [Extent.Covers, Extent.stop, History.entryExtent, hrn']
    decide

end WriteRun

end FioSsd
