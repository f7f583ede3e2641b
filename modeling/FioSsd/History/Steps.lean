import FioSsd.History.Insert

/-! # One write logged, one entry fetched -/

namespace FioSsd

variable {f : FileId} {files files' : FileId → FioFile} {file : FioFile} {ioU : IoU}

open Function (update update_self update_of_ne)

namespace History

open Extents

variable {hash : KeyHash} {o : ThreadOptions} {h h' : History} {p : Nat} {ipo : IoPiece}
  {f : FileId} {rest : List Nat}

structure SameLists (h h' : History) : Prop where
  heap : h'.heap = h.heap
  nextAddr : h'.nextAddr = h.nextAddr
  tree : h'.ioHistTree = h.ioHistTree
  list : h'.ioHistList = h.ioHistList
  hash : h'.iohistHash = h.iohistHash
  len : h'.ioHistLen = h.ioHistLen

lemma SameLists.live (hs : SameLists h h') : h'.live = h.live := by
  funext q
  rw [History.live, History.live, hs.list, hs.heap]

lemma Wf.of_sameLists (hw : Wf hash h) (hs : SameLists h h') (hwr : h'.words = h.words) :
    Wf hash h' where
  nodup := hs.list ▸ hw.nodup
  allocated := by rw [hs.list, hs.heap]; exact hw.allocated
  fresh := by rw [hs.heap, hs.nextAddr]; exact hw.fresh
  len := by rw [hs.len, hs.list]; exact hw.len
  tree := hs.tree.trans hw.tree
  table := by rw [hwr, hs.live, hs.hash]; exact hw.table

structure SameLayout (files files' : FileId → FioFile) : Prop where
  words : ∀ g, (files' g).fileMap2.words = (files g).fileMap2.words
  numMaps : ∀ g, (files' g).numMaps = (files g).numMaps
  fileOffset : ∀ g, (files' g).fileOffset = (files g).fileOffset
  hasMap : ∀ g, (files' g).fileMap.isSome = (files g).fileMap.isSome

lemma SameLayout.refl (files : FileId → FioFile) : SameLayout files files :=
  ⟨fun _ => rfl, fun _ => rfl, fun _ => rfl, fun _ => rfl⟩

lemma SameLayout.trans {files1 files2 files3 : FileId → FioFile} (a : SameLayout files1 files2)
    (b : SameLayout files2 files3) : SameLayout files1 files3 :=
  ⟨fun g => (b.words g).trans (a.words g), fun g => (b.numMaps g).trans (a.numMaps g),
    fun g => (b.fileOffset g).trans (a.fileOffset g), fun g => (b.hasMap g).trans (a.hasMap g)⟩

lemma SameLayout.update (h : file.fileMap2.words = (files f).fileMap2.words)
    (hnum : file.numMaps = (files f).numMaps) (hoff : file.fileOffset = (files f).fileOffset)
    (hmap : file.fileMap.isSome = (files f).fileMap.isSome) :
    SameLayout files (update files f file) := by
  constructor <;> intro g <;> by_cases hg : g = f
  all_goals first
    | subst hg; rw [update_self]; assumption
    | rw [update_of_ne hg]

lemma SameButCells.sameLayout (h : SameButCells files files') : SameLayout files files' := by
  constructor <;> intro g <;> obtain ⟨cell, hcl⟩ := h g <;> rw [hcl]

lemma SameLayout.words_eq (hs : SameLayout h.files h'.files) : h'.words = h.words := by
  funext g
  exact hs.words g

/-- The files as `init_random_map` and the open path leave them: a map of two words for each word of
    the random map, and no descriptor outside an open file. -/
structure FilesOk (files : FileId → FioFile) : Prop where
  words : ∀ g, (files g).fileMap2.words = 2 * (files g).numMaps
  fdOpen : ∀ g, (files g).fdOpen = true → (files g).isOpen = true

lemma FilesOk.update (hok : FilesOk files) (h : file.fileMap2.words = 2 * file.numMaps)
    (hfd : file.fdOpen = true → file.isOpen = true) : FilesOk (update files f file) := by
  constructor <;> intro g <;> by_cases hg : g = f
  · rw [hg, update_self]
    exact h
  · rw [update_of_ne hg]
    exact hok.words g
  · rw [hg, update_self]
    exact hfd
  · rw [update_of_ne hg]
    exact hok.fdOpen g

lemma FilesOk.of_sameButCells (h : FilesOk files)
    (hs : SameButCells files files') : FilesOk files' := by
  refine ⟨fun g => ?_, fun g => ?_⟩ <;> obtain ⟨cell, hcl⟩ := hs g <;> rw [hcl]
  · exact h.words g
  · exact h.fdOpen g

def writeExtent (o : ThreadOptions) (files : FileId → FioFile) (ioU : IoU) :
    Extent FileId FioUnique :=
  let f := ioU.file.getD 0
  ⟨f, blockOf o (files f) ioU, nrBlkOf o ioU,
    if o.verifyInner then o.uniqueOps.copy ioU.uniqueVersion else ⟨0, 0⟩⟩

/-- A completed write that goes down the segment branch, of at least one block and inside the map. -/
structure SegWrite (o : ThreadOptions) (files : FileId → FioFile) (ioU : IoU) : Prop where
  file : ioU.file.isSome = true
  branch : segBranch o (files (writeExtent o files ioU).key) = true
  pos : 0 < (writeExtent o files ioU).len
  inMap : (writeExtent o files ioU).stop ≤
    32 * (files (writeExtent o files ioU).key).fileMap2.words

lemma SameLayout.writeExtent_eq (h : SameLayout files files')
    (ioU : IoU) : writeExtent o files' ioU = writeExtent o files ioU := by
  simp [writeExtent, blockOf, h.fileOffset]

lemma SegWrite.of_sameLayout
    (h : SegWrite o files ioU) (hs : SameLayout files files') : SegWrite o files' ioU := by
  obtain ⟨hfl, hbrn, hpos, hin⟩ := h
  refine ⟨hfl, ?_, ?_, ?_⟩ <;> rw [hs.writeExtent_eq]
  · simpa only [segBranch, fileRandommap, hs.hasMap] using hbrn
  · exact hpos
  · rw [hs.words]
    exact hin

lemma Wf.malloc (hw : Wf hash h) (ipo : IoPiece) :
    Wf hash (h.malloc ipo) ∧ (h.malloc ipo).live = h.live := by
  have hne : ∀ q ∈ h.ioHistList, q ≠ h.nextAddr := fun q hq => by
    obtain ⟨piece, hpc⟩ := hw.allocated q hq
    have := hw.fresh hpc
    omega
  have hlv : (h.malloc ipo).live = h.live := by
    funext q
    by_cases hq : q ∈ h.ioHistList
    · simp [live, History.malloc, hq, hne q hq]
    · simp [live, History.malloc, hq]
  refine ⟨⟨hw.nodup, ?_, ?_, hw.len, hw.tree, by rw [hlv]; exact hw.table⟩, hlv⟩
  · intro q hq
    simp only [History.malloc, update_of_ne (hne q hq)]
    exact hw.allocated q hq
  · intro q piece hq
    simp only [History.malloc] at hq ⊢
    by_cases hqn : q = h.nextAddr
    · omega
    · rw [update_of_ne hqn] at hq
      have := hw.fresh hq
      omega

lemma setPiece_malloc (h : History) (ipo ipo' : IoPiece) :
    (h.malloc ipo).setPiece h.nextAddr ipo' = h.malloc ipo' := by
  simp [setPiece, malloc, Function.update_idem]

lemma Walk.mapExact {h0 : History} {s n : Nat} {v : FioUnique} (hW : Walk hash h0 h f s n n n)
    (hpos : 0 < n) (hfl : h'.files = h.files)
    (hext : h'.extents = insert ⟨f, s, n, v⟩ h.extents) : MapExact h' := by
  intro g x hx
  rw [words_congr hfl] at hx
  rw [hext, show h'.cell g x = h.cell g x by rw [cell, cell, hfl]]
  by_cases hin : g = f ∧ s ≤ x ∧ x < s + n
  · obtain ⟨rfl, hlow, hhg⟩ := hin
    have hfr := hW.cleared hlow hhg
    rw [hW.drawn hlow hhg]
    by_cases hxs : x = s
    · rw [if_pos hxs, expected_of_startsAt]
      exact startsAt_insert.2 (.inl ⟨rfl, hxs.symm⟩)
    · rw [if_neg hxs, expected_of_owned]
      · rw [startsAt_insert]
        rintro (⟨-, hs⟩ | hs)
        · exact hxs hs.symm
        · exact hfr (hW.wf.valid.owned_of_startsAt hs)
      · exact owned_insert.2 (.inl ⟨rfl, hlow, hhg⟩)
  · rw [hW.exact_outside hx hin]
    refine expected_congr ?_ ?_
    · rw [startsAt_insert, or_iff_right]
      rintro ⟨rfl, hs⟩
      have hs' : s = x := hs
      exact hin ⟨rfl, hs'.le, by omega⟩
    · rw [owned_insert, or_iff_right]
      rintro ⟨rfl, hlow, hhg⟩
      exact hin ⟨rfl, hlow, hhg⟩

lemma Wf.logIoPiece_spec (hw : Wf hash h) (hexa : MapExact h)
    (hwr : SegWrite o h.files ioU) (r : Nat) :
    ∃ h' T, h.logIoPiece hash o ioU r = .ok h' ∧ Wf hash h' ∧ MapExact h' ∧
      SameButCells h.files h'.files ∧ h'.extents = insert (writeExtent o h.files ioU) T ∧
      Valid T ∧ Below T h.extents ∧
      ∀ g x, Owned T g x ↔ Owned h.extents g x ∧ ¬(writeExtent o h.files ioU).Covers g x := by
  obtain ⟨hfl, hbrn, hpos, hin⟩ := hwr
  obtain ⟨f, hf⟩ := Option.isSome_iff_exists.1 hfl
  -- the allocated piece, not linked yet
  let ipo : IoPiece := { initIpo with
    file := f, block := blockOf o (h.files f) ioU, nrBlk := nrBlkOf o ioU,
    uniqueVersion := if o.verifyInner then o.uniqueOps.copy ioU.uniqueVersion else ⟨0, 0⟩ }
  have hext : writeExtent o h.files ioU = ipo.extent := by
    simp only [writeExtent, hf]
    rfl
  rw [hext] at hbrn hpos hin ⊢
  obtain ⟨hw0, hlv0⟩ := hw.malloc ipo
  have hex0 : MapExact (h.malloc ipo) := by
    intro g x hx
    rw [extents, hlv0]
    exact hexa g x hx
  have hext0 : (h.malloc ipo).extents = h.extents := by rw [extents, hlv0, extents]
  obtain ⟨h1, hins, hW⟩ := hw0.insertSeg_spec (o := o) hex0 hpos hin
  rw [extents] at hext0
  have hr : h.logIoPiece hash o ioU r = h1.linkSegment hash h.nextAddr := by
    simp only [logIoPiece, hf, bind, Except.bind]
    rw [if_pos (by exact hbrn)]
    simp only [logSegment, bind, Except.bind]
    rw [deref_eq (update_self ..)]
    dsimp only
    rw [setPiece_malloc]
    exact congrArg (fun r : Except Fault History => r.bind fun h1 => h1.linkSegment hash h.nextAddr)
      hins
  have hnot := hw.not_live_of_fresh (le_refl _)
  obtain ⟨hhp1, hnt1⟩ := hW.unlisted (q := h.nextAddr) (update_self ..) (by rw [hlv0, hnot])
  have hfr : ∀ g x, ipo.extent.Covers g x → ¬Owned h1.extents g x := by
    rintro g x ⟨rfl, hlow, hhg⟩
    exact hW.cleared hlow hhg
  have hln := linkSegment_eq hash hhp1 rfl fun q hq => by
    obtain ⟨piece, hpc, -⟩ := hW.wf.table.bucket.1 hq
    refine ⟨piece, heap_of_live hpc, fun hkey => ?_⟩
    have hc := hW.wf.table.covers_start hpc
    simp only [IoPiece.key, IohistKey.mk.injEq] at hkey
    rw [hkey.1, hkey.2] at hc
    exact hfr _ _ (Extent.covers_start hpos) ⟨_, ⟨q, piece, hpc, rfl⟩, hc⟩
  have hntm : h.nextAddr ∉ h1.ioHistList := fun hmem => by
    obtain ⟨piece, hpc⟩ := hW.wf.live_of_mem hmem
    rw [hnt1] at hpc
    cases hpc
  have hin1 : ipo.block + ipo.nrBlk ≤ 32 * h1.words f := by
    rw [hW.files.words]
    exact hin
  have hlnk : PieceOk hash h1.words (linked hash ipo) := ⟨rfl, rfl, rfl, rfl, hpos, hin1⟩
  have htb := hW.wf.table.add hnt1 hlnk hfr
  obtain ⟨hwf', hlv'⟩ := hW.wf.of_append { h1 with
      heap := update h1.heap h.nextAddr (some (linked hash ipo))
      iohistHash := update h1.iohistHash (hash ipo.key) (h1.iohistHash (hash ipo.key) ++ [h.nextAddr])
      ioHistList := h1.ioHistList ++ [h.nextAddr]
      ioHistLen := h1.ioHistLen + 1 }
    hntm rfl rfl (le_refl _) (hW.wf.fresh hhp1) rfl rfl rfl htb
  have hex' : extentsOf (update h1.live h.nextAddr (some (linked hash ipo))) =
      insert ipo.extent h1.extents := extentsOf_update_new hnt1
  rw [← hlv'] at hex'
  refine ⟨_, h1.extents, hr.trans hln, hwf', hW.mapExact hpos rfl hex', hW.files, hex',
    hW.wf.valid, hext0 ▸ hW.below, fun g x => ?_⟩
  by_cases hc : ipo.extent.Covers g x
  · exact ⟨fun ho => absurd ho (hfr g x hc), fun ho => absurd hc ho.2⟩
  · rw [and_iff_left hc, ← hext0]
    exact hW.owned fun hgx => hc ⟨hgx.1.symm, hgx.2⟩

def Marked (h : History) : Prop := ∀ {f x}, StartsAt h.extents f x → h.cell f x = .start

lemma MapExact.marked (hexa : MapExact h) (hw : Wf hash h) : Marked h := by
  rintro f x ⟨e, ⟨p, ipo, hp, rfl⟩, rfl, rfl⟩
  have hpc := hw.table.piece hp
  have hin : ipo.extent.start < 32 * h.words ipo.extent.key := by
    have := hpc.pos
    have := hpc.inMap
    simp only [IoPiece.extent]
    omega
  rw [hexa _ _ hin]
  exact expected_of_startsAt ⟨ipo.extent, ⟨p, ipo, hp, rfl⟩, rfl, rfl⟩

/-- `clean_map` runs on the open path of a job whose history is empty. -/
def Cleans (h : History) (f : FileId) (outcome : OpenOutcome) : Prop :=
  (h.files f).isOpen = false ∧ outcome ≠ .engineFails ∧ h.ioHistLen = 0
deriving Decidable

lemma tdIoOpenFile_eq (hfd : (h.files f).fdOpen = false) (hopn : (h.files f).isOpen = false)
    {outcome : OpenOutcome} (hout : outcome ≠ .engineFails) :
    ∃ h' file, h.tdIoOpenFile f outcome = .ok (decide (outcome = .failsLate), h') ∧
      SameLists h h' ∧ h'.files = update h.files f file ∧ file.isOpen = true ∧
      file.fileMap2 = (if (h.files f).fileMap2.words ≠ 0 ∧ h.ioHistLen = 0
        then (h.files f).fileMap2.clear (2 * (h.files f).numMaps) else (h.files f).fileMap2) ∧
      file.numMaps = (h.files f).numMaps ∧ file.fileOffset = (h.files f).fileOffset ∧
      file.fileMap.isSome = (h.files f).fileMap.isSome := by
  simp only [tdIoOpenFile, hfd, hopn, Bool.false_eq_true, or_self, if_false]
  cases outcome with
  | engineFails => exact absurd rfl hout
  | failsLate | succeeds =>
    simp only [getFile, bind, Except.bind, update_self, if_true, fioFileReset,
      Function.update_idem, pure, Except.pure]
    exact ⟨_, _, rfl, ⟨rfl, rfl, rfl, rfl, rfl, rfl⟩, rfl, rfl, rfl, rfl, rfl, by simp [FioFile.reset]⟩

lemma ensureOpen_spec (hok : FilesOk h.files) (f : FileId) (outcome : OpenOutcome) :
    ∃ failed h', h.ensureOpen f outcome = .ok (failed, h') ∧
      (outcome = .succeeds → failed = false) ∧
      (failed = false → (h'.files f).isOpen = true) ∧ SameLists h h' ∧
      SameLayout h.files h'.files ∧ FilesOk h'.files ∧
      ∀ g x, h'.cell g x =
        if Cleans h f outcome ∧ g = f ∧ x < 32 * h.words f then .empty else h.cell g x := by
  -- nothing happens to an open file, nor when the engine refuses
  have heq : ¬Cleans h f outcome → ∀ g x, h.cell g x =
      if Cleans h f outcome ∧ g = f ∧ x < 32 * h.words f then .empty else h.cell g x :=
    fun hcl g x => by rw [if_neg fun hx => hcl hx.1]
  by_cases hopn : (h.files f).isOpen = true
  · exact ⟨false, h, by rw [ensureOpen, if_pos hopn], fun _ => rfl, fun _ => hopn,
      ⟨rfl, rfl, rfl, rfl, rfl, rfl⟩, .refl _, hok, heq fun hc => by simp [hc.1] at hopn⟩
  have hcls : (h.files f).isOpen = false := by simpa using hopn
  have hfd : (h.files f).fdOpen = false := by
    cases hc : (h.files f).fdOpen with
    | false => rfl
    | true => exact absurd (hok.fdOpen f hc) hopn
  by_cases hout : outcome = .engineFails
  · subst hout
    refine ⟨true, h, ?_, by simp, by simp, ⟨rfl, rfl, rfl, rfl, rfl, rfl⟩, .refl _, hok,
      heq fun hc => hc.2.1 rfl⟩
    rw [ensureOpen, if_neg hopn, tdIoOpenFile]
    simp [hfd, hcls, or_self]
  obtain ⟨h', file, hr, hls, hfl, hop', hmp2, hnum, hoff, hmap⟩ := tdIoOpenFile_eq hfd hcls hout
  have hwr : file.fileMap2.words = (h.files f).fileMap2.words := by
    rw [hmp2]
    split <;> rfl
  refine ⟨_, h', by rw [ensureOpen, if_neg hopn, hr], ?_, ?_, hls, ?_, ?_, ?_⟩
  · rintro rfl
    rfl
  · intro _
    rw [hfl, update_self]
    exact hop'
  · rw [hfl]
    exact .update hwr hnum hoff hmap
  · rw [hfl]
    exact hok.update (by rw [hwr, hnum, hok.words]) fun _ => hop'
  · intro g x
    rw [cell, hfl]
    by_cases hg : g = f
    · subst hg
      have hw2 : h.words g = 2 * (h.files g).numMaps := hok.words g
      rw [update_self, hmp2]
      by_cases hlen : h.ioHistLen = 0
      · have hcl : Cleans h g outcome := ⟨hcls, hout, hlen⟩
        by_cases hx : x < 32 * h.words g
        · have hne : (h.files g).fileMap2.words ≠ 0 := fun h0 => by
            have : h.words g = 0 := h0
            omega
          rw [if_pos ⟨hne, hlen⟩, if_pos ⟨hcl, rfl, hx⟩]
          exact if_pos (by omega)
        · rw [eq_comm, if_neg fun hc => hx hc.2.2]
          split
          · exact (if_neg (by omega)).symm
          · rfl
      · rw [if_neg fun hc => hlen hc.2, if_neg fun hc => hlen hc.1.2.2]
        rfl
    · rw [update_of_ne hg, if_neg fun hx => hg hx.2.1]
      rfl

def fetched (o : ThreadOptions) (file : FioFile) (ipo : IoPiece) : IoPiece :=
  { ipo with
    onList := false, hashed := false, hashList := none
    block := (BitVec.ofNat 64 (ipo.block * o.rwMinBs.toNat) + file.fileOffset).toNat
    nrBlk := (BitVec.ofNat 64 (ipo.nrBlk * o.rwMinBs.toNat)).toNat }

lemma Wf.takeNext_spec (hw : Wf hash h) (hmrk : Marked h) (hok : FilesOk h.files)
    (hls : h.ioHistList = p :: rest) (hp : h.live p = some ipo) :
    ∃ e, ipo.block < e ∧
      (∀ x, ipo.block < x → x < e →
        h.cell ipo.file x = .inSeg ∧ x < 32 * (h.files ipo.file).numMaps) ∧
      (h.cell ipo.file e = .inSeg → 32 * (h.files ipo.file).numMaps ≤ e) ∧
      h.takeNext o = .ok (some p, { h.setMap2 ipo.file { (h.files ipo.file).fileMap2 with
          cell := fun x => if ipo.block ≤ x ∧ x < e then .empty else h.cell ipo.file x } with
        heap := update h.heap p (some (fetched o (h.files ipo.file) ipo))
        ioHistList := rest
        iohistHash := update h.iohistHash (hash ipo.key)
          ((h.iohistHash (hash ipo.key)).erase p) }) := by
  have hhp := heap_of_live hp
  obtain ⟨honl, hhsh, hbck, htr, hpos, hinm⟩ := hw.table.piece hp
  have hst := hmrk ⟨ipo.extent, ⟨p, ipo, hp, rfl⟩, rfl, rfl⟩
  have hnum : (h.files ipo.file).numMaps ≤ (h.files ipo.file).fileMap2.words := by
    rw [hok.words]
    omega
  have hin : ipo.block < 32 * (h.files ipo.file).fileMap2.words := by
    have : h.words ipo.file = (h.files ipo.file).fileMap2.words := rfl
    omega
  obtain ⟨e, he, hr, hseg, hend⟩ := Map2.removeSeg_spec hnum hin hst
  refine ⟨e, he, hseg, hend, ?_⟩
  simp only [takeNext, hw.tree, hls, deref, hhp, bind, Except.bind, honl, hhsh, if_true,
    setPiece, hr, iohistHashDel, setMap2, update_self, hbck, pure, Except.pure,
    Function.update_idem]
  rfl

/-- The I/O unit `get_next_verify` fills in for the pending extent `e`. -/
structure Returned (o : ThreadOptions) (files : FileId → FioFile) (e : Extent FileId FioUnique)
    (ioU : IoU) : Prop where
  file : ioU.file = some e.key
  offset : ioU.offset = BitVec.ofNat 64 (e.start * o.rwMinBs.toNat) + (files e.key).fileOffset
  buflen : ioU.buflen = BitVec.ofNat 64 (e.len * o.rwMinBs.toNat)
  version : o.verifyInner = true → ioU.uniqueVersion = e.val

/-- What is left after the entry `p` has been fetched. -/
structure Fetched (hash : KeyHash) (h h' : History) (p : Nat) (ipo : IoPiece)
    (outcome : OpenOutcome) : Prop where
  wf : Wf hash h'
  list : h'.ioHistList = h.ioHistList.erase p
  live : h'.live = update h.live p none
  extents : h'.extents = h.extents \ {ipo.extent}
  layout : SameLayout h.files h'.files
  files : FilesOk h'.files
  cells : ∃ e, ipo.block < e ∧
    (∀ x, ipo.block < x → x < e →
      h.cell ipo.file x = .inSeg ∧ x < 32 * (h.files ipo.file).numMaps) ∧
    (h.cell ipo.file e = .inSeg → 32 * (h.files ipo.file).numMaps ≤ e) ∧
    ∀ g x, h'.cell g x =
      if Cleans { h with ioHistLen := h.ioHistLen - 1 } ipo.file outcome ∧ g = ipo.file ∧
          x < 32 * h.words ipo.file then .empty
      else if g = ipo.file ∧ ipo.block ≤ x ∧ x < e then .empty
      else h.cell g x

lemma Wf.freePiece (hw : Wf hash h) (hp : p ∉ h.ioHistList) :
    Wf hash (h.freePiece p) ∧ (h.freePiece p).live = h.live := by
  have hne : ∀ q ∈ h.ioHistList, q ≠ p := fun q hq heq => hp (heq ▸ hq)
  have hlv : (h.freePiece p).live = h.live := by
    funext q
    by_cases hq : q ∈ h.ioHistList
    · simp [History.live, History.freePiece, hq, hne q hq]
    · simp [History.live, History.freePiece, hq]
  refine ⟨⟨hw.nodup, ?_, ?_, hw.len, hw.tree, by rw [hlv]; exact hw.table⟩, hlv⟩
  · intro q hq
    simp only [History.freePiece, update_of_ne (hne q hq)]
    exact hw.allocated q hq
  · intro q piece hq
    by_cases hqp : q = p
    · simp [History.freePiece, hqp] at hq
    · simp only [History.freePiece, update_of_ne hqp] at hq
      exact hw.fresh hq

lemma getFile_eq (hopn : (h.files f).isOpen = true) :
    ∃ h', h.getFile f = .ok h' ∧ (h'.files f).isOpen = true ∧ SameLists h h' ∧
      SameLayout h.files h'.files ∧ (FilesOk h.files → FilesOk h'.files) ∧ h'.cell = h.cell := by
  refine ⟨_, if_pos hopn, ?_, ⟨rfl, rfl, rfl, rfl, rfl, rfl⟩, .update rfl rfl rfl rfl,
    fun hok => hok.update (hok.words f) (hok.fdOpen f), ?_⟩
  · simpa using hopn
  · funext g x
    by_cases hg : g = f
    · subst hg
      simp [cell]
    · simp [cell, hg]

lemma fillVerify_spec (ioU : IoU) (hw : Wf hash { h with ioHistLen := h.ioHistLen - 1 })
    (hok : FilesOk h.files) (hhp : h.heap p = some ipo) (hp : p ∉ h.ioHistList)
    (htr : ipo.trimList = false) (outcome : OpenOutcome) :
    ∃ failed ioU' h', h.fillVerify o p ioU outcome = .ok (failed, ioU', h') ∧
      (outcome = .succeeds → failed = false) ∧
      (ioU'.file = some ipo.file ∧ ioU'.offset = BitVec.ofNat 64 ipo.block ∧
        ioU'.buflen = BitVec.ofNat 64 ipo.nrBlk ∧
        (o.verifyInner = true → ioU'.uniqueVersion = ipo.uniqueVersion)) ∧
      Wf hash h' ∧ h'.ioHistList = h.ioHistList ∧ h'.live = h.live ∧
      SameLayout h.files h'.files ∧ FilesOk h'.files ∧
      ∀ g x, h'.cell g x =
        if Cleans { h with ioHistLen := h.ioHistLen - 1 } ipo.file outcome ∧ g = ipo.file ∧
          x < 32 * h.words ipo.file then .empty else h.cell g x := by
  obtain ⟨failed, h1, hopn, hsc, hiso, hls, hlyt, hok1, hcl⟩ :=
    ensureOpen_spec (h := { h with ioHistLen := h.ioHistLen - 1 }) hok ipo.file outcome
  have hw1 := hw.of_sameLists hls hlyt.words_eq
  simp only [fillVerify, deref_eq hhp, bind, Except.bind, hopn]
  cases failed with
  | true =>
    rw [if_pos rfl]
    refine ⟨true, _, h1, rfl, hsc, ⟨rfl, rfl, rfl, fun hv => by simp [hv, UniqueOps.copy]⟩, hw1,
      hls.list, hls.live, hlyt, hok1, hcl⟩
  | false =>
    obtain ⟨h2, hget, hop2, hls2, hly2, hok2, hcl2⟩ := getFile_eq (hiso rfl)
    have hhp2 : h2.heap p = some ipo := by rw [hls2.heap, hls.heap, hhp]
    have hw2 := hw1.of_sameLists hls2 hly2.words_eq
    have hp2 : p ∉ h2.ioHistList := by rw [hls2.list, hls.list]; exact hp
    obtain ⟨hw3, hlv3⟩ := hw2.freePiece hp2
    simp only [Bool.false_eq_true, if_false, hget, hop2, if_true,
      removeTrimEntry_eq hhp2 htr, pure, Except.pure]
    refine ⟨false, _, _, rfl, fun _ => rfl, ⟨rfl, rfl, rfl, fun hv => by simp [hv, UniqueOps.copy]⟩,
      hw3, hls2.list.trans hls.list, hlv3.trans (hls2.live.trans hls.live),
      hlyt.trans hly2, hok2 hok1, fun g x => ?_⟩
    have hc := hcl g x
    rw [← hcl2] at hc
    exact hc

lemma Wf.getNextVerify_spec (hw : Wf hash h) (hmrk : Marked h)
    (hok : FilesOk h.files) (hls : h.ioHistList = p :: rest) (hp : h.live p = some ipo)
    (hfl : ioU.file = none) (outcome : OpenOutcome) :
    ∃ failed ioU' h', h.getNextVerify o ioU outcome = .ok (failed, ioU', h') ∧
      (outcome = .succeeds → failed = false) ∧ Returned o h.files ipo.extent ioU' ∧
      Fetched hash h h' p ipo outcome := by
  obtain ⟨e, he, hseg, hend, htak⟩ := hw.takeNext_spec (o := o) hmrk hok hls hp
  have htr := (hw.table.piece hp).trimList
  have hrs : h.ioHistList.erase p = rest := by rw [hls, List.erase_cons_head]
  have hnot : p ∉ rest := by
    have := hw.nodup
    rw [hls, List.nodup_cons] at this
    exact this.1
  obtain ⟨h1, htk⟩ : ∃ h1 : History, h1 = { h.setMap2 ipo.file { (h.files ipo.file).fileMap2 with
          cell := fun x => if ipo.block ≤ x ∧ x < e then .empty else h.cell ipo.file x } with
        heap := update h.heap p (some (fetched o (h.files ipo.file) ipo))
        ioHistList := rest
        iohistHash := update h.iohistHash (hash ipo.key)
          ((h.iohistHash (hash ipo.key)).erase p) } := ⟨_, rfl⟩
  rw [← htk] at htak
  have hcl : SameButCells h.files h1.files := by
    rw [htk]
    exact .setMap2 h ipo.file _
  have hcl1 : ∀ g x, h1.cell g x =
      if g = ipo.file ∧ ipo.block ≤ x ∧ x < e then .empty else h.cell g x := by
    intro g x
    rw [htk]
    by_cases hg : g = ipo.file
    · subst hg
      simp [cell, setMap2]
    · simp [cell, setMap2, hg]
  obtain ⟨hw1, hlv1⟩ := hw.of_erase { h1 with ioHistLen := h1.ioHistLen - 1 }
    (mem_of_live hp) (by rw [hrs, htk]) (fun q hq => by simp [htk, hq])
    (by rw [htk]; rfl) (by rw [htk]; rfl) (by rw [htk]; rfl) hcl.words
    (by rw [htk]; exact hw.table.remove hp)
  have hlv1' : h1.live = update h.live p none := hlv1
  have hhp1 : h1.heap p = some (fetched o (h.files ipo.file) ipo) := by
    rw [htk]
    exact update_self ..
  obtain ⟨failed, ioU', h', hfil, hsc, ⟨hf, hoff, hlen, hver⟩, hwf, hls', hlv, hlyt, hok',
    hcel⟩ := fillVerify_spec (o := o) ioU hw1 (hok.of_sameButCells hcl) hhp1
      (by rw [htk]; exact hnot) htr outcome
  refine ⟨failed, ioU', h', ?_, hsc, ⟨hf, ?_, ?_, hver⟩, hwf, ?_, hlv.trans hlv1', ?_,
    hcl.sameLayout.trans hlyt, hok', e, he, hseg, hend, fun g x => ?_⟩
  · simp [getNextVerify, hfl, htak, bind, Except.bind, hfil]
  · exact hoff.trans ((BitVec.ofNat_toNat ..).trans (BitVec.setWidth_eq _))
  · exact hlen.trans ((BitVec.ofNat_toNat ..).trans (BitVec.setWidth_eq _))
  · rw [hls', htk, hrs]
  · rw [extents, hlv, hlv1', extentsOf_update_none hw.table hp]
    rfl
  · have hcle : Cleans { h1 with ioHistLen := h1.ioHistLen - 1 } ipo.file outcome ↔
        Cleans { h with ioHistLen := h.ioHistLen - 1 } ipo.file outcome := by
      obtain ⟨c, hc⟩ := hcl ipo.file
      simp only [Cleans, hc, show h1.ioHistLen = h.ioHistLen by rw [htk]; rfl]
    rw [← hcl1, ← hcl.words]
    exact (hcel g x).trans (if_congr (and_congr_left' hcle) rfl rfl)

end History

end FioSsd
