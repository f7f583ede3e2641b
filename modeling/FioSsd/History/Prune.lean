import FioSsd.History.Linked
import FioSsd.History.Shift

/-! # Pruning the history -/

namespace FioSsd.History

open Function List

variable {h₁ h₂ : History} {ioU : IoU} {r : Nat} {hash : KeyHash} {o : ThreadOptions}
  {h h' : History} {p : Nat} {ipo : IoPiece}

def pruneEntry (h : History) (p : Nat) : Except Fault History := do
  let h ← h.removeTrimEntry p
  return { h with ioHistLen := h.ioHistLen - 1 }.freePiece p

def pruneTree : List Nat → History → Except Fault History
  | [], h => .ok h
  | p :: rest, h => do
    let h ← { h with ioHistTree := rest }.pruneEntry p
    pruneTree rest h

def pruneList : List Nat → History → Except Fault History
  | [], h => .ok h
  | p :: rest, h => do
    let h ← { h with ioHistList := rest }.pruneEntry p
    pruneList rest h

def pruneIoPieceLog (h : History) : Except Fault History := do
  let h ← pruneTree h.ioHistTree h
  pruneList h.ioHistList h

def Prunable (h : History) : Prop := ∃ buckets, Linked [] { h with iohistHash := buckets }

section

variable (hp : Prunable h) (hmem : p ∈ h.ioHistTree ++ h.ioHistList)

include hp hmem

lemma Prunable.drop :
    Prunable (h.dropEntry p) := by
  obtain ⟨buckets, hl⟩ := hp
  obtain ⟨ipo, hipo, hln⟩ := hl.piece p hmem
  by_cases hhsh : ipo.hashed = true
  · have hso := hln.hashed
    rw [hhsh] at hso
    obtain ⟨b, hb⟩ := Option.isSome_iff_exists.1 hso.symm
    have hdel : { h with iohistHash := buckets }.iohistHashDel p = .ok
        { { h with iohistHash := buckets }.setPiece p
            { ipo with hashed := false, hashList := none } with
          iohistHash := update buckets b ((buckets b).erase p) } := by
      rw [iohistHashDel, deref, hipo]
      simp only [bind, Except.bind, hhsh, if_true, hb]
      rfl
    obtain ⟨hl1, hun⟩ := hl.iohistHashDel hmem hdel
    have hdrop := hl1.drop hmem (update_self ..) rfl
    refine ⟨update buckets b ((buckets b).erase p), ?_⟩
    simp only [dropEntry, freePiece, setPiece, update_idem] at hdrop ⊢
    exact hdrop
  · exact ⟨buckets, hl.drop hmem hipo (by simpa using hhsh)⟩

lemma Prunable.trim_iff :
    ∃ ipo, h.heap p = some ipo ∧ (p ∈ h.trimList ↔ ipo.trimList = true) := by
  obtain ⟨buckets, hl⟩ := hp
  obtain ⟨ipo, hipo, hln⟩ := hl.piece p hmem
  exact ⟨ipo, hipo, hln.trim⟩

lemma Prunable.pruneEntry
    {tree list : List Nat} (htre : h.ioHistTree.erase p = tree) (hls : h.ioHistList.erase p = list) :
    { h with ioHistTree := tree, ioHistList := list }.pruneEntry p = .ok (h.dropEntry p) := by
  obtain ⟨ipo, hipo, htr⟩ := hp.trim_iff hmem
  have htrl : h.trimEntries = h.trimList.length := by
    obtain ⟨buckets, hl⟩ := hp
    exact hl.trimLen
  rw [History.pruneEntry, History.removeTrimEntry, deref, hipo]
  simp only [bind, Except.bind, pure, Except.pure]
  by_cases hin : ipo.trimList = true
  · have hlen : h.trimEntries - 1 = (h.trimList.erase p).length := by
      have hpos := length_pos_of_mem (htr.2 hin)
      rw [length_erase_of_mem (htr.2 hin), htrl]
      omega
    simp [hin, setPiece, freePiece, dropEntry, update_idem, hlen, htre, hls]
  · have hnot : p ∉ h.trimList := fun hcon => hin (htr.1 hcon)
    simp [hin, freePiece, dropEntry, erase_of_not_mem hnot, htrl, htre, hls]

end

lemma Prunable.apart (hp : Prunable h) : ∀ p ∈ h.ioHistTree, p ∉ h.ioHistList := by
  obtain ⟨buckets, hl⟩ := hp
  have hent := (nodup_append.1 hl.nodup).2.1
  exact fun p htr hls => (nodup_append.1 hent).2.2 p htr p hls rfl

lemma Prunable.pruneTree : ∀ (nodes : List Nat) {h : History}, Prunable h → h.ioHistTree = nodes →
    ∃ heap len trim n, History.pruneTree nodes h = .ok { h with
        heap := heap, ioHistTree := [], ioHistLen := len, trimList := trim, trimEntries := n } ∧
      Prunable { h with
        heap := heap, ioHistTree := [], ioHistLen := len, trimList := trim, trimEntries := n } := by
  intro nodes
  induction nodes with
  | nil =>
    intro h hp htr
    have hsl : { h with ioHistTree := [] } = h := by rw [← htr]
    refine ⟨h.heap, h.ioHistLen, h.trimList, h.trimEntries, ?_, ?_⟩
    · exact congrArg Except.ok hsl.symm
    · rw [hsl]
      exact hp
  | cons p rest ih =>
    intro h hp htr
    have hmem : p ∈ h.ioHistTree := by simp [htr]
    have her : h.ioHistTree.erase p = rest := by rw [htr, erase_cons_head]
    have hoth := erase_of_not_mem (hp.apart p hmem)
    have hdrop := hp.drop (mem_append_left _ hmem)
    obtain ⟨heap, len, trim, n, hr, hprn⟩ := ih hdrop her
    simp only [dropEntry, freePiece, hoth] at hr hprn
    refine ⟨heap, len, trim, n, ?_, hprn⟩
    rw [History.pruneTree, hp.pruneEntry (mem_append_left _ hmem) her hoth]
    simp [bind, Except.bind, dropEntry, freePiece, hoth, hr]

lemma Prunable.pruneList : ∀ (entries : List Nat) {h : History}, Prunable h → h.ioHistTree = [] →
    h.ioHistList = entries → ∃ heap len trim n, History.pruneList entries h = .ok { h with
        heap := heap, ioHistList := [], ioHistLen := len, trimList := trim, trimEntries := n } ∧
      Prunable { h with
        heap := heap, ioHistList := [], ioHistLen := len, trimList := trim, trimEntries := n } := by
  intro entries
  induction entries with
  | nil =>
    intro h hp _ hls
    have hsl : { h with ioHistList := [] } = h := by rw [← hls]
    refine ⟨h.heap, h.ioHistLen, h.trimList, h.trimEntries, ?_, ?_⟩
    · exact congrArg Except.ok hsl.symm
    · rw [hsl]
      exact hp
  | cons p rest ih =>
    intro h hp htr hls
    have hmem : p ∈ h.ioHistList := by simp [hls]
    have her : h.ioHistList.erase p = rest := by rw [hls, erase_cons_head]
    have hoth : h.ioHistTree.erase p = h.ioHistTree := by simp [htr]
    have hdrop := hp.drop (mem_append_right _ hmem)
    obtain ⟨heap, len, trim, n, hr, hprn⟩ := ih hdrop (by simp [dropEntry, htr]) her
    simp only [dropEntry, freePiece, hoth] at hr hprn
    refine ⟨heap, len, trim, n, ?_, hprn⟩
    rw [History.pruneList, hp.pruneEntry (mem_append_right _ hmem) hoth her]
    simp [bind, Except.bind, dropEntry, freePiece, hoth, hr]

/-- The state `prune_io_piece_log` leaves: no entry, no trim entry, no piece, and the old table. -/
def pruned (h : History) : History :=
  { h with
    heap := fun _ => none, ioHistTree := [], ioHistList := [], ioHistLen := 0
    trimList := [], trimEntries := 0 }

lemma pruneIoPieceLog_spec (hl : Linked [] h) : h.pruneIoPieceLog = .ok h.pruned := by
  have hp : Prunable h := ⟨h.iohistHash, hl⟩
  obtain ⟨heap1, len1, trim1, n1, hrn1, hp1⟩ := hp.pruneTree _ rfl
  obtain ⟨heap, len, trim, n, hr, ⟨buckets, hl'⟩⟩ := hp1.pruneList _ rfl rfl
  have hno : ∀ q, q ∉ members [] { h with
      heap := heap, ioHistTree := [], ioHistList := [], ioHistLen := len, trimList := trim
      trimEntries := n, iohistHash := buckets } := by simp [members]
  have hhp : heap = fun _ => none := by
    funext q
    cases hq : heap q with
    | none => rfl
    | some ipo => exact absurd (hl'.owned hq) (hno q)
  have htr : trim = [] := eq_nil_iff_forall_not_mem.2 fun q hq => hno q (hl'.trimMem q hq)
  have hlen : len = 0 := hl'.len
  have hn : n = 0 := by
    have hcnt : n = trim.length := hl'.trimLen
    rw [hcnt, htr]
    rfl
  rw [pruneIoPieceLog, pruned, hrn1]
  simp only [bind, Except.bind]
  rw [hr, hhp, htr, hlen, hn]

lemma overlapDivide_fileMap {f : FileId} {block start len : Nat}
    (hr : h.overlapDivide hash o f block start len = .ok h') (g : FileId) :
    (h'.files g).fileMap = (h.files g).fileMap := by
  obtain ⟨q, ipo, -, -, -, hdvd⟩ := overlapDivide_cases hr
  cases hdvd with
  | shift _ _ hdel hset hadd =>
    rw [(iohistHashAdd_queues hadd).fileMap, (setBit_queues hset).fileMap,
      (iohistHashDel_queues hdel).fileMap]
    rfl
  | drop _ _ hdel _ _ => exact (iohistHashDel_queues hdel).fileMap g
  | split _ _ hset hln _ =>
    have hmap := (linkSegment_queues hln).2.2.2.2 g
    exact hmap.trans ((setBit_queues hset).fileMap g)
  | trim _ _ => rfl

structure SameTable (h h' : History) : Prop where
  files : h'.files = h.files
  table : h'.iohistHash = h.iohistHash
  nrOpenFiles : h'.nrOpenFiles = h.nrOpenFiles

lemma SameTable.trans {h3 : History} (a : SameTable h₁ h₂) (b : SameTable h₂ h3) :
    SameTable h₁ h3 :=
  ⟨b.files.trans a.files, b.table.trans a.table, b.nrOpenFiles.trans a.nrOpenFiles⟩

lemma treeInsert_sameTable {fuel : Nat} : ∀ {h : History}, treeInsert p fuel h = .ok h' →
    SameTable h h' := by
  induction fuel with
  | zero =>
    intro h hr
    simp [treeInsert] at hr
  | succ fuel ih =>
    intro h hr
    obtain ⟨ipo, -, ⟨q, old, h₁, -, -, -, hrmv, hrs⟩ | ⟨tree, -, rfl⟩⟩ := treeInsert_cases hr
    · have heq := ih hrs
      obtain ⟨piece, -, ⟨-, rfl⟩ | ⟨-, rfl⟩⟩ := removeTrimEntry_cases hrmv
      all_goals exact ⟨heq.files, heq.table, heq.nrOpenFiles⟩
    · exact ⟨rfl, rfl, rfl⟩

lemma linkPiece_sameTable {f : FileId} (hr : h.linkPiece o p f = .ok h') : SameTable h h' := by
  unfold linkPiece at hr
  split_ifs at hr
  · exact treeInsert_sameTable hr
  · obtain ⟨ipo, -, hr⟩ := of_bind hr
    cases hr
    exact ⟨rfl, rfl, rfl⟩

def OnSegments (o : ThreadOptions) (files : FileId → FioFile) (ioU : IoU) : Prop :=
  ∃ f, ioU.file = some f ∧ segBranch o (files f) = true

lemma onSegments_congr {files files' : FileId → FioFile}
    (h : ∀ g, (files' g).fileMap = (files g).fileMap) :
    OnSegments o files' ioU ↔ OnSegments o files ioU := by
  simp [OnSegments, segBranch, fileRandommap, h]

lemma logIoPiece_plain (hpl : ¬OnSegments o h.files ioU) (hr : h.logIoPiece hash o ioU r = .ok h')
    : SameTable h h' := by
  obtain ⟨f, hf, ⟨hseg, -⟩ | ⟨-, hln⟩⟩ := logIoPiece_cases hr
  · exact absurd ⟨f, hf, hseg⟩ hpl
  · refine SameTable.trans ?_ (linkPiece_sameTable hln)
    unfold drawTrim
    split_ifs
    all_goals exact ⟨rfl, rfl, rfl⟩

/-- **A write on the segment branch leaves a bucket that is not empty**: its own piece, or the one
    whose key keeps it out of the table. -/
lemma Linked.logIoPiece_bucket (hl : Linked [] h) (hseg : OnSegments o h.files ioU)
    (hr : h.logIoPiece hash o ioU r = .ok h') :
    ∃ b q, q ∈ h'.iohistHash b := by
  obtain ⟨g, hg, hseg⟩ := hseg
  obtain ⟨f, hf, ⟨-, h₁, hins, hln⟩ | ⟨hpl, -⟩⟩ := logIoPiece_cases hr
  · obtain ⟨hl1, -⟩ := (hl.newPiece _ _).insertSeg hins
    obtain ⟨h₂, ipo2, hadd, -, rfl⟩ := linkSegment_cases hln
    obtain ⟨ipo, hipo, hcs⟩ := iohistHashAdd_cases hadd
    rcases hcs with ⟨hhsh, -⟩ | ⟨-, ⟨q, hq⟩, rfl⟩ | ⟨-, rfl⟩
    · cases (hl1.aside hipo).2.1.symm.trans hhsh
    · exact ⟨_, q, hq⟩
    · exact ⟨_, h.nextAddr, mem_link.2 (.inr ⟨rfl, rfl⟩)⟩
  · cases hf.symm.trans hg
    cases hpl.symm.trans hseg

lemma logIoPiece_fileMap (hr : h.logIoPiece hash o ioU r = .ok h') (g : FileId)
    : (h'.files g).fileMap = (h.files g).fileMap := by
  by_cases hseg : OnSegments o h.files ioU
  · obtain ⟨f, hf, ⟨-, h₁, hins, hln⟩ | ⟨hpl, -⟩⟩ := logIoPiece_cases hr
    · rw [(linkSegment_queues hln).2.2.2.2]
      refine insertSeg_preserves
        (I := fun h₁ => (h₁.files g).fileMap = (h.files g).fileMap) ?_ ?_ ?_ hins
      · exact fun hI hdvd => (overlapDivide_fileMap hdvd g).trans hI
      · exact fun hI hset => ((setBit_queues hset).fileMap g).trans hI
      · rfl
    · obtain ⟨f', hf', hseg⟩ := hseg
      cases hf.symm.trans hf'
      cases hpl.symm.trans hseg
  · rw [(logIoPiece_plain hseg hr).files]

lemma Linked.logAll : ∀ (writes : List (IoU × Nat)) {h : History}, Linked [] h →
    History.logAll hash o writes h = .ok h' → Linked [] h' := by
  intro writes
  induction writes with
  | nil =>
    intro h hl hr
    cases hr
    exact hl
  | cons w rest ih =>
    intro h hl hr
    obtain ⟨h₁, hlog, hrs⟩ := of_bind hr
    exact ih (hl.logIoPiece hlog) hrs

lemma logAll_plain : ∀ (writes : List (IoU × Nat)) {h : History},
    (∀ w ∈ writes, ¬OnSegments o h.files w.1) → logAll hash o writes h = .ok h' →
    SameTable h h' := by
  intro writes
  induction writes with
  | nil =>
    intro h _ hr
    cases hr
    exact ⟨rfl, rfl, rfl⟩
  | cons w rest ih =>
    intro h hpl hr
    obtain ⟨h₁, hlog, hrs⟩ := of_bind hr
    have heq := logIoPiece_plain (hpl w (.head _)) hlog
    refine heq.trans (ih (fun v hv => ?_) hrs)
    rw [heq.files]
    exact hpl v (.tail _ hv)

lemma Linked.logAll_bucket : ∀ (writes : List (IoU × Nat)) {h : History}, Linked [] h →
    (∃ b q, q ∈ h.iohistHash b) ∨ (∃ w ∈ writes, OnSegments o h.files w.1) →
    History.logAll hash o writes h = .ok h' → ∃ b q, q ∈ h'.iohistHash b := by
  intro writes
  induction writes with
  | nil =>
    intro h _ hcs hr
    cases hr
    rcases hcs with hbck | ⟨w, hw, -⟩
    · exact hbck
    · cases hw
  | cons w rest ih =>
    intro h hl hcs hr
    obtain ⟨h₁, hlog, hrs⟩ := of_bind hr
    refine ih (hl.logIoPiece hlog) ?_ hrs
    by_cases hseg : OnSegments o h.files w.1
    · exact .inl (hl.logIoPiece_bucket hseg hlog)
    rcases hcs with hbck | ⟨v, hv, hvs⟩
    · left
      rw [(logIoPiece_plain hseg hlog).table]
      exact hbck
    · right
      rcases mem_cons.1 hv with rfl | hv
      · exact absurd hvs hseg
      · exact ⟨v, hv, (onSegments_congr (logIoPiece_fileMap hlog)).2 hvs⟩

structure Unused (h : History) : Prop where
  tree : h.ioHistTree = []
  list : h.ioHistList = []
  trim : h.trimList = []
  buckets : ∀ b, h.iohistHash b = []
  len : h.ioHistLen = 0
  trimEntries : h.trimEntries = 0
  heap : ∀ p, h.heap p = none
  cells : ∀ f x, x < 32 * h.words f → h.cell f x = .empty

def resetFiles (h : History) : History := { h with files := fun f => (h.fioFileReset f).files f }

structure Contents where
  (tree list trim : List (Option IoPiece))
  buckets : Nat → List (Option IoPiece)
  (len trimEntries : Int)
  files : FileId → FioFile

def contents (h : History) : Contents where
  tree := h.ioHistTree.map h.heap
  list := h.ioHistList.map h.heap
  trim := h.trimList.map h.heap
  buckets b := (h.iohistHash b).map h.heap
  len := h.ioHistLen
  trimEntries := h.trimEntries
  files := h.files

lemma contents_shift (h : History) (d : Nat) : (h.shift d).contents = h.contents := by
  have hmap : ∀ l : List Nat, (l.map (· + d)).map (h.shift d).heap = l.map h.heap := by
    intro l
    simp only [map_map]
    exact map_congr_left fun q _ => heap_shift h q d
  simp only [contents, shift, Contents.mk.injEq, and_true]
  exact ⟨hmap _, hmap _, hmap _, funext fun b => hmap _⟩

lemma Unused.linked (hu : Unused h) : Linked [] h where
  fresh hp := absurd (hu.heap _ ▸ hp) (by simp)
  owned hp := absurd (hu.heap _ ▸ hp) (by simp)
  nodup := by simp [members, hu.tree, hu.list]
  len := by simp [hu.tree, hu.list, hu.len]
  piece := by simp [members, hu.tree, hu.list]
  trimMem := by simp [hu.trim]
  trimNodup := by simp [hu.trim]
  trimLen := by simp [hu.trim, hu.trimEntries]
  bucketMem := by simp [hu.buckets]
  bucketNodup := by simp [hu.buckets]

lemma Unused.resetFiles (hu : Unused h) : Unused h.resetFiles where
  tree := hu.tree
  list := hu.list
  trim := hu.trim
  buckets := hu.buckets
  len := hu.len
  trimEntries := hu.trimEntries
  heap := hu.heap
  cells f x hx := by
    have hcl := hu.cells f x
    simp only [cell, words, History.resetFiles, fioFileReset, FioFile.reset, update_self]
      at hcl hx ⊢
    split_ifs at hx ⊢
    · simp only [Map2.clear] at hx ⊢
      split_ifs
      · rfl
      · exact hcl hx
    · exact hcl hx

lemma Unused.eq_shift (h : Unused h₁) (hu2 : Unused h₂) (hfl : h₂.files = h₁.files)
    (hopn : h₂.nrOpenFiles = h₁.nrOpenFiles) (hle : h₁.nextAddr ≤ h₂.nextAddr)
    : h₂ = h₁.shift (h₂.nextAddr - h₁.nextAddr) := by
  have hhp : h₂.heap = fun _ => none := funext hu2.heap
  have hhp1 : h₁.heap = fun _ => none := funext h.heap
  have hhs : h₂.iohistHash = fun _ => [] := funext hu2.buckets
  have hhs1 : h₁.iohistHash = fun _ => [] := funext h.buckets
  cases h₂
  simp only at hfl hopn hle hhp hhs ⊢
  simp only [shift, mk.injEq, hhp, hhp1, hhs, hhs1, hfl, hopn, h.tree, h.list, h.trim, h.len,
    h.trimEntries, ite_self, map_nil, and_true, true_and]
  exact ⟨by omega, hu2.tree, hu2.list, hu2.len, hu2.trim, hu2.trimEntries⟩

lemma Unused.logAll_contents (hu1 : Unused h₁) (hu2 : Unused h₂) (h : h₂.files = h₁.files)
    (hopn : h₂.nrOpenFiles = h₁.nrOpenFiles) (writes : List (IoU × Nat)) :
    contents <$> logAll hash o writes h₂ = contents <$> logAll hash o writes h₁ := by
  have hsh : ∀ (d : Nat) (g : History),
      contents <$> logAll hash o writes (g.shift d) = contents <$> logAll hash o writes g := by
    intro d g
    rw [logAll_shift]
    cases logAll hash o writes g with
    | error fault => rfl
    | ok g' => exact congrArg Except.ok (contents_shift g' d)
  rcases le_total h₁.nextAddr h₂.nextAddr with hle | hle
  · rw [hu1.eq_shift hu2 h hopn hle, hsh]
  · rw [hu2.eq_shift hu1 h.symm hopn.symm hle, hsh]

/-- **What pruning leaves behind**: `prune_io_piece_log` returns, and leaves an unused history that
    logs like a new job, if and only if no write of the run took the segment branch. -/
theorem pruneIoPieceLog_unused_iff {h₀ : History} (hunused : Unused h₀) (writes : List (IoU × Nat))
    (hlog : logAll hash o writes h₀ = .ok h) :
    ∃ h', h.pruneIoPieceLog = .ok h' ∧
      ((Unused h'.resetFiles ∧ ∀ again, contents <$> logAll hash o again h'.resetFiles =
          contents <$> logAll hash o again h₀.resetFiles) ↔
        ∀ w ∈ writes, ¬OnSegments o h₀.files w.1) := by
  have hl := hunused.linked.logAll writes hlog
  refine ⟨h.pruned, pruneIoPieceLog_spec hl, ?_, fun hpl => ?_⟩
  · rintro ⟨hu, -⟩ w hw hseg
    obtain ⟨b, q, hq⟩ := hunused.linked.logAll_bucket writes (.inr ⟨w, hw, hseg⟩) hlog
    have hemp : h.iohistHash b = [] := hu.buckets b
    rw [hemp] at hq
    cases hq
  · have heq := logAll_plain writes hpl hlog
    have hfl : h.pruned.resetFiles.files = h₀.resetFiles.files := by
      funext f
      simp [resetFiles, fioFileReset, pruned, heq.files, hunused.len]
    have hu0 := hunused.resetFiles
    have hu : Unused h.pruned.resetFiles := by
      refine ⟨rfl, rfl, rfl, fun b => ?_, rfl, rfl, fun _ => rfl, fun f x hx => ?_⟩
      · exact (congrFun heq.table b).trans (hunused.buckets b)
      · simp only [cell, words, hfl] at hx ⊢
        exact hu0.cells f x hx
    exact ⟨hu, hu0.logAll_contents hu hfl heq.nrOpenFiles⟩

lemma default_unused : Unused default :=
  ⟨rfl, rfl, rfl, fun _ => rfl, rfl, rfl, fun _ => rfl, fun _ _ _ => rfl⟩

theorem pruneIoPieceLog_forgets_write :
    ∃ h h', logAll (fun _ => 0) default [(blockWrite 0 1 1, 0)] default = .ok h ∧
      h.ioHistLen = 1 ∧ h.pruneIoPieceLog = .ok h' ∧ Unused h'.resetFiles := by
  obtain ⟨h, hlog, hlen⟩ : ∃ h, logAll (fun _ => 0) default [(blockWrite 0 1 1, 0)] default = .ok h ∧
      h.ioHistLen = 1 := by decide +kernel
  obtain ⟨h', hpr, hiff⟩ := pruneIoPieceLog_unused_iff default_unused _ hlog
  refine ⟨h, h', hlog, hlen, hpr, (hiff.2 ?_).1⟩
  rintro w hw ⟨f, -, hseg⟩
  exact absurd (show segBranch default (default : FioFile) = true from hseg) (by decide)

/-- A segment is freed while its bucket links it, and logging the same write again follows the
    dangling pointer. -/
theorem pruneIoPieceLog_leaves_bucket :
    ∃ h h', logAll (fun _ => 0) segOptions [(blockWrite 0 1 1, 0)] blankJob = .ok h ∧
      h.pruneIoPieceLog = .ok h' ∧ h'.resetFiles.iohistHash 0 = [0] ∧
      h'.resetFiles.heap 0 = none ∧ ¬Unused h'.resetFiles ∧
      logAll (fun _ => 0) segOptions [(blockWrite 0 1 1, 0)] h'.resetFiles = .error .badPointer := by
  obtain ⟨h, hlog, h', hpr, hbck, hhp, hag⟩ :
      ∃ h, logAll (fun _ => 0) segOptions [(blockWrite 0 1 1, 0)] blankJob = .ok h ∧
      ∃ h', h.pruneIoPieceLog = .ok h' ∧ h'.resetFiles.iohistHash 0 = [0] ∧ h'.resetFiles.heap 0 = none ∧
        logAll (fun _ => 0) segOptions [(blockWrite 0 1 1, 0)] h'.resetFiles = .error .badPointer := by
    decide +kernel
  refine ⟨h, h', hlog, hpr, hbck, hhp, fun hu => ?_, hag⟩
  cases (hu.buckets 0).symm.trans hbck

end FioSsd.History
