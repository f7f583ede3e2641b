import FioSsd.History.Linked
import FioSsd.Lib.Extent

/-! # The ranges on the sorted tree

`log_io_piece` looks for a node with the file and offset of the new piece. If there is one its
length has to be the same, and it is dropped; then the piece is linked. -/

namespace FioSsd.History

variable {f : FileId} {ioU : IoU} {nodes : List Nat}

open Extents List Function

variable {hash : KeyHash} {o : ThreadOptions} {A : List Nat} {h h' : History} {p q : Nat}
  {ipo old : IoPiece}

def entryExtent (p : Nat) (ipo : IoPiece) : Extent FileId Nat := ⟨ipo.file, ipo.offset, ipo.len, p⟩

def treeExtents (h : History) : Set (Extent FileId Nat) :=
  {e | ∃ p ipo, p ∈ h.ioHistTree ∧ h.heap p = some ipo ∧ e = entryExtent p ipo}

lemma deref_of_heap (hhp : h.heap p = some ipo) : h.deref p = .ok ipo := by
  simp [deref, hhp]

lemma treeFind_spec (ipo : IoPiece) (hnd : ∀ q ∈ nodes, ∃ node, h.heap q = some node) :
    (∃ q node, h.treeFind ipo nodes = .ok (some q) ∧ q ∈ nodes ∧ h.heap q = some node ∧
      node.file = ipo.file ∧ node.offset = ipo.offset) ∨
    (h.treeFind ipo nodes = .ok none ∧ ∀ q ∈ nodes, ∀ node, h.heap q = some node →
      ¬(node.file = ipo.file ∧ node.offset = ipo.offset)) := by
  induction nodes with
  | nil => exact .inr ⟨rfl, nofun⟩
  | cons r rest ih =>
    obtain ⟨node, hnod⟩ := hnd r (.head _)
    have hrs : ∀ q ∈ rest, ∃ node, h.heap q = some node := fun q hq => hnd q (.tail _ hq)
    rw [treeFind, deref_of_heap hnod]
    by_cases hkey : node.file = ipo.file ∧ node.offset = ipo.offset
    · exact .inl ⟨r, node, if_pos hkey, .head _, hnod, hkey⟩
    · have hsk : ∀ found, h.treeFind ipo rest = .ok found →
          (do
            let node ← Except.ok node
            if node.file = ipo.file ∧ node.offset = ipo.offset then return some r
            else h.treeFind ipo rest : Except Fault (Option Nat)) = .ok found :=
        fun found hfn => (if_neg hkey).trans hfn
      rcases ih hrs with ⟨q, node', hfin, hmem, hhp, hfn⟩ | ⟨hfin, hno⟩
      · exact .inl ⟨q, node', hsk _ hfin, .tail _ hmem, hhp, hfn⟩
      · refine .inr ⟨hsk _ hfin, fun q hq node' hnd' => ?_⟩
        rcases mem_cons.1 hq with rfl | hq
        · rwa [← Option.some.inj (hnod.symm.trans hnd')]
        · exact hno q hq node' hnd'

lemma treeLink_ok (p : Nat) (ipo : IoPiece)
    (hnd : ∀ q ∈ nodes, ∃ node, h.heap q = some node) : ∃ tree, h.treeLink p ipo nodes = .ok tree := by
  induction nodes with
  | nil => exact ⟨_, rfl⟩
  | cons r rest ih =>
    obtain ⟨node, hnod⟩ := hnd r (.head _)
    obtain ⟨tree, htr⟩ := ih fun q hq => hnd q (.tail _ hq)
    rw [treeLink, deref_of_heap hnod, htr]
    by_cases hpre : ipo.file < node.file ∨ ipo.file = node.file ∧ ipo.offset < node.offset
    · exact ⟨_, if_pos hpre⟩
    · exact ⟨_, if_neg hpre⟩

lemma removeTrimEntry_ok (hhp : h.heap p = some ipo) : ∃ h', h.removeTrimEntry p = .ok h' := by
  rw [removeTrimEntry, deref_of_heap hhp]
  by_cases htr : ipo.trimList
  · exact ⟨_, if_pos htr⟩
  · exact ⟨_, if_neg htr⟩

lemma Linked.tree_alive (hl : Linked A h) (hq : q ∈ h.ioHistTree) : ∃ node, h.heap q = some node := by
  obtain ⟨node, hnd, -⟩ := hl.piece q (by simp [members, hq])
  exact ⟨node, hnd⟩

lemma Linked.not_mem_tree (hl : Linked (p :: A) h) : p ∉ h.ioHistTree := by
  intro hcon
  exact (nodup_cons.1 hl.nodup).1 (by simp [hcon])

lemma treeInsert_new (hl : Linked (p :: A) h) (hipo : h.heap p = some ipo)
    (hnew : ∀ e ∈ treeExtents h, ¬(e.key = ipo.file ∧ e.start = ipo.offset)) (fuel : Nat) :
    ∃ h', treeInsert p (fuel + 1) h = .ok h' ∧
      treeExtents h' = insert (entryExtent p ipo) (treeExtents h) := by
  have hal : ∀ q ∈ h.ioHistTree, ∃ node, h.heap q = some node := fun q hq => hl.tree_alive hq
  obtain ⟨tree, hln⟩ := treeLink_ok p ipo hal
  have hfn : h.treeFind ipo h.ioHistTree = .ok none := by
    rcases treeFind_spec ipo hal with ⟨q, node, -, hmem, hhp, hkey⟩ | ⟨hfn, -⟩
    · exact absurd hkey (hnew _ ⟨q, node, hmem, hhp, rfl⟩)
    · exact hfn
  refine ⟨{ h.setPiece p { ipo with onRb := true } with
    ioHistTree := tree, ioHistLen := h.ioHistLen + 1 }, ?_, ?_⟩
  · rw [treeInsert, deref_of_heap hipo]
    simp only [bind, Except.bind, hfn, hln]
    rfl
  · -- the nodes are those from before and `p`, in some order
    have hpr := treeLink_perm hln
    have hnot := hl.not_mem_tree
    ext e
    constructor
    · rintro ⟨q, node, hq, hhp, rfl⟩
      rcases mem_cons.1 (hpr.mem_iff.1 hq) with rfl | hq
      · simp only [setPiece, update_self, Option.some.injEq] at hhp
        subst hhp
        exact .inl rfl
      · have hqp : q ≠ p := fun heq => hnot (heq ▸ hq)
        simp only [setPiece, update_of_ne hqp] at hhp
        exact .inr ⟨q, node, hq, hhp, rfl⟩
    · rintro (rfl | ⟨q, node, hq, hhp, rfl⟩)
      · exact ⟨p, { ipo with onRb := true }, hpr.mem_iff.2 (.head _), by simp [setPiece], rfl⟩
      · have hqp : q ≠ p := fun heq => hnot (heq ▸ hq)
        refine ⟨q, node, hpr.mem_iff.2 (.tail _ hq), ?_, rfl⟩
        simpa [setPiece, hqp] using hhp

lemma treeExtents_dropEntry (hl : Linked A h) (hq : q ∈ h.ioHistTree) (hold : h.heap q = some old) :
    treeExtents (h.dropEntry q) = treeExtents h \ {entryExtent q old} := by
  have hnd := (nodup_append.1 (nodup_append.1 hl.nodup).2.1).1
  ext e
  constructor
  · rintro ⟨r, node, hr, hhp, rfl⟩
    have hrq : r ≠ q := fun heq => hnd.not_mem_erase (heq ▸ hr)
    simp only [dropEntry, freePiece, update_of_ne hrq] at hhp
    refine ⟨⟨r, node, mem_of_mem_erase hr, hhp, rfl⟩, fun hcon => hrq ?_⟩
    exact congrArg Extent.val (Set.mem_singleton_iff.1 hcon)
  · rintro ⟨⟨r, node, hr, hhp, rfl⟩, hne⟩
    have hrq : r ≠ q := by
      rintro rfl
      rw [Option.some.inj (hhp.symm.trans hold)] at hne
      exact hne rfl
    refine ⟨r, node, (mem_erase_of_ne hrq).2 hr, ?_, rfl⟩
    simpa [dropEntry, freePiece, hrq] using hhp

lemma treeInsert_fits (hl : Linked (p :: A) h) (hipo : h.heap p = some ipo)
    (hvl : Valid (treeExtents h)) (hpos : 0 < ipo.len)
    (hft : Fits (treeExtents h) (entryExtent p ipo)) :
    ∃ h', treeInsert p (h.ioHistTree.length + 1) h = .ok h' ∧
      treeExtents h' = insert (entryExtent p ipo) (notAt (treeExtents h) (entryExtent p ipo)) := by
  have hal : ∀ q ∈ h.ioHistTree, ∃ node, h.heap q = some node := fun q hq => hl.tree_alive hq
  rcases treeFind_spec ipo hal with ⟨q, node, hfn, hq, hnd, hkey, hst⟩ | ⟨-, hno⟩
  · -- The node with the key has the length too, and no other node starts there.
    have hmem : entryExtent q node ∈ treeExtents h := ⟨q, node, hq, hnd, rfl⟩
    have hlen : node.len = ipo.len := hft.len_eq hvl hpos hmem hkey hst
    have hnta := hvl.notAt_eq (w := entryExtent p ipo) hmem hkey hst
    have hrmv : ∃ h1, removeTrimEntry
        { h with ioHistLen := h.ioHistLen - 1, ioHistTree := h.ioHistTree.erase q } q = .ok h1 :=
      removeTrimEntry_ok hnd
    obtain ⟨h1, hrmv⟩ := hrmv
    have hdrop := hl.removeTrimEntry_freePiece hq hrmv
    have hl1 := hl.drop (mem_append_left _ hq) hnd (hl.tree_not_hashed hq hnd)
    have hqp : p ≠ q := fun heq => hl.not_mem_tree (heq ▸ hq)
    have hip1 : (h.dropEntry q).heap p = some ipo := by
      simpa [dropEntry, freePiece, hqp] using hipo
    have hext := treeExtents_dropEntry hl hq hnd
    obtain ⟨n, hn⟩ := Nat.exists_eq_succ_of_ne_zero (length_pos_of_mem hq).ne'
    obtain ⟨h', hr, hps⟩ := treeInsert_new hl1 hip1 (fun e he hat => by
      rw [hext] at he
      exact he.2 (hvl.eq_of_start hmem he.1 (hat.1.trans hkey.symm) (hat.2.trans hst.symm))) n
    refine ⟨h', ?_, ?_⟩
    · rw [← hdrop] at hr
      rw [hn, treeInsert, deref_of_heap hipo]
      simp only [bind, Except.bind, hfn, deref_of_heap hnd, if_pos hlen.symm, hrmv]
      exact hr
    · rw [hps, hext, hnta]
  · have hnew : ∀ e ∈ treeExtents h, ¬(e.key = ipo.file ∧ e.start = ipo.offset) := by
      rintro e ⟨q, node, hq, hnd, rfl⟩
      exact hno q hq node hnd
    obtain ⟨h', hr, hps⟩ := treeInsert_new hl hipo hnew h.ioHistTree.length
    exact ⟨h', hr, by rw [hps, notAt_eq_self hnew]⟩

def pieceExtent (f : FileId) (ioU : IoU) (p : Nat) : Extent FileId Nat :=
  ⟨f, ioU.offset.toNat, ioU.buflen.toNat, p⟩

def OnTree (o : ThreadOptions) (file : FioFile) : Prop :=
  segBranch o file = false ∧ useTree o file = true

def bytePiece (o : ThreadOptions) (f : FileId) (ioU : IoU) : IoPiece :=
  { newPiece o f ioU with block := ioU.offset.toNat, nrBlk := ioU.buflen.toNat }

lemma logIoPiece_bytes (hf : ioU.file = some f)
    (hseg : segBranch o (h.files f) = false) (r : Nat) : h.logIoPiece hash o ioU r =
      (((h.malloc (newPiece o f ioU)).setPiece h.nextAddr (bytePiece o f ioU)).drawTrim o h.nextAddr
        (bytePiece o f ioU) r).linkPiece o h.nextAddr f := by
  have hnew : (h.malloc (newPiece o f ioU)).deref h.nextAddr = .ok (newPiece o f ioU) := by
    simp [deref, malloc]
  rw [logIoPiece, hf]
  change (if segBranch o (h.files f) then _ else _) = _
  rw [if_neg (by simp [hseg])]
  change ((h.malloc (newPiece o f ioU)).deref h.nextAddr >>= _) = _
  rw [hnew]
  rfl

lemma drawTrim_aside (h : History) (p : Nat) (ipo : IoPiece) (r : Nat) :
    (h.drawTrim o p ipo r).ioHistTree = h.ioHistTree ∧ (h.drawTrim o p ipo r).files = h.files ∧
      ∀ q, q ≠ p → (h.drawTrim o p ipo r).heap q = h.heap q := by
  unfold drawTrim
  split_ifs
  · exact ⟨rfl, rfl, fun q hq => update_of_ne hq _ _⟩
  · exact ⟨rfl, rfl, fun _ _ => rfl⟩

lemma treeExtents_congr (htr : h'.ioHistTree = h.ioHistTree)
    (hhp : ∀ q ∈ h.ioHistTree, h'.heap q = h.heap q) : treeExtents h' = treeExtents h := by
  ext e
  constructor
  · rintro ⟨q, node, hq, hnd, rfl⟩
    rw [htr] at hq
    exact ⟨q, node, hq, (hhp q hq).symm.trans hnd, rfl⟩
  · rintro ⟨q, node, hq, hnd, rfl⟩
    exact ⟨q, node, by rwa [htr], (hhp q hq).trans hnd, rfl⟩

lemma logIoPiece_fits (hl : Linked A h) (hf : ioU.file = some f)
    (htr : OnTree o (h.files f)) (hvl : Valid (treeExtents h)) (hpos : 0 < ioU.buflen.toNat)
    (hft : Fits (treeExtents h) (pieceExtent f ioU h.nextAddr)) (r : Nat) :
    ∃ h', h.logIoPiece hash o ioU r = .ok h' ∧
      treeExtents h' = insert (pieceExtent f ioU h.nextAddr)
        (notAt (treeExtents h) (pieceExtent f ioU h.nextAddr)) := by
  have hnew : h.nextAddr ∉ h.trimList := fun hcon =>
    hl.not_mem_of_fresh le_rfl (hl.trimMem _ hcon)
  have hout : h.nextAddr ∉ h.ioHistTree := fun hcon =>
    hl.not_mem_of_fresh le_rfl (by simp [members, hcon])
  rw [logIoPiece_bytes hf htr.1]
  generalize hset : (h.malloc (newPiece o f ioU)).setPiece h.nextAddr (bytePiece o f ioU) = h1
  have hl1 : Linked (h.nextAddr :: A) h1 := hset ▸ hl.newPiece _ _
  have hpc : h1.heap h.nextAddr = some (bytePiece o f ioU) := by
    rw [← hset]
    simp [setPiece]
  have htr1 : h1.ioHistTree = h.ioHistTree := hset ▸ rfl
  have hfl1 : h1.files = h.files := hset ▸ rfl
  have hhp1 : ∀ q, q ≠ h.nextAddr → h1.heap q = h.heap q := by
    intro q hq
    rw [← hset]
    simp [setPiece, malloc, hq]
  have htri1 : h.nextAddr ∉ h1.trimList := hset ▸ hnew
  obtain ⟨htr2, hfl2, hhp2⟩ := drawTrim_aside (o := o) h1 h.nextAddr (bytePiece o f ioU) r
  have hl2 := hl1.drawTrim (o := o) (r := r) hpc htri1
  have hrn : ∃ ipo, (h1.drawTrim o h.nextAddr (bytePiece o f ioU) r).heap h.nextAddr = some ipo ∧
      entryExtent h.nextAddr ipo = pieceExtent f ioU h.nextAddr ∧ ipo.len = ioU.buflen.toNat := by
    unfold drawTrim
    split_ifs
    · exact ⟨{ bytePiece o f ioU with trimList := true }, by simp [setPiece], rfl, rfl⟩
    · exact ⟨bytePiece o f ioU, hpc, rfl, rfl⟩
  generalize h1.drawTrim o h.nextAddr (bytePiece o f ioU) r = h2 at *
  obtain ⟨ipo, hipo, hextent, hlen⟩ := hrn
  have hext : treeExtents h2 = treeExtents h := by
    refine treeExtents_congr (htr2.trans htr1) fun q hq => ?_
    have hqp : q ≠ h.nextAddr := fun heq => hout (heq ▸ hq)
    exact (hhp2 q hqp).trans (hhp1 q hqp)
  rw [← hext, ← hextent] at hft ⊢
  rw [← hext] at hvl
  obtain ⟨h', hr, hps⟩ := treeInsert_fits hl2 hipo hvl (hlen ▸ hpos) hft
  refine ⟨h', ?_, hps⟩
  rw [linkPiece, hfl2, hfl1, if_pos htr.2]
  exact hr

end FioSsd.History
