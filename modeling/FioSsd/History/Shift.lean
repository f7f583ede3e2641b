import FioSsd.History.LastWriter

/-! # Addresses do not matter

What logging a write does to the history does not depend on where `malloc` puts the pieces: every
function commutes with moving all pieces to higher addresses. -/

namespace FioSsd.History

open Function List

variable {hash : KeyHash} {o : ThreadOptions} {h : History} {p d : Nat}

/-- The same history with every piece `d` addresses further on. -/
def shift (d : Nat) (h : History) : History :=
  { h with
    heap := fun q => if d ≤ q then h.heap (q - d) else none
    nextAddr := h.nextAddr + d
    ioHistTree := h.ioHistTree.map (· + d), ioHistList := h.ioHistList.map (· + d)
    iohistHash := fun b => (h.iohistHash b).map (· + d), trimList := h.trimList.map (· + d) }

lemma heap_shift (h : History) (p d : Nat) : (h.shift d).heap (p + d) = h.heap p := by
  simp [shift]

lemma update_shift {α : Type} (h : Nat → Option α) (p d : Nat) (v : Option α) :
    update (fun q => if d ≤ q then h (q - d) else none) (p + d) v =
      fun q => if d ≤ q then update h p v (q - d) else none := by
  funext q
  by_cases hq : q = p + d
  · subst hq
    simp
  · rw [update_of_ne hq]
    split_ifs with hle
    · rw [update_of_ne (by omega)]
    · rfl

lemma erase_shift (l : List Nat) (p d : Nat) : (l.map (· + d)).erase (p + d) = (l.erase p).map (· + d) :=
  (map_erase (add_left_injective d) l).symm

lemma bucket_shift (buckets : Nat → List Nat) (b : Nat) (l : List Nat) (d : Nat) :
    update (fun c => (buckets c).map (· + d)) b (l.map (· + d)) =
      fun c => (update buckets b l c).map (· + d) := by
  funext c
  by_cases hc : c = b
  · subst hc
    simp
  · simp [update_of_ne hc]

section

variable (h : History)

lemma deref_shift (p d : Nat) : (h.shift d).deref (p + d) = h.deref p := by
  rw [deref, heap_shift, deref]

lemma setPiece_shift (p d : Nat) (ipo : IoPiece) :
    (h.shift d).setPiece (p + d) ipo = (h.setPiece p ipo).shift d := by
  simp [setPiece, shift, update_shift]

lemma freePiece_shift (p d : Nat) :
    (h.shift d).freePiece (p + d) = (h.freePiece p).shift d := by
  simp [freePiece, shift, update_shift]

lemma malloc_shift (d : Nat) (ipo : IoPiece) :
    (h.shift d).malloc ipo = (h.malloc ipo).shift d := by
  simp [malloc, shift, update_shift, Nat.add_right_comm]

lemma setBit_shift (d : Nat) (f : FileId) (pos : Pos) (stat : Blk) :
    (h.shift d).setBit f pos stat = shift d <$> h.setBit f pos stat := by
  unfold setBit
  rw [map_bind]
  rfl

end

lemma hashFindIn_shift (key : IohistKey) (bucket : List Nat) :
    (h.shift d).hashFindIn key (bucket.map (· + d)) = Option.map (· + d) <$> h.hashFindIn key bucket := by
  induction bucket with
  | nil => rfl
  | cons q rest ih =>
    simp only [map_cons, hashFindIn, deref_shift, map_bind]
    refine bind_congr fun ipo => ?_
    split_ifs
    · rfl
    · exact ih

lemma iohistHashFind_shift (key : IohistKey) :
    (h.shift d).iohistHashFind hash key = Option.map (· + d) <$> h.iohistHashFind hash key :=
  hashFindIn_shift key _

lemma iohistHashDel_shift : (h.shift d).iohistHashDel (p + d) = shift d <$> h.iohistHashDel p := by
  unfold iohistHashDel
  rw [deref_shift, map_bind]
  refine bind_congr fun ipo => ?_
  split_ifs
  · cases ipo.hashList with
    | none => rfl
    | some b =>
      simp only [setPiece_shift, map_pure]
      simp [shift, erase_shift, bucket_shift, setPiece]
  · rfl

lemma iohistHashAdd_shift :
    (h.shift d).iohistHashAdd hash (p + d) = shift d <$> h.iohistHashAdd hash p := by
  unfold iohistHashAdd
  rw [deref_shift, map_bind]
  refine bind_congr fun ipo => ?_
  split_ifs
  · rfl
  · rw [iohistHashFind_shift, bind_map_left, map_bind]
    refine bind_congr fun found => ?_
    cases found with
    | some q => simp only [Option.map_some, setPiece_shift, map_pure]
    | none =>
      simp only [Option.map_none, setPiece_shift, map_pure]
      have hln : ∀ l : List Nat, l.map (· + d) ++ [p + d] = (l ++ [p]).map (· + d) := by simp
      simp only [shift, setPiece, hln, bucket_shift]

lemma removeTrimEntry_shift :
    (h.shift d).removeTrimEntry (p + d) = shift d <$> h.removeTrimEntry p := by
  unfold removeTrimEntry
  rw [deref_shift, map_bind]
  refine bind_congr fun ipo => ?_
  split_ifs
  · simp only [setPiece_shift, map_pure]
    simp [shift, erase_shift, setPiece]
  · rfl

lemma linkSegment_shift :
    (h.shift d).linkSegment hash (p + d) = shift d <$> h.linkSegment hash p := by
  unfold linkSegment
  rw [iohistHashAdd_shift, bind_map_left, map_bind]
  refine bind_congr fun h1 => ?_
  rw [deref_shift, map_bind]
  refine bind_congr fun ipo => ?_
  simp only [setPiece_shift, map_pure]
  simp [shift, setPiece]

variable (f : FileId)

lemma overlapDivide_shift (block start len : Nat) :
    (h.shift d).overlapDivide hash o f block start len =
      shift d <$> h.overlapDivide hash o f block start len := by
  unfold overlapDivide
  rw [iohistHashFind_shift, bind_map_left, map_bind]
  refine bind_congr fun found => ?_
  cases found with
  | none => rfl
  | some q =>
    simp only [Option.map_some]
    rw [deref_shift, map_bind]
    refine bind_congr fun ipo => ?_
    by_cases hst : start ≤ block
    · by_cases htl : start + len < block + ipo.nrBlk
      · simp [if_pos hst, if_pos htl, setPiece_shift, iohistHashDel_shift, bind_map_left, map_bind,
          setBit_shift, iohistHashAdd_shift]
      · simp only [if_pos hst, if_neg htl, iohistHashDel_shift, bind_map_left, map_bind,
          deref_shift]
        refine bind_congr fun h1 => bind_congr fun ipo1 => ?_
        split_ifs
        · simp only [freePiece_shift, map_pure]
          simp [shift, freePiece, erase_shift]
        · rfl
    · by_cases htl : start + len < block + ipo.nrBlk
      · have had : (h.shift d).nextAddr = h.nextAddr + d := rfl
        simp [if_neg hst, if_pos htl, malloc_shift, setBit_shift, had, bind_map_left,
          linkSegment_shift, map_bind, deref_shift, setPiece_shift]
      · simp [if_neg hst, if_neg htl, pure_bind, deref_shift, setPiece_shift]

lemma insertSegLoop_shift (block nrBlk : Nat) : ∀ (left : Nat) (pos : Pos) (h : History),
    insertSegLoop (overlapDivide hash o) f block nrBlk left pos (h.shift d) =
      shift d <$> insertSegLoop (overlapDivide hash o) f block nrBlk left pos h := by
  intro left
  induction left with
  | zero => exact fun _ _ => rfl
  | succ left ih =>
    intro pos h
    simp only [insertSegLoop, map_bind]
    refine bind_congr fun isStart => ?_
    split_ifs
    · simp [overlapDivide_shift, bind_map_left, setBit_shift, ih, map_bind]
    · simp [pure_bind, bind_map_left, setBit_shift, ih, map_bind]

lemma insertSeg_shift (block nrBlk : Nat) :
    (h.shift d).insertSeg (overlapDivide hash o) f block nrBlk =
      shift d <$> h.insertSeg (overlapDivide hash o) f block nrBlk := by
  simp only [insertSeg, map_bind]
  refine bind_congr fun cell => ?_
  cases cell with
  | empty | err => simp only [pure_bind, setBit_shift, bind_map_left, insertSegLoop_shift, map_bind]
  | start =>
    simp [overlapDivide_shift, setBit_shift, bind_map_left, insertSegLoop_shift, map_bind]
  | inSeg =>
    simp only [overlapDivide_shift, setBit_shift, bind_map_left, insertSegLoop_shift, map_bind]
    rfl

variable (ipo : IoPiece)

lemma treeFind_shift (nodes : List Nat) :
    (h.shift d).treeFind ipo (nodes.map (· + d)) = Option.map (· + d) <$> h.treeFind ipo nodes := by
  induction nodes with
  | nil => rfl
  | cons q rest ih =>
    simp only [map_cons, treeFind, deref_shift, map_bind]
    refine bind_congr fun node => ?_
    split_ifs
    · rfl
    · exact ih

lemma treeLink_shift (nodes : List Nat) :
    (h.shift d).treeLink (p + d) ipo (nodes.map (· + d)) =
      List.map (· + d) <$> h.treeLink p ipo nodes := by
  induction nodes with
  | nil => rfl
  | cons q rest ih =>
    simp only [map_cons, treeLink, deref_shift, map_bind]
    refine bind_congr fun node => ?_
    split_ifs
    · rfl
    · simp [ih]

lemma treeInsert_shift : ∀ (fuel : Nat) (h : History),
    treeInsert (p + d) fuel (h.shift d) = shift d <$> treeInsert p fuel h := by
  intro fuel
  induction fuel with
  | zero => exact fun _ => rfl
  | succ fuel ih =>
    intro h
    simp only [treeInsert, deref_shift, map_bind]
    refine bind_congr fun ipo => ?_
    rw [show (h.shift d).ioHistTree = h.ioHistTree.map (· + d) from rfl, treeFind_shift,
      bind_map_left]
    refine bind_congr fun found => ?_
    cases found with
    | some q =>
      simp only [Option.map_some, deref_shift, map_bind]
      refine bind_congr fun old => ?_
      split_ifs
      · have hunl : { h.shift d with
            ioHistLen := (h.shift d).ioHistLen - 1
            ioHistTree := (h.ioHistTree.map (· + d)).erase (q + d) } =
            shift d { h with
              ioHistLen := h.ioHistLen - 1, ioHistTree := h.ioHistTree.erase q } := by
          simp [shift, erase_shift]
        rw [hunl, removeTrimEntry_shift, bind_map_left, map_bind]
        refine bind_congr fun h1 => ?_
        rw [freePiece_shift, ih]
      · rfl
    | none =>
      simp only [Option.map_none]
      rw [treeLink_shift, bind_map_left, map_bind]
      refine bind_congr fun tree => ?_
      simp only [setPiece_shift, map_pure]
      simp [shift, setPiece]

lemma drawTrim_shift (r : Nat) :
    (h.shift d).drawTrim o (p + d) ipo r = shift d (h.drawTrim o p ipo r) := by
  unfold drawTrim
  split_ifs
  · rw [setPiece_shift]
    simp [shift, setPiece]
  · rfl

lemma linkPiece_shift : (h.shift d).linkPiece o (p + d) f = shift d <$> h.linkPiece o p f := by
  unfold linkPiece
  rw [show (h.shift d).files f = h.files f from rfl]
  split_ifs
  · rw [show (h.shift d).ioHistTree.length = h.ioHistTree.length from length_map _]
    exact treeInsert_shift _ h
  · rw [deref_shift, map_bind]
    refine bind_congr fun ipo => ?_
    simp only [setPiece_shift, map_pure]
    simp [shift, setPiece]

lemma logSegment_shift (ioU : IoU) :
    (h.shift d).logSegment hash o (p + d) f ioU = shift d <$> h.logSegment hash o p f ioU := by
  simp only [logSegment, deref_shift, map_bind, setPiece_shift, insertSeg_shift, bind_map_left,
    linkSegment_shift]
  rfl

lemma logIoPiece_shift (ioU : IoU) (r : Nat) :
    (h.shift d).logIoPiece hash o ioU r = shift d <$> h.logIoPiece hash o ioU r := by
  unfold logIoPiece
  cases ioU.file with
  | none => rfl
  | some f =>
    have had : (h.shift d).nextAddr = h.nextAddr + d := rfl
    simp only [malloc_shift, had]
    generalize (if o.verifyInner = true then o.uniqueOps.copy ioU.uniqueVersion else ⟨0, 0⟩) = v
    rw [show ∀ h1 : History, (h1.shift d).files = h1.files from fun _ => rfl]
    split_ifs
    · exact logSegment_shift f ioU
    · simp [deref_shift, map_bind, setPiece_shift, drawTrim_shift, linkPiece_shift]

lemma logAll_shift : ∀ (writes : List (IoU × Nat)) (h : History),
    logAll hash o writes (h.shift d) = shift d <$> logAll hash o writes h := by
  intro writes
  induction writes with
  | nil => exact fun _ => rfl
  | cons w rest ih =>
    intro h
    simp [logAll, logIoPiece_shift, bind_map_left, map_bind, ih]

end FioSsd.History
