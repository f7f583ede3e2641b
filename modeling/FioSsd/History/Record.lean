import FioSsd.History.Cases

/-! # The entry a write leaves -/

namespace FioSsd.History

open Function (update_self update_of_ne)

variable {f : FileId} {hash : KeyHash} {o : ThreadOptions} {h h' : History} {p q : Nat}
  {ipo : IoPiece}

structure Aside (h : History) (p : Nat) (ipo : IoPiece) : Prop where
  piece : h.heap p = some ipo
  addr : p < h.nextAddr
  hashed : ∀ b, p ∉ h.iohistHash b
  tree : p ∉ h.ioHistTree

namespace Aside

section

variable (ha : Aside h p ipo)

include ha

lemma setPiece (hq : q ≠ p) (piece : IoPiece) :
    Aside (h.setPiece q piece) p ipo :=
  ⟨by simpa [History.setPiece, update_of_ne hq.symm] using ha.piece, ha.addr, ha.hashed, ha.tree⟩

lemma freePiece (hq : q ≠ p) : Aside (h.freePiece q) p ipo :=
  ⟨by simpa [History.freePiece, update_of_ne hq.symm] using ha.piece, ha.addr, ha.hashed, ha.tree⟩

lemma malloc (piece : IoPiece) : Aside (h.malloc piece) p ipo :=
  ⟨by simpa [History.malloc, update_of_ne ha.addr.ne] using ha.piece,
    Nat.lt_succ_of_lt ha.addr, ha.hashed, ha.tree⟩

lemma setBit {pos : Pos} {stat : Blk} (hr : h.setBit f pos stat = .ok h') : Aside h' p ipo := by
  obtain ⟨m, rfl⟩ := setBit_cases hr
  exact ⟨ha.piece, ha.addr, ha.hashed, ha.tree⟩

lemma iohistHashDel (hq : q ≠ p) (hr : h.iohistHashDel q = .ok h') :
    Aside h' p ipo := by
  obtain ⟨piece, -, ⟨-, rfl⟩ | ⟨b, -, -, rfl⟩⟩ := iohistHashDel_cases hr
  · exact ha
  · have hset := ha.setPiece hq { piece with hashed := false, hashList := none }
    refine ⟨hset.piece, hset.addr, fun b' hmem => ?_, hset.tree⟩
    by_cases hb : b' = b
    · subst hb
      simp only [update_self] at hmem
      exact ha.hashed b' (List.mem_of_mem_erase hmem)
    · simp only [update_of_ne hb] at hmem
      exact ha.hashed b' hmem

lemma iohistHashAdd (hq : q ≠ p) (hr : h.iohistHashAdd hash q = .ok h') :
    Aside h' p ipo := by
  obtain ⟨piece, -, ⟨-, rfl⟩ | ⟨-, -, rfl⟩ | ⟨-, rfl⟩⟩ := iohistHashAdd_cases hr
  · exact ha
  · exact ha.setPiece hq _
  · have hset := ha.setPiece hq { piece with hashed := true, hashList := some (hash piece.key) }
    refine ⟨hset.piece, hset.addr, fun b' hmem => ?_, hset.tree⟩
    by_cases hb : b' = hash piece.key
    · subst hb
      simp only [update_self, List.mem_append, List.mem_singleton] at hmem
      rcases hmem with hmem | heq
      · exact ha.hashed _ hmem
      · exact hq heq.symm
    · simp only [update_of_ne hb] at hmem
      exact ha.hashed b' hmem

lemma linkSegment (hq : q ≠ p) (hr : h.linkSegment hash q = .ok h') :
    Aside h' p ipo := by
  obtain ⟨h1, piece, hadd, -, rfl⟩ := linkSegment_cases hr
  have hset := (ha.iohistHashAdd hq hadd).setPiece hq { piece with onList := true }
  exact ⟨hset.piece, hset.addr, hset.hashed, hset.tree⟩

lemma removeTrimEntry (hq : q ≠ p) (hr : h.removeTrimEntry q = .ok h') :
    Aside h' p ipo := by
  obtain ⟨piece, -, ⟨-, rfl⟩ | ⟨-, rfl⟩⟩ := removeTrimEntry_cases hr
  · exact ha
  · have hset := ha.setPiece hq { piece with trimList := false }
    exact ⟨hset.piece, hset.addr, hset.hashed, hset.tree⟩

lemma overlapDivide {block start len : Nat} (hr : h.overlapDivide hash o f block start len = .ok h')
    : Aside h' p ipo := by
  obtain ⟨q, piece, hmem, -, -, hdvd⟩ := overlapDivide_cases hr
  have hq : q ≠ p := by
    rintro rfl
    exact ha.hashed _ hmem
  cases hdvd with
  | shift _ _ hdel hbit hadd =>
    exact (((ha.setPiece hq _).iohistHashDel hq hdel).setBit hbit).iohistHashAdd hq hadd
  | drop _ _ hdel _ _ =>
    have hfr := (ha.iohistHashDel hq hdel).freePiece hq
    exact ⟨hfr.piece, hfr.addr, hfr.hashed, hfr.tree⟩
  | split _ _ hbit hln _ =>
    exact (((ha.malloc _).setBit hbit).linkSegment ha.addr.ne' hln).setPiece hq _
  | trim _ _ => exact ha.setPiece hq _

lemma insertSeg {block nrBlk : Nat}
    (hr : h.insertSeg (History.overlapDivide hash o) f block nrBlk = .ok h') : Aside h' p ipo :=
  insertSeg_preserves (I := fun h => Aside h p ipo) (fun ha hr => ha.overlapDivide hr)
    (fun ha hr => ha.setBit hr) ha hr

end

end Aside

lemma Aside.treeInsert {fuel : Nat} :
    ∀ {h h' : History}, Aside h p ipo → treeInsert p fuel h = .ok h' →
      h'.heap p = some { ipo with onRb := true } := by
  induction fuel with
  | zero =>
    intro h h' ha hr
    simp [History.treeInsert] at hr
  | succ fuel ih =>
    intro h h' ha hr
    obtain ⟨piece, hpc, hcs⟩ := treeInsert_cases hr
    cases ha.piece.symm.trans hpc
    rcases hcs with ⟨q, old, h1, hmem, -, -, hrmv, hrs⟩ | ⟨tree, -, rfl⟩
    · have hq : q ≠ p := by
        rintro rfl
        exact ha.tree hmem
      have hcut : Aside { h with ioHistLen := h.ioHistLen - 1, ioHistTree := h.ioHistTree.erase q }
          p ipo :=
        ⟨ha.piece, ha.addr, ha.hashed, fun hmem => ha.tree (List.mem_of_mem_erase hmem)⟩
      exact ih ((hcut.removeTrimEntry hq hrmv).freePiece hq) hrs
    · simp [History.setPiece]

structure Fresh (h : History) : Prop where
  hashed : ∀ b, h.nextAddr ∉ h.iohistHash b
  tree : h.nextAddr ∉ h.ioHistTree

lemma Fresh.malloc (hfr : Fresh h) (piece : IoPiece) : Aside (h.malloc piece) h.nextAddr piece :=
  ⟨by simp [History.malloc], Nat.lt_succ_self _, hfr.hashed, hfr.tree⟩

def rangeOf (ipo : IoPiece) : FileId × Nat × Nat := (ipo.file, ipo.block, ipo.nrBlk)

variable (o) in
/-- The block range or byte range `log_io_piece` gives the entry of a write. -/
def loggedRange (file : FioFile) (ioU : IoU) : Nat × Nat :=
  if segBranch o file then (blockOf o file ioU, nrBlkOf o ioU)
  else (ioU.offset.toNat, ioU.buflen.toNat)

section

variable (ha : Aside h p ipo)

include ha

lemma Aside.update (piece : IoPiece) : Aside (h.setPiece p piece) p piece :=
  ⟨by simp [History.setPiece], ha.addr, ha.hashed, ha.tree⟩

lemma Aside.deref : h.deref p = .ok ipo := by
  simp [History.deref, ha.piece]

lemma Aside.linkSegment_self (hr : h.linkSegment hash p = .ok h') :
    ∃ piece, h'.heap p = some piece ∧ rangeOf piece = rangeOf ipo := by
  obtain ⟨h1, piece, hadd, hpc, rfl⟩ := linkSegment_cases hr
  refine ⟨{ piece with onList := true }, by simp [History.setPiece], ?_⟩
  -- the hash table only touches the two fields that say where the piece is linked
  obtain ⟨ipo0, hip0, hcs⟩ := iohistHashAdd_cases hadd
  cases ha.piece.symm.trans hip0
  rcases hcs with ⟨-, rfl⟩ | ⟨-, -, rfl⟩ | ⟨-, rfl⟩
  · rw [Option.some.inj (hpc.symm.trans ha.piece)]
    rfl
  all_goals
    simp only [History.setPiece, update_self, Option.some.injEq] at hpc
    rw [← hpc]
    rfl

lemma Aside.drawTrim (r : Nat) :
    ∃ piece, Aside (h.drawTrim o p ipo r) p piece ∧ rangeOf piece = rangeOf ipo := by
  unfold History.drawTrim
  split_ifs
  · have hset := ha.update { ipo with trimList := true }
    exact ⟨_, ⟨hset.piece, hset.addr, hset.hashed, hset.tree⟩, rfl⟩
  · exact ⟨ipo, ha, rfl⟩

lemma Aside.linkPiece (hr : h.linkPiece o p f = .ok h') :
    ∃ piece, h'.heap p = some piece ∧ rangeOf piece = rangeOf ipo := by
  unfold History.linkPiece at hr
  split_ifs at hr
  · exact ⟨_, ha.treeInsert hr, rfl⟩
  · obtain ⟨ipo1, hder, hr⟩ := of_bind hr
    cases ha.deref.symm.trans hder
    cases hr
    exact ⟨{ ipo with onList := true }, by simp [History.setPiece], rfl⟩

end

lemma logIoPiece_piece (hfr : Fresh h) {ioU : IoU} (hf : ioU.file = some f) {r : Nat}
    (hr : h.logIoPiece hash o ioU r = .ok h') : ∃ ipo, h'.heap h.nextAddr = some ipo ∧
      rangeOf ipo = (f, loggedRange o (h.files f) ioU) := by
  obtain ⟨f', hf', hcs⟩ := logIoPiece_cases hr
  cases hf.symm.trans hf'
  have hasi := hfr.malloc (newPiece o f ioU)
  unfold loggedRange
  rcases hcs with ⟨hseg, h1, hins, hln⟩ | ⟨hseg, hln⟩
  · rw [if_pos hseg]
    obtain ⟨piece, hpc, hrn⟩ := ((hasi.update _).insertSeg hins).linkSegment_self hln
    exact ⟨piece, hpc, hrn⟩
  · rw [if_neg (by simp [hseg])]
    obtain ⟨piece, hdrawn, hrn⟩ := (hasi.update { newPiece o f ioU with
      block := ioU.offset.toNat, nrBlk := ioU.buflen.toNat }).drawTrim (o := o) r
    obtain ⟨piece', hpc', hrn'⟩ := hdrawn.linkPiece hln
    exact ⟨piece', hpc', hrn'.trans hrn⟩

lemma div_mul_eq_iff {d s m : Nat} (hm : 0 < m) : (d + s) / m * m = d ↔ m ∣ d ∧ s < m := by
  constructor
  · intro h
    have hdvd : m ∣ d := ⟨(d + s) / m, by rw [mul_comm]; exact h.symm⟩
    have hlt := Nat.lt_div_mul_add hm (a := d + s)
    exact ⟨hdvd, by omega⟩
  · rintro ⟨⟨q, rfl⟩, hs⟩
    rw [Nat.mul_add_div hm, Nat.div_eq_of_lt hs, add_zero, mul_comm]

lemma ceil_mul_eq_iff {n r m : Nat} (hm : 0 < m) (hr : r ≤ n) :
    (n + m - 1) / m * m = n - r ↔ r = 0 ∧ m ∣ n := by
  have hge : n ≤ (n + m - 1) / m * m := by
    have hlt := Nat.lt_div_mul_add hm (a := n + m - 1)
    omega
  constructor
  · intro h
    obtain rfl : r = 0 := by omega
    exact ⟨rfl, ⟨_, by rw [mul_comm]; exact h.symm⟩⟩
  · rintro ⟨rfl, q, rfl⟩
    have hdiv : (m * q + m - 1) / m = q := by
      rw [Nat.add_sub_assoc hm, Nat.mul_add_div hm, Nat.div_eq_of_lt (by omega), add_zero]
    rw [hdiv, Nat.sub_zero, mul_comm]

lemma nrBlkOf_eq {ioU : IoU} (h : ioU.buflen.toNat < 2 ^ 32) :
    nrBlkOf o ioU = (ioU.buflen.toNat + o.rwMinBs.toNat - 1) / o.rwMinBs.toNat := by
  have hpos := o.rwMinBs_pos
  have hlt := o.rwMinBs.isLt
  have hwd : (o.rwMinBs.setWidth 64).toNat = o.rwMinBs.toNat := by simp; omega
  have hadd : (ioU.buflen + o.rwMinBs.setWidth 64).toNat = ioU.buflen.toNat + o.rwMinBs.toNat := by
    rw [BitVec.toNat_add, hwd, Nat.mod_eq_of_lt (by omega)]
  rw [nrBlkOf, BitVec.toNat_sub_of_le (by rw [BitVec.le_def, hadd]; simp; omega), hadd]
  rfl

end FioSsd.History
