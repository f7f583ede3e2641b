import FioSsd.History.Linked

/-! # How much a write adds to the history

A write adds one entry and removes those it covers. On the segment branch there is one exception: a
write strictly inside a pending segment splits it, and the history grows by two. -/

namespace FioSsd.History

variable {nrBlk r : Nat} {pos : Pos} {hash : KeyHash} {o : ThreadOptions} {A : List Nat}
  {h h' : History} {p : Nat} {f : FileId} {block start len : Nat}

def Inside (h : History) (f : FileId) (start len : Nat) : Prop :=
  ∃ b, ∃ q ∈ h.iohistHash b, ∃ ipo, h.heap q = some ipo ∧ ipo.file = f ∧ ipo.block < start ∧
    start + len < ipo.block + ipo.nrBlk

lemma overlapDivide_len (hr : h.overlapDivide hash o f block start len = .ok h') :
    h'.ioHistLen ≤ h.ioHistLen ∨
      h'.ioHistLen = h.ioHistLen + 1 ∧ block < start ∧ Inside h f start len := by
  obtain ⟨q, ipo, hbck, hipo, hkey, hdvd⟩ := overlapDivide_cases hr
  cases hdvd with
  | shift _ _ hdel hset hadd =>
    refine .inl (le_of_eq ?_)
    rw [(iohistHashAdd_queues hadd).len, (setBit_queues hset).len, (iohistHashDel_queues hdel).len]
    rfl
  | drop _ _ hdel =>
    refine .inl ?_
    change _ - 1 ≤ _
    rw [(iohistHashDel_queues hdel).len]
    omega
  | split hlow hhg hset hln =>
    obtain ⟨hfl, hblk⟩ := IohistKey.mk.inj hkey
    refine .inr ⟨?_, hlow, _, q, hbck, ipo, hipo, hfl, ?_, ?_⟩
    · obtain ⟨-, -, hlen, -⟩ := linkSegment_queues hln
      rw [show (setPiece _ q _).ioHistLen = _ from hlen, (setBit_queues hset).len]
      rfl
    all_goals rwa [hblk]
  | trim _ _ => exact .inl le_rfl

lemma blk_next_of_setBit {stat : Blk} (hr : h.setBit f pos stat = .ok h') :
    pos.next.blk = pos.blk + 1 := by
  unfold setBit Map2.setBit at hr
  obtain ⟨m, hset, -⟩ := of_bind hr
  split_ifs at hset with hidx
  have hwr := (h.files f).fileMap2.words_lt
  exact Pos.blk_next (by omega)

lemma insertSegLoop_len {left : Nat} (hpos : block ≤ pos.blk)
    (hr : insertSegLoop (overlapDivide hash o) f block nrBlk left pos h = .ok h') :
    h'.ioHistLen ≤ h.ioHistLen := by
  induction left generalizing pos h with
  | zero =>
    cases hr
    exact le_rfl
  | succ left ih =>
    obtain ⟨isStart, -, hr⟩ := of_bind hr
    have hrs : ∀ {h1 h2 : History}, h1.ioHistLen ≤ h.ioHistLen →
        h1.setBit f pos .inSeg = .ok h2 →
        insertSegLoop (overlapDivide hash o) f block nrBlk left pos.next h2 = .ok h' →
        h'.ioHistLen ≤ h.ioHistLen := by
      intro h1 h2 hle hset hlp
      have hnx := blk_next_of_setBit hset
      have hlen := (setBit_queues hset).len
      have := ih (by omega) hlp
      omega
    split_ifs at hr
    · obtain ⟨h1, hdvd, hr⟩ := of_bind hr
      obtain ⟨h2, hset, hr⟩ := of_bind hr
      refine hrs ?_ hset hr
      rcases overlapDivide_len hdvd with hle | ⟨-, hlt, -⟩
      · exact hle
      · omega
    · obtain ⟨h1, heq, hr⟩ := of_bind hr
      cases heq
      obtain ⟨h2, hset, hr⟩ := of_bind hr
      exact hrs le_rfl hset hr

lemma insertSeg_len (hblo : block < 2 ^ 37)
    (hr : h.insertSeg (overlapDivide hash o) f block nrBlk = .ok h') :
    h'.ioHistLen ≤ h.ioHistLen ∨ h'.ioHistLen ≤ h.ioHistLen + 1 ∧ Inside h f block nrBlk := by
  obtain ⟨cell, -, hr⟩ := of_bind hr
  have hblk := Pos.blk_ofBlock (by omega)
  have hrs : ∀ {h1 : History}, (do
      let h ← h1.setBit f (.ofBlock block) .start
      insertSegLoop (overlapDivide hash o) f block nrBlk (nrBlk - 1) (Pos.ofBlock block).next h) =
        .ok h' → h'.ioHistLen ≤ h1.ioHistLen := by
    intro h1 hrn1
    obtain ⟨h2, hset, hlp⟩ := of_bind hrn1
    have hnx := blk_next_of_setBit hset
    have hlen := (setBit_queues hset).len
    have := insertSegLoop_len (by omega) hlp
    omega
  cases cell with
  | empty | err =>
    obtain ⟨h1, hsam, hr⟩ := of_bind hr
    cases hsam
    exact .inl (hrs hr)
  | start =>
    obtain ⟨h1, hdvd, hr⟩ := of_bind hr
    have hle := hrs hr
    rcases overlapDivide_len hdvd with hle1 | ⟨-, hlt, -⟩
    · exact .inl (hle.trans hle1)
    · omega
  | inSeg =>
    obtain ⟨q, -, hr⟩ := of_bind hr
    obtain ⟨h1, hdvd, hr⟩ := of_bind hr
    have hle := hrs hr
    rcases overlapDivide_len hdvd with hle1 | ⟨heq, -, hins⟩
    · exact .inl (hle.trans hle1)
    · exact .inr ⟨hle.trans (le_of_eq heq), hins⟩

lemma removeTrimEntry_len (hr : h.removeTrimEntry p = .ok h') : h'.ioHistLen = h.ioHistLen := by
  obtain ⟨ipo, -, ⟨-, rfl⟩ | ⟨-, rfl⟩⟩ := removeTrimEntry_cases hr
  · rfl
  · rfl

lemma treeInsert_len {fuel : Nat} (hr : treeInsert p fuel h = .ok h') :
    h'.ioHistLen ≤ h.ioHistLen + 1 := by
  induction fuel generalizing h with
  | zero => exact absurd hr (by simp [treeInsert])
  | succ fuel ih =>
    obtain ⟨ipo, -, hcs⟩ := treeInsert_cases hr
    rcases hcs with ⟨q, old, h1, -, -, -, hrmv, hrs⟩ | ⟨tree, -, rfl⟩
    · have hlen : h1.ioHistLen = h.ioHistLen - 1 := removeTrimEntry_len hrmv
      have hle := ih hrs
      change h'.ioHistLen ≤ h1.ioHistLen + 1 at hle
      omega
    · exact le_rfl

lemma linkPiece_len (hr : h.linkPiece o p f = .ok h') : h'.ioHistLen ≤ h.ioHistLen + 1 := by
  unfold linkPiece at hr
  split_ifs at hr
  · exact treeInsert_len hr
  · obtain ⟨ipo, -, hr⟩ := of_bind hr
    cases hr
    exact le_rfl

lemma drawTrim_len {ipo : IoPiece} : (h.drawTrim o p ipo r).ioHistLen = h.ioHistLen := by
  unfold drawTrim
  split_ifs <;> rfl

variable (o) in
/-- The history has room for the write: it does not split a pending segment, or there is room for
    both parts, and the block number fits the counters. -/
def Room (n : Nat) (h : History) (ioU : IoU) : Prop :=
  ∀ f, ioU.file = some f → segBranch o (h.files f) = true →
    blockOf o (h.files f) ioU < 2 ^ 37 ∧
      (h.ioHistLen + 2 ≤ n ∨ ¬Inside h f (blockOf o (h.files f) ioU) (nrBlkOf o ioU))

lemma Linked.logIoPiece_len {n : Nat} {ioU : IoU} (hl : Linked A h)
    (hrm : Room o n h ioU) (hlt : h.ioHistLen < n) (hr : h.logIoPiece hash o ioU r = .ok h') :
    h'.ioHistLen ≤ n := by
  obtain ⟨f, hfl, ⟨hseg, h1, hins, hln⟩ | ⟨-, hpl⟩⟩ := logIoPiece_cases hr
  · obtain ⟨hblk, hft⟩ := hrm f hfl hseg
    obtain ⟨-, -, hlen, -⟩ := linkSegment_queues hln
    rcases insertSeg_len hblk hins with hle | ⟨hle, b, q, hq, ipo, hipo, hind⟩
    · have hle' : h1.ioHistLen ≤ h.ioHistLen := hle
      omega
    · have hle' : h1.ioHistLen ≤ h.ioHistLen + 1 := hle
      rcases hft with hft | hnot
      · omega
      · -- the new piece is not in the table yet, so that the segment is one of `h`
        obtain ⟨old, hold, -⟩ := hl.piece q (hl.bucketMem b q hq)
        have hne := ne_of_lt (hl.fresh hold)
        refine absurd ⟨b, q, hq, ipo, ?_, hind⟩ hnot
        simpa only [History.setPiece, History.malloc, Function.update_of_ne hne] using hipo
  · have hle := linkPiece_len hpl
    rw [drawTrim_len] at hle
    have hle' : h'.ioHistLen ≤ h.ioHistLen + 1 := hle
    omega

end FioSsd.History
