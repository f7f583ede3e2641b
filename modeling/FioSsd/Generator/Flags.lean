import FioSsd.Generator.First

/-! # The request generator and the flags of a file

`fill_io_u` moves the position of a file, searches and marks its random map and may reset it. It neither
opens nor closes the file, and it does not make it done. -/

namespace FioSsd

variable {d : FillDraws} {ioU ioU' : IoU} {b? : Option Nat} {r : RandDraws} {failed : Bool}
  {s s' : Fill}

def FioFile.flags (file : FioFile) : Bool × Bool × Bool × Bool × Int :=
  (file.isOpen, file.fdOpen, file.closing, file.done, file.references)

variable {scale : Scale} {randMax : Nat} {o : ThreadOptions} {file file' : FioFile}
  {ddir : Ddir} {ioHistLen : Int}

lemma FioFile.Searched.flags_eq (h : file.Searched file') : file'.flags = file.flags := by
  obtain ⟨_, _, rfl⟩ := h
  rfl

lemma getNextRandOffset_searched {r : Nat → Nat}
    (h : getNextRandOffset scale o file ddir r = .ok (b?, file')) : file.Searched file' := by
  unfold getNextRandOffset at h
  by_cases hla : lastBlock o file ddir = 0
  · simp only [if_pos hla] at h
    cases h
    exact .refl _
  · simp only [if_neg hla] at h
    by_cases hfld : 200 ≤ file.failedRands
    · rw [if_pos hfld] at h
      exact (searchFree_spec (.refl _) h).1
    · rw [if_neg hfld] at h
      obtain ⟨tried, -, h⟩ := of_bind h
      cases tried with
      | some b =>
        cases h
        exact ⟨_, _, rfl⟩
      | none =>
        obtain ⟨⟨found, file1⟩, hlkp, h⟩ := of_bind h
        have hlkd := (lookupTries_spec (show file.Searched _ from ⟨_, _, rfl⟩) hlkp).1
        cases found with
        | some b =>
          cases h
          exact hlkd
        | none => exact (searchFree_spec (hlkd.trans ⟨_, _, rfl⟩) h).1

lemma getNextRandBlock_flags
    (h : getNextRandBlock scale o ioHistLen file ddir r = .ok (b?, file')) :
    file'.flags = file.flags := by
  obtain ⟨⟨found, file1⟩, hfr, h⟩ := of_bind h
  have hsrc := (getNextRandOffset_searched hfr).flags_eq
  cases found with
  | some b =>
    cases h
    exact hsrc
  | none =>
    split_ifs at h
    · exact (getNextRandOffset_searched h).flags_eq.trans hsrc
    · cases h
      exact hsrc

lemma getNextSeqOffset_flags (o : ThreadOptions) (file : FioFile) :
    (getNextSeqOffset o file).2.flags = file.flags := by
  unfold getNextSeqOffset
  simp only
  split_ifs <;> rfl

lemma blockOffset_flags {rwSeq : Bool} {offset : Option (BitVec 64)}
    (h : blockOffset scale o ioHistLen file ddir rwSeq r = .ok (offset, file')) :
    file'.flags = file.flags := by
  have hseq := getNextSeqOffset_flags o file
  unfold blockOffset at h
  split_ifs at h
  · unfold pickedOffset at h
    split_ifs at h
    · obtain ⟨⟨b, file1⟩, hblk, h⟩ := of_bind h
      cases h
      exact getNextRandBlock_flags hblk
    · cases h
      exact hseq
  · unfold furtherOffset at h
    cases hkn : o.rwSeq with
    | rwSeqSeq =>
      simp only [hkn] at h
      generalize getNextSeqOffset o file = next at h hseq
      obtain ⟨next, file1⟩ := next
      cases next with
      | some pos =>
        cases h
        exact hseq
      | none =>
        obtain ⟨⟨b, file2⟩, hblk, h⟩ := of_bind h
        cases h
        exact (getNextRandBlock_flags hblk).trans hseq
    | rwSeqIdent =>
      simp only [hkn] at h
      cases h
      rfl

lemma getNextOffset_flags
    (h : getNextOffset scale o ioHistLen s r = .ok (failed, s')) : s'.file.flags = s.file.flags := by
  obtain ⟨⟨failed1, s1⟩, hblk, h⟩ := of_bind h
  obtain ⟨⟨offset, file⟩, hoff, hblk⟩ := of_bind hblk
  have hfl : s1.file.flags = s.file.flags := by
    cases offset with
    | none | some offset =>
      cases hblk
      exact blockOffset_flags hoff
  simp only at h
  split_ifs at h
  all_goals
    cases h
    exact hfl

lemma FioFile.Grows.flags_eq (h : file.Grows file') : file'.flags = file.flags := by
  obtain ⟨map, rfl⟩ := h.same
  rfl

lemma takeBlocks_grows (h : takeBlocks o file ioU = .ok (ioU', file')) : file.Grows file' := by
  unfold takeBlocks at h
  split_ifs at h
  · unfold markRandomMap markFree at h
    obtain ⟨⟨blocks, file1⟩, hmr, h⟩ := of_bind h
    cases h
    split_ifs at hmr
    · cases hmr
      exact .refl _
    · exact markRandomMapLoop_grows hmr
  · cases h
    exact .refl _

lemma markMaps_grows (h : markMaps o file ioU = .ok (ioU', file')) : file.Grows file' := by
  unfold markMaps at h
  split_ifs at h
  · unfold markBitMap at h
    split_ifs at h
    · cases h
      exact .refl _
    · obtain ⟨⟨again, file1⟩, hlp, h⟩ := of_bind h
      cases h
      exact (markBitMapLoop_spec hlp).1
  · obtain ⟨⟨ioU1, file1⟩, htk, h⟩ := of_bind h
    cases h
    exact takeBlocks_grows htk

lemma fillRw_flags (h : fillRw scale randMax o ioHistLen s d = .ok (failed, s')) :
    s'.file.flags = s.file.flags := by
  obtain ⟨⟨failed1, s1⟩, hoff, h⟩ := of_bind h
  have hfl := getNextOffset_flags hoff
  cases failed1 with
  | true =>
    cases h
    exact hfl
  | false =>
    obtain ⟨buflen, -, h⟩ := of_bind h
    simp only at h
    split_ifs at h
    · cases h
      exact hfl
    · cases h
      exact hfl
    · obtain ⟨⟨ioU, file⟩, hmr, h⟩ := of_bind h
      cases h
      exact (markMaps_grows hmr).flags_eq.trans hfl

lemma fillIoU_flags {noio : Bool}
    (h : fillIoU scale randMax o noio ioHistLen s d = .ok (failed, s')) :
    s'.file.flags = s.file.flags := by
  unfold fillIoU at h
  split_ifs at h
  · cases h
    rfl
  · have hrw := fillRw_flags h
    unfold switchZone at hrw
    split_ifs at hrw
    all_goals exact hrw
  · cases h
    rfl

end FioSsd
