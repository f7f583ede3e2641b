import FioSsd.Generator.Buflen
import FioSsd.Generator.First

/-! # The region of a job

The reads and writes of a job are to stay between `file_offset` and `file_offset + io_size`. -/

namespace FioSsd

open BitVec Nat

variable {buflen : BitVec 32} {pos : BitVec 64} {draws : List Nat} {bs : Nat}
  {offset? : Option (BitVec 64)} {b? : Option Nat} {d : RandDraws} {offset : BitVec 64}

variable {scale : Scale} {randMax : Nat} {o : ThreadOptions} {ioHistLen : Int}
  {file file' : FioFile} {ddir : Ddir} {s s' : Fill}

/-- A position of the file is a multiple of `bs` behind `file_offset`. -/
def FioFile.OnBlock (file : FioFile) (bs : Nat) (pos : BitVec 64) : Prop :=
  file.fileOffset.toNat ≤ pos.toNat ∧ bs ∣ pos.toNat - file.fileOffset.toNat

/-- All that the next request may start from is a multiple of `bs`, and so is the region. -/
structure FioFile.OnBlocks (o : ThreadOptions) (file : FioFile) (ddir : Ddir) (bs : Nat) : Prop where
  ioSize : bs ∣ file.ioSize.toNat
  ba : bs ∣ (o.baOf ddir).toNat
  seqAdd : o.ddirSeqAdd = 0
  lastPos : file.OnBlock bs file.lastPos
  lastStart : file.lastStart = -1 ∨ file.OnBlock bs file.lastStart

def FioFile.NoWrap (file : FioFile) : Prop :=
  file.fileOffset.toNat + file.ioSize.toNat + 2 ^ 32 ≤ 2 ^ 64

lemma FioFile.NoWrap.toNat_sub (h : file.NoWrap) (hlt : pos - file.fileOffset < file.ioSize) :
    pos.toNat = file.fileOffset.toNat + (pos - file.fileOffset).toNat := by
  unfold FioFile.NoWrap at h
  have hpos := pos.isLt
  have hfo := file.fileOffset.isLt
  rw [BitVec.lt_def, BitVec.toNat_sub] at hlt
  rw [BitVec.toNat_sub]
  by_cases hle : file.fileOffset.toNat ≤ pos.toNat
  · rw [show 2 ^ 64 - file.fileOffset.toNat + pos.toNat =
      2 ^ 64 + (pos.toNat - file.fileOffset.toNat) by omega, Nat.add_mod_left,
      Nat.mod_eq_of_lt (by omega)]
    omega
  · rw [Nat.mod_eq_of_lt (by omega)] at hlt
    omega

lemma FioFile.OnBlock.dvd_sub (h : file.NoWrap) (hon : file.OnBlock bs pos)
    (hlt : pos - file.fileOffset < file.ioSize) : bs ∣ (pos - file.fileOffset).toNat := by
  have hpos := h.toNat_sub hlt
  have hdvd := hon.2
  rwa [hpos, Nat.add_sub_cancel_left] at hdvd

lemma getNextSeqOffset_spec (hadd : o.ddirSeqAdd = 0)
    (h : getNextSeqOffset o file = (offset?, file')) :
    file.SameSizes file' ∧ ∀ offset, offset? = some offset →
      offset = file.lastPos - file.fileOffset ∨
        file.ioSize ≤ file.lastPos ∧ offset = file.lastPos - file.ioSize - file.fileOffset := by
  unfold getNextSeqOffset at h
  by_cases hwr : file.ioSize ≤ file.lastPos ∧ o.timeBased = true
  · simp only [hadd, if_pos hwr] at h
    by_cases hrl : file.lastPos - file.ioSize < file.realFileSize
    · simp [hrl] at h
      obtain ⟨rfl, rfl⟩ := h
      refine ⟨⟨rfl, rfl, rfl⟩, fun offset hoff => .inr ⟨hwr.1, ?_⟩⟩
      exact (Option.some.inj hoff).symm
    · simp only [if_neg hrl] at h
      cases h
      exact ⟨⟨rfl, rfl, rfl⟩, nofun⟩
  · simp only [hadd, if_neg hwr] at h
    by_cases hrl : file.lastPos < file.realFileSize
    · simp [hrl] at h
      obtain ⟨rfl, rfl⟩ := h
      refine ⟨⟨rfl, rfl, rfl⟩, fun offset hoff => .inl ?_⟩
      exact (Option.some.inj hoff).symm
    · simp only [if_neg hrl] at h
      cases h
      exact ⟨⟨rfl, rfl, rfl⟩, nofun⟩

lemma FioFile.OnBlocks.dvd_seq (h : file.NoWrap) (hon : file.OnBlocks o ddir bs)
    (hr : getNextSeqOffset o file = (some offset, file')) (hlt : offset < file.ioSize)
    : bs ∣ offset.toNat := by
  rcases (getNextSeqOffset_spec hon.seqAdd hr).2 offset rfl with rfl | ⟨hle, rfl⟩
  · exact hon.lastPos.dvd_sub h hlt
  · -- the position before the wrap is `io_size` further on
    have hpos := h.toNat_sub hlt
    rw [BitVec.toNat_sub_of_le hle] at hpos
    have hio := BitVec.le_def.1 hle
    have hdvd := hon.lastPos.2
    rw [show file.lastPos.toNat - file.fileOffset.toNat =
      (file.lastPos - file.ioSize - file.fileOffset).toNat + file.ioSize.toNat by omega] at hdvd
    exact (Nat.dvd_add_iff_left hon.ioSize).2 hdvd

variable (o file) in
lemma getNextSeqOffset_sizes : file.SameSizes (getNextSeqOffset o file).2 := by
  unfold getNextSeqOffset
  simp only
  split_ifs <;> exact ⟨rfl, rfl, rfl⟩

lemma dvd_blockOffset
    (hle : ∀ b, b? = some b → b ≤ lastBlock o file ddir) (h : blockOffset? o ddir b? = some offset) :
    (o.baOf ddir).toNat ∣ offset.toNat := by
  cases b? with
  | none => exact absurd h (by simp [blockOffset?])
  | some b =>
    unfold blockOffset? at h
    simp only at h
    split_ifs at h
    rw [← Option.some.inj h, toNat_blockOffset (hle b rfl)]
    exact dvd_mul_left _ _

lemma seqOffset?_eq_some (h : seqOffset? offset? = some offset) : offset? = some offset := by
  cases offset? with
  | none => exact absurd h (by simp [seqOffset?])
  | some x =>
    unfold seqOffset? at h
    simp only at h
    split_ifs at h
    exact h

/-- What picking an offset keeps, and that it is on a block if everything before it was. -/
def PicksOffset (o : ThreadOptions) (ddir : Ddir) (file : FioFile) (offset? : Option (BitVec 64))
    (file' : FioFile) : Prop :=
  file.SameSizes file' ∧ ∀ bs offset, file.NoWrap → file.OnBlocks o ddir bs → offset? = some offset →
    offset < file.ioSize → bs ∣ offset.toNat

lemma getNextSeqOffset_picks (h : getNextSeqOffset o file = (offset?, file')) :
    PicksOffset o ddir file (seqOffset? offset?) file' := by
  have hsz := getNextSeqOffset_sizes o file
  rw [h] at hsz
  refine ⟨hsz, fun bs offset hwr hon hso hlt => ?_⟩
  rw [seqOffset?_eq_some hso] at h
  exact hon.dvd_seq hwr h hlt

lemma getNextRandBlock_picks (h : ScalesInto scale)
    (hr : getNextRandBlock scale o ioHistLen file ddir d = .ok (b?, file')) :
    PicksOffset o ddir file (blockOffset? o ddir b?) file' := by
  have hlk := getNextRandBlock_spec h hr
  exact ⟨hlk.sameSizes, fun bs offset _ hon hso _ => hon.ba.trans (dvd_blockOffset hlk.le hso)⟩

lemma furtherOffset_picks (hsc : ScalesInto scale)
    (h : furtherOffset scale o ioHistLen file ddir d = .ok (offset?, file')) :
    PicksOffset o ddir file offset? file' := by
  unfold furtherOffset at h
  cases hseq : o.rwSeq with
  | rwSeqSeq =>
    simp only [hseq] at h
    split at h
    · next offset file1 hnx =>
        cases h
        exact getNextSeqOffset_picks hnx
    · next file1 hnx =>
        obtain ⟨⟨b?, file2⟩, hblk, h⟩ := of_bind h
        cases h
        have hsz := getNextSeqOffset_sizes o file
        rw [hnx] at hsz
        have hlk := getNextRandBlock_spec hsc hblk
        exact ⟨hsz.trans hlk.sameSizes, fun bs offset _ hon hso _ =>
          hon.ba.trans (dvd_blockOffset hlk.le hso)⟩
  | rwSeqIdent =>
    simp only [hseq] at h
    cases h
    refine ⟨⟨rfl, rfl, rfl⟩, fun bs offset hwr hon hso hlt => ?_⟩
    have hoff := Option.some.inj (seqOffset?_eq_some hso)
    split_ifs at hoff with hst
    · subst hoff
      rcases hon.lastStart with hno | hblk
      · exact absurd hno hst
      · exact hblk.dvd_sub hwr hlt
    · subst hoff
      exact dvd_zero bs

lemma blockOffset_picks (hsc : ScalesInto scale) {rwSeq : Bool}
    (h : blockOffset scale o ioHistLen file ddir rwSeq d = .ok (offset?, file')) :
    PicksOffset o ddir file offset? file' := by
  unfold blockOffset pickedOffset at h
  split_ifs at h
  · obtain ⟨⟨b?, file1⟩, hblk, h⟩ := of_bind h
    cases h
    exact getNextRandBlock_picks hsc hblk
  · cases h
    exact getNextSeqOffset_picks rfl
  · exact furtherOffset_picks hsc h

lemma getNextOffset_picks (hsc : ScalesInto scale)
    (h : getNextOffset scale o ioHistLen s d = .ok (false, s')) :
    s.file.SameSizes s'.file ∧ s'.ioU.ddir = s.ioU.ddir ∧ ∃ x,
      s'.ioU.offset = x + s.file.fileOffset ∧ x < s.file.ioSize ∧
      ∀ bs, s.file.NoWrap → s.file.OnBlocks o s.ioU.ddir bs → bs ∣ x.toNat := by
  obtain ⟨⟨failed, s1⟩, hblk, h⟩ := of_bind h
  obtain ⟨⟨offset?, file1⟩, hoff, hblk⟩ := of_bind hblk
  obtain ⟨hsiz, hon⟩ := blockOffset_picks hsc hoff
  cases offset? with
  | none =>
    cases hblk
    cases h
  | some x =>
    cases hblk
    simp only [Bool.false_eq_true, if_false] at h
    by_cases hsz : file1.ioSize ≤ x
    · rw [if_pos hsz] at h
      cases h
    · rw [if_neg hsz] at h
      obtain ⟨-, rfl⟩ := ok_pair h
      have hlt : x < s.file.ioSize := by
        rw [hsiz.ioSize] at hsz
        exact BitVec.not_le.1 hsz
      refine ⟨hsiz, rfl, x, ?_, hlt, fun bs hwr hblo => hon bs x hwr hblo rfl hlt⟩
      simp [hsiz.fileOffset]

/-- `setup_files` puts the region of a job at `offset`, and of its clones behind that. -/
structure FioFile.Region (o : ThreadOptions) (file : FioFile) : Prop where
  start : o.startOffset.toNat ≤ file.fileOffset.toNat
  noWrap : file.NoWrap

/-- A condition for requests to stay in the region: there are different block sizes, or the file ends
    with the region, or all requests start at multiples of the block size. -/
def FioFile.StaysInside (o : ThreadOptions) (file : FioFile) (ddir : Ddir) : Prop :=
  o.minBsOf ddir ≠ o.maxBsOf ddir ∨
    file.realFileSize.toNat ≤ file.fileOffset.toNat + file.ioSize.toNat ∨
    file.OnBlocks o ddir (o.minBsOf ddir).toNat

def FioFile.Inside (file : FioFile) (ioU : IoU) : Prop :=
  file.fileOffset.toNat ≤ ioU.offset.toNat ∧
    ioU.offset.toNat + ioU.buflen.toNat ≤ file.fileOffset.toNat + file.ioSize.toNat

structure PlacedAt (file : FioFile) (ioU : IoU) (x : BitVec 64) : Prop where
  offset : ioU.offset = x + file.fileOffset
  lt : x < file.ioSize

namespace PlacedAt

variable {ioU ioU' : IoU} {x : BitVec 64}

section

variable (h : PlacedAt file ioU x)

include h

lemma toNat_offset (hwr : file.NoWrap) :
    ioU.offset.toNat = file.fileOffset.toNat + x.toNat := by
  have hlt := lt_def.1 h.lt
  unfold FioFile.NoWrap at hwr
  rw [h.offset, toNat_add, mod_eq_of_lt (by omega), add_comm]

lemma toNat_end (hwr : file.NoWrap) (b : BitVec 32) :
    (ioU.offset + b.setWidth 64).toNat = file.fileOffset.toNat + x.toNat + b.toNat := by
  have hlt := lt_def.1 h.lt
  have hb := b.isLt
  have hoff := h.toNat_offset hwr
  unfold FioFile.NoWrap at hwr
  rw [toNat_add, hoff, toNat_setWidth_of_le (by decide), mod_eq_of_lt (by omega)]

lemma inside (hwr : file.NoWrap) {len : Nat} (hend : x.toNat + len ≤ file.ioSize.toNat)
    (hoff : ioU'.offset = ioU.offset) (hle : ioU'.buflen.toNat ≤ len) : file.Inside ioU' := by
  have hpl := h.toNat_offset hwr
  rw [← hoff] at hpl
  constructor <;> omega

lemma end_of_fits (hrgn : file.Region o) {b : BitVec 32} (hft : ioUFits o file ioU b)
    : x.toNat + b.toNat ≤ file.ioSize.toNat := by
  have hst := hrgn.start
  have hwr := hrgn.noWrap
  have hend := h.toNat_end hwr b
  unfold FioFile.NoWrap at hwr
  rw [ioUFits, decide_eq_true_eq, le_def, hend, toNat_add, mod_eq_of_lt (by omega)] at hft
  omega

lemma end_of_sizes (hrgn : file.Region o) (hsz : file.SameSizes file')
    (hne : o.minBsOf ioU.ddir ≠ o.maxBsOf ioU.ddir) (hpos : buflen ≠ 0)
    (hr : getNextBuflen scale randMax o file' ioU draws = .ok buflen) :
    x.toNat + buflen.toNat ≤ file.ioSize.toNat := by
  simp only [getNextBuflen, if_neg hne] at hr
  split_ifs at hr
  · exact absurd (Except.ok.inj hr).symm hpos
  · obtain ⟨b, hlp, hr⟩ := of_bind hr
    cases hr
    obtain ⟨r, -, -, hft⟩ := buflenLoop_spec hlp
    rw [ioUFits, hsz.ioSize] at hft
    have hend := h.end_of_fits hrgn hft
    have hle := div_mul_le_self b.toNat (o.minBsOf ioU.ddir).toNat
    rw [toNat_div_mul]
    omega

lemma end_of_stays (hrgn : file.Region o) (hst : file.StaysInside o ioU.ddir)
    (hsz : file.SameSizes file') (hpos : buflen ≠ 0)
    (hon : ∀ bs, file.OnBlocks o ioU.ddir bs → bs ∣ x.toNat)
    (hrl : ¬file'.realFileSize < ioU.offset + buflen.setWidth 64)
    (hr : getNextBuflen scale randMax o file' ioU draws = .ok buflen) :
    x.toNat + buflen.toNat ≤ file.ioSize.toNat := by
  by_cases hne : o.minBsOf ioU.ddir = o.maxBsOf ioU.ddir
  · rcases hst with hdf | hend | hblk
    · exact absurd hne hdf
    · rw [lt_def, h.toNat_end hrgn.noWrap, hsz.realFileSize] at hrl
      omega
    · rw [getNextBuflen_fixed hne hr]
      exact Align.add_le_of_dvd (hon _ hblk) hblk.ioSize (lt_def.1 h.lt)
  · exact h.end_of_sizes hrgn hsz hne hpos hr

end

end PlacedAt

/-- **A request stays in the region of its job**, in each call of `fill_io_u` that meets the condition. -/
theorem fillIoU_inside {noio : Bool} {d : FillDraws} (hscale : ScalesInto scale)
    (hzone : o.zoneSkip = 0) (hregion : s.file.Region o) (hstays : s.file.StaysInside o d.ddir)
    (hnoio : noio = false) (hrw : ddirRw d.ddir = true)
    (hrun : fillIoU scale randMax o noio ioHistLen s d = .ok (false, s')) : s.file.Inside s'.ioU := by
  rw [fillIoU, if_neg (by simp [hnoio]), if_pos hrw] at hrun
  change fillRw scale randMax o ioHistLen (switchZone o { s with ioU := d.directed s.ioU }) d = _ at hrun
  rw [switchZone_eq hzone] at hrun
  obtain ⟨⟨failed, s1⟩, hoff, hrun⟩ := of_bind hrun
  cases failed with
  | true => cases hrun
  | false =>
    obtain ⟨hsz, hddi, x, hpl, hlt, hon⟩ := getNextOffset_picks hscale hoff
    obtain ⟨buflen, hbfl, hrun⟩ := of_bind hrun
    simp only at hrun
    split_ifs at hrun with h0 hrl
    · cases hrun
    · cases hrun
    · obtain ⟨⟨ioU, file⟩, hmr, hrun⟩ := of_bind hrun
      cases hrun
      obtain ⟨len, hlen, again, rfl⟩ := markMaps_unit hmr
      have hplc : PlacedAt s.file s1.ioU x := ⟨hpl, hlt⟩
      have hdir := hddi
      have hdvd : ∀ bs, s.file.OnBlocks o s1.ioU.ddir bs → bs ∣ x.toNat := by
        intro bs hblk
        rw [hdir] at hblk
        exact hon bs hregion.noWrap hblk
      have hend := hplc.end_of_stays hregion (hdir ▸ hstays) hsz h0 hdvd hrl hbfl
      refine hplc.inside hregion.noWrap hend rfl ?_
      have hle := BitVec.le_def.1 hlen
      rwa [BitVec.toNat_setWidth_of_le (by decide)] at hle

def secondBlock (size : BitVec 64) : Fill where
  ioU := default
  file := { realFileSize := 16384, ioSize := size, lastPos := 4096 }
  ddirSeqNr := 1
  zoneBytes := 0

def fillRead (s : Fill) : Except Fault (Bool × Fill) :=
  fillIoU drawScale 0 default false 0 s ⟨.read, false, ⟨fun _ => 0, fun _ => 0⟩, []⟩

theorem fillIoU_inside_second :
    ∃ s', fillRead (secondBlock 8192) = .ok (false, s') ∧ (secondBlock 8192).file.Inside s'.ioU := by
  obtain ⟨s', hr, -⟩ : ∃ s', fillRead (secondBlock 8192) = .ok (false, s') ∧ True := by decide +kernel
  have hblk : (secondBlock 8192).file.OnBlocks default .read 4096 :=
    ⟨by decide, by decide, rfl, ⟨by decide, by decide⟩, .inr ⟨by decide, by decide⟩⟩
  exact ⟨s', hr, fillIoU_inside drawScale_into rfl ⟨by decide, by unfold FioFile.NoWrap; decide⟩
    (.inr (.inr hblk)) rfl rfl hr⟩

/-- The region ends in the middle of its second block. -/
theorem fillIoU_outside :
    ∃ s', fillRead (secondBlock 6144) = .ok (false, s') ∧ ¬(secondBlock 6144).file.Inside s'.ioU := by
  obtain ⟨s', hr, hend⟩ : ∃ s', fillRead (secondBlock 6144) = .ok (false, s') ∧
      6144 < s'.ioU.offset.toNat + s'.ioU.buflen.toNat := by decide +kernel
  refine ⟨s', hr, fun hins => ?_⟩
  exact absurd hend (Nat.not_lt.2 hins.2)

end FioSsd
