import Mathlib.Data.BitVec
import FioSsd.Generator.Fill
import FioSsd.History.Record

/-! # Requests that are picked anew

In a random job without `rw` postfix every request is picked anew, and without `zone_skip` no file
changes its zone. -/

namespace FioSsd

open BitVec Nat

variable {file'' : FioFile} {ioU' : IoU} {lastb left : Nat} {b? : Option Nat} {d : RandDraws}
  {file₀ : FioFile} {ioU : IoU} {i : Nat}

structure ThreadOptions.PicksAnew (o : ThreadOptions) : Prop where
  rand : o.ddirRand = true
  seqNr : o.ddirSeqNr = 1
  zoneSkip : o.zoneSkip = 0

def FioFile.Searched (file file' : FioFile) : Prop :=
  ∃ lookup rands, file' = { file with lastFreeLookup := lookup, failedRands := rands }

variable {scale : Scale} {randMax : Nat} {o : ThreadOptions} {file file' : FioFile}
  {ddir : Ddir} {b? : Option Nat} {b : Nat} {r : Nat → Nat}

namespace FioFile.Searched

lemma refl (file : FioFile) : file.Searched file := ⟨_, _, rfl⟩

lemma trans (h : file.Searched file') (h' : file'.Searched file'') : file.Searched file'' := by
  obtain ⟨_, _, rfl⟩ := h
  obtain ⟨lookup, rands, rfl⟩ := h'
  exact ⟨lookup, rands, rfl⟩

lemma lastBlock_eq (h : file.Searched file') : lastBlock o file' ddir = lastBlock o file ddir := by
  obtain ⟨_, _, rfl⟩ := h
  rfl

lemma reset_eq (h : file.Searched file') (ioHistLen : Int) :
    file'.reset ioHistLen = file.reset ioHistLen := by
  obtain ⟨_, _, rfl⟩ := h
  rfl

end FioFile.Searched

structure FioFile.SameSizes (file file' : FioFile) : Prop where
  fileOffset : file'.fileOffset = file.fileOffset
  ioSize : file'.ioSize = file.ioSize
  realFileSize : file'.realFileSize = file.realFileSize

lemma FioFile.SameSizes.trans (h : file.SameSizes file')
    (h' : file'.SameSizes file'') : file.SameSizes file'' :=
  ⟨h'.fileOffset.trans h.fileOffset, h'.ioSize.trans h.ioSize, h'.realFileSize.trans h.realFileSize⟩

lemma FioFile.Searched.sameSizes (h : file.Searched file') : file.SameSizes file' := by
  obtain ⟨_, _, rfl⟩ := h
  exact ⟨rfl, rfl, rfl⟩

lemma freeBlockLoop_spec {fuel : Nat} (h : freeBlockLoop o file lastb fuel i = .ok (b?, file')) :
    file.Searched file' ∧ ∀ b, b? = some b → b ≤ lastb := by
  induction fuel generalizing i with
  | zero => exact absurd h (by simp [freeBlockLoop])
  | succ fuel ih =>
    rw [freeBlockLoop] at h
    split_ifs at h
    · obtain ⟨word, -, h⟩ := of_bind h
      simp only at h
      split_ifs at h with hwr hla
      · cases h
        exact ⟨.refl _, nofun⟩
      · cases h
        refine ⟨⟨_, _, rfl⟩, fun b hb => ?_⟩
        rw [← Option.some.inj hb]
        exact Nat.le_of_not_lt hla
      · exact ih h
    · cases h
      exact ⟨.refl _, nofun⟩

lemma getNextFreeBlock_spec (h : getNextFreeBlock o file ddir = .ok (b?, file')) :
    file.Searched file' ∧ ∀ b, b? = some b → b ≤ lastBlock o file ddir := by
  unfold getNextFreeBlock at h
  simp only at h
  split_ifs at h
  · cases h
    exact ⟨.refl _, nofun⟩
  · exact freeBlockLoop_spec h

lemma getNextFreeBlock_after (h : file₀.Searched file)
    (hr : getNextFreeBlock o file ddir = .ok (b?, file')) :
    file₀.Searched file' ∧ ∀ b, b? = some b → b ≤ lastBlock o file₀ ddir := by
  obtain ⟨hsrc, hle⟩ := getNextFreeBlock_spec hr
  rw [h.lastBlock_eq] at hle
  exact ⟨h.trans hsrc, hle⟩

lemma lookupTries_spec (h : file₀.Searched file)
    (hr : lookupTries scale o file ddir r left i = .ok (b?, file')) :
    file₀.Searched file' ∧ ∀ b, b? = some b → b ≤ lastBlock o file₀ ddir := by
  induction left generalizing file i with
  | zero =>
    cases hr
    exact ⟨h, nofun⟩
  | succ left ih =>
    rw [lookupTries] at hr
    obtain ⟨⟨found, file1⟩, hfr, hr⟩ := of_bind hr
    have hsp := getNextFreeBlock_after (h.trans ⟨_, _, rfl⟩) hfr
    cases found with
    | some b =>
      cases hr
      exact hsp
    | none => exact ih hsp.1 hr

lemma searchFree_spec (h : file₀.Searched file) (hr : searchFree o file ddir = .ok (b?, file')) :
    file₀.Searched file' ∧ ∀ b, b? = some b → b ≤ lastBlock o file₀ ddir := by
  obtain ⟨⟨found, file1⟩, hfr, hr⟩ := of_bind hr
  have hsp := getNextFreeBlock_after h hfr
  cases found with
  | some b =>
    cases hr
    exact hsp
  | none => exact getNextFreeBlock_after (hsp.1.trans ⟨_, _, rfl⟩) hr

def ScalesInto (scale : Scale) : Prop := ∀ n r, scale n r ≤ n

def drawScale (n r : Nat) : Nat := exactScale n (r % 2 ^ 32)

lemma drawScale_into : ScalesInto drawScale := by
  intro n r
  have hle : n * (r % 2 ^ 32) ≤ n * 2 ^ 32 := Nat.mul_le_mul_left n (Nat.mod_lt r (by decide)).le
  exact (Nat.div_le_div_right hle).trans_eq (Nat.mul_div_cancel n (by decide))

lemma randTries_le (hsc : ScalesInto scale)
    (h : randTries scale o file lastb r left i = .ok (some b)) : b ≤ lastb - 1 := by
  induction left generalizing i with
  | zero => exact absurd h (by simp [randTries])
  | succ left ih =>
    have hdraw := hsc (lastb - 1) (r i)
    rw [randTries] at h
    split_ifs at h
    · rwa [← Option.some.inj (Except.ok.inj h)]
    · obtain ⟨free, -, h⟩ := of_bind h
      cases free with
      | true => rwa [← Option.some.inj (Except.ok.inj h)]
      | false => exact ih h

lemma getNextRandOffset_none (h : lastBlock o file ddir = 0) :
    getNextRandOffset scale o file ddir r = .ok (none, file) := by
  exact if_pos h

lemma getNextRandOffset_spec (hsc : ScalesInto scale)
    (h : getNextRandOffset scale o file ddir r = .ok (b?, file')) :
    file.Searched file' ∧ ∀ b, b? = some b → b ≤ lastBlock o file ddir := by
  by_cases hla : lastBlock o file ddir = 0
  · rw [getNextRandOffset_none hla] at h
    cases h
    exact ⟨.refl _, nofun⟩
  · simp only [getNextRandOffset, if_neg hla] at h
    by_cases hfld : 200 ≤ file.failedRands
    · rw [if_pos hfld] at h
      exact searchFree_spec (.refl _) h
    · rw [if_neg hfld] at h
      obtain ⟨tried, htr, h⟩ := of_bind h
      cases tried with
      | some b =>
        cases h
        refine ⟨⟨_, _, rfl⟩, fun b' hb => ?_⟩
        rw [← Option.some.inj hb]
        exact le_trans (randTries_le hsc htr) (sub_le _ _)
      | none =>
        obtain ⟨⟨found, file1⟩, hlkp, h⟩ := of_bind h
        have hsp := lookupTries_spec (show file.Searched _ from ⟨_, _, rfl⟩) hlkp
        cases found with
        | some b =>
          cases h
          exact hsp
        | none => exact searchFree_spec (hsp.1.trans ⟨_, _, rfl⟩) h

lemma getNextRandOffset_again (h : o.randomagain = true) (hrn : file.failedRands < 200)
    (hla : lastBlock o file ddir ≠ 0) : getNextRandOffset scale o file ddir r =
      .ok (some (scale (lastBlock o file ddir - 1) (r 0)), { file with failedRands := 0 }) := by
  simp only [getNextRandOffset, if_neg hla, if_neg (not_le.2 hrn), randTries, h, Bool.or_true,
    if_true]
  rfl

/-- What looking for a random block leaves of a file, in a job whose history has the given length. -/
structure LooksFor (o : ThreadOptions) (ioHistLen : Int) (file : FioFile) (ddir : Ddir)
    (b? : Option Nat) (file' : FioFile) : Prop where
  le : ∀ b, b? = some b → b ≤ lastBlock o file ddir
  searched : ∃ file₁, (file₁ = file ∨ o.timeBased = true ∧ file₁ = file.reset ioHistLen) ∧
    file₁.Searched file'
  rands : o.randomagain = true → file.failedRands < 200 → file'.failedRands ≤ file.failedRands
  again : o.randomagain = true → file.failedRands < 200 → b? ≠ none →
    file' = { file with failedRands := 0 }

lemma LooksFor.sameSizes {ioHistLen : Int} (h : LooksFor o ioHistLen file ddir b? file') :
    file.SameSizes file' := by
  obtain ⟨file1, hfl1, hsrc⟩ := h.searched
  have hsz := hsrc.sameSizes
  rcases hfl1 with rfl | ⟨-, rfl⟩
  · exact hsz
  · exact ⟨hsz.fileOffset, hsz.ioSize, hsz.realFileSize⟩

lemma getNextRandBlock_spec (hsc : ScalesInto scale) {ioHistLen : Int}
    (hr : getNextRandBlock scale o ioHistLen file ddir d = .ok (b?, file')) :
    LooksFor o ioHistLen file ddir b? file' := by
  obtain ⟨⟨found, file1⟩, hfr, hr⟩ := of_bind hr
  obtain ⟨hsrc, hle⟩ := getNextRandOffset_spec hsc hfr
  by_cases hla : lastBlock o file ddir = 0
  · -- there is no block at all, before the restart and after it
    rw [getNextRandOffset_none hla] at hfr
    cases hfr
    simp only at hr
    split_ifs at hr with htm
    · have hla' : lastBlock o (file.reset ioHistLen) ddir = 0 := hla
      rw [getNextRandOffset_none hla'] at hr
      cases hr
      exact ⟨hle, ⟨_, .inr ⟨htm, rfl⟩, .refl _⟩, fun _ _ => zero_le _, fun _ _ h => absurd rfl h⟩
    · cases hr
      exact ⟨hle, ⟨_, .inl rfl, .refl _⟩, fun _ _ => le_rfl, fun _ _ h => absurd rfl h⟩
  · cases found with
    | some b =>
      obtain ⟨rfl, rfl⟩ := ok_pair hr
      have hag : o.randomagain = true → file.failedRands < 200 →
          file1 = { file with failedRands := 0 } := by
        intro hag hrn
        rw [getNextRandOffset_again hag hrn hla] at hfr
        exact (ok_pair hfr).2.symm
      refine ⟨hle, ⟨file, .inl rfl, hsrc⟩, fun h hrn => ?_, fun h hrn _ => hag h hrn⟩
      rw [hag h hrn]
      exact zero_le _
    | none =>
      have hnot : o.randomagain = true → file.failedRands < 200 → False := by
        intro hag hrn
        rw [getNextRandOffset_again hag hrn hla] at hfr
        cases hfr
      simp only at hr
      split_ifs at hr with htm
      · rw [hsrc.reset_eq] at hr
        obtain ⟨hsr', hle'⟩ := getNextRandOffset_spec hsc hr
        exact ⟨hle', ⟨_, .inr ⟨htm, rfl⟩, hsr'⟩, fun h hrn => (hnot h hrn).elim,
          fun h hrn => (hnot h hrn).elim⟩
      · cases hr
        exact ⟨hle, ⟨_, .inl rfl, hsrc⟩, fun h hrn => (hnot h hrn).elim,
          fun h hrn => (hnot h hrn).elim⟩

lemma lastBlock_mul_lt (h : b ≤ lastBlock o file ddir) : b * (o.baOf ddir).toNat < 2 ^ 64 := by
  refine lt_of_le_of_lt (mul_le_mul_right _ h) ?_
  exact (div_mul_le_self _ _).trans_lt (isLt _)

lemma toNat_blockOffset (h : b ≤ lastBlock o file ddir) :
    (BitVec.ofNat 64 b * (o.baOf ddir).setWidth 64).toNat = b * (o.baOf ddir).toNat := by
  have hlt := lastBlock_mul_lt h
  rw [BitVec.toNat_mul, BitVec.toNat_ofNat, BitVec.toNat_setWidth,
    Nat.mod_eq_of_lt (lt_trans (o.baOf ddir).isLt (by decide)), Nat.mod_mul_mod, Nat.mod_eq_of_lt hlt]

variable {ioHistLen : Int} {s s' : Fill} {failed : Bool}

lemma getNextBlock_run (hrn : o.ddirRand)
    (h : getNextBlock scale o ioHistLen s true d = .ok (failed, s')) :
    s'.ddirSeqNr = s.ddirSeqNr ∧ (∃ offset, s'.ioU = { s.ioU with offset := offset }) ∧
      ∃ b?, getNextRandBlock scale o ioHistLen s.file s.ioU.ddir d = .ok (b?, s'.file) ∧
        blockOffset? o s.ioU.ddir b? = if failed then none else some s'.ioU.offset := by
  simp only [getNextBlock, blockOffset, pickedOffset, hrn, if_true, Bool.not_true,
    Bool.or_false] at h
  obtain ⟨⟨offset?, file1⟩, hpc, h⟩ := of_bind h
  obtain ⟨⟨b?, file2⟩, hblk, hpc⟩ := of_bind hpc
  obtain ⟨hoff, rfl⟩ := ok_pair hpc
  cases offset? with
  | none | some offset =>
    cases h
    exact ⟨rfl, ⟨_, rfl⟩, b?, hblk, hoff⟩

lemma blockOffset?_eq_some {offset : BitVec 64} (hle : ∀ b, b? = some b → b ≤ lastBlock o file ddir)
    (h : blockOffset? o ddir b? = some offset) :
    ∃ b, b? = some b ∧ offset.toNat = b * (o.baOf ddir).toNat := by
  cases b? with
  | none => exact absurd h (by simp [blockOffset?])
  | some b =>
    refine ⟨b, rfl, ?_⟩
    unfold blockOffset? at h
    simp only at h
    split_ifs at h
    rw [← Option.some.inj h]
    exact toNat_blockOffset (hle b rfl)

lemma blockOffset?_eq_none (h : blockOffset? o ddir b? = none) :
    b? = none ∨ ∃ b, b? = some b ∧ BitVec.ofNat 64 b = -1 := by
  cases b? with
  | none => exact .inl rfl
  | some b =>
    refine .inr ⟨b, rfl, ?_⟩
    unfold blockOffset? at h
    simp only at h
    split_ifs at h with hla
    exact hla

lemma countSeq_one (hseq : o.ddirSeqNr = 1) (hnr : s.ddirSeqNr = 1) :
    countSeq o s.ddirSeqNr = (true, 1) := by
  rw [hnr, countSeq, hseq]
  rfl

section

variable (hrn : o.ddirRand) (hseq : o.ddirSeqNr = 1) (hsc : ScalesInto scale)
  (hnr : s.ddirSeqNr = 1)

include hrn hseq hsc hnr

lemma getNextOffset_block
    (h : getNextOffset scale o ioHistLen s d = .ok (failed, s')) :
    s'.ddirSeqNr = 1 ∧ (∃ offset, s'.ioU = { s.ioU with offset := offset }) ∧
      ∃ b?, getNextRandBlock scale o ioHistLen s.file s.ioU.ddir d = .ok (b?, s'.file) ∧
        (failed = false → ∃ b, b? = some b ∧
          (s'.ioU.offset - s'.file.fileOffset).toNat = b * (o.baOf s.ioU.ddir).toNat) := by
  rw [getNextOffset, countSeq_one hseq hnr] at h
  obtain ⟨⟨failed1, s1⟩, hblk, h⟩ := of_bind h
  obtain ⟨hnr1, ⟨offset, hun⟩, b?, hlk, hpl⟩ := getNextBlock_run hrn hblk
  simp only at h
  split_ifs at h with hfld hsz
  · cases h
    exact ⟨hnr1, ⟨offset, hun⟩, b?, hlk, nofun⟩
  · cases h
    exact ⟨hnr1, ⟨offset, hun⟩, b?, hlk, nofun⟩
  · cases h
    refine ⟨hnr1, ⟨_, by rw [hun]⟩, b?, hlk, fun _ => ?_⟩
    rw [if_neg hfld] at hpl
    obtain ⟨b, hb, hoff⟩ := blockOffset?_eq_some (getNextRandBlock_spec hsc hlk).le hpl
    refine ⟨b, hb, ?_⟩
    simpa using hoff

lemma getNextOffset_fails
    (h : getNextOffset scale o ioHistLen s d = .ok (true, s')) :
    ∃ b?, getNextRandBlock scale o ioHistLen s.file s.ioU.ddir d = .ok (b?, s'.file) ∧
      (b? = none ∨ ∃ b, b? = some b ∧ (BitVec.ofNat 64 b = -1 ∨
        ∃ offset : BitVec 64, offset.toNat = b * (o.baOf s.ioU.ddir).toNat ∧
          (s'.file.ioSize ≤ offset ∨ s'.file.realFileSize ≤ offset + s'.file.fileOffset))) := by
  rw [getNextOffset, countSeq_one hseq hnr] at h
  obtain ⟨⟨failed1, s1⟩, hblk, h⟩ := of_bind h
  obtain ⟨-, -, b?, hlk, hpl⟩ := getNextBlock_run hrn hblk
  cases failed1 with
  | true =>
    cases h
    refine ⟨b?, hlk, (blockOffset?_eq_none hpl).imp id ?_⟩
    rintro ⟨b, hb, hla⟩
    exact ⟨b, hb, .inl hla⟩
  | false =>
    obtain ⟨b, hb, hoff⟩ := blockOffset?_eq_some (getNextRandBlock_spec hsc hlk).le hpl
    simp only [Bool.false_eq_true, if_false] at h
    split_ifs at h with hsz
    · cases h
      exact ⟨b?, hlk, .inr ⟨b, hb, .inr ⟨_, hoff, .inl hsz⟩⟩⟩
    · obtain ⟨hrl, rfl⟩ := ok_pair h
      exact ⟨b?, hlk, .inr ⟨b, hb, .inr ⟨_, hoff, .inr (of_decide_eq_true hrl)⟩⟩⟩

end

lemma le_mapBlocksOf_mul (h : ioU.buflen.toNat < 2 ^ 32) :
    ioU.buflen.toNat ≤ mapBlocksOf o ioU * o.rwMinBs.toNat := by
  have hpos := o.rwMinBs_pos
  have hcl := Nat.lt_div_mul_add hpos (a := ioU.buflen.toNat + o.rwMinBs.toNat - 1)
  have hle : (ioU.buflen.toNat + o.rwMinBs.toNat - 1) / o.rwMinBs.toNat ≤ ioU.buflen.toNat := by
    cases hn : ioU.buflen.toNat with
    | zero => rw [Nat.div_eq_of_lt (by omega)]
    | succ n =>
      refine Nat.div_le_of_le_mul ?_
      have := Nat.le_mul_of_pos_left n hpos
      rw [Nat.mul_succ]
      omega
  rw [mapBlocksOf, History.nrBlkOf_eq h, Nat.mod_eq_of_lt (hle.trans_lt h)]
  omega

lemma getNextBuflen_fixed {sizes : List Nat} {buflen : BitVec 32}
    (hfx : o.minBsOf ioU.ddir = o.maxBsOf ioU.ddir)
    (h : getNextBuflen scale randMax o file ioU sizes = .ok buflen) : buflen = o.minBsOf ioU.ddir := by
  simp only [getNextBuflen, if_pos hfx] at h
  exact (Except.ok.inj h).symm

lemma takeBlocks_unit (h : takeBlocks o file ioU = .ok (ioU', file')) :
    ∃ buflen ≤ ioU.buflen, ioU' = { ioU with buflen := buflen } := by
  unfold takeBlocks at h
  split_ifs at h
  · unfold markRandomMap at h
    obtain ⟨⟨blocks, file1⟩, -, h⟩ := of_bind h
    cases h
    split_ifs with hcut
    · exact ⟨_, BitVec.le_of_lt hcut, rfl⟩
    · exact ⟨_, BitVec.le_refl _, rfl⟩
  · cases h
    exact ⟨_, BitVec.le_refl _, rfl⟩

lemma markMaps_unit (h : markMaps o file ioU = .ok (ioU', file')) :
    ∃ buflen ≤ ioU.buflen, ∃ again, ioU' = { ioU with buflen := buflen, randomagain := again } := by
  unfold markMaps at h
  split_ifs at h with hag
  · unfold markBitMap at h
    split_ifs at h
    · cases h
      exact ⟨_, BitVec.le_refl _, _, rfl⟩
    · obtain ⟨⟨again, file1⟩, -, h⟩ := of_bind h
      cases h
      exact ⟨_, BitVec.le_refl _, _, rfl⟩
  · obtain ⟨⟨ioU1, file1⟩, htk, h⟩ := of_bind h
    cases h
    obtain ⟨buflen, hle, rfl⟩ := takeBlocks_unit htk
    exact ⟨buflen, hle, _, rfl⟩

/-- The read or write `ioU` at block `b` that was picked for a unit, before its blocks are marked in the
    map of `file`. -/
structure Request (o : ThreadOptions) (unit : IoU) (b : Nat) (file : FioFile) (ioU : IoU) : Prop where
  place : (ioU.offset - file.fileOffset).toNat = b * (o.baOf unit.ddir).toNat
  same : ∃ offset buflen, ioU = { unit with offset := offset, buflen := buflen }
  short : ioU.buflen.toNat < 2 ^ 32
  fixed : o.minBsOf unit.ddir = o.maxBsOf unit.ddir → ioU.buflen = (o.minBsOf unit.ddir).setWidth 64

structure KeepsUnit (ioU ioU' : IoU) : Prop where
  ddir : ioU'.ddir = ioU.ddir
  file : ioU'.file = ioU.file
  busyOk : ioU'.busyOk = ioU.busyOk

/-- What becomes of the unit and the file of a read or write: a request is picked and its blocks are
    marked, or it fails and only the search has left its traces. -/
def Fills (o : ThreadOptions) (ioHistLen : Int) (unit : IoU) (file : FioFile) (failed : Bool)
    (s' : Fill) : Prop :=
  ∃ b? file₁, LooksFor o ioHistLen file unit.ddir b? file₁ ∧
    if failed then s'.file = file₁
    else ∃ b ioU, b? = some b ∧ Request o unit b file₁ ioU ∧
      markMaps o file₁ ioU = .ok (s'.ioU, s'.file)

variable {d : FillDraws}

lemma fillRw_block (hrn : o.ddirRand = true) (hseq : o.ddirSeqNr = 1) (hsc : ScalesInto scale)
    (hnr : s.ddirSeqNr = 1) (h : fillRw scale randMax o ioHistLen s d = .ok (failed, s')) :
    s'.ddirSeqNr = 1 ∧ KeepsUnit s.ioU s'.ioU ∧ ∃ b? file1,
      getNextRandBlock scale o ioHistLen s.file s.ioU.ddir d.rand = .ok (b?, file1) ∧
        if failed then s'.file = file1
        else ∃ b ioU, b? = some b ∧ Request o s.ioU b file1 ioU ∧
          markMaps o file1 ioU = .ok (s'.ioU, s'.file) := by
  obtain ⟨⟨failed1, s1⟩, hoff, h⟩ := of_bind h
  obtain ⟨hnr1, ⟨offset, hun⟩, b?, hblk, hpl⟩ := getNextOffset_block hrn hseq hsc hnr hoff
  have hkp : KeepsUnit s.ioU s1.ioU := by
    rw [hun]
    exact ⟨rfl, rfl, rfl⟩
  cases failed1 with
  | true =>
    cases h
    exact ⟨hnr1, hkp, b?, _, hblk, rfl⟩
  | false =>
    obtain ⟨b, hb, hst⟩ := hpl rfl
    obtain ⟨buflen, hbfl, h⟩ := of_bind h
    simp only at h
    split_ifs at h
    · cases h
      exact ⟨hnr1, ⟨hkp.ddir, hkp.file, hkp.busyOk⟩, b?, _, hblk, rfl⟩
    · cases h
      exact ⟨hnr1, ⟨hkp.ddir, hkp.file, hkp.busyOk⟩, b?, _, hblk, rfl⟩
    · obtain ⟨⟨ioU2, file2⟩, hmr, h⟩ := of_bind h
      cases h
      obtain ⟨_, -, _, heq⟩ := markMaps_unit hmr
      refine ⟨hnr1, ?_, b?, _, hblk, b, _, hb, ?_, hmr⟩
      · rw [heq]
        exact ⟨hkp.ddir, hkp.file, hkp.busyOk⟩
      · refine ⟨hst, ⟨offset, _, by rw [hun]⟩, ?_, fun hfx => ?_⟩
        · rw [toNat_setWidth]
          exact (mod_le _ _).trans_lt buflen.isLt
        · rw [getNextBuflen_fixed (by rw [hkp.ddir]; exact hfx) hbfl, hkp.ddir]

lemma fillRw_first (hrn : o.ddirRand = true) (hseq : o.ddirSeqNr = 1) (h : ScalesInto scale)
    (hnr : s.ddirSeqNr = 1) (hr : fillRw scale randMax o ioHistLen s d = .ok (failed, s')) :
    s'.ddirSeqNr = 1 ∧ KeepsUnit s.ioU s'.ioU ∧ Fills o ioHistLen s.ioU s.file failed s' := by
  obtain ⟨hnr', hkp, b?, file1, hblk, hfl⟩ := fillRw_block hrn hseq h hnr hr
  exact ⟨hnr', hkp, b?, file1, getNextRandBlock_spec h hblk, hfl⟩

def FillDraws.directed (d : FillDraws) (ioU : IoU) : IoU :=
  { ioU with ddir := d.ddir, barrier := ioU.barrier || d.barrier }

lemma switchZone_eq (h : o.zoneSkip = 0) (s : Fill) : switchZone o s = s := by
  rw [switchZone, if_neg (by simp [h])]

lemma fillIoU_first (hpc : o.PicksAnew) (hsc : ScalesInto scale)
    (hnr : s.ddirSeqNr = 1) (h : fillIoU scale randMax o false ioHistLen s d = .ok (failed, s')) :
    s'.ddirSeqNr = 1 ∧ KeepsUnit (d.directed s.ioU) s'.ioU ∧
      if ddirRw d.ddir then Fills o ioHistLen (d.directed s.ioU) s.file failed s'
      else failed = false ∧ s'.file = s.file := by
  rw [fillIoU, if_neg (by simp)] at h
  by_cases hrw : ddirRw d.ddir
  · rw [if_pos hrw, switchZone_eq hpc.zoneSkip] at h
    simp only [if_pos hrw]
    exact fillRw_first hpc.rand hpc.seqNr hsc (s := { s with ioU := d.directed s.ioU }) hnr h
  · rw [if_neg hrw] at h
    simp only [if_neg hrw]
    cases h
    exact ⟨hnr, ⟨rfl, rfl, rfl⟩, rfl, rfl⟩

end FioSsd
