import FioSsd.Generator.Taken

/-! # The block that is chosen

`get_next_rand_offset` draws or searches a block that the random map has free, in units of
`ba[ddir]`, which with a random map is `min_bs[ddir]`. -/

namespace FioSsd

variable {left : Nat} {r : Nat → Nat}

open BitVec Nat History ThreadOptions

variable {word : BitVec 64} {file₀ : FioFile} {i lastb : Nat} {scale : Scale} {randMax : Nat}
  {o : ThreadOptions} {ioHistLen : Int} {file file' : FioFile} {ddir : Ddir} {b : Nat}

lemma ffz_spec (h : word ≠ allOnes 64) :
    ffz word < 64 ∧ word.getLsbD (ffz word) = false ∧ ∀ j, j < ffz word → word.getLsbD j = true := by
  have hcl : ∃ i, i < 64 ∧ word.getLsbD i = false := by
    by_contra hcon
    refine h (eq_of_getLsbD_eq fun i hi => ?_)
    rw [getLsbD_allOnes, decide_eq_true hi]
    by_contra hbit
    exact hcon ⟨i, hi, by simpa using hbit⟩
  obtain ⟨i, hi, hbit⟩ := hcl
  unfold ffz
  cases hfn : (List.range 64).find? fun i => !word.getLsbD i with
  | none =>
    have hall := List.find?_eq_none.1 hfn i (List.mem_range.2 hi)
    exact absurd hbit (by simpa using hall)
  | some k =>
    obtain ⟨hk, hmem, hfr⟩ := List.find?_range_eq_some.1 hfn
    refine ⟨List.mem_range.1 hmem, by simpa using hk, fun j hj => ?_⟩
    simpa using hfr j hj

structure FioFile.FirstFree (file : FioFile) (i b : Nat) : Prop where
  le : i * 64 ≤ b
  free : ¬file.Marked b
  first : ∀ c, i * 64 ≤ c → c < b → file.Marked c

lemma FioFile.marked_word {j : Nat} (h : file.mapWord i = .ok word) (hi : i < 2 ^ 32) (hj : j < 64)
    : file.Marked (i * 64 + j) ↔ word.getLsbD j = true := by
  obtain ⟨map, hmap, rfl⟩ := mapWord_eq_ok h
  have hidx : randMapIdx (i * 64 + j) = i := by
    unfold randMapIdx
    omega
  have hbit : randMapBit (i * 64 + j) = j := by
    unfold randMapBit
    omega
  rw [marked_iff, hidx, hbit]
  simp [mapBit, hmap]

lemma FioFile.marked_of_allOnes {c : Nat} (h : file.mapWord i = .ok (allOnes 64)) (hi : i < 2 ^ 32)
    (hle : i * 64 ≤ c) (hlt : c < (i + 1) * 64) : file.Marked c := by
  have hc : i * 64 + (c - i * 64) = c := by omega
  rw [← hc, marked_word h hi (by omega), getLsbD_allOnes, decide_eq_true_eq]
  omega

lemma FioFile.mapWord_lt (h : file.mapWord i = .ok word) : i < file.numMaps := by
  unfold mapWord at h
  cases hmap : file.fileMap with
  | none => simp [hmap] at h
  | some map =>
    simp only [hmap] at h
    split_ifs at h with hlt
    exact hlt

lemma FioFile.firstFree_of_ffz (h : file.mapWord i = .ok word) (hi : i < 2 ^ 32)
    (hne : word ≠ allOnes 64) : file.FirstFree i (i * 64 + ffz word) := by
  obtain ⟨hlt, hcl, hfr⟩ := ffz_spec hne
  refine ⟨le_add_right _ _, ?_, fun c hle hc => ?_⟩
  · rw [marked_word h hi hlt, hcl]
    simp
  · have hsp : i * 64 + (c - i * 64) = c := by omega
    rw [← hsp, marked_word h hi (by omega)]
    exact hfr _ (by omega)

lemma FioFile.FirstFree.of_succ (hwr : file.mapWord i = .ok (allOnes 64)) (hi : i < 2 ^ 32)
    (h : file.FirstFree (i + 1) b) : file.FirstFree i b := by
  have hle := h.le
  refine ⟨by omega, h.free, fun c hc hlt => ?_⟩
  rcases lt_or_ge c ((i + 1) * 64) with hhr | hrs
  · exact marked_of_allOnes hwr hi hc hhr
  · exact h.first c hrs hlt

lemma freeBlockLoop_found {fuel : Nat} (hnum : file.numMaps ≤ 2 ^ 32)
    (h : freeBlockLoop o file lastb fuel i = .ok (some b, file')) :
    file.FirstFree i b ∧ b ≤ lastb ∧ file' = { file with lastFreeLookup := b / 64 } := by
  induction fuel generalizing i with
  | zero => exact absurd h (by simp [freeBlockLoop])
  | succ fuel ih =>
    rw [freeBlockLoop] at h
    split_ifs at h
    · obtain ⟨word, hwr, h⟩ := of_bind h
      have hi := (FioFile.mapWord_lt hwr).trans_le hnum
      simp only at h
      split_ifs at h with hne hla
      · cases h
      · obtain ⟨hb, rfl⟩ := ok_pair h
        cases hb
        have hlt := (ffz_spec hne).1
        refine ⟨FioFile.firstFree_of_ffz hwr hi hne, Nat.le_of_not_lt hla, ?_⟩
        rw [show (i * 64 + ffz word) / 64 = i by omega]
      · obtain rfl := not_not.1 hne
        obtain ⟨hfr, hrs⟩ := ih h
        exact ⟨hfr.of_succ hwr hi, hrs⟩
    · cases h

lemma freeBlockLoop_here {k : Nat}
    (hpos : i * 64 * o.rwMinBs.toNat % 2 ^ 64 < file.realFileSize.toNat ∧
      i * 64 * o.rwMinBs.toNat % 2 ^ 64 < file.ioSize.toNat) (h : file.mapWord i = .ok word)
    (hne : word ≠ allOnes 64) (hle : i * 64 + ffz word ≤ lastb)
    : freeBlockLoop o file lastb (k + 1) i =
      .ok (some (i * 64 + ffz word), { file with lastFreeLookup := i }) := by
  rw [freeBlockLoop]
  simp only [if_pos hpos, h]
  change (if word ≠ allOnes 64 then _ else _) = _
  rw [if_pos hne, if_neg (not_lt.2 hle)]
  rfl

lemma FioFile.Searched.marked_iff (h : file.Searched file') : file'.Marked b ↔ file.Marked b := by
  obtain ⟨_, _, rfl⟩ := h
  exact Iff.rfl

lemma FioFile.Searched.numMaps (h : file.Searched file') : file'.numMaps = file.numMaps := by
  obtain ⟨_, _, rfl⟩ := h
  rfl

section

variable (h : file₀.Searched file) (hnum : file₀.numMaps ≤ 2 ^ 32)

include h hnum

lemma getNextFreeBlock_free (hr : getNextFreeBlock o file ddir = .ok (some b, file')) :
    ¬file₀.Marked b := by
  unfold getNextFreeBlock at hr
  simp only at hr
  split_ifs at hr
  · cases hr
  · rw [← h.marked_iff]
    exact (freeBlockLoop_found (h.numMaps.trans_le hnum) hr).1.free

lemma lookupTries_free
    (hr : lookupTries scale o file ddir r left i = .ok (some b, file')) : ¬file₀.Marked b := by
  induction left generalizing file i with
  | zero => cases hr
  | succ left ih =>
    rw [lookupTries] at hr
    obtain ⟨⟨found, file1⟩, hfr, hr⟩ := of_bind hr
    cases found with
    | some c =>
      obtain ⟨hb, -⟩ := ok_pair hr
      cases hb
      exact getNextFreeBlock_free (h.trans ⟨_, _, rfl⟩) hnum hfr
    | none => exact ih (getNextFreeBlock_after (h.trans ⟨_, _, rfl⟩) hfr).1 hr

lemma searchFree_free (hr : searchFree o file ddir = .ok (some b, file')) :
    ¬file₀.Marked b := by
  obtain ⟨⟨found, file1⟩, hfr, hr⟩ := of_bind hr
  cases found with
  | some c =>
    obtain ⟨hb, -⟩ := ok_pair hr
    cases hb
    exact getNextFreeBlock_free h hnum hfr
  | none =>
    have hnx := h.trans (getNextFreeBlock_spec hfr).1
    exact getNextFreeBlock_free (hnx.trans ⟨_, _, rfl⟩) hnum hr

end

section

variable (hmap : History.fileRandommap o file) (hag : o.randomagain = false)

include hmap hag

lemma randTries_free
    (h : randTries scale o file lastb r left i = .ok (some b)) : ¬file.Marked b := by
  induction left generalizing i with
  | zero => exact absurd h (by simp [randTries])
  | succ left ih =>
    rw [randTries] at h
    simp only [hmap, hag, Bool.not_true, Bool.or_false, Bool.false_eq_true, if_false] at h
    obtain ⟨free, hfr, h⟩ := of_bind h
    cases free with
    | true =>
      cases Except.ok.inj h
      exact (FioFile.randomMapFree_iff hfr).1 rfl
    | false => exact ih h

lemma getNextRandOffset_free (hnum : file.numMaps ≤ 2 ^ 32)
    (h : getNextRandOffset scale o file ddir r = .ok (some b, file')) : ¬file.Marked b := by
  unfold getNextRandOffset at h
  by_cases hla : lastBlock o file ddir = 0
  · simp only [if_pos hla] at h
    cases h
  · simp only [if_neg hla] at h
    by_cases hfld : 200 ≤ file.failedRands
    · rw [if_pos hfld] at h
      exact searchFree_free (.refl _) hnum h
    · rw [if_neg hfld] at h
      obtain ⟨tried, htr, h⟩ := of_bind h
      cases tried with
      | some c =>
        obtain ⟨hb, -⟩ := ok_pair h
        cases hb
        exact randTries_free hmap hag htr
      | none =>
        obtain ⟨⟨found, file1⟩, hlkp, h⟩ := of_bind h
        have hst : file.Searched { file with
            failedRands := (file.failedRands + 1) % 2 ^ 32
            lastFreeLookup := if file.failedRands = 0 then 0 else file.lastFreeLookup } := ⟨_, _, rfl⟩
        cases found with
        | some c =>
          obtain ⟨hb, -⟩ := ok_pair h
          cases hb
          exact lookupTries_free hst hnum hlkp
        | none =>
          have hnx := (lookupTries_spec hst hlkp).1
          exact searchFree_free (hnx.trans ⟨_, _, rfl⟩) hnum h

end

lemma getNextRandBlock_free (hsc : ScalesInto scale) {r : RandDraws} (hmap : fileRandommap o file)
    (hag : o.randomagain = false) (hnum : file.numMaps ≤ 2 ^ 32)
    (h : getNextRandBlock scale o ioHistLen file ddir r = .ok (some b, file')) : ¬file'.Marked b := by
  obtain ⟨⟨found, file1⟩, hfr, h⟩ := of_bind h
  have hsrc := (getNextRandOffset_spec hsc hfr).1
  cases found with
  | some c =>
    obtain ⟨hb, rfl⟩ := ok_pair h
    cases hb
    rw [hsrc.marked_iff]
    exact getNextRandOffset_free hmap hag hnum hfr
  | none =>
    simp only at h
    split_ifs at h with htm
    · rw [hsrc.reset_eq] at h
      rw [(getNextRandOffset_spec hsc h).1.marked_iff]
      refine getNextRandOffset_free ?_ hag hnum h
      unfold fileRandommap at hmap ⊢
      simpa [FioFile.reset] using hmap
    · cases h

structure FioFile.Mapped (o : ThreadOptions) (file : FioFile) : Prop where
  isSome : file.fileMap.isSome = true
  numMaps : file.numMaps = (o.numMapsFor file.realFileSize).toNat
  allocated : file.numMaps < 2 ^ 29

/-- **A block that is chosen as free is free**, in requests of one direction. -/
structure ChoosesFree (scale : Scale) (randMax : Nat) (o : ThreadOptions) (ioHistLen : Int)
    (ddir : Ddir) : Prop where
  /-- The first block of the map that belongs to the request is not marked. -/
  free : ∀ {file r b file'}, file.Mapped o →
    getNextRandOffset scale o file ddir r = .ok (some b, file') →
    ¬file.Marked (b * (o.baOf ddir).toNat / o.rwMinBs.toNat)
  /-- No request is cut to nothing. -/
  lasts : ∀ {s s' d}, d.ddir = ddir → ddirRw ddir = true → s.Anew → s.file.Mapped o →
    fillIoU scale randMax o false ioHistLen s d = .ok (false, s') → s'.ioU.buflen ≠ 0

variable {s s' s₁ : Fill} {d : FillDraws} {ioU ioU' : IoU} {n : Nat}

lemma FioFile.Mapped.randommap (h : file.Mapped o) (ho : o.TakesBlocks) :
    fileRandommap o file = true := by
  rw [fileRandommap, ho.map, h.isSome]
  rfl

lemma FioFile.Mapped.directed (h : s.file.Mapped o) : (s.directed o d).file.Mapped o := by
  unfold Fill.directed switchZone
  split_ifs <;> exact ⟨h.isSome, h.numMaps, h.allocated⟩

lemma FioFile.Mapped.looked (h : file.Mapped o) {b? : Option Nat}
    (hlk : LooksFor o ioHistLen file ddir b? file') : file'.Mapped o := by
  obtain ⟨file1, hfl1, _, _, rfl⟩ := hlk.searched
  rcases hfl1 with rfl | ⟨-, rfl⟩
  · exact ⟨h.isSome, h.numMaps, h.allocated⟩
  · exact ⟨Option.isSome_map.trans h.isSome, h.numMaps, h.allocated⟩

lemma markRandomMap_buflen (hfr : markFree o file ioU = .ok (n, file'))
    (h : markRandomMap o file ioU = .ok (ioU', file')) (hsh : n * o.rwMinBs.toNat < 2 ^ 32) :
    ioU'.buflen = ioU.buflen ∨ ioU'.buflen.toNat = n * o.rwMinBs.toNat := by
  rw [markRandomMap, hfr] at h
  cases h
  rw [mod_eq_of_lt hsh]
  split_ifs
  · right
    rw [toNat_ofNat, mod_eq_of_lt (by omega)]
  · exact .inl rfl

lemma markRandomMap_lasts (ho : o.TakesBlocks) (hbs : ioU.busyOk = false) {buflen : BitVec 32}
    (hlen : ioU.buflen = buflen.setWidth 64) (hpos : buflen ≠ 0)
    (hdvd : o.rwMinBs.toNat ∣ buflen.toNat) (h : ¬file.Marked (blockOf o file ioU))
    (hr : markRandomMap o file ioU = .ok (ioU', file')) : ioU'.buflen ≠ 0 := by
  obtain ⟨n, hfr, htk⟩ := markRandomMap_takes ho.seqNr hbs hr
  have hbfl : ioU.buflen.toNat = buflen.toNat := by
    rw [hlen, toNat_setWidth_of_le (by decide)]
  have hlt := buflen.isLt
  have hrb := o.rwMinBs_pos
  have hne : buflen.toNat ≠ 0 := fun hz => hpos (eq_of_toNat_eq hz)
  obtain ⟨k, hk⟩ := hdvd
  have hkpo : 0 < k := Nat.pos_of_ne_zero fun hz => hne (by rw [hk, hz, Nat.mul_zero])
  -- the unit has `k` blocks
  have hnr : mapBlocksOf o ioU = k := by
    have hkle : k ≤ buflen.toNat := by
      rw [hk]
      exact Nat.le_mul_of_pos_left k hrb
    rw [mapBlocksOf, nrBlkOf_eq (by omega), hbfl, hk, Nat.add_sub_assoc hrb, Nat.mul_add_div hrb,
      Nat.div_eq_of_lt (by omega), Nat.add_zero, Nat.mod_eq_of_lt (by omega)]
  have hle : n ≤ k := hnr ▸ htk.takes.le
  have hnp : 0 < n := by
    by_contra h0
    obtain rfl : n = 0 := by omega
    exact h (htk.takes.longest (hnr.symm ▸ hkpo))
  have hby : n * o.rwMinBs.toNat ≤ buflen.toNat := by
    rw [hk, Nat.mul_comm]
    exact Nat.mul_le_mul_left _ hle
  intro h0
  rcases markRandomMap_buflen hfr hr (by omega) with hkp | hcut
  · rw [h0] at hkp
    have hnat := congrArg BitVec.toNat hkp
    rw [hbfl] at hnat
    exact hne hnat.symm
  · rw [h0] at hcut
    have hpr := Nat.mul_pos hnp hrb
    rw [← hcut] at hpr
    cases hpr

lemma choosesFree_of_eq (ho : o.TakesBlocks) (hsc : ScalesInto scale)
    (hba : o.baOf ddir = o.rwMinBs) (hmin : o.minBsOf ddir = o.rwMinBs) :
    ChoosesFree scale randMax o ioHistLen ddir := by
  have hnum : ∀ {file : FioFile}, file.Mapped o → file.numMaps ≤ 2 ^ 32 := fun h =>
    h.allocated.le.trans (by decide)
  constructor
  · intro file r b file' hmpd hr
    rw [hba, Nat.mul_div_cancel _ o.rwMinBs_pos]
    exact getNextRandOffset_free (hmpd.randommap ho) ho.once (hnum hmpd) hr
  · rintro s s' d rfl hrw han hmpd hr
    rw [fillIoU, if_neg (by simp), if_pos hrw] at hr
    obtain ⟨s₁, hpc, hmr⟩ := fillRw_marks (s := s.directed o d) hr
    obtain ⟨b, hblk, hpl, hbs, buflen, hlen, hpos, hdvd⟩ :=
      pickRequest_request hsc ho.rand ho.seqNr han.directed hpc
    rw [directed_ddir] at hblk hpl hdvd
    have hmp1 : (s.directed o d).file.Mapped o := hmpd.directed
    have hmp' := hmp1.looked (getNextRandBlock_spec hsc hblk)
    have hfre := getNextRandBlock_free hsc (hmp1.randommap ho) ho.once (hnum hmp1) hblk
    have hfr : blockOf o s₁.file s₁.ioU = b := by
      rw [blockOf, hpl, hba, Nat.mul_div_cancel _ o.rwMinBs_pos]
    rw [markMaps, if_neg (by simp [ho.once])] at hmr
    obtain ⟨⟨ioU, file⟩, htk, hmr⟩ := of_bind hmr
    obtain ⟨hun, -⟩ := ok_pair hmr
    rw [takeBlocks, if_pos (by rw [ho.rand, hmp'.randommap ho]; rfl)] at htk
    have hls := markRandomMap_lasts ho hbs hlen hpos (hmin ▸ hdvd) (hfr.symm ▸ hfre) htk
    rw [← hun]
    exact hls

/-- A file of `rw_min_bs + 1` blocks of a direction, of whose map only the bit of block `rw_min_bs` is
    clear. -/
def tightFile (o : ThreadOptions) (ddir : Ddir) : FioFile :=
  let size := BitVec.ofNat 64 ((o.baOf ddir).toNat * (o.rwMinBs.toNat + 1))
  {
    realFileSize := size, ioSize := size, failedRands := 200, lastFreeLookup := o.rwMinBs.toNat / 64
    fileMap := some fun i =>
      if i = o.rwMinBs.toNat / 64 then ~~~(1#64 <<< (o.rwMinBs.toNat % 64)) else BitVec.allOnes 64
    numMaps := (o.numMapsFor size).toNat }

section Tight

variable (hlt : o.rwMinBs.toNat < (o.baOf ddir).toNat)

include hlt

lemma tightFile_size : (tightFile o ddir).realFileSize.toNat =
    (o.baOf ddir).toNat * (o.rwMinBs.toNat + 1) := by
  have hba := (o.baOf ddir).isLt
  have hpr : (o.baOf ddir).toNat * (o.rwMinBs.toNat + 1) ≤ (2 ^ 32 - 1) * (2 ^ 32 - 1) :=
    Nat.mul_le_mul (by omega) (by omega)
  exact Nat.mod_eq_of_lt (hpr.trans_lt (by decide))

lemma tightFile_mapped : (tightFile o ddir).Mapped o ∧
    o.rwMinBs.toNat / 64 < (tightFile o ddir).numMaps := by
  have hba := (o.baOf ddir).isLt
  have hrb := o.rwMinBs_pos
  have hsz := tightFile_size hlt
  have hpr : (o.baOf ddir).toNat * (o.rwMinBs.toNat + 1) ≤ (2 ^ 32 - 1) * (2 ^ 32 - 1) :=
    Nat.mul_le_mul (by omega) (by omega)
  have hlow : (o.baOf ddir).toNat ≤
      ((o.baOf ddir).toNat * (o.rwMinBs.toNat + 1) + o.rwMinBs.toNat - 1) / o.rwMinBs.toNat := by
    rw [Nat.le_div_iff_mul_le hrb, Nat.mul_succ]
    omega
  have hhg : ((o.baOf ddir).toNat * (o.rwMinBs.toNat + 1) + o.rwMinBs.toNat - 1) / o.rwMinBs.toNat <
      2 * (o.baOf ddir).toNat + 1 := by
    have hmul := Nat.le_mul_of_pos_right (o.baOf ddir).toNat hrb
    rw [Nat.div_lt_iff_lt_mul hrb, Nat.mul_succ, Nat.add_mul, Nat.mul_assoc]
    omega
  have hfit : o.SizesFit (tightFile o ddir).realFileSize := by
    rw [ThreadOptions.SizesFit, hsz]
    constructor <;> omega
  have hnum : (tightFile o ddir).numMaps = ((((o.baOf ddir).toNat * (o.rwMinBs.toNat + 1) +
      o.rwMinBs.toNat - 1) / o.rwMinBs.toNat) + 63) / 64 := by
    rw [← hsz, ← numMapsFor_eq hfit]
    rfl
  refine ⟨⟨rfl, rfl, ?_⟩, ?_⟩
  all_goals
    rw [hnum]
    omega

lemma tightFile_marked : (tightFile o ddir).Marked (o.baOf ddir).toNat := by
  have hba := (o.baOf ddir).isLt
  have hidx : randMapIdx (o.baOf ddir).toNat = (o.baOf ddir).toNat / 64 := by
    unfold randMapIdx
    omega
  refine ⟨_, rfl, ?_⟩
  rw [hidx]
  have hbit : randMapBit (o.baOf ddir).toNat < 64 := mod_lt _ (by decide)
  by_cases heq : (o.baOf ddir).toNat / 64 = o.rwMinBs.toNat / 64
  · rw [if_pos heq]
    have hne : randMapBit (o.baOf ddir).toNat ≠ o.rwMinBs.toNat % 64 := by
      unfold randMapBit
      omega
    simp [hbit]
    omega
  · rw [if_neg heq, getLsbD_allOnes, decide_eq_true hbit]

lemma tightFile_chosen (h : o.zoneRange = 0) (scale : Scale) (r : Nat → Nat) :
    ∃ file', getNextRandOffset scale o (tightFile o ddir) ddir r =
      .ok (some o.rwMinBs.toNat, file') := by
  have hsz := tightFile_size hlt
  have hmp := (tightFile_mapped hlt).2
  have hrb := o.rwMinBs_pos
  have hla : lastBlock o (tightFile o ddir) ddir = o.rwMinBs.toNat + 1 := by
    have hmin : (if (tightFile o ddir).realFileSize < (tightFile o ddir).ioSize then
        (tightFile o ddir).realFileSize else (tightFile o ddir).ioSize) =
          (tightFile o ddir).realFileSize := ite_self _
    simp only [lastBlock, hmin]
    rw [if_neg (by simp [h]), hsz, Nat.mul_div_cancel_left _ (by omega)]
  have hwr : (tightFile o ddir).mapWord (o.rwMinBs.toNat / 64) =
      .ok (~~~(1#64 <<< (o.rwMinBs.toNat % 64))) := by
    change (if _ then Except.ok (if _ then _ else _) else _) = _
    rw [if_pos hmp, if_pos rfl]
  have hbt : ∀ j, j < 64 →
      ((~~~(1#64 <<< (o.rwMinBs.toNat % 64))).getLsbD j = false ↔ j = o.rwMinBs.toNat % 64) := by
    intro j hj
    simp [hj]
    omega
  have hcl := (hbt _ (Nat.mod_lt o.rwMinBs.toNat (by decide))).2 rfl
  have hne : ~~~(1#64 <<< (o.rwMinBs.toNat % 64)) ≠ BitVec.allOnes 64 := by
    intro hall
    rw [hall, getLsbD_allOnes, decide_eq_true (Nat.mod_lt _ (by decide))] at hcl
    cases hcl
  obtain ⟨hffz, hfzc, -⟩ := ffz_spec hne
  have hblk : o.rwMinBs.toNat / 64 * 64 + ffz (~~~(1#64 <<< (o.rwMinBs.toNat % 64))) =
      o.rwMinBs.toNat := by
    rw [(hbt _ hffz).1 hfzc]
    omega
  have hpos : o.rwMinBs.toNat / 64 * 64 * o.rwMinBs.toNat % 2 ^ 64 <
      (tightFile o ddir).realFileSize.toNat := by
    have hst : o.rwMinBs.toNat / 64 * 64 * o.rwMinBs.toNat ≤ (o.baOf ddir).toNat * o.rwMinBs.toNat :=
      Nat.mul_le_mul_right _ (by omega)
    rw [hsz]
    exact lt_of_le_of_lt (le_trans (Nat.mod_le _ _) hst)
      (Nat.mul_lt_mul_of_pos_left (Nat.lt_succ_self _) (by omega))
  have hfn := freeBlockLoop_here (o := o) (k := (tightFile o ddir).numMaps) ⟨hpos, hpos⟩ hwr hne
    (show _ ≤ o.rwMinBs.toNat + 1 by omega)
  rw [hblk] at hfn
  have hfr : getNextFreeBlock o (tightFile o ddir) ddir = .ok (some o.rwMinBs.toNat,
      { tightFile o ddir with lastFreeLookup := o.rwMinBs.toNat / 64 }) := by
    rw [getNextFreeBlock, hla, if_neg (by omega)]
    exact hfn
  refine ⟨{ tightFile o ddir with lastFreeLookup := o.rwMinBs.toNat / 64 }, ?_⟩
  simp only [getNextRandOffset, hla]
  rw [if_neg (by omega), if_pos (show 200 ≤ (tightFile o ddir).failedRands from le_refl 200)]
  rw [searchFree, hfr]
  rfl

end Tight

lemma fixup_sizes {o0 : ThreadOptions} {env : ThreadOptions.FixupEnv}
    (h : o0.fixupOptions env = (false, o)) (hmap : o.norandommap = false) (ddir : Ddir) :
    o.baOf ddir = o.minBsOf ddir ∧ o.rwMinBs.toNat ≤ (o.minBsOf ddir).toNat := by
  obtain rfl := congrArg Prod.snd h
  obtain ⟨hread, hwr⟩ := ba_eq_of_fixup (o := o0) hmap
  obtain ⟨hler, hlew⟩ := fixupRwMinBs_le (o := o0)
  unfold baOf minBsOf
  by_cases hdir : ddir = .read
  · rw [if_pos hdir, if_pos hdir]
    exact ⟨hread, hler⟩
  · rw [if_neg hdir, if_neg hdir]
    exact ⟨hwr, hlew⟩

/-- **The block that is chosen as free is free if the direction has the smaller blocks**; and only then,
    unless a zone range keeps the job to its first blocks. -/
theorem choosesFree_iff {o₀ : ThreadOptions} {env : ThreadOptions.FixupEnv}
    (hfix : o₀.fixupOptions env = (false, o)) (ho : o.TakesBlocks) (hscale : ScalesInto scale)
    (ddir : Ddir) :
    (o.minBsOf ddir = o.rwMinBs → ChoosesFree scale randMax o ioHistLen ddir) ∧
      (o.zoneRange = 0 → ChoosesFree scale randMax o ioHistLen ddir → o.minBsOf ddir = o.rwMinBs) := by
  obtain ⟨hba, hle⟩ := fixup_sizes hfix ho.map ddir
  constructor
  · intro hmin
    exact choosesFree_of_eq ho hscale (hba.trans hmin) hmin
  · intro hzn hchs
    by_contra hne
    have hlt : o.rwMinBs.toNat < (o.baOf ddir).toNat := by
      rw [hba]
      exact Nat.lt_of_le_of_ne hle fun heq => hne (eq_of_toNat_eq heq.symm)
    obtain ⟨file', hcho⟩ := tightFile_chosen hlt hzn scale fun _ => 0
    have hfr := hchs.free (tightFile_mapped hlt).1 hcho
    rw [Nat.mul_div_cancel_left _ o.rwMinBs_pos] at hfr
    exact hfr (tightFile_marked hlt)

theorem choosesFree_fixed : ChoosesFree drawScale 0 (randomOptions.fixupOptions default).2 0 .read :=
  (choosesFree_iff (show randomOptions.fixupOptions default = (false, _) from rfl) ⟨rfl, rfl, rfl, rfl⟩
    drawScale_into .read).1 (by decide)

def mixedOptions : ThreadOptions :=
  { defaultOptions with
    ddirRand := true, ddirWrite := true, readBs := 8192, readBs_pos := by decide, readMinBs := 8192
    readMaxBs := 8192, readBa := 0, ba := 0 }

def mixedFill (file : FioFile) (ddir : Ddir) : Except Fault (Bool × Fill) :=
  fillIoU drawScale 0 (mixedOptions.fixupOptions default).2 false 0 ⟨default, file, 1, 0⟩
    ⟨ddir, false, ⟨fun _ => 140000000, fun _ => 0⟩, []⟩

def mixedFile : FioFile :=
  { realFileSize := 262144, ioSize := 262144, fileMap := some fun _ => 0, numMaps := 1 }

/-- The read at 8k is block 1 of its direction, which is free. -/
theorem choosesFree_cut :
    mixedOptions.fixupOptions default = (false, (mixedOptions.fixupOptions default).2) ∧
      (mixedOptions.fixupOptions default).2.TakesBlocks ∧
      ∃ s₁ s₂, mixedFill mixedFile .write = .ok (false, s₁) ∧
        mixedFill s₁.file .read = .ok (false, s₂) ∧ s₂.ioU.buflen = 0 := by
  obtain ⟨s₁, hwr, s₂, hread⟩ : ∃ s₁, mixedFill mixedFile .write = .ok (false, s₁) ∧
      ∃ s₂, mixedFill s₁.file .read = .ok (false, s₂) ∧ s₂.ioU.buflen = 0 := by decide +kernel
  exact ⟨rfl, ⟨rfl, rfl, rfl, rfl⟩, s₁, s₂, hwr, hread⟩

end FioSsd
