import FioSsd.Generator.Chosen
import FioSsd.Generator.Flags
import FioSsd.Generator.Region

/-! # Requests that are kept apart

Two ways in which the request generator makes sure that two writes of a file are the same range or have
no byte in common: all writes are blocks of one size at multiples of that size, whatever becomes of the
random map, or the random map hands out every block once. -/

namespace FioSsd

variable {scale : Scale} {randMax : Nat} {o : ThreadOptions} {ioHistLen : Int}
  {file file' : FioFile} {s s' : Fill} {d : FillDraws} {failed : Bool} {ioU ioU' : IoU}

lemma getNextOffset_sizes (hsc : ScalesInto scale) {r : RandDraws}
    (h : getNextOffset scale o ioHistLen s r = .ok (failed, s')) : s.file.SameSizes s'.file := by
  obtain ⟨⟨failed1, s1⟩, hblk, h⟩ := of_bind h
  obtain ⟨⟨offset?, file1⟩, hoff, hblk⟩ := of_bind hblk
  have hfl : s1.file = file1 := by
    cases offset? with
    | none => rw [← (ok_pair hblk).2]
    | some offset => rw [← (ok_pair hblk).2]
  have heq : s'.file = s1.file := by
    simp only at h
    split_ifs at h
    all_goals rw [← (ok_pair h).2]
  rw [heq, hfl]
  exact (blockOffset_picks hsc hoff).1

lemma FioFile.Grows.fileOffset_eq (h : file.Grows file') : file'.fileOffset = file.fileOffset := by
  obtain ⟨map, rfl⟩ := h.same
  rfl

lemma directed_file (h : o.zoneSkip = 0) : (s.directed o d).file = s.file := by
  rw [Fill.directed, switchZone_eq h]

lemma fillIoU_fileOffset (hsc : ScalesInto scale) (hzn : o.zoneSkip = 0)
    (h : fillIoU scale randMax o false ioHistLen s d = .ok (failed, s')) :
    s'.file.fileOffset = s.file.fileOffset := by
  rw [fillIoU, if_neg (by simp)] at h
  split_ifs at h
  · change fillRw scale randMax o ioHistLen (s.directed o d) d = _ at h
    obtain ⟨⟨failed1, s1⟩, hoff, h⟩ := of_bind h
    have hsz : s1.file.fileOffset = s.file.fileOffset := by
      rw [(getNextOffset_sizes hsc hoff).fileOffset, directed_file hzn]
    cases failed1 with
    | true =>
      rw [← (ok_pair h).2]
      exact hsz
    | false =>
      obtain ⟨buflen, -, h⟩ := of_bind h
      simp only at h
      split_ifs at h
      · rw [← (ok_pair h).2]
        exact hsz
      · rw [← (ok_pair h).2]
        exact hsz
      · obtain ⟨⟨ioU, file⟩, hmr, h⟩ := of_bind h
        rw [← (ok_pair h).2]
        exact (markMaps_grows hmr).fileOffset_eq.trans hsz
  · rw [← (ok_pair h).2]

/-- **The request that is accepted**, before its blocks are marked. -/
structure Picked (o : ThreadOptions) (s : Fill) (ddir : Ddir) (ioU : IoU) : Prop where
  place : ∃ x, PlacedAt s.file ioU x ∧
    ∀ bs, s.file.NoWrap → s.file.OnBlocks o ddir bs → bs ∣ x.toNat
  fixed : o.minBsOf ddir = o.maxBsOf ddir → ioU.buflen = (o.minBsOf ddir).setWidth 64
  pos : 0 < ioU.buflen.toNat

lemma fillIoU_picked (hsc : ScalesInto scale) (hzn : o.zoneSkip = 0) (hrw : ddirRw d.ddir = true)
    (h : fillIoU scale randMax o false ioHistLen s d = .ok (false, s')) :
    ∃ s1, pickRequest scale randMax o ioHistLen (s.directed o d) d = .ok (false, s1) ∧
      Picked o s d.ddir s1.ioU ∧ markMaps o s1.file s1.ioU = .ok (s'.ioU, s'.file) := by
  rw [fillIoU, if_neg (by simp), if_pos hrw] at h
  obtain ⟨s1, hpc, hmr⟩ := fillRw_marks (s := s.directed o d) h
  refine ⟨s1, hpc, ?_, hmr⟩
  obtain ⟨⟨failed, s2⟩, hoff, hpc⟩ := of_bind hpc
  cases failed with
  | true => cases hpc
  | false =>
    obtain ⟨-, hddi, x, hpl, hlt, hon⟩ := getNextOffset_picks hsc hoff
    rw [directed_ddir] at hddi hon
    rw [directed_file hzn] at hpl hlt hon
    obtain ⟨buflen, hbfl, hpc⟩ := of_bind hpc
    obtain ⟨hok, rfl⟩ := ok_pair hpc
    rw [decide_eq_false_iff_not, not_or] at hok
    refine ⟨⟨x, ⟨hpl, hlt⟩, hon⟩, fun hfx => ?_, ?_⟩
    · rw [← hddi] at hfx ⊢
      exact congrArg (BitVec.setWidth 64) (getNextBuflen_fixed hfx hbfl)
    · change 0 < (buflen.setWidth 64).toNat
      rw [BitVec.toNat_setWidth_of_le (by decide)]
      exact pos_of_ne_zero fun hz => hok.1 (BitVec.eq_of_toNat_eq hz)

lemma markMaps_offset (h : markMaps o file ioU = .ok (ioU', file')) : ioU'.offset = ioU.offset := by
  obtain ⟨_, -, _, rfl⟩ := markMaps_unit h
  rfl

lemma markMaps_uncut (hopt : o.ddirRand = false ∨ o.norandommap = true ∨ o.randomagain = true)
    (h : markMaps o file ioU = .ok (ioU', file')) : ioU'.buflen = ioU.buflen := by
  unfold markMaps at h
  split_ifs at h with hag
  · unfold markBitMap at h
    split_ifs at h
    · rw [← (ok_pair h).1]
    · obtain ⟨⟨again, file1⟩, -, h⟩ := of_bind h
      rw [← (ok_pair h).1]
  · have hno : (o.ddirRand && History.fileRandommap o file) = false := by
      unfold History.fileRandommap
      rcases hopt with hrn | hmap | hag'
      · rw [hrn, Bool.false_and]
      · simp [hmap]
      · exact absurd hag' hag
    rw [takeBlocks, if_neg (by simp [hno])] at h
    obtain ⟨⟨ioU1, file1⟩, htk, h⟩ := of_bind h
    rw [← (ok_pair h).1, (ok_pair htk).1]

/-- **The blocks that an accepted request takes from the map**: `n` of them, from its offset on, and no
    byte of it lies behind them. -/
lemma fillIoU_blocks (ho : o.TakesBlocks) (hsc : ScalesInto scale) (hzn : o.zoneSkip = 0)
    (hba : o.baOf d.ddir = o.rwMinBs) (han : s.Anew) (hmpd : s.file.Mapped o) {s1 : Fill}
    (hpc : pickRequest scale randMax o ioHistLen (s.directed o d) d = .ok (false, s1))
    (h : markMaps o s1.file s1.ioU = .ok (s'.ioU, s'.file)) :
    ∃ b n ioU, (s1.ioU.offset - s.file.fileOffset).toNat = b * o.rwMinBs.toNat ∧
      History.blockOf o s1.file s1.ioU = b ∧ markFree o s1.file s1.ioU = .ok (n, s'.file) ∧
      markRandomMap o s1.file s1.ioU = .ok (ioU, s'.file) ∧ s'.ioU.buflen = ioU.buflen ∧
      TakesFor o s1.file s1.ioU n ioU s'.file := by
  obtain ⟨b, hblk, hpl, hbs, -⟩ := pickRequest_request hsc ho.rand ho.seqNr han.directed hpc
  rw [directed_ddir] at hblk hpl
  rw [hba] at hpl
  have hlk := getNextRandBlock_spec hsc hblk
  have hmp1 := hmpd.directed.looked hlk
  have hoff : s1.file.fileOffset = s.file.fileOffset := by
    rw [hlk.sameSizes.fileOffset, directed_file hzn]
  rw [markMaps, if_neg (by simp [ho.once])] at h
  obtain ⟨⟨ioU, file⟩, htak, h⟩ := of_bind h
  obtain ⟨hun, hfl⟩ := ok_pair h
  rw [takeBlocks, if_pos (by rw [ho.rand, hmp1.randommap ho]; rfl)] at htak
  obtain ⟨n, hfr, htk⟩ := markRandomMap_takes ho.seqNr hbs htak
  rw [← hfl, ← hun]
  refine ⟨b, n, ioU, hoff ▸ hpl, ?_, hfr, htak, rfl, htk⟩
  rw [History.blockOf, hpl, Nat.mul_div_cancel _ o.rwMinBs_pos]

/-- A property of ranges sets a new request apart: the range of every request before it is the same or
    shares no byte with it. -/
structure SetsApart (P : FioFile → Nat → Nat → Prop) (file file' : FioFile) (ioU : IoU) : Prop where
  pos : 0 < ioU.buflen.toNat
  mine : P file' ioU.offset.toNat ioU.buflen.toNat
  apart : ∀ start len, P file start len →
    start = ioU.offset.toNat ∧ len = ioU.buflen.toNat ∨ start + len ≤ ioU.offset.toNat ∨
      ioU.offset.toNat + ioU.buflen.toNat ≤ start

def GridRange (o : ThreadOptions) (file : FioFile) (start len : Nat) : Prop :=
  len = o.minBs.toNat ∧ ∃ k, start = file.fileOffset.toNat + k * o.minBs.toNat

structure MarkedRange (o : ThreadOptions) (file : FioFile) (start len : Nat) : Prop where
  pos : 0 < len
  le : file.fileOffset.toNat ≤ start
  marked : ∀ x, start ≤ x → x < start + len →
    file.Marked ((x - file.fileOffset.toNat) / o.rwMinBs.toNat)

/-- A write of the grid. -/
structure GridFill (o : ThreadOptions) (s : Fill) : Prop where
  fixed : o.minBs = o.maxBs
  noWrap : s.file.NoWrap
  blocks : s.file.OnBlocks o .write o.minBs.toNat
  whole : (o.ddirRand = false ∨ o.norandommap = true ∨ o.randomagain = true) ∨
    o.TakesBlocks ∧ o.ba = o.rwMinBs ∧ o.minBs = o.rwMinBs ∧ s.Anew ∧ s.file.Mapped o

structure MapFill (o : ThreadOptions) (s : Fill) (ddir : Ddir) : Prop where
  takes : o.TakesBlocks
  once : o.timeBased = false
  anew : s.Anew
  mapped : s.file.Mapped o
  write : ddir = .write → o.ba = o.rwMinBs ∧ o.minBs = o.rwMinBs ∧ s.file.NoWrap

lemma TakesFor.single {n : Nat} (hfr : markFree o file ioU = .ok (n, file'))
    (hr : markRandomMap o file ioU = .ok (ioU', file')) (h : TakesFor o file ioU n ioU' file')
    (hlen : ioU.buflen = o.rwMinBs.setWidth 64) (hne : ioU'.buflen ≠ 0) :
    ioU'.buflen = ioU.buflen := by
  have hrb := o.rwMinBs_pos
  have hlt := o.rwMinBs.isLt
  have hbfl : ioU.buflen.toNat = o.rwMinBs.toNat := by
    rw [hlen, BitVec.toNat_setWidth_of_le (by decide)]
  have hnr : mapBlocksOf o ioU = 1 := by
    rw [mapBlocksOf, History.nrBlkOf_eq (by omega), hbfl, Nat.add_sub_assoc hrb,
      Nat.add_div_left _ hrb, Nat.div_eq_of_lt (by omega)]
    rfl
  have hle : n ≤ 1 := hnr ▸ h.takes.le
  have hsh : n * o.rwMinBs.toNat ≤ o.rwMinBs.toNat := Nat.mul_le_of_le_div _ _ _ (by
    rw [Nat.div_self hrb]
    exact hle)
  rcases markRandomMap_buflen hfr hr (by omega) with hkp | hcut
  · exact hkp
  · have hone : n = 1 := by
      refine Nat.le_antisymm hle (Nat.pos_of_ne_zero fun h0 => hne (BitVec.eq_of_toNat_eq ?_))
      rw [hcut, h0, Nat.zero_mul]
      rfl
    rw [hone, Nat.one_mul, ← hbfl] at hcut
    exact BitVec.eq_of_toNat_eq hcut

lemma GridRange.apart {start len start' len' : Nat} (h : GridRange o file start len)
    (h' : GridRange o file start' len') :
    start = start' ∧ len = len' ∨ start + len ≤ start' ∨ start' + len' ≤ start := by
  obtain ⟨rfl, k, rfl⟩ := h
  obtain ⟨rfl, k', rfl⟩ := h'
  rcases lt_trichotomy k k' with hlt | rfl | hlt
  · have hmul := Nat.mul_le_mul_right o.minBs.toNat hlt
    rw [Nat.succ_mul] at hmul
    omega
  · exact .inl ⟨rfl, rfl⟩
  · have hmul := Nat.mul_le_mul_right o.minBs.toNat hlt
    rw [Nat.succ_mul] at hmul
    omega

lemma GridFill.setsApart (hfl : GridFill o s) (hsc : ScalesInto scale) (hzn : o.zoneSkip = 0)
    (hddi : d.ddir = .write) (hr : fillIoU scale randMax o false ioHistLen s d = .ok (false, s')) :
    SetsApart (GridRange o) s.file s'.file s'.ioU := by
  have hrw : ddirRw d.ddir = true := by rw [hddi]; rfl
  obtain ⟨s1, hpc, ⟨⟨x, hpl, hon⟩, hfx, hpos⟩, hmr⟩ := fillIoU_picked hsc hzn hrw hr
  rw [hddi] at hon hfx
  have hln1 : s1.ioU.buflen = o.minBs.setWidth 64 := hfx hfl.fixed
  -- the map leaves the write its length, as it has one block and is not cut to nothing
  have hlen : s'.ioU.buflen = s1.ioU.buflen := by
    rcases hfl.whole with hun | ⟨ho, hba, hmin, han, hmpd⟩
    · exact markMaps_uncut hun hmr
    · have hba' : o.baOf d.ddir = o.rwMinBs := by rw [hddi]; exact hba
      have hmn' : o.minBsOf d.ddir = o.rwMinBs := by rw [hddi]; exact hmin
      have hls := (choosesFree_of_eq ho hsc hba' hmn').lasts rfl hrw han hmpd hr
      obtain ⟨b, n, ioU, -, -, hfr, htak, hcut, htk⟩ :=
        fillIoU_blocks ho hsc hzn hba' han hmpd hpc hmr
      rw [hcut] at hls ⊢
      exact htk.single hfr htak (hmin ▸ hln1) hls
  have hmn : GridRange o s.file s'.ioU.offset.toNat s'.ioU.buflen.toNat := by
    obtain ⟨k, hk⟩ := hon _ hfl.noWrap hfl.blocks
    refine ⟨?_, k, ?_⟩
    · rw [hlen, hln1, BitVec.toNat_setWidth_of_le (by decide)]
    · rw [markMaps_offset hmr, hpl.toNat_offset hfl.noWrap, hk, mul_comm]
  refine ⟨hlen ▸ hpos, ?_, fun start len h => h.apart hmn⟩
  unfold GridRange at hmn ⊢
  rwa [fillIoU_fileOffset hsc hzn hr]

lemma MarkedRange.mono {start len : Nat} (h : MarkedRange o file start len)
    (hoff : file'.fileOffset = file.fileOffset) (hmr : ∀ b, file.Marked b → file'.Marked b) :
    MarkedRange o file' start len := by
  refine ⟨h.pos, hoff ▸ h.le, fun x hle hlt => ?_⟩
  rw [hoff]
  exact hmr _ (h.marked x hle hlt)

lemma restartsMap_eq_false (h : o.timeBased = false) (ddir : Ddir) (r : RandDraws) :
    restartsMap scale o file ddir r = false := by
  rw [restartsMap, h, Bool.false_and]

lemma MapFill.marks (h : MapFill o s d.ddir) (hsc : ScalesInto scale) (hzn : o.zoneSkip = 0)
    (hr : fillIoU scale randMax o false ioHistLen s d = .ok (failed, s')) {b : Nat}
    (hb : s.file.Marked b) : s'.file.Marked b := by
  have ho := h.takes
  obtain ⟨-, -, hfl⟩ := fillIoU_first ⟨ho.rand, ho.seqNr, hzn⟩ hsc h.anew.seqNr hr
  split_ifs at hfl with hrw
  · cases failed with
    | true =>
      -- a request that fails has only searched the map
      obtain ⟨b?, file1, hlk, hfil⟩ := hfl
      obtain ⟨file2, heq | ⟨htm, -⟩, _, _, hsrc⟩ := hlk.searched
      · change s'.file = file1 at hfil
        rw [hfil, hsrc, heq]
        exact (marked_of_fileMap (show FioFile.fileMap _ = s.file.fileMap from rfl)).2 hb
      · cases htm.symm.trans h.once
    | false =>
      obtain ⟨s1, hpc, -, -⟩ := fillIoU_picked hsc hzn hrw hr
      exact (fillIoU_takes ho hsc h.anew hrw (h.mapped.randommap ho)
        (restartsMap_eq_false h.once _ _) hpc hr).2 b hb
  · rwa [hfl.2]

lemma MapFill.setsApart (hfl : MapFill o s d.ddir) (hsc : ScalesInto scale) (hzn : o.zoneSkip = 0)
    (hddi : d.ddir = .write) (hr : fillIoU scale randMax o false ioHistLen s d = .ok (false, s')) :
    SetsApart (MarkedRange o) s.file s'.file s'.ioU := by
  have ho := hfl.takes
  have hrb := o.rwMinBs_pos
  have hrw : ddirRw d.ddir = true := by rw [hddi]; rfl
  obtain ⟨hba, hmin, hwr⟩ := hfl.write hddi
  have hba' : o.baOf d.ddir = o.rwMinBs := by rw [hddi]; exact hba
  have hmn' : o.minBsOf d.ddir = o.rwMinBs := by rw [hddi]; exact hmin
  have hpos : 0 < s'.ioU.buflen.toNat := by
    have hls := (choosesFree_of_eq ho hsc hba' hmn').lasts rfl hrw hfl.anew hfl.mapped hr
    exact pos_of_ne_zero fun hz => hls (BitVec.eq_of_toNat_eq hz)
  obtain ⟨s1, hpc, ⟨⟨x, hpl, -⟩, -, -⟩, hmr⟩ := fillIoU_picked hsc hzn hrw hr
  obtain ⟨b, n, ioU, hst, hblk, hfr, -, hcut, htk⟩ :=
    fillIoU_blocks ho hsc hzn hba' hfl.anew hfl.mapped hpc hmr
  have hnew := (fillIoU_takes ho hsc hfl.anew hrw (hfl.mapped.randommap ho)
    (restartsMap_eq_false hfl.once _ _) hpc hr).1
  have hoff : s'.ioU.offset.toNat = s.file.fileOffset.toNat + b * o.rwMinBs.toNat := by
    rw [markMaps_offset hmr, hpl.toNat_offset hwr, ← hst, hpl.offset, BitVec.add_sub_cancel]
  -- every byte of the write lies in a block that was taken for it
  have hby : ∀ y, s'.ioU.offset.toNat ≤ y → y < s'.ioU.offset.toNat + s'.ioU.buflen.toNat →
      (y - s.file.fileOffset.toNat) / o.rwMinBs.toNat ∈ blocksTaken o s1.file s1.ioU := by
    intro y hle hlt
    have hsh := htk.short
    rw [← hcut] at hsh
    refine ⟨n, s'.file, hfr, ?_, ?_⟩
    · rw [hblk, Nat.le_div_iff_mul_le hrb]
      omega
    · rw [hblk, Nat.div_lt_iff_lt_mul hrb, add_mul]
      omega
  refine ⟨hpos, ⟨hpos, ?_, fun y hle hlt => ?_⟩, fun start len h => ?_⟩
  · rw [fillIoU_fileOffset hsc hzn hr, hoff]
    exact Nat.le_add_right _ _
  · rw [fillIoU_fileOffset hsc hzn hr]
    exact (hnew _ (hby y hle hlt)).2
  · -- a byte of both would have a block that is marked and free
    by_contra hcon
    rw [not_or, not_or, not_le, not_le] at hcon
    obtain ⟨-, hlt, hlt'⟩ := hcon
    have hlen := h.pos
    have hmax : max start s'.ioU.offset.toNat < start + len := by omega
    have hmx' : max start s'.ioU.offset.toNat < s'.ioU.offset.toNat + s'.ioU.buflen.toNat := by omega
    exact (hnew _ (hby _ (le_max_right _ _) hmx')).1 (h.marked _ (le_max_left _ _) hmax)

end FioSsd
