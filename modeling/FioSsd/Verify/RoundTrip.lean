import FioSsd.Verify.Check
import FioSsd.Verify.Populate

/-! # Reading back what was written

`populate_verify_io_u` numbers the chunks of a write from its start, `verify_io_u` those of a read
from the start of the read, which in random-again mode may be any chunk of the write. -/

namespace FioSsd

open Nat

variable {m' : Mem} {b b' l : Nat} {k : Checksums} {o : ThreadOptions} {w r : IoU} {m : Mem}
  {s : Nat}

structure LaidOut (o : ThreadOptions) (w : IoU) : Prop where
  buflen_lt : w.buflen.toNat < 2 ^ 32
  whole : getHdrInc o w ∣ w.buflen.toNat
  fits : hdrSize o.verify ≤ getHdrInc o w
  placed : HeaderPlaced o (getHdrInc o w)

structure WholeChunks (o : ThreadOptions) (w : IoU) : Prop where
  buflen_lt : w.buflen.toNat < 2 ^ 32
  whole : getHdrInc o w ∣ w.buflen.toNat
  fits : hdrSize o.verify ≤ getHdrInc o w
  inside : HeaderInside o (getHdrInc o w)

lemma LaidOut.wholeChunks (h : LaidOut o w) : WholeChunks o w :=
  ⟨h.buflen_lt, h.whole, h.fits, h.placed.inside⟩

def PartOf (o : ThreadOptions) (w r : IoU) (s : Nat) : Prop :=
  s = 0 ∧ r.buflen = w.buflen ∨ o.randomagain = true ∧
    getHdrInc o w ∣ r.buflen.toNat ∧ s * getHdrInc o w + r.buflen.toNat ≤ w.buflen.toNat

structure ReadsBack (o : ThreadOptions) (w : IoU) (m : Mem) (r : IoU) (s : Nat) : Prop where
  ddir : r.ddir = .read
  trimmed : r.trimmed = false
  part : PartOf o w r s
  bytes : ∀ x < r.buflen.toNat, r.buf x = m (s * getHdrInc o w + x)

/-- The read expects what was written: it starts at the offset of chunk `s`, and with `verify_inner`
    its version matches that of the write. -/
def Expected (o : ThreadOptions) (w r : IoU) (s : Nat) : Prop :=
  r.offset = w.offset + BitVec.ofNat 64 (s * getHdrInc o w) ∧
    (o.verifyInner = true → o.uniqueOps.isMatch w.uniqueVersion r.uniqueVersion = true)
deriving Decidable

/-- All chunks of the write are as `populate_verify_io_u` leaves them. -/
def AllWritten (k : Checksums) (o : ThreadOptions) (w : IoU) (m : Mem) : Prop :=
  ∀ j, j * getHdrInc o w < w.buflen.toNat →
    Written k o w m (j * getHdrInc o w) (j % 2 ^ 32) (getHdrInc o w)

def AllHdrs (k : Checksums) (o : ThreadOptions) (w : IoU) (m : Mem) : Prop :=
  ∀ j, j * getHdrInc o w < w.buflen.toNat →
    HdrAt k o w (swapHdr o m (j * getHdrInc o w) (hdrSize o.verify)) (j * getHdrInc o w) (j % 2 ^ 32)
      (getHdrInc o w)

lemma AllWritten.hdrs (h : AllWritten k o w m) : AllHdrs k o w m := fun j hj => (h j hj).hdr

lemma WholeChunks.inc_pos (h : WholeChunks o w) : 0 < getHdrInc o w :=
  lt_of_lt_of_le (by decide) ((verifyHeaderSize_le_hdrSize o.verify).trans h.fits)

lemma LaidOut.inc_pos (h : LaidOut o w) : 0 < getHdrInc o w := h.wholeChunks.inc_pos

lemma ReadsBack.getHdrInc_eq (h : ReadsBack o w m r s) : getHdrInc o r = getHdrInc o w := by
  rcases h.part with ⟨_, hlen⟩ | ⟨hag, _⟩
  · exact getHdrInc_congr hlen
  · unfold getHdrInc
    rw [if_pos hag, if_pos hag]

lemma ReadsBack.checksChunks (h : ReadsBack o w m r s) (hnl : o.verify ≠ .verifyNull) :
    ChecksChunks o r :=
  ⟨hnl, h.ddir, h.trimmed⟩

def chunks (o : ThreadOptions) (r : IoU) : Nat := r.buflen.toNat / getHdrInc o r

lemma chunks_congr {u v : IoU} (h : u.buflen = v.buflen) : chunks o u = chunks o v := by
  unfold chunks
  rw [getHdrInc_congr h, h]

section

variable (hw : WholeChunks o w) (hread : ReadsBack o w m r s)

include hw hread

lemma ReadsBack.chunks_mul : chunks o r * getHdrInc o w = r.buflen.toNat := by
  rw [chunks, hread.getHdrInc_eq]
  rcases hread.part with ⟨_, hlen⟩ | ⟨_, hdvd, _⟩
  · rw [hlen]
    exact Nat.div_mul_cancel hw.whole
  · exact Nat.div_mul_cancel hdvd

lemma ReadsBack.inBuf_iff (l : Nat) : InBuf o r l ↔ l < chunks o r := by
  have hpos := hw.inc_pos
  rw [InBuf, hread.getHdrInc_eq, ← hread.chunks_mul hw]
  exact Nat.mul_lt_mul_right hpos

lemma ReadsBack.chunk_le (h : l < chunks o r) :
    (s + l) * getHdrInc o w + getHdrInc o w ≤ w.buflen.toNat ∧
      l * getHdrInc o w + getHdrInc o w ≤ r.buflen.toNat := by
  have hend := mul_le_mul_right (getHdrInc o w) (succ_le_of_lt h)
  rw [hread.chunks_mul hw, succ_mul] at hend
  refine ⟨?_, hend⟩
  rw [add_mul]
  rcases hread.part with ⟨hs, hlen⟩ | ⟨_, _, hpr⟩
  · rw [hs, zero_mul, ← hlen]
    omega
  · omega

lemma ReadsBack.small (h : l < chunks o r) :
    s + l < 2 ^ 32 ∧ (s + l) * getHdrInc o w < 2 ^ 32 ∧ l * getHdrInc o w < 2 ^ 32 := by
  obtain ⟨hwr, _⟩ := hread.chunk_le hw h
  have hpos := hw.inc_pos
  have hlt := hw.buflen_lt
  have hnum := Nat.le_mul_of_pos_right (s + l) hpos
  have hle : l * getHdrInc o w ≤ (s + l) * getHdrInc o w := Nat.mul_le_mul_right _ (by omega)
  omega

lemma ReadsBack.chunkBuf_frame (i : Nat) {x : Nat} (h : i * getHdrInc o w ≤ x) :
    chunkBuf o r i x = r.buf x := by
  induction i with
  | zero => rfl
  | succ i ih =>
    rw [succ_mul] at h
    rw [chunkBuf, hread.getHdrInc_eq, swapHdr_frame hw.inside _ (.inr h), ih (by omega)]

lemma ReadsBack.chunk_bytes (hl : l < chunks o r) {i : Nat} (h : i < getHdrInc o w) :
    swapHdr o m ((s + l) * getHdrInc o w) (hdrSize o.verify) ((s + l) * getHdrInc o w + i) =
      chunkBuf o r (l + 1) (l * getHdrInc o w + i) := by
  obtain ⟨_, hin⟩ := hread.chunk_le hw hl
  rw [chunkBuf, hread.getHdrInc_eq]
  refine swapHdr_congr hw.inside hw.fits (fun i h => ?_) h
  rw [hread.chunkBuf_frame hw l (le_add_right _ _), hread.bytes _ (by omega)]
  congr 1
  ring

lemma ReadsBack.hdrAt (h : AllHdrs k o w m) (hl : l < chunks o r) :
    HdrAt k o w (chunkBuf o r (l + 1)) (l * getHdrInc o w) (s + l) (getHdrInc o w) := by
  obtain ⟨hwr, _⟩ := hread.chunk_le hw hl
  have hdr := h (s + l) (by have := hw.inc_pos; omega)
  rw [mod_eq_of_lt (hread.small hw hl).1] at hdr
  refine hdr.congr fun i hi => hread.chunk_bytes hw hl ?_
  have := (verifyHeaderSize_le_hdrSize o.verify).trans hw.fits
  omega

lemma ReadsBack.headed (h : AllWritten k o w m) (hl : l < chunks o r) :
    Headed k o w (chunkBuf o r (l + 1)) (l * getHdrInc o w) (s + l) (getHdrInc o w) := by
  obtain ⟨hwr, _⟩ := hread.chunk_le hw hl
  have hwrt := h (s + l) (by have := hw.inc_pos; omega)
  rw [mod_eq_of_lt (hread.small hw hl).1] at hwrt
  exact Headed.congr hwrt hw.fits fun i hi => hread.chunk_bytes hw hl hi

end

lemma patternRuns_congr {patternSize len : Nat} (h : ∀ x < len, m (b + x) = m' (b' + x))
    (fuel i mod : Nat) :
    patternRuns o patternSize len m b fuel i mod = patternRuns o patternSize len m' b' fuel i mod := by
  induction fuel generalizing i mod with
  | zero => rfl
  | succ fuel ih =>
    have hld : m.load (b + i) (min (patternSize - mod) (len - i)) =
        m'.load (b' + i) (min (patternSize - mod) (len - i)) := by
      apply Mem.load_congr
      intro x hx
      rw [add_assoc, add_assoc]
      exact h (i + x) (by omega)
    simp [patternRuns, hld, ih]

lemma patternBytes_congr {len : Nat} (h : ∀ x < len, m (b + x) = m' (b' + x)) (left i mod : Nat)
    (hlf : left ≤ len - i) :
    patternBytes o m b left i mod = patternBytes o m' b' left i mod := by
  induction left generalizing i mod with
  | zero => rfl
  | succ left ih =>
    rw [patternBytes, patternBytes, h i (by omega), ih (i + 1) _ (by omega)]

lemma patternLoops_congr {len : Nat} (h : ∀ x < len, m (b + x) = m' (b' + x))
    (patternSize mod : Nat) :
    patternLoops o patternSize len m b mod = patternLoops o patternSize len m' b' mod := by
  rw [patternLoops, patternRuns_congr h]
  exact patternBytes_congr h _ _ _ le_rfl

lemma verifyIoUPattern_congr {p p' : Nat} (hinc : getHdrInc o r = getHdrInc o w)
    (hsz : hdrSize o.verify ≤ getHdrInc o w) (h : ∀ i < getHdrInc o w, m (p + i) = m' (p' + i)) :
    verifyIoUPattern o w m p = verifyIoUPattern o r m' p' := by
  have hlt := getHdrInc_lt o w
  have hdt : ∀ x < (getHdrInc o w + 2 ^ 32 - hdrSize o.verify) % 2 ^ 32,
      m (p + hdrSize o.verify + x) = m' (p' + hdrSize o.verify + x) := by
    intro x hx
    rw [add_assoc, add_assoc]
    exact h _ (by omega)
  unfold verifyIoUPattern
  rw [hinc]
  exact patternLoops_congr hdt _ _

lemma verifyByType_eq_verifyDigest {t : VerifyType} {d : List UInt8 → Digest (vhdrSize t)}
    {p hdrNum : Nat} (ht : VerifyType.ofNat? (readHdr m p).verifyType = some t)
    (h : k.digest? t = some d) : verifyByType k o r m p hdrNum = verifyDigest d t m p hdrNum := by
  rw [verifyByType, ht]
  cases t with
  | verifyNone | verifyMeta | verifyPattern | verifyNull => exact absurd h (by simp [Checksums.digest?])
  | _ =>
    cases h
    rfl

section

variable {p num len hdrNum : Nat} (hdr : HdrAt k o w m p num len)

include hdr

lemma HdrAt.verifyHeader_eq (h : len ≤ r.buflen.toNat) : verifyHeader k r m p = true := by
  simp [verifyHeader, hdr.magic, hdr.len, hdr.crc32, h, Bool.and_self]

lemma HdrAt.checkChunk_eq (h : len ≤ r.buflen.toNat) :
    checkChunk k o r m p hdrNum =
      if w.offset + BitVec.ofNat 64 (num * len % 2 ^ 32) =
          r.offset + BitVec.ofNat 64 (hdrNum * getHdrInc o r % 2 ^ 32) ∧
          (o.verifyInner = true → o.uniqueOps.isMatch w.uniqueVersion r.uniqueVersion = true) then
        some (verifyByType k o r m p hdrNum) else none := by
  have hvrs : (o.verifyInner && !o.uniqueOps.isMatch (readHdr m p).uniqueVersion
      r.uniqueVersion) = true ↔
      ¬(o.verifyInner = true → o.uniqueOps.isMatch w.uniqueVersion r.uniqueVersion = true) := by
    cases hin : o.verifyInner with
    | true => simp [hdr.version hin]
    | false => simp
  simp only [checkChunk, hdr.verifyHeader_eq h, hdr.offset, hvrs, Bool.not_true, Bool.false_eq_true,
    if_false]
  split_ifs with h1 h2 h3 h4 <;> first | rfl | tauto

lemma HdrAt.type : VerifyType.ofNat? (readHdr m p).verifyType = some o.verify := by
  rw [hdr.verifyType, VerifyType.ofNat?_toNat]

variable {d : List UInt8 → Digest (vhdrSize o.verify)}

lemma HdrAt.verifyByType_eq_zero_iff
    (hd : k.digest? o.verify = some d) (hp : hdrNum * len % 2 ^ 32 = p) (h : hdrSize o.verify ≤ len)
    (hlen : len < 2 ^ 32) :
    verifyByType k o r m p hdrNum = 0 ↔ m.load (hdrPriv p) (vhdrSize o.verify) =
      (d (m.load (p + hdrSize o.verify) (len - hdrSize o.verify))).1 := by
  have hdtl : (len + 2 ^ 32 - hdrSize o.verify) % 2 ^ 32 = len - hdrSize o.verify := by omega
  rw [verifyByType_eq_verifyDigest hdr.type hd]
  simp only [verifyDigest, ioUVerifyOff, dataLen, hdr.len, hp, hdtl]
  split_ifs with hmt
  · exact iff_of_true rfl hmt
  · exact iff_of_false (by decide) hmt

end

section

variable {p num len hdrNum : Nat} (hch : Headed k o w m p num len)

include hch

lemma verifyByType_digest
    (hd : k.digest? o.verify = some d) (hp : hdrNum * len % 2 ^ 32 = p) (h : hdrSize o.verify ≤ len)
    (hlen : len < 2 ^ 32) : verifyByType k o r m p hdrNum = 0 := by
  rw [hch.hdr.verifyByType_eq_zero_iff hd hp h hlen]
  exact hch.digest d hd

lemma verifyByType_meta_eq_zero_iff (hmt : o.verify = .verifyMeta) :
    verifyByType k o r m p hdrNum = 0 ↔
      w.offset + BitVec.ofNat 64 (num * o.verifyInterval.toNat % 2 ^ 32) =
        r.offset + BitVec.ofNat 64 (hdrNum * o.verifyInterval.toNat % 2 ^ 32) ∧
      (o.verifyPatternBytes = 0 ∨ verifyIoUPattern o r m p = 0) := by
  rw [verifyByType, hch.hdr.type, hmt]
  simp only [verifyIoUMeta, hch.metaOffset hmt]
  split_ifs with hptr hagr hagr
  · rw [zero_or]
    exact ⟨fun h => ⟨hagr, .inr h⟩, fun h => h.2.resolve_left hptr⟩
  · exact ⟨fun h => absurd (or_eq_zero_iff.1 h).1 (by decide), fun h => absurd h.1 hagr⟩
  · exact ⟨fun _ => ⟨hagr, .inl (not_not.1 hptr)⟩, fun _ => rfl⟩
  · exact ⟨fun h => absurd h (by decide), fun h => absurd h.1 hagr⟩

lemma verifyByType_pattern (h : o.verify = .verifyPattern) :
    verifyByType k o r m p hdrNum = verifyIoUPattern o r m p := by
  rw [verifyByType, hch.hdr.type, h]

lemma verifyByType_none (h : o.verify = .verifyNone) : verifyByType k o r m p hdrNum = einval := by
  rw [verifyByType, hch.hdr.type, h]

end

variable (o)

/-- The position `fill_meta` stores for chunk `s + l` of a write is the one `verify_io_u_meta` computes
    for chunk `l` of a read that starts at chunk `s`. -/
def MetaAgrees (inc s l : Nat) : Prop :=
  (s + l) * o.verifyInterval.toNat % 2 ^ 32 = s * inc + l * o.verifyInterval.toNat % 2 ^ 32
deriving Decidable

def PatternHolds (w : IoU) (m : Mem) (j : Nat) : Prop :=
  verifyIoUPattern o w (swapHdr o m (j * getHdrInc o w) (hdrSize o.verify)) (j * getHdrInc o w) = 0

/-- What the type-specific check asks of chunk `l` of a read that starts at chunk `s` of the write.
-/
def TypePasses (w : IoU) (m : Mem) (s l : Nat) : Prop :=
  match o.verify with
  | .verifyMeta => MetaAgrees o (getHdrInc o w) s l ∧
      (o.verifyPatternBytes = 0 ∨ PatternHolds o w m (s + l))
  | .verifyPattern => PatternHolds o w m (s + l)
  | .verifyNone => False
  | _ => True

/-- The type-specific checks pass that count: of the last chunk, with `verify_fatal` of each. -/
def PartPasses (w : IoU) (m : Mem) (r : IoU) (s : Nat) : Prop :=
  ∀ l < chunks o r, o.verifyFatal = true ∨ l + 1 = chunks o r → TypePasses o w m s l

variable {o}

lemma typePasses_of_isChecksum (h : o.verify.isChecksum = true) : TypePasses o w m s l := by
  unfold TypePasses
  cases hv : o.verify with
  | verifyNone | verifyMeta | verifyPattern => rw [hv] at h; exact absurd h (by decide)
  | _ => trivial

lemma typePasses_meta_iff (hmt : o.verify = .verifyMeta) (h : o.verifyPatternBytes = 0) :
    TypePasses o w m s l ↔ MetaAgrees o (getHdrInc o w) s l := by
  unfold TypePasses
  simp [hmt, h]

section

variable (hw : WholeChunks o w) (hread : ReadsBack o w m r s) (hall : AllHdrs k o w m)

include hw hread

lemma ReadsBack.offset_iff (h : l < chunks o r) :
    w.offset + BitVec.ofNat 64 ((s + l) * getHdrInc o w % 2 ^ 32) =
      r.offset + BitVec.ofNat 64 (l % 2 ^ 32 * getHdrInc o r % 2 ^ 32) ↔
    r.offset = w.offset + BitVec.ofNat 64 (s * getHdrInc o w) := by
  obtain ⟨hnum, hwr, hds⟩ := hread.small hw h
  rw [hread.getHdrInc_eq, mod_eq_of_lt (show l < 2 ^ 32 by omega), mod_eq_of_lt hwr,
    mod_eq_of_lt hds, add_mul, BitVec.ofNat_add, ← BitVec.add_assoc, BitVec.add_left_inj]
  exact eq_comm

lemma ReadsBack.metaAgrees_iff (h : Expected o w r s) (hl : l < chunks o r) :
    w.offset + BitVec.ofNat 64 ((s + l) * o.verifyInterval.toNat % 2 ^ 32) =
      r.offset + BitVec.ofNat 64 (l * o.verifyInterval.toNat % 2 ^ 32) ↔
    MetaAgrees o (getHdrInc o w) s l := by
  have hs : s * getHdrInc o w < 2 ^ 32 := by
    have hsm := (hread.small hw hl).2.1
    rw [add_mul] at hsm
    omega
  rw [MetaAgrees, h.1, BitVec.add_assoc, BitVec.add_right_inj, ← BitVec.ofNat_add,
    ← BitVec.toNat_inj, BitVec.toNat_ofNat, BitVec.toNat_ofNat]
  omega

lemma ReadsBack.patternHolds_iff (h : l < chunks o r) :
    verifyIoUPattern o r (chunkBuf o r (l + 1)) (l * getHdrInc o w) = 0 ↔
      PatternHolds o w m (s + l) := by
  rw [PatternHolds,
    verifyIoUPattern_congr hread.getHdrInc_eq hw.fits fun _ hi => hread.chunk_bytes hw h hi]

include hall

lemma chunkCheck_readsBack (h : l < chunks o r) :
    chunkCheck k o r l = if Expected o w r s then
      some (verifyByType k o r (chunkBuf o r (l + 1)) (l * getHdrInc o w) l) else none := by
  have hlen : getHdrInc o w ≤ r.buflen.toNat := by
    have := (hread.chunk_le hw h).2
    omega
  rw [chunkCheck, hread.getHdrInc_eq, (hread.hdrAt hw hall h).checkChunk_eq hlen]
  simp only [hread.offset_iff hw h]
  rw [mod_eq_of_lt (show l < 2 ^ 32 by have := hread.small hw h; omega)]
  rfl

lemma ReadsBack.returns_zero_iff_byType (h : o.verify ≠ .verifyNull) (hexp : Expected o w r s) :
    Returns k o r 0 ↔ ∀ l < chunks o r, o.verifyFatal = true ∨ l + 1 = chunks o r →
      verifyByType k o r (chunkBuf o r (l + 1)) (l * getHdrInc o w) l = 0 := by
  have hgd : ∀ l < chunks o r, chunkCheck k o r l =
      some (verifyByType k o r (chunkBuf o r (l + 1)) (l * getHdrInc o w) l) := by
    intro l hl
    rw [chunkCheck_readsBack hw hread hall hl, if_pos hexp]
  rw [returns_iff_of_good (hread.checksChunks h) (hread.inBuf_iff hw) hgd, lastResult_eq_zero_iff]

end

section

variable (hlaid : LaidOut o w) (hread : ReadsBack o w m r s) (hall : AllWritten k o w m)

include hlaid hread hall

lemma ReadsBack.returns_of_not_expected (hnl : o.verify ≠ .verifyNull) (hexp : ¬Expected o w r s)
    (hne : r.buflen ≠ 0) {ret : Nat} :
    Returns k o r ret ↔ eilseq = ret := by
  have hinb := hread.inBuf_iff hlaid.wholeChunks
  have hpos : 0 < chunks o r := by
    rw [← hinb]
    unfold InBuf
    have : r.buflen.toNat ≠ (0#64).toNat := fun h => hne (BitVec.toNat_inj.1 h)
    simp only [BitVec.toNat_ofNat] at this
    omega
  refine returns_iff_of_bad (hread.checksChunks hnl) ((hinb 0).2 hpos) ?_
  rw [chunkCheck_readsBack hlaid.wholeChunks hread hall.hdrs hpos, if_neg hexp]

lemma ReadsBack.verifyByType_eq_zero_iff (h : o.verify ≠ .verifyNull) (hexp : Expected o w r s)
    (hl : l < chunks o r) :
    verifyByType k o r (chunkBuf o r (l + 1)) (l * getHdrInc o w) l = 0 ↔ TypePasses o w m s l := by
  have hw := hlaid.wholeChunks
  have hch := hread.headed hw hall hl
  by_cases hsum : o.verify.isChecksum
  · obtain ⟨d, hd⟩ := k.exists_digest hsum
    rw [verifyByType_digest hch hd (mod_eq_of_lt (hread.small hw hl).2.2) hlaid.fits
      (getHdrInc_lt o w)]
    exact ⟨fun _ => typePasses_of_isChecksum hsum, fun _ => rfl⟩
  · unfold TypePasses
    cases hv : o.verify with
    | verifyMeta =>
      rw [verifyByType_meta_eq_zero_iff hch hv, hread.metaAgrees_iff hw hexp hl,
        hread.patternHolds_iff hw hl]
    | verifyPattern => rw [verifyByType_pattern hch hv, hread.patternHolds_iff hw hl]
    | verifyNone =>
      rw [verifyByType_none hch hv]
      simp [einval]
    | verifyNull => exact absurd hv h
    | _ => exact absurd (by rw [hv]; rfl) hsum

/-- **A read that expects what was written** passes exactly when the chunks that count pass their
    type-specific check. -/
lemma ReadsBack.returns_zero_iff (hnl : o.verify ≠ .verifyNull) (hexp : Expected o w r s) :
    Returns k o r 0 ↔ PartPasses o w m r s := by
  rw [hread.returns_zero_iff_byType hlaid.wholeChunks hall.hdrs hnl hexp]
  constructor
  · intro h l hl hcnt
    exact (hread.verifyByType_eq_zero_iff hlaid hall hnl hexp hl).1 (h l hl hcnt)
  · intro h l hl hcnt
    exact (hread.verifyByType_eq_zero_iff hlaid hall hnl hexp hl).2 (h l hl hcnt)

end

variable {info : MetaInfo} {seed : BitVec 64}

lemma LaidOut.allWritten (hlaid : LaidOut o w) (hnl : o.verify ≠ .verifyNull) {w' : IoU}
    {fuel : Nat} (h : populateVerifyIoU k o info seed w fuel = .ok w') : AllWritten k o w w'.buf :=
  fun _ hj => populateVerifyIoU_written hnl hlaid.placed hlaid.fits h hj

/-- **Writes and reads agree.** Whatever part of the write is read back: if the read expects the
    offset and the version that were written, `verify_io_u` returns 0, and otherwise `EILSEQ`. -/
theorem populate_verifyIoU_roundTrip (k : Checksums) (info : MetaInfo) (seed : BitVec 64)
    (hsum : o.verify.isChecksum = true) (hlaid : LaidOut o w) :
    (∃ fuel w', populateVerifyIoU k o info seed w fuel = .ok w') ∧
      ∀ fuel w' r s, populateVerifyIoU k o info seed w fuel = .ok w' → ReadsBack o w w'.buf r s →
        (Expected o w r s → Returns k o r 0) ∧
        (¬Expected o w r s → r.buflen ≠ 0 → Returns k o r eilseq) := by
  have hno : o.verify ≠ .verifyNone := fun h => absurd hsum (by rw [h]; decide)
  have hnl : o.verify ≠ .verifyNull := fun h => absurd hsum (by rw [h]; decide)
  constructor
  · exact populateVerifyIoU_returns hno hlaid.inc_pos
  · intro fuel w' r s hpop hread
    have hall := hlaid.allWritten hnl hpop
    constructor
    · intro hexp
      exact (hread.returns_zero_iff hlaid hall hnl hexp).2 fun _ _ _ => typePasses_of_isChecksum hsum
    · exact fun hexp hne => (hread.returns_of_not_expected hlaid hall hnl hexp hne).2 rfl

def write256 : IoU := { ddir := .write, buflen := 256 }

lemma write256_laidOut : LaidOut md5Options write256 := ⟨by decide, by decide, by decide, .inl rfl⟩

theorem populate_verifyIoU_roundTrip_md5 :
    ∃ fuel w', populateVerifyIoU sumChecksums md5Options ⟨1, 1, 0, 0⟩ 7 write256 fuel = .ok w' ∧
      Returns sumChecksums md5Options { write256 with ddir := .read, buf := w'.buf } 0 ∧
      Returns sumChecksums md5Options { write256 with ddir := .read, buf := w'.buf, offset := 512 }
        eilseq := by
  obtain ⟨⟨fuel, w', hpop⟩, hrd⟩ :=
    populate_verifyIoU_roundTrip sumChecksums ⟨1, 1, 0, 0⟩ 7 rfl write256_laidOut
  have heq : ∀ offset, ReadsBack md5Options write256 w'.buf
      { write256 with ddir := .read, buf := w'.buf, offset := offset } 0 := fun offset =>
    ⟨rfl, rfl, .inl ⟨rfl, rfl⟩, fun x _ => by simp⟩
  refine ⟨fuel, w', hpop, ?_, ?_⟩
  · exact (hrd fuel w' _ 0 hpop (heq 0)).1 ⟨rfl, fun _ => rfl⟩
  · refine (hrd fuel w' _ 0 hpop (heq 512)).2 (fun hexp => ?_) (show (256 : BitVec 64) ≠ 0 by decide)
    exact absurd (show (512 : BitVec 64) = 0 from hexp.1) (by decide)

/-- **When a part of a write passes `verify=meta`**: for the last chunk of the read, or with
    `verify_fatal` for all, the position counted from the start of the write agrees with the one
    counted from the start of the read. -/
theorem verifyIoU_meta_returns_iff (k : Checksums) (info : MetaInfo) (seed : BitVec 64)
    (hmeta : o.verify = .verifyMeta) (hagain : o.randomagain = true)
    (hpattern : o.verifyPatternBytes = 0) (hlaid : LaidOut o w) :
    (∃ fuel w', populateVerifyIoU k o info seed w fuel = .ok w') ∧
      ∀ fuel w' r s, populateVerifyIoU k o info seed w fuel = .ok w' → ReadsBack o w w'.buf r s →
        Expected o w r s → (Returns k o r 0 ↔ ∀ l < chunks o r,
          o.verifyFatal = true ∨ l + 1 = chunks o r → MetaAgrees o o.rwMinBs.toNat s l) := by
  have hnl : o.verify ≠ .verifyNull := by rw [hmeta]; decide
  have hinc : getHdrInc o w = o.rwMinBs.toNat := if_pos hagain
  constructor
  · exact populateVerifyIoU_returns (by rw [hmeta]; decide) hlaid.inc_pos
  · intro fuel w' r s hpop hread hexp
    have hall := hlaid.allWritten hnl hpop
    rw [hread.returns_zero_iff hlaid hall hnl hexp]
    unfold PartPasses
    simp [typePasses_meta_iff hmeta hpattern, hinc]

variable (interval : BitVec 32)

/-- `verify=meta` in random-again mode with 4k blocks and the given `verify_interval`. -/
def metaOptions : ThreadOptions := { defaultOptions with
  verify := .verifyMeta, randomagain := true, verifyInterval := interval }

def writeTwo : IoU := { ddir := .write, buflen := 8192 }

def readSecond (m : Mem) : IoU :=
  { buflen := 4096, offset := 4096, buf := fun x => m (4096 + x) }

lemma writeTwo_laidOut : LaidOut (metaOptions interval) writeTwo :=
  ⟨by decide, show 4096 ∣ 8192 by decide, show 88 ≤ 4096 by decide, .inl rfl⟩

lemma readSecond_readsBack (m : Mem) :
    ReadsBack (metaOptions interval) writeTwo m (readSecond m) 1 ∧
      Expected (metaOptions interval) writeTwo (readSecond m) 1 ∧
      chunks (metaOptions interval) (readSecond m) = 1 := by
  have hinc : getHdrInc (metaOptions interval) writeTwo = 4096 := rfl
  have hin' : getHdrInc (metaOptions interval) (readSecond m) = 4096 := rfl
  have hlen : (readSecond m).buflen.toNat = 4096 := rfl
  refine ⟨⟨rfl, rfl, .inr ⟨rfl, ?_, ?_⟩, fun x _ => ?_⟩, ⟨?_, fun _ => rfl⟩, ?_⟩
  · rw [hinc, hlen]
  · rw [hinc, hlen]
    decide
  · rw [hinc]
    rfl
  · rw [hinc]
    rfl
  · rw [chunks, hin', hlen]

/-- With `verify_interval=512` and 4k blocks the second block of a write, read back unchanged, fails. -/
theorem verifyIoU_meta_rejects_second_block :
    ∃ fuel w', populateVerifyIoU sumChecksums (metaOptions 512) ⟨1, 1, 0, 0⟩ 7 writeTwo fuel = .ok w' ∧
      ReadsBack (metaOptions 512) writeTwo w'.buf (readSecond w'.buf) 1 ∧
      Expected (metaOptions 512) writeTwo (readSecond w'.buf) 1 ∧
      ¬Returns sumChecksums (metaOptions 512) (readSecond w'.buf) 0 := by
  have hlaid := writeTwo_laidOut 512
  have hnl : (metaOptions 512).verify ≠ .verifyNull := by decide
  have hpop : ∃ fuel w', populateVerifyIoU sumChecksums (metaOptions 512) ⟨1, 1, 0, 0⟩ 7 writeTwo
      fuel = .ok w' := populateVerifyIoU_returns (by decide) (by decide)
  obtain ⟨fuel, w', hpop⟩ := hpop
  obtain ⟨hread, hexp, hone⟩ := readSecond_readsBack 512 w'.buf
  have hall := hlaid.allWritten hnl hpop
  refine ⟨fuel, w', hpop, hread, hexp, ?_⟩
  rw [hread.returns_zero_iff hlaid hall hnl hexp]
  intro hpas
  -- chunk 1 stored 1 * 512, and the check of chunk 0 of the read expects 4096 + 0
  have hagr := (typePasses_meta_iff rfl rfl).1 (hpas 0 (by rw [hone]; decide) (.inr hone.symm))
  exact absurd (show MetaAgrees (metaOptions 512) 4096 1 0 from hagr) (by decide)

theorem verifyIoU_meta_accepts_second_block :
    ∃ fuel w', populateVerifyIoU sumChecksums (metaOptions 4096) ⟨1, 1, 0, 0⟩ 7 writeTwo fuel = .ok w' ∧
      Returns sumChecksums (metaOptions 4096) (readSecond w'.buf) 0 := by
  obtain ⟨⟨fuel, w', hpop⟩, hrd⟩ := verifyIoU_meta_returns_iff sumChecksums ⟨1, 1, 0, 0⟩ 7
    (show (metaOptions 4096).verify = .verifyMeta from rfl) rfl rfl (writeTwo_laidOut 4096)
  obtain ⟨hread, hexp, hone⟩ := readSecond_readsBack 4096 w'.buf
  refine ⟨fuel, w', hpop, (hrd fuel w' _ 1 hpop hread hexp).2 fun l hl _ => ?_⟩
  obtain rfl : l = 0 := by omega
  decide

end FioSsd
