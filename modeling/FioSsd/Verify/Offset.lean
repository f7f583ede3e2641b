import FioSsd.Verify.RoundTrip

/-! # `verify_offset` -/

namespace FioSsd

variable (o : ThreadOptions)

def strVerifyOffsetCb (off : BitVec 64) : Option ThreadOptions :=
  if off ≠ 0 ∧ off.toNat < verifyHeaderSize then none
  else some { o with verifyOffset := off.setWidth 32 }

lemma strVerifyOffsetCb_eq_some {o0 o : ThreadOptions} {off : BitVec 64}
    (h : strVerifyOffsetCb o0 off = some o) :
    (off = 0 ∨ verifyHeaderSize ≤ off.toNat) ∧ o.verifyOffset = off.setWidth 32 := by
  unfold strVerifyOffsetCb at h
  split_ifs at h with hsm
  cases h
  refine ⟨?_, rfl⟩
  by_cases hz : off = 0
  · exact .inl hz
  · exact .inr (Nat.not_lt.1 fun hlt => hsm ⟨hz, hlt⟩)

def plainChunk (k : Checksums) (o : ThreadOptions) (d : List UInt8 → Digest (vhdrSize o.verify))
    (w : IoU) (m : Mem) (p num len : Nat) : Mem :=
  fillDigest d (storeHdr k o w m p num len) p (p + hdrSize o.verify) (len - hdrSize o.verify)

/-- The chunk at `p` after two exchanges: where they overlap, the start of the header stands in the
    place of the bytes from `2 * verify_offset` on. -/
def overlappedChunk (m : Mem) (p : Nat) : Mem := fun x =>
  if p + 2 * o.verifyOffset.toNat ≤ x ∧ x < p + o.verifyOffset.toNat + hdrSize o.verify then
    m (x - 2 * o.verifyOffset.toNat)
  else m x

def DigestMatches (d : List UInt8 → Digest (vhdrSize o.verify)) (m : Mem)
    (p len : Nat) : Prop :=
  m.load (hdrPriv p) (vhdrSize o.verify) =
    (d (m.load (p + hdrSize o.verify) (len - hdrSize o.verify))).1

instance (o : ThreadOptions) (d : List UInt8 → Digest (vhdrSize o.verify)) (m : Mem) (p len : Nat) :
    Decidable (DigestMatches o d m p len) :=
  inferInstanceAs (Decidable (_ = _))

/-- Chunk `j` of the write `w` has a checksum that does not notice what an overlapping exchange loses. -/
def ChecksumSurvives (k : Checksums) (o : ThreadOptions) (w : IoU) (seed : BitVec 64) (j : Nat) :
    Prop :=
  ∀ d, k.digest? o.verify = some d →
    DigestMatches o d
      (overlappedChunk o
        (plainChunk k o d (fillPattern o w seed) (fillPattern o w seed).buf (j * getHdrInc o w)
          (j % 2 ^ 32) (getHdrInc o w))
        (j * getHdrInc o w))
      (j * getHdrInc o w) (getHdrInc o w)

variable {k : Checksums} {o : ThreadOptions} {d : List UInt8 → Digest (vhdrSize o.verify)}
  {w r : IoU} {m m' : Mem} {p q num len s : Nat} {info : MetaInfo} {seed : BitVec 64}

lemma verify_ne_null_of_digest (h : k.digest? o.verify = some d) : o.verify ≠ .verifyNull := by
  intro hnl
  have hso : (k.digest? o.verify).isSome = true := by rw [h]; rfl
  rw [hnl] at hso
  simp [Checksums.digest?] at hso

lemma DigestMatches.congr (hft : hdrSize o.verify ≤ len) (h : ∀ i < len, m (p + i) = m' (q + i)) :
    DigestMatches o d m p len ↔ DigestMatches o d m' q len := by
  have hsz : hdrSize o.verify = vhdrSize o.verify + verifyHeaderSize := rfl
  have hpr : m.load (hdrPriv p) (vhdrSize o.verify) = m'.load (hdrPriv q) (vhdrSize o.verify) := by
    apply Mem.load_congr
    intro i hi
    unfold hdrPriv
    rw [add_assoc, add_assoc]
    exact h _ (by omega)
  have hdt : m.load (p + hdrSize o.verify) (len - hdrSize o.verify) =
      m'.load (q + hdrSize o.verify) (len - hdrSize o.verify) := by
    apply Mem.load_congr
    intro i hi
    rw [add_assoc, add_assoc]
    exact h _ (by omega)
  unfold DigestMatches
  rw [hpr, hdt]

lemma populateHdr_eq_plainChunk (hd : k.digest? o.verify = some d)
    (h : hdrSize o.verify ≤ len) (hlen : len < 2 ^ 32) : populateHdr k o info w m p num len =
      .ok (swapHdr o (plainChunk k o d w m p num len) p (hdrSize o.verify)) := by
  have hdtl : (len + 2 ^ 32 - hdrSize o.verify) % 2 ^ 32 = len - hdrSize o.verify := by omega
  rw [populateHdr, plainChunk, fillByType_digest w _ p num len hd, hdtl]
  rfl

lemma plainChunk_headed (w : IoU) (m : Mem) (p num : Nat) (hd : k.digest? o.verify = some d)
    (hft : hdrSize o.verify ≤ len) (h : len < 2 ^ 32) :
    Headed k o w (plainChunk k o d w m p num len) p num len := by
  have hdtl : (len + 2 ^ 32 - hdrSize o.verify) % 2 ^ 32 = len - hdrSize o.verify := by omega
  have hfl : fillByType k o ⟨0, 0, 0, 0⟩ w (storeHdr k o w m p num len) p num len =
      .ok (plainChunk k o d w m p num len) := by
    rw [fillByType_digest w _ p num len hd, hdtl]
    rfl
  exact fillByType_headed w _ p num len (storeHdr_hdrAt w m p num len h) hft h hfl

lemma plainChunk_congr (h : ∀ x, p ≤ x → m x = m' x) {x : Nat} (hx : p ≤ x) :
    plainChunk k o d w m p num len x = plainChunk k o d w m' p num len x := by
  have hhdr : ∀ y, p ≤ y → storeHdr k o w m p num len y = storeHdr k o w m' p num len y :=
    fun y hy => storeHdr_congr h hy
  rw [plainChunk, fillDigest, Mem.load_congr fun i _ => hhdr (p + hdrSize o.verify + i) (by omega)]
  exact Mem.store_congr _ _ (hhdr x hx)

section

variable (hw : WholeChunks o w) (hd : k.digest? o.verify = some d)
  {w' : IoU} {fuel : Nat} (hpop : populateVerifyIoU k o info seed w fuel = .ok w')

include hw hd hpop

lemma swapHdr_populated {j i : Nat} (hj : j * getHdrInc o w < w.buflen.toNat)
    (h : i < getHdrInc o w) :
    swapHdr o w'.buf (j * getHdrInc o w) (hdrSize o.verify) (j * getHdrInc o w + i) =
      overlappedChunk o
        (plainChunk k o d (fillPattern o w seed) (fillPattern o w seed).buf (j * getHdrInc o w)
          (j % 2 ^ 32) (getHdrInc o w)) (j * getHdrInc o w) (j * getHdrInc o w + i) := by
  have hnl := verify_ne_null_of_digest hd
  obtain ⟨m1, m2, heq, hrn, hps⟩ := populateVerifyIoU_chunk hnl hw.inside hw.fits hpop hj
  rw [populateHdr_eq_plainChunk hd hw.fits (getHdrInc_lt o w), Except.ok.injEq] at hrn
  have hchu : ∀ i < getHdrInc o w, w'.buf (j * getHdrInc o w + i) =
      swapHdr o (plainChunk k o d (fillPattern o w seed) (fillPattern o w seed).buf
        (j * getHdrInc o w) (j % 2 ^ 32) (getHdrInc o w)) (j * getHdrInc o w) (hdrSize o.verify)
        (j * getHdrInc o w + i) := by
    intro i h
    rw [hps _ (by omega), ← hrn]
    exact swapHdr_congr hw.inside hw.fits
      (fun i _ => plainChunk_congr heq (Nat.le_add_right _ i)) h
  rw [swapHdr_congr hw.inside hw.fits hchu h, swapHdr_swapHdr_apply]
  rfl

lemma allHdrs_of_accepted (h : o.verifyOffset = 0 ∨ verifyHeaderSize ≤ o.verifyOffset.toNat) :
    AllHdrs k o w w'.buf := by
  intro j hj
  obtain ⟨-, hoff, hvrs⟩ := fillPattern_same (o := o) w seed
  have hpl := (plainChunk_headed (fillPattern o w seed) (fillPattern o w seed).buf
    (j * getHdrInc o w) (j % 2 ^ 32) hd hw.fits (getHdrInc_lt o w)).hdr
  refine (hpl.of_same hoff hvrs).congr fun i hi => ?_
  have hsz := (verifyHeaderSize_le_hdrSize o.verify).trans hw.fits
  rw [swapHdr_populated hw hd hpop hj (by omega)]
  unfold overlappedChunk
  rcases h with h0 | hlow
  · simp [h0]
  · rw [if_neg (by omega)]

lemma ReadsBack.returns_zero_iff_survives
    (hacc : o.verifyOffset = 0 ∨ verifyHeaderSize ≤ o.verifyOffset.toNat)
    (hread : ReadsBack o w w'.buf r s) (hexp : Expected o w r s) :
    Returns k o r 0 ↔ ∀ l < chunks o r, o.verifyFatal = true ∨ l + 1 = chunks o r →
      ChecksumSurvives k o w seed (s + l) := by
  have hnl := verify_ne_null_of_digest hd
  have hall := allHdrs_of_accepted hw hd hpop hacc
  rw [hread.returns_zero_iff_byType hw hall hnl hexp]
  refine forall₃_congr fun l hl _ => ?_
  have hst : (s + l) * getHdrInc o w < w.buflen.toNat := by
    have := (hread.chunk_le hw hl).1
    have := hw.inc_pos
    omega
  rw [(hread.hdrAt hw hall hl).verifyByType_eq_zero_iff hd
    (Nat.mod_eq_of_lt (hread.small hw hl).2.2) hw.fits (getHdrInc_lt o w)]
  have hby : ∀ i < getHdrInc o w, _ := fun i hi =>
    (hread.chunk_bytes hw hl hi).symm.trans (swapHdr_populated hw hd hpop hst hi)
  have hmt := DigestMatches.congr (d := d) hw.fits hby
  constructor
  · intro h d' hd'
    cases hd.symm.trans hd'
    exact hmt.1 h
  · exact fun h => hmt.2 (h d hd)

end

lemma checksumSurvives_of_apart (h : hdrSize o.verify ≤ getHdrInc o w)
    (hap : o.verifyOffset = 0 ∨ hdrSize o.verify ≤ o.verifyOffset.toNat) (j : Nat) :
    ChecksumSurvives k o w seed j := by
  intro d hd
  have hpl := (plainChunk_headed (fillPattern o w seed) (fillPattern o w seed).buf
    (j * getHdrInc o w) (j % 2 ^ 32) hd h (getHdrInc_lt o w)).digest d hd
  refine (DigestMatches.congr h fun i _ => ?_).1 hpl
  unfold overlappedChunk
  rcases hap with h0 | hlow
  · simp [h0]
  · rw [if_neg (by omega)]

/-- **When `verify_offset` is transparent**: exactly when the distance is 0, or at least the size of
    the header with its checksum, or the checksums of the chunks that count do not notice the bytes
    that are lost. -/
theorem verifyOffset_returns_iff (k : Checksums) (info : MetaInfo) (seed : BitVec 64)
    {o₀ : ThreadOptions} {off : BitVec 64} (hcb : strVerifyOffsetCb o₀ off = some o)
    (hsum : o.verify.isChecksum = true) (hlt : w.buflen.toNat < 2 ^ 32)
    (hdvd : getHdrInc o w ∣ w.buflen.toNat) (hroom : off.toNat + hdrSize o.verify ≤ getHdrInc o w)
    (hblock : hdrSize o.verify + o.verify.blockSize ≤ getHdrInc o w) :
    (∃ fuel w', populateVerifyIoU k o info seed w fuel = .ok w') ∧
      ∀ fuel w' r s, populateVerifyIoU k o info seed w fuel = .ok w' →
        ReadsBack o w w'.buf r s → Expected o w r s →
        (Returns k o r 0 ↔ off = 0 ∨ hdrSize o.verify ≤ off.toNat ∨
          ∀ l < chunks o r, o.verifyFatal = true ∨ l + 1 = chunks o r →
            ChecksumSurvives k o w seed (s + l)) := by
  obtain ⟨hacc, hoff⟩ := strVerifyOffsetCb_eq_some hcb
  have hinc := getHdrInc_lt o w
  -- a distance that fits into a chunk is not truncated
  have hval : o.verifyOffset.toNat = off.toNat := by
    rw [hoff, BitVec.toNat_setWidth, Nat.mod_eq_of_lt (by omega)]
  have hzer : off = 0 ↔ o.verifyOffset = 0 := by
    rw [← BitVec.toNat_inj, ← BitVec.toNat_inj, hval]
    rfl
  rw [hzer] at hacc ⊢
  rw [← hval] at hacc hroom ⊢
  have hw : WholeChunks o w := ⟨hlt, hdvd, (Nat.le_add_right ..).trans hblock, .inr hroom⟩
  obtain ⟨d, hd⟩ := k.exists_digest hsum
  constructor
  · exact populateVerifyIoU_returns (fun h => absurd hsum (by rw [h]; decide)) hw.inc_pos
  · intro fuel w' r s hpop hread hexp
    rw [hread.returns_zero_iff_survives hw hd hpop hacc hexp]
    constructor
    · exact fun h => .inr (.inr h)
    · rintro (h0 | hlow | h)
      · exact fun l _ _ => checksumSurvives_of_apart hw.fits (.inl h0) (s + l)
      · exact fun l _ _ => checksumSurvives_of_apart hw.fits (.inr hlow) (s + l)
      · exact h

/-- `verify=md5` with one header for a request, at the given distance. -/
def offsetOptions (off : BitVec 32) : ThreadOptions := { defaultOptions with
  verify := .verifyMd5, verifyOffset := off, verifyPatternBytes := 1 }

def filled256 : IoU := { write256 with bufFilledLen := 256 }

lemma filled256_readsBack (off : BitVec 32) (m : Mem) :
    ReadsBack (offsetOptions off) filled256 m { filled256 with ddir := .read, buf := m } 0 ∧
      Expected (offsetOptions off) filled256 { filled256 with ddir := .read, buf := m } 0 :=
  ⟨⟨rfl, rfl, .inl ⟨rfl, rfl⟩, fun x _ => by simp⟩, ⟨by simp, fun _ => UniqueOps.isMatch_self _ _⟩⟩

theorem verifyOffset_accepts_72 :
    ∃ fuel w', populateVerifyIoU sumChecksums (offsetOptions 72) ⟨1, 1, 0, 0⟩ 7 filled256 fuel =
        .ok w' ∧
      Returns sumChecksums (offsetOptions 72) { filled256 with ddir := .read, buf := w'.buf } 0 := by
  obtain ⟨⟨fuel, w', hpop⟩, hrd⟩ := verifyOffset_returns_iff (w := filled256) sumChecksums
    ⟨1, 1, 0, 0⟩ 7 (show strVerifyOffsetCb (offsetOptions 0) 72 = some (offsetOptions 72) from rfl)
    rfl (by decide) (by decide) (by decide) (by decide)
  obtain ⟨hread, hexp⟩ := filled256_readsBack 72 w'.buf
  exact ⟨fuel, w', hpop, (hrd fuel w' _ 0 hpop hread hexp).2 (.inr (.inl (by decide)))⟩

/-- At a distance of 64 bytes, which the callback accepts, the start of the header ends up in the data,
    and the md5 sum fails. -/
theorem verifyOffset_rejects_64 :
    strVerifyOffsetCb (offsetOptions 0) 64 = some (offsetOptions 64) ∧
      64 + hdrSize (offsetOptions 64).verify ≤ getHdrInc (offsetOptions 64) filled256 ∧
      ∃ fuel w', populateVerifyIoU sumChecksums (offsetOptions 64) ⟨1, 1, 0, 0⟩ 7 filled256 fuel =
          .ok w' ∧
        ¬Returns sumChecksums (offsetOptions 64) { filled256 with ddir := .read, buf := w'.buf } 0 := by
  have hw : WholeChunks (offsetOptions 64) filled256 :=
    ⟨by decide, by decide, by decide, .inr (by decide)⟩
  have hpop : ∃ fuel w', populateVerifyIoU sumChecksums (offsetOptions 64) ⟨1, 1, 0, 0⟩ 7 filled256
      fuel = .ok w' := populateVerifyIoU_returns (by decide) hw.inc_pos
  obtain ⟨fuel, w', hpop⟩ := hpop
  refine ⟨rfl, by decide, fuel, w', hpop, ?_⟩
  obtain ⟨hread, hexp⟩ := filled256_readsBack 64 w'.buf
  have hone : chunks (offsetOptions 64) { filled256 with ddir := .read, buf := w'.buf } = 1 :=
    show chunks (offsetOptions 64) filled256 = 1 by decide
  have hd : sumChecksums.digest? (offsetOptions 64).verify =
      some (sumDigest (vhdrSize (offsetOptions 64).verify)) := rfl
  rw [hread.returns_zero_iff_survives hw hd hpop (.inr (by decide)) hexp]
  intro hsrv
  have hla := hsrv 0 (by rw [hone]; decide) (.inr hone.symm) _ hd
  exact absurd hla (by decide +kernel)

end FioSsd
