import FioSsd.Verify.Check

/-! # The bytes a checksum covers -/

namespace FioSsd

variable (k : Checksums) (o : ThreadOptions) (ioU : IoU)

/-- The chunk loop gets to the chunk at `p`: its number, the buffer and the value of `ret` then. -/
inductive Visits : Nat → Nat → Mem → Nat → Prop
  | start : ChecksChunks o ioU → Visits 0 0 ioU.buf 0
  | next {p hdrNum ret ret' : Nat} {m : Mem} : Visits p hdrNum m ret → p < ioU.buflen.toNat →
      (ret ≠ 0 && o.verifyFatal) = false →
      checkChunk k o ioU (swapHdr o m p (hdrSize o.verify)) p hdrNum = some ret' →
      Visits (p + getHdrInc o ioU) ((hdrNum + 1) % 2 ^ 32) (swapHdr o m p (hdrSize o.verify)) ret'

/-- A checksum routine is called: `m` is the buffer with the chunk's header swapped back to `p`, and the
    header has passed its checks and asks for the checksum `t`. -/
structure ChecksumCall (m : Mem) (p hdrNum : Nat) (t : VerifyType) : Prop where
  visits : ∃ m₀ ret, Visits k o ioU p hdrNum m₀ ret ∧ p < ioU.buflen.toNat ∧
    (ret ≠ 0 && o.verifyFatal) = false ∧ m = swapHdr o m₀ p (hdrSize o.verify)
  passes : checkChunk k o ioU m p hdrNum ≠ none
  type : VerifyType.ofNat? (readHdr m p).verifyType = some t
  checksum : t.isChecksum = true

/-- The routine gets the length of the data, and its bytes lie in the buffer. -/
def AreaInside (hdr : VerifyHeader) (t : VerifyType) (hdrNum : Nat) : Prop :=
  dataLen hdr t + hdrSize t = hdr.len ∧
    ioUVerifyOff hdr t hdrNum + dataLen hdr t ≤ ioU.buflen.toNat

def LenSound (hdr : VerifyHeader) (t : VerifyType) (hdrNum : Nat) : Prop :=
  hdrSize t ≤ hdr.len ∧ (hdrNum = 0 ∨ hdrNum * hdr.len % 2 ^ 32 + hdr.len ≤ ioU.buflen.toNat)

variable {k o ioU}

/-- `verify_io_u` passes through each of these states. -/
lemma Visits.verifyIoU_eq {p hdrNum ret : Nat} {m : Mem} (h : Visits k o ioU p hdrNum m ret) :
    ∃ rounds, ∀ fuel,
      verifyIoU k o ioU (fuel + rounds) = verifyLoop k o ioU fuel p hdrNum m ret := by
  induction h with
  | start hchecks =>
    exact ⟨0, fun fuel => by simpa [chunkBuf] using verifyIoU_eq_loop hchecks fuel⟩
  | next _ hin hgoes hchunk ih =>
    obtain ⟨rounds, ih⟩ := ih
    refine ⟨rounds + 1, fun fuel => ?_⟩
    rw [Nat.add_comm rounds, ← Nat.add_assoc, ih, verifyLoop, if_pos hin, hgoes]
    simp only [hchunk, Bool.false_eq_true, if_false]

lemma checkChunk_ne_none_iff {m : Mem} {p hdrNum : Nat} :
    checkChunk k o ioU m p hdrNum ≠ none ↔ verifyHeader k ioU m p = true ∧
      (readHdr m p).offset = ioU.offset + BitVec.ofNat 64 (hdrNum * getHdrInc o ioU % 2 ^ 32) ∧
      (o.verifyInner && !o.uniqueOps.isMatch (readHdr m p).uniqueVersion ioU.uniqueVersion) =
        false := by
  unfold checkChunk
  simp only
  split_ifs with hhdr hoff hvrs
  · simp only [Bool.not_eq_true'] at hhdr
    simp [hhdr]
  · exact iff_of_false (by simp) fun h => hoff h.2.1
  · exact iff_of_false (by simp) fun h => nomatch hvrs.symm.trans h.2.2
  · refine iff_of_true (by simp) ⟨by simpa using hhdr, not_not.1 hoff, Bool.eq_false_iff.2 hvrs⟩

lemma readHdr_len_lt (m : Mem) (p : Nat) : (readHdr m p).len < 2 ^ 32 := by
  have h := leNat_lt (m.load (p + 16) 4)
  rw [Mem.length_load] at h
  exact h

lemma areaInside_iff {hdr : VerifyHeader} {t : VerifyType} {hdrNum : Nat} (hlen : hdr.len < 2 ^ 32)
    (hle : hdr.len ≤ ioU.buflen.toNat) :
    AreaInside ioU hdr t hdrNum ↔ LenSound ioU hdr t hdrNum := by
  have hsz := hdrSize_le_swap t
  have hfr : hdrNum = 0 → hdrNum * hdr.len % 2 ^ 32 = 0 := by
    intro h
    rw [h, zero_mul, Nat.zero_mod]
  unfold AreaInside LenSound ioUVerifyOff dataLen
  omega

/-- **When verification stays inside the buffer**, whatever the disk holds: exactly when every
    header whose checksum is computed gives a length that covers the header, and the lengths up to
    its chunk fit. -/
theorem checksumArea_inside_iff (k : Checksums) (o : ThreadOptions) (ioU : IoU) :
    (∀ m p hdrNum t, ChecksumCall k o ioU m p hdrNum t → AreaInside ioU (readHdr m p) t hdrNum) ↔
      ∀ m p hdrNum t, ChecksumCall k o ioU m p hdrNum t → LenSound ioU (readHdr m p) t hdrNum := by
  refine forall₄_congr fun m p hdrNum t => forall_congr' fun hcl => ?_
  have hhdr := (checkChunk_ne_none_iff.1 hcl.passes).1
  simp only [verifyHeader, Bool.and_eq_true, decide_eq_true_eq] at hhdr
  exact areaInside_iff (readHdr_len_lt m p) hhdr.1.2

/-- A read of one chunk whose header says that it has 8 bytes. -/
def shortHeaderRead : IoU := {
  buflen := 128
  buf := fun a => match a with
    | 0 => 0xca
    | 1 => 0xac
    | 2 => 1
    | 16 => 8
    | 32 => 0x58
    | 33 => 0xae
    | 34 => 0x0f
    | 35 => 0x1d
    | _ => 0 }

/-- Its md5 sum is computed over almost 4 GiB from byte 72 of a buffer of 128 bytes on. -/
theorem checksumArea_wraps :
    ∃ m, ChecksumCall sumChecksums md5Options shortHeaderRead m 0 0 .verifyMd5 ∧
      ioUVerifyOff (readHdr m 0) .verifyMd5 0 = 72 ∧
      dataLen (readHdr m 0) .verifyMd5 = 2 ^ 32 - 64 ∧
      ¬AreaInside shortHeaderRead (readHdr m 0) .verifyMd5 0 := by
  have hvst : Visits sumChecksums md5Options shortHeaderRead 0 0 shortHeaderRead.buf 0 :=
    .start ⟨by decide, rfl, rfl⟩
  have hlen : (readHdr shortHeaderRead.buf 0).len = 8 := by decide +kernel
  refine ⟨shortHeaderRead.buf, ⟨⟨_, 0, hvst, by decide, rfl, rfl⟩, ?_, ?_, rfl⟩, ?_, ?_, ?_⟩
  · exact checkChunk_ne_none_iff.2 ⟨by decide +kernel, by decide +kernel, rfl⟩
  · decide +kernel
  · rw [ioUVerifyOff, hlen]
    decide
  · rw [dataLen, hlen]
    decide
  · intro hins
    have hwr := hins.1
    rw [hlen] at hwr
    cases hwr

end FioSsd
