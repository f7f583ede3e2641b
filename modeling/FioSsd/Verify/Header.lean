import FioSsd.Types

/-! # The verify header -/

namespace FioSsd

structure VerifyHeader where
  (magic verifyType : Nat)
  offset : BitVec 64
  len : Nat
  randSeed : BitVec 64
  crc32 : List UInt8
  uniqueVersion : FioUnique
  deriving DecidableEq, Repr

def verifyHeaderSize : Nat := 56

def fioHdrMagic : Nat := 0xacca

variable (m : Mem)

def loadU64 (a : Nat) : BitVec 64 := BitVec.ofNat 64 (leNat (m.load a 8))

/-- The header at address `p`. -/
def readHdr (p : Nat) : VerifyHeader where
  magic := leNat (m.load p 2)
  verifyType := leNat (m.load (p + 2) 2)
  offset := loadU64 m (p + 8)
  len := leNat (m.load (p + 16) 4)
  randSeed := loadU64 m (p + 24)
  crc32 := m.load (p + 32) 4
  uniqueVersion := ⟨loadU64 m (p + 40), loadU64 m (p + 48)⟩

def hdrPriv (p : Nat) : Nat := p + verifyHeaderSize

/-- The size of the checksum header of each type (`struct vhdr_*`). -/
def vhdrSize : VerifyType → Nat
  | .verifyNone | .verifyNull | .verifyPattern => 0
  | .verifyMd5 => 16
  | .verifyCrc64 => 8
  | .verifyCrc32 | .verifyCrc32c | .verifyCrc32cIntel => 4
  | .verifyCrc16 => 2
  | .verifyCrc7 => 1
  | .verifySha256 => 64
  | .verifySha512 => 128
  | .verifyMeta => 32
  | .verifySha1 => 20

variable (t : VerifyType)

def hdrSize : Nat := vhdrSize t + verifyHeaderSize

lemma hdrSize_le_swap : hdrSize t ≤ 200 := by
  cases t <;> decide

lemma verifyHeaderSize_le_hdrSize : verifyHeaderSize ≤ hdrSize t := by
  unfold hdrSize
  omega

abbrev Digest (n : Nat) : Type := { bs : List UInt8 // bs.length = n }

/-- The functions under `crc/`, from the data to the bytes they leave in the checksum header; those
    of `sha256` and `sha512` for data of a block and more (`VerifyType.blockSize`). -/
structure Checksums where
  md5 : List UInt8 → Digest 16
  crc64 : List UInt8 → Digest 8
  (crc32 crc32c : List UInt8 → Digest 4)
  crc16 : List UInt8 → Digest 2
  crc7 : List UInt8 → Digest 1
  sha256 : List UInt8 → Digest 64
  sha512 : List UInt8 → Digest 128
  sha1 : List UInt8 → Digest 20

/-- The checksum that each type stores, if it is one: what both `switch`es on the type select. -/
def Checksums.digest? (k : Checksums) : (t : VerifyType) → Option (List UInt8 → Digest (vhdrSize t))
  | .verifyMd5 => some k.md5
  | .verifyCrc64 => some k.crc64
  | .verifyCrc32 => some k.crc32
  | .verifyCrc32c | .verifyCrc32cIntel => some k.crc32c
  | .verifyCrc16 => some k.crc16
  | .verifyCrc7 => some k.crc7
  | .verifySha256 => some k.sha256
  | .verifySha512 => some k.sha512
  | .verifySha1 => some k.sha1
  | .verifyNone | .verifyMeta | .verifyPattern | .verifyNull => none

/-- Less data than this leaves the rest of the block buffer as it was, and `fill_sha256`,
    `fill_sha512` and their checks take that buffer for the sum. -/
def VerifyType.blockSize : VerifyType → Nat
  | .verifySha256 => 64
  | .verifySha512 => 128
  | _ => 0

def VerifyType.isChecksum : VerifyType → Bool
  | .verifyMd5 | .verifyCrc64 | .verifyCrc32 | .verifyCrc32c | .verifyCrc32cIntel | .verifyCrc16
  | .verifyCrc7 | .verifySha256 | .verifySha512 | .verifySha1 => true
  | .verifyNone | .verifyMeta | .verifyPattern | .verifyNull => false

lemma Checksums.exists_digest (k : Checksums) {t : VerifyType} (h : t.isChecksum = true) :
    ∃ d, k.digest? t = some d := by
  cases t with
  | verifyNone | verifyMeta | verifyPattern | verifyNull => exact absurd h (by decide)
  | _ => exact ⟨_, rfl⟩

variable (o : ThreadOptions)

def getHdrInc (ioU : IoU) : Nat :=
  if o.randomagain then o.rwMinBs.toNat
  else if o.verifyInterval ≠ 0 ∧ o.verifyInterval.toNat ≤ ioU.buflen.toNat then
    o.verifyInterval.toNat
  else ioU.buflen.toNat % 2 ^ 32

lemma getHdrInc_lt (ioU : IoU) : getHdrInc o ioU < 2 ^ 32 := by
  unfold getHdrInc
  split_ifs
  · exact o.rwMinBs.isLt
  · exact o.verifyInterval.isLt
  · exact Nat.mod_lt _ (by decide)

def memswp (a b len : Nat) : Mem :=
  (m.store a (m.load b len)).store b (m.load a len)

/-- Move the header of the chunk at `p` to its place `verify_offset` bytes on, or back. -/
def swapHdr (m : Mem) (p len : Nat) : Mem :=
  if o.verifyOffset = 0 then m else memswp m p (p + o.verifyOffset.toNat) len

/-- `verify_offset` moves the header to a place of its own inside a chunk of `inc` bytes. -/
def HeaderPlaced (inc : Nat) : Prop :=
  o.verifyOffset = 0 ∨
    hdrSize o.verify ≤ o.verifyOffset.toNat ∧ o.verifyOffset.toNat + hdrSize o.verify ≤ inc

/-- `verify_offset` moves the header within a chunk of `inc` bytes, but perhaps onto itself. -/
def HeaderInside (inc : Nat) : Prop :=
  o.verifyOffset = 0 ∨ o.verifyOffset.toNat + hdrSize o.verify ≤ inc

lemma HeaderPlaced.inside {o : ThreadOptions} {inc : Nat} (h : HeaderPlaced o inc) :
    HeaderInside o inc :=
  h.imp_right And.right

lemma memswp_apply (a b len x : Nat) :
    memswp m a b len x = if b ≤ x ∧ x < b + len then m (a + (x - b))
      else if a ≤ x ∧ x < a + len then m (b + (x - a)) else m x := by
  rw [memswp, Mem.store_load, Mem.store_load]

lemma memswp_memswp_apply (a d len x : Nat) :
    memswp (memswp m a (a + d) len) a (a + d) len x =
      if a + 2 * d ≤ x ∧ x < a + d + len then m (x - 2 * d) else m x := by
  rw [memswp_apply]
  by_cases hb : a + d ≤ x ∧ x < a + d + len
  · rw [if_pos hb, memswp_apply]
    by_cases hls : a + 2 * d ≤ x
    · rw [if_pos (by omega), if_pos (by omega)]
      congr 1
      omega
    · rw [if_neg (by omega), if_pos (by omega), if_neg (by omega)]
      congr 1
      omega
  · rw [if_neg hb, if_neg (by omega : ¬(a + 2 * d ≤ x ∧ x < a + d + len))]
    by_cases ha : a ≤ x ∧ x < a + len
    · rw [if_pos ha, memswp_apply, if_pos (by omega)]
      congr 1
      omega
    · rw [if_neg ha, memswp_apply, if_neg hb, if_neg ha]

lemma swapHdr_swapHdr_apply (m : Mem) (p len x : Nat) :
    swapHdr o (swapHdr o m p len) p len x =
      if p + 2 * o.verifyOffset.toNat ≤ x ∧ x < p + o.verifyOffset.toNat + len then
        m (x - 2 * o.verifyOffset.toNat) else m x := by
  unfold swapHdr
  by_cases hz : o.verifyOffset = 0
  · simp [hz]
  · rw [if_neg hz, if_neg hz, memswp_memswp_apply]

lemma swapHdr_swapHdr {o : ThreadOptions} {inc : Nat} (h : HeaderPlaced o inc) (m : Mem) (p : Nat) :
    swapHdr o (swapHdr o m p (hdrSize o.verify)) p (hdrSize o.verify) = m := by
  funext x
  rw [swapHdr_swapHdr_apply]
  rcases h with h0 | ⟨hlow, _⟩
  · simp [h0]
  · rw [if_neg (by omega)]

section

variable {o : ThreadOptions} {inc : Nat} (h : HeaderInside o inc)

include h

lemma swapHdr_frame (m : Mem) {p x : Nat} (hx : x < p ∨ p + inc ≤ x) :
    swapHdr o m p (hdrSize o.verify) x = m x := by
  unfold swapHdr
  split_ifs with hz
  · rfl
  · rcases h with h0 | hhg
    · exact absurd h0 hz
    · rw [memswp_apply, if_neg (by omega), if_neg (by omega)]

lemma swapHdr_congr {m m' : Mem} {p p' : Nat} (hinc : hdrSize o.verify ≤ inc)
    (hby : ∀ i < inc, m (p + i) = m' (p' + i)) {i : Nat} (hi : i < inc) :
    swapHdr o m p (hdrSize o.verify) (p + i) = swapHdr o m' p' (hdrSize o.verify) (p' + i) := by
  unfold swapHdr
  split_ifs with hz
  · exact hby i hi
  · rcases h with h0 | hhg
    · exact absurd h0 hz
    · have hsh : ∀ q, q + i - (q + o.verifyOffset.toNat) = i - o.verifyOffset.toNat := by omega
      have hhd : ∀ q, q + i - q = i := by omega
      simp only [memswp_apply, hsh, hhd, add_assoc, Nat.add_le_add_iff_left,
        Nat.add_lt_add_iff_left, Nat.le_add_right, true_and]
      split_ifs with hb ha
      · exact hby _ (by omega)
      · exact hby _ (by omega)
      · exact hby i hi

end

end FioSsd
