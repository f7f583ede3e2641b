import FioSsd.Generator.First
import Mathlib.Tactic.Ring

/-! # Sequential jobs that wrap around

A sequential job reads and writes at `last_pos`, which `get_io_u` moves behind each request. In a
time based job `get_next_seq_offset` takes `io_size` off `last_pos` once that has reached it. -/

namespace FioSsd

open Nat

variable {k x : Nat} (scale : Scale) (o : ThreadOptions)

def FioFile.noteRequest (file : FioFile) (ioU : IoU) : FioFile :=
  { file with lastStart := ioU.offset, lastPos := ioU.offset + ioU.buflen }

/-- One request of `bs` bytes, as `fill_io_u` and `get_io_u` place it; the flag says that there is none. -/
def nextRequest (ioHistLen : Int) (bs : BitVec 32) (d : RandDraws) (s : Fill) :
    Except Fault (Bool × Fill) := do
  let (failed, s) ← getNextOffset scale o ioHistLen s d
  if failed then return (true, s)
  else
    let ioU := { s.ioU with buflen := bs.setWidth 64 }
    return (false, { s with ioU := ioU, file := s.file.noteRequest ioU })

/-- The first `k` requests. -/
def requests (ioHistLen : Int) (bs : BitVec 32) (d : RandDraws) (s : Fill) :
    Nat → Except Fault (Bool × Fill)
  | 0 => .ok (false, s)
  | k + 1 => do
    let (failed, s) ← requests ioHistLen bs d s k
    if failed then return (true, s) else nextRequest scale o ioHistLen bs d s

structure ThreadOptions.WrapsAround (o : ThreadOptions) : Prop where
  seq : o.ddirRand = false
  seqNr : o.ddirSeqNr = 1
  seqAdd : o.ddirSeqAdd = 0
  timeBased : o.timeBased = true

def FioFile.wrappedPos (file : FioFile) : BitVec 64 :=
  if file.ioSize ≤ file.lastPos then file.lastPos - file.ioSize else file.lastPos

variable {scale o} {ioHistLen : Int} {bs : BitVec 32} {d : RandDraws} {s s' : Fill} {file : FioFile}

lemma getNextSeqOffset_wraps (hjob : o.WrapsAround) (h : file.wrappedPos < file.realFileSize) :
    getNextSeqOffset o file =
      (some (file.wrappedPos - file.fileOffset), { file with lastPos := file.wrappedPos }) := by
  unfold getNextSeqOffset
  unfold FioFile.wrappedPos at h ⊢
  rw [hjob.timeBased, hjob.seqAdd]
  by_cases hwr : file.ioSize ≤ file.lastPos
  · rw [if_pos hwr] at h ⊢
    simp [hwr, h]
  · rw [if_neg hwr] at h ⊢
    simp [hwr, h]

lemma countSeq_first (h : o.ddirSeqNr = 1) : countSeq o 1 = (true, 1) := by
  rw [countSeq, h]
  rfl

lemma blockOffset_wraps (h : o.WrapsAround) {ddir : Ddir}
    (hpos : file.wrappedPos < file.realFileSize) : blockOffset scale o ioHistLen file ddir true d =
      .ok (seqOffset? (some (file.wrappedPos - file.fileOffset)),
        { file with lastPos := file.wrappedPos }) := by
  rw [blockOffset, pickedOffset, if_pos rfl, if_neg (by simp [h.seq]),
    getNextSeqOffset_wraps h hpos]

variable (scale ioHistLen d) in
lemma getNextOffset_wraps (hjob : o.WrapsAround) (hnr : s.ddirSeqNr = 1)
    (hpos : s.file.wrappedPos < s.file.realFileSize)
    (h : s.file.wrappedPos - s.file.fileOffset < s.file.ioSize) :
    getNextOffset scale o ioHistLen s d = .ok (false,
      { s with ioU := { s.ioU with offset := s.file.wrappedPos }
               file := { s.file with lastPos := s.file.wrappedPos } }) := by
  have hbc : s.file.wrappedPos - s.file.fileOffset + s.file.fileOffset = s.file.wrappedPos :=
    BitVec.sub_add_cancel _ _
  have hso : seqOffset? (some (s.file.wrappedPos - s.file.fileOffset)) =
      some (s.file.wrappedPos - s.file.fileOffset) := by
    refine if_neg fun hneg => ?_
    rw [hneg, BitVec.lt_def] at h
    exact absurd s.file.ioSize.isLt (not_lt.2 h)
  unfold getNextOffset getNextBlock
  rw [hnr, countSeq_first hjob.seqNr]
  simp only [blockOffset_wraps hjob hpos, hso]
  change (if s.file.ioSize ≤ s.file.wrappedPos - s.file.fileOffset then _ else
    Except.ok (decide (s.file.realFileSize ≤ _), _)) = _
  rw [if_neg (BitVec.not_le.2 h), hbc, decide_eq_false (BitVec.not_le.2 hpos)]
  simp

lemma getNextOffset_leaves (h : o.WrapsAround) (hnr : s.ddirSeqNr = 1)
    (hpos : s.file.wrappedPos < s.file.realFileSize)
    (hsz : s.file.ioSize ≤ s.file.wrappedPos - s.file.fileOffset) :
    ∃ s', getNextOffset scale o ioHistLen s d = .ok (true, s') := by
  unfold getNextOffset getNextBlock
  rw [hnr, countSeq_first h.seqNr]
  simp only [blockOffset_wraps h hpos]
  by_cases hneg : s.file.wrappedPos - s.file.fileOffset = -1
  · rw [seqOffset?, if_pos hneg]
    exact ⟨_, rfl⟩
  · rw [seqOffset?, if_neg hneg]
    change ∃ s', (if s.file.ioSize ≤ s.file.wrappedPos - s.file.fileOffset then Except.ok (true, _)
      else _) = Except.ok (true, s')
    rw [if_pos hsz]
    exact ⟨_, rfl⟩

lemma getNextOffset_ends (hjob : o.WrapsAround) (hnr : s.ddirSeqNr = 1)
    (h : ¬s.file.wrappedPos < s.file.realFileSize) :
    ∃ s', getNextOffset scale o ioHistLen s d = .ok (true, s') := by
  have hno : ∃ file, getNextSeqOffset o s.file = (none, file) := by
    unfold getNextSeqOffset
    unfold FioFile.wrappedPos at h
    rw [hjob.timeBased]
    split_ifs at h with hwr
    all_goals simp [hwr, h]
  obtain ⟨file, hfl⟩ := hno
  unfold getNextOffset getNextBlock blockOffset pickedOffset
  rw [hnr, countSeq_first hjob.seqNr]
  simp only [hjob.seq, hfl]
  exact ⟨_, rfl⟩

structure Requested (bs : BitVec 32) (x : Nat) (s s' : Fill) : Prop where
  seqNr : s'.ddirSeqNr = 1
  sizes : s.file.SameSizes s'.file
  offset : s'.ioU.offset.toNat = s.file.fileOffset.toNat + x
  lastPos : s'.file.lastPos = s'.ioU.offset + bs.setWidth 64

variable (scale ioHistLen bs d) in
lemma nextRequest_wraps (h : o.WrapsAround) (hnr : s.ddirSeqNr = 1)
    (hx : s.file.wrappedPos.toNat = s.file.fileOffset.toNat + x) (hlt : x < s.file.ioSize.toNat)
    (hrl : s.file.fileOffset.toNat + s.file.ioSize.toNat ≤ s.file.realFileSize.toNat) :
    ∃ s', nextRequest scale o ioHistLen bs d s = .ok (false, s') ∧ Requested bs x s s' := by
  have hpos : s.file.wrappedPos < s.file.realFileSize := by
    rw [BitVec.lt_def]
    omega
  have hsub : (s.file.wrappedPos - s.file.fileOffset).toNat = x := by
    rw [BitVec.toNat_sub_of_le (by rw [BitVec.le_def]; omega), hx, Nat.add_sub_cancel_left]
  have hsz : s.file.wrappedPos - s.file.fileOffset < s.file.ioSize := by
    rw [BitVec.lt_def, hsub]
    exact hlt
  have hnx := getNextOffset_wraps scale ioHistLen d h hnr hpos hsz
  rw [nextRequest, hnx]
  exact ⟨_, rfl, hnr, ⟨rfl, rfl, rfl⟩, hx, rfl⟩

lemma nextRequest_leaves (h : o.WrapsAround) (hnr : s.ddirSeqNr = 1)
    (hsz : s.file.ioSize ≤ s.file.wrappedPos - s.file.fileOffset) :
    ∃ s', nextRequest scale o ioHistLen bs d s = .ok (true, s') := by
  have hnx : ∃ s', getNextOffset scale o ioHistLen s d = .ok (true, s') := by
    by_cases hpos : s.file.wrappedPos < s.file.realFileSize
    · exact getNextOffset_leaves h hnr hpos hsz
    · exact getNextOffset_ends h hnr hpos
  obtain ⟨s', hnx⟩ := hnx
  rw [nextRequest, hnx]
  exact ⟨s', rfl⟩

lemma mul_mod_of_dvd (k n q : Nat) : k * n % (n * q) = k % q * n := by
  rw [mul_comm n q, mul_mod_mul_right]

lemma mul_mod_add_le {io n : Nat} (hio : 0 < io) (h : n ∣ io) (k : Nat) : k * n % io + n ≤ io := by
  obtain ⟨q, rfl⟩ := h
  have hj := Nat.mod_lt k (Nat.pos_of_mul_pos_left hio)
  rw [mul_mod_of_dvd, ← Nat.succ_mul, mul_comm n q]
  exact Nat.mul_le_mul_right n hj

lemma wrap_step {io fo n : Nat} (hio : 0 < io) (h : n ∣ io) (hfo : fo < n) :
    (if io ≤ fo + k * n % io + n then fo + k * n % io + n - io else fo + k * n % io + n) =
      fo + (k + 1) * n % io := by
  obtain ⟨q, rfl⟩ := h
  have hq := Nat.pos_of_mul_pos_left hio
  rw [mul_mod_of_dvd, mul_mod_of_dvd]
  have hj := Nat.mod_lt k hq
  rw [← Nat.mod_add_mod k q 1, mul_comm n q]
  generalize k % q = j at hj
  by_cases hla : j + 1 = q
  · -- the last block: start over
    have hend : j * n + n = q * n := by rw [← hla, add_mul, one_mul]
    rw [hla, Nat.mod_self, zero_mul, if_pos (by omega)]
    omega
  · have hpre : (j + 1) * n + n ≤ q * n := by
      rw [← Nat.succ_mul]
      exact Nat.mul_le_mul_right n (by omega)
    rw [Nat.mod_eq_of_lt (by omega), if_neg (by rw [add_mul] at hpre; omega), add_mul]
    omega

lemma requests_succ (ioHistLen : Int) (bs : BitVec 32) (d : RandDraws)
    (h : requests scale o ioHistLen bs d s k = .ok (false, s')) :
    requests scale o ioHistLen bs d s (k + 1) = nextRequest scale o ioHistLen bs d s' := by
  rw [requests, h]
  rfl

lemma Requested.wrappedPos (h : Requested bs x s s')
    (hfit : s.file.fileOffset.toNat + x + bs.toNat < 2 ^ 64) :
    s'.file.wrappedPos.toNat =
      if s.file.ioSize.toNat ≤ s.file.fileOffset.toNat + x + bs.toNat then
        s.file.fileOffset.toNat + x + bs.toNat - s.file.ioSize.toNat
      else s.file.fileOffset.toNat + x + bs.toNat := by
  have hbs : (bs.setWidth 64).toNat = bs.toNat := BitVec.toNat_setWidth_of_le (by decide)
  have hla : s'.file.lastPos.toNat = s.file.fileOffset.toNat + x + bs.toNat := by
    rw [h.lastPos, BitVec.toNat_add, h.offset, hbs, mod_eq_of_lt hfit]
  rw [FioFile.wrappedPos, h.sizes.ioSize]
  by_cases hwr : s.file.ioSize ≤ s'.file.lastPos
  · rw [if_pos hwr, if_pos (by rw [← hla]; exact hwr), BitVec.toNat_sub_of_le hwr, hla]
  · rw [if_neg hwr, if_neg (by rw [← hla]; exact hwr), hla]

structure Fill.AtStart (bs : BitVec 32) (s : Fill) : Prop where
  seqNr : s.ddirSeqNr = 1
  lastPos : s.file.lastPos = s.file.fileOffset
  blocks : bs.toNat ∣ s.file.ioSize.toNat
  inside : s.file.fileOffset.toNat + s.file.ioSize.toNat ≤ s.file.realFileSize.toNat

lemma Requested.next {x' : Nat} (hjob : o.WrapsAround) (hs : s.AtStart bs)
    (hr : requests scale o ioHistLen bs d s k = .ok (false, s')) (h : Requested bs x s s')
    (hx : s'.file.wrappedPos.toNat = s.file.fileOffset.toNat + x') (hlt : x' < s.file.ioSize.toNat) :
    ∃ s'', requests scale o ioHistLen bs d s (k + 1) = .ok (false, s'') ∧ Requested bs x' s s'' := by
  rw [← h.sizes.fileOffset] at hx
  rw [← h.sizes.ioSize] at hlt
  have hins : s'.file.fileOffset.toNat + s'.file.ioSize.toNat ≤ s'.file.realFileSize.toNat := by
    rw [h.sizes.fileOffset, h.sizes.ioSize, h.sizes.realFileSize]
    exact hs.inside
  obtain ⟨s'', hnx, hreq⟩ := nextRequest_wraps scale ioHistLen bs d hjob h.seqNr hx hlt hins
  refine ⟨s'', (requests_succ ioHistLen bs d hr).trans hnx, hreq.seqNr, ?_, ?_, hreq.lastPos⟩
  · exact ⟨hreq.sizes.fileOffset.trans h.sizes.fileOffset, hreq.sizes.ioSize.trans h.sizes.ioSize,
      hreq.sizes.realFileSize.trans h.sizes.realFileSize⟩
  · rw [hreq.offset, h.sizes.fileOffset]

lemma requests_first (h : o.WrapsAround) (hs : s.AtStart bs)
    (hbl : s.file.fileOffset.toNat < s.file.ioSize.toNat) :
    ∃ s', requests scale o ioHistLen bs d s 1 = .ok (false, s') ∧ Requested bs 0 s s' := by
  have hx : s.file.wrappedPos.toNat = s.file.fileOffset.toNat + 0 := by
    rw [FioFile.wrappedPos, hs.lastPos, if_neg (by rw [BitVec.le_def]; omega), add_zero]
  exact nextRequest_wraps scale ioHistLen bs d h hs.seqNr hx (by omega) hs.inside

variable (scale ioHistLen d) in
lemma requests_wrap (hjob : o.WrapsAround) (hs : s.AtStart bs) (h : 0 < s.file.ioSize.toNat)
    (hfo : s.file.fileOffset.toNat < bs.toNat) (k : Nat) :
    ∃ s', requests scale o ioHistLen bs d s (k + 1) = .ok (false, s') ∧
      Requested bs (k * bs.toNat % s.file.ioSize.toNat) s s' := by
  have hle := le_of_dvd h hs.blocks
  have hrl := s.file.realFileSize.isLt
  have hins := hs.inside
  induction k with
  | zero =>
    rw [zero_mul, zero_mod]
    exact requests_first hjob hs (by omega)
  | succ k ih =>
    obtain ⟨s', hr, hreq⟩ := ih
    have hrn := mul_mod_add_le h hs.blocks k
    have hx := hreq.wrappedPos (by omega)
    rw [wrap_step h hs.blocks hfo] at hx
    exact hreq.next hjob hs hr hx (mod_lt _ h)

variable (scale ioHistLen d) in
lemma requests_below (hjob : o.WrapsAround) (hs : s.AtStart bs)
    (h : s.file.fileOffset.toNat + k * bs.toNat < s.file.ioSize.toNat) :
    ∃ s', requests scale o ioHistLen bs d s (k + 1) = .ok (false, s') ∧
      Requested bs (k * bs.toNat) s s' := by
  have hrl := s.file.realFileSize.isLt
  have hins := hs.inside
  induction k with
  | zero =>
    rw [zero_mul] at h ⊢
    exact requests_first hjob hs (by omega)
  | succ k ih =>
    rw [succ_mul] at h ⊢
    obtain ⟨s', hr, hreq⟩ := ih (by omega)
    have hx := hreq.wrappedPos (by omega)
    rw [if_neg (by omega), add_assoc] at hx
    exact hreq.next hjob hs hr hx (by omega)

lemma ioSize_le_sub (hx : file.wrappedPos.toNat + x = file.fileOffset.toNat) (h : 0 < x)
    (hfit : x + file.ioSize.toNat ≤ 2 ^ 64) : file.ioSize ≤ file.wrappedPos - file.fileOffset := by
  have hlt := file.fileOffset.isLt
  rw [BitVec.le_def, BitVec.toNat_sub, ← hx]
  rw [mod_eq_of_lt (by omega)]
  omega

variable (scale ioHistLen d) in
lemma requests_leave (h : o.WrapsAround) (hs : s.AtStart bs)
    (hcn : s.file.ioSize.toNat = 0 ∨ bs.toNat ≤ s.file.fileOffset.toNat) :
    ∃ k s', requests scale o ioHistLen bs d s (k + 1) = .ok (true, s') := by
  have hrl := s.file.realFileSize.isLt
  have hins := hs.inside
  by_cases hfar : s.file.ioSize.toNat ≤ s.file.fileOffset.toNat
  · -- the first request is taken back by `io_size` at once
    have hx : s.file.wrappedPos.toNat + s.file.ioSize.toNat = s.file.fileOffset.toNat := by
      have hle : s.file.ioSize ≤ s.file.fileOffset := hfar
      rw [FioFile.wrappedPos, hs.lastPos, if_pos hle, BitVec.toNat_sub_of_le hle]
      omega
    refine ⟨0, nextRequest_leaves h hs.seqNr ?_⟩
    rcases Nat.eq_zero_or_pos s.file.ioSize.toNat with h0 | hpos
    · rw [BitVec.le_def, h0]
      exact Nat.zero_le _
    · exact ioSize_le_sub hx hpos (by omega)
  · -- the request that reaches `io_size` is taken back behind the start of the region
    have hfo : bs.toNat ≤ s.file.fileOffset.toNat := by
      rcases hcn with h0 | hfo
      · omega
      · exact hfo
    obtain ⟨q, hq⟩ := hs.blocks
    have hbs : 0 < bs.toNat := Nat.pos_of_mul_pos_right (b := q) (by omega)
    have hdiv := Nat.div_add_mod s.file.fileOffset.toNat bs.toNat
    have hmod := Nat.mod_lt s.file.fileOffset.toNat hbs
    have hone := (Nat.one_le_div_iff hbs).2 hfo
    generalize s.file.fileOffset.toNat / bs.toNat = t at hdiv hone
    have htq : t < q := Nat.lt_of_mul_lt_mul_left (a := bs.toNat) (by omega)
    obtain ⟨k, hk⟩ := Nat.exists_eq_add_of_lt htq
    have hsum : s.file.ioSize.toNat = bs.toNat * t + k * bs.toNat + bs.toNat := by
      rw [hq, hk]
      ring
    have htp := Nat.le_mul_of_pos_right bs.toNat hone
    obtain ⟨s', hr, hreq⟩ := requests_below scale ioHistLen d (k := k) h hs (by omega)
    have hx := hreq.wrappedPos (by omega)
    rw [if_pos (by omega)] at hx
    have hbc : s'.file.wrappedPos.toNat + bs.toNat * t = s'.file.fileOffset.toNat := by
      rw [hx, hreq.sizes.fileOffset]
      omega
    refine ⟨k + 1, ?_⟩
    rw [requests_succ ioHistLen bs d hr]
    exact nextRequest_leaves h hreq.seqNr
      (ioSize_le_sub hbc (by omega) (by rw [hreq.sizes.ioSize]; omega))

/-- **Sequential jobs wrap around inside their region exactly if it starts in the first block**: the
    `k`-th request is at `file_offset + k * bs % io_size`. -/
theorem requests_offset_iff (hjob : o.WrapsAround) (hs : s.AtStart bs) :
    (∀ k, ∃ s', requests scale o ioHistLen bs d s (k + 1) = .ok (false, s') ∧
      s'.ioU.offset.toNat = s.file.fileOffset.toNat + k * bs.toNat % s.file.ioSize.toNat) ↔
      0 < s.file.ioSize.toNat ∧ s.file.fileOffset.toNat < bs.toNat := by
  constructor
  · intro hall
    by_contra hcon
    obtain ⟨k, s', hr⟩ := requests_leave scale ioHistLen d hjob hs (by omega)
    obtain ⟨s'', hrn', -⟩ := hall k
    exact absurd (Prod.mk.inj (Except.ok.inj (hr.symm.trans hrn'))).1 (by simp)
  · rintro ⟨hio, hfo⟩ k
    obtain ⟨s', hr, hreq⟩ := requests_wrap scale ioHistLen d hjob hs hio hfo k
    exact ⟨s', hr, hreq.offset⟩

def roundOptions : ThreadOptions := { defaultOptions with timeBased := true }

def roundStart (offset : BitVec 64) : Fill where
  ioU := default
  file := { realFileSize := 16384, fileOffset := offset, ioSize := 8192, lastPos := offset }
  ddirSeqNr := 1
  zoneBytes := 0

def roundRequests (offset : BitVec 64) (k : Nat) : Except Fault (Bool × Fill) :=
  requests exactScale roundOptions 0 4096 ⟨fun _ => 0, fun _ => 0⟩ (roundStart offset) k

theorem requests_offset_third :
    ∃ s', roundRequests 512 3 = .ok (false, s') ∧ s'.ioU.offset.toNat = 512 :=
  (requests_offset_iff (o := roundOptions) ⟨rfl, rfl, rfl, rfl⟩
    ⟨rfl, rfl, by decide, by decide⟩).2 ⟨by decide, by decide⟩ 2

theorem requests_offset_fails :
    roundOptions.WrapsAround ∧ (roundStart 4096).AtStart 4096 ∧
      ∃ s', roundRequests 4096 2 = .ok (true, s') := by
  obtain ⟨s', hr, -⟩ : ∃ s', roundRequests 4096 2 = .ok (true, s') ∧ True := by decide +kernel
  exact ⟨⟨rfl, rfl, rfl, rfl⟩, ⟨rfl, rfl, by decide, by decide⟩, s', hr⟩

end FioSsd
