import FioSsd.Backend.FillBuffer
import FioSsd.Verify.Check

/-! # The buffer area

`init_io_u` cuts one area of memory into a part of `max_bs` bytes for each unit. It and `get_io_u`
fill the part of a unit and put the verify headers into it. -/

namespace FioSsd

def unitView (m : Mem) (base : Nat) : Mem := fun x => m (base + x)

def putView (m : Mem) (base : Nat) (v : Mem) : Mem := fun a => if base ≤ a then v (a - base) else m a

lemma putView_frame {m v : Mem} {base len a : Nat} (h : ∀ x, len ≤ x → v x = unitView m base x)
    (ha : a < base ∨ base + len ≤ a) : putView m base v a = m a := by
  unfold putView
  split_ifs with hle
  · rw [h (a - base) (by omega), unitView, Nat.add_sub_cancel' hle]
  · rfl

structure AreaOpts where
  iodepth : Nat
  (maxBs minWrite : BitVec 32)
  refillBuffers : Bool
  fill : FillOpts
  verify : ThreadOptions

/-- A fill of a unit: that of `init_io_u`, or that of `get_io_u` for a new write, where `ioU` is the
    unit when its request is filled in. -/
inductive AreaOp (depth : Nat)
  | init (unit : Fin depth) (ioU : IoU) (rand seed : BitVec 64)
  | write (unit : Fin depth) (ioU : IoU) (rand seed : BitVec 64) (info : MetaInfo)

namespace AreaOp

variable {depth : Nat}

def unit : AreaOp depth → Fin depth
  | init unit .. => unit
  | write unit .. => unit

def ioU : AreaOp depth → IoU
  | init _ ioU .. => ioU
  | write _ ioU .. => ioU

end AreaOp

namespace AreaOpts

variable (k : Checksums) (a : AreaOpts) (ioU : IoU)

def fillUnit (rand : BitVec 64) (minWrite maxBs : BitVec 32) (fuel : Nat) :
    Except Fault IoU :=
  match ioUFillBuffer a.fill rand minWrite maxBs fuel with
  | none => .error .outOfFuel
  | some log => .ok { ioU with bufFilledLen := 0, buf := log.foldl BufWrite.store ioU.buf }

def initUnit (rand seed : BitVec 64) (fuel : Nat) : Except Fault IoU := do
  let ioU ← a.fillUnit ioU rand a.minWrite a.maxBs fuel
  if a.verify.verifyPatternBytes ≠ 0 then
    let filled := fillPattern a.verify { ioU with buflen := a.maxBs.setWidth 64 } seed
    return { filled with buflen := ioU.buflen }
  else return ioU

/-- `refill_buffers` for a new write, by the length that the use before left. -/
def refillUnit (rand : BitVec 64) (fuel : Nat) : Except Fault IoU :=
  if a.refillBuffers then
    a.fillUnit ioU rand (ioU.xferBuflen.setWidth 32) (ioU.xferBuflen.setWidth 32) fuel
  else .ok ioU

def writeUnit (rand seed : BitVec 64) (info : MetaInfo) (fuel : Nat) :
    Except Fault IoU := do
  let ioU ← a.refillUnit ioU rand fuel
  if a.verify.verify ≠ .verifyNone then populateVerifyIoU k a.verify info seed ioU fuel else .ok ioU

def base (unit : Fin a.iodepth) : Nat := unit.1 * a.maxBs.toNat

def fillOp (op : AreaOp a.iodepth) (fuel : Nat) : Except Fault IoU :=
  match op with
  | .init _ _ rand seed => a.initUnit ioU rand seed fuel
  | .write _ _ rand seed info => a.writeUnit k ioU rand seed info fuel

def run (m : Mem) (op : AreaOp a.iodepth) (fuel : Nat) : Except Fault Mem := do
  let ioU ← a.fillOp k { op.ioU with buf := unitView m (a.base op.unit) } op fuel
  return putView m (a.base op.unit) ioU.buf

def Separate (m : Mem) : List (AreaOp a.iodepth) → Prop
  | [] => True
  | op :: rest => ∀ fuel m', a.run k m op fuel = .ok m' →
      (∀ x, x < a.base op.unit ∨ a.base op.unit + a.maxBs.toNat ≤ x → m' x = m x) ∧
        Separate m' rest

def PatternFits (len : Nat) : Prop :=
  if a.verify.verifyPatternBytes = 0 then roundUp8 len ≤ a.maxBs.toNat else len ≤ a.maxBs.toNat

/-- The headers of a write end inside the part of the unit: the chunks divide the length, and the last
    chunk's header, where `verify_offset` moves it, ends inside. -/
def HeadersFit : Prop :=
  getHdrInc a.verify ioU ∣ ioU.buflen.toNat ∧
    ioU.buflen.toNat + hdrSize a.verify.verify + a.verify.verifyOffset.toNat ≤
      a.maxBs.toNat + getHdrInc a.verify ioU

def Fits : AreaOp a.iodepth → Prop
  | .init .. => fillEnd a.fill a.minWrite a.maxBs ≤ a.maxBs.toNat
  | .write _ ioU .. =>
    (a.refillBuffers = true →
      fillEnd a.fill (ioU.xferBuflen.setWidth 32) (ioU.xferBuflen.setWidth 32) ≤ a.maxBs.toNat) ∧
    (a.verify.verify ≠ .verifyNone → a.verify.verify ≠ .verifyNull →
      a.PatternFits (ioU.buflen.toNat % 2 ^ 32) ∧ a.HeadersFit ioU)

end AreaOpts

variable {x : Nat}

lemma BufWrite.store_frame (m : Mem) {w : BufWrite} (h : ¬ w.Covers x) :
    w.store m x = m x := by
  unfold BufWrite.Covers at h
  cases w with
  | random start len seed =>
    exact fillRandomBuf_frame _ m start seed (by
      simp only [BufWrite.start, BufWrite.size, roundUp8] at h
      omega)
  | zero start len =>
    simp only [BufWrite.start, BufWrite.size] at h
    exact Mem.store_of_not_mem m (by rw [List.length_replicate]; omega)

lemma foldl_store_frame {log : List BufWrite} (h : ¬ Touched log x) (m : Mem) :
    log.foldl BufWrite.store m x = m x := by
  induction log generalizing m with
  | nil => rfl
  | cons w rest ih =>
    rw [touched_cons, not_or] at h
    rw [List.foldl_cons, ih h.2, BufWrite.store_frame m h.1]

lemma fillRepeated_frame (o : ThreadOptions) (fuel : Nat) (m : Mem) (i len : Nat) (h : len ≤ x)
    : fillRepeated o fuel m i len x = m x := by
  induction fuel generalizing m i with
  | zero => rfl
  | succ fuel ih =>
    unfold fillRepeated
    split_ifs with hi
    · simp only []
      rw [ih, Mem.store_of_not_mem]
      rw [List.length_map, List.length_range]
      omega
    · rfl

lemma fillPattern_frame {a : AreaOpts} {ioU : IoU} {seed : BitVec 64}
    (h : a.PatternFits (ioU.buflen.toNat % 2 ^ 32)) (hx : a.maxBs.toNat ≤ x) :
    (fillPattern a.verify ioU seed).buf x = ioU.buf x := by
  unfold AreaOpts.PatternFits roundUp8 at h
  simp only [fillPattern]
  split_ifs at h ⊢ with hrnd hfld hone
  · exact fillRandomBuf_frame _ _ _ _ (by omega)
  · rfl
  · exact Mem.store_of_not_mem _ (by rw [List.length_replicate]; omega)
  · exact fillRepeated_frame _ _ _ _ _ (by omega)

lemma fillPattern_request (o : ThreadOptions) (ioU : IoU) (seed : BitVec 64) :
    (fillPattern o ioU seed).buflen = ioU.buflen := by
  simp only [fillPattern]
  split_ifs <;> rfl

section

variable {k : Checksums} {o : ThreadOptions} {info : MetaInfo} {w : IoU} {m m' : Mem}
  {p num len x : Nat}

lemma swapHdr_above (h : p + hdrSize o.verify + o.verifyOffset.toNat ≤ x) :
    swapHdr o m p (hdrSize o.verify) x = m x := by
  unfold swapHdr memswp
  split_ifs
  · rfl
  · rw [Mem.store_of_not_mem _ (by rw [Mem.length_load]; omega),
      Mem.store_of_not_mem _ (by rw [Mem.length_load]; omega)]

lemma populateHdr_above (h : populateHdr k o info w m p num len = .ok m')
    (hx : p + hdrSize o.verify + o.verifyOffset.toNat ≤ x) : m' x = m x := by
  obtain ⟨m1, hfl, h⟩ := of_bind h
  cases h
  have hhdr := verifyHeaderSize_le_hdrSize o.verify
  have hsum : hdrSize o.verify = vhdrSize o.verify + verifyHeaderSize := rfl
  calc swapHdr o m1 p (hdrSize o.verify) x
      = m1 x := swapHdr_above hx
    _ = storeHdr k o w m p num len x :=
        fillByType_frame w _ p num len hfl (by unfold hdrPriv; omega)
    _ = m x := storeHdr_frame w m p num len (by omega)

lemma populateLoop_above (hdvd : getHdrInc o w ∣ w.buflen.toNat)
    (hx : w.buflen.toNat + hdrSize o.verify + o.verifyOffset.toNat ≤ x + getHdrInc o w) (fuel : Nat)
    (hp : getHdrInc o w ∣ p) (h : populateLoop k o info w fuel p num m = .ok m') :
    m' x = m x := by
  induction fuel generalizing p num m with
  | zero => exact absurd h (by simp [populateLoop])
  | succ fuel ih =>
    rw [populateLoop] at h
    split_ifs at h with hin
    · obtain ⟨m1, hrn, h⟩ := of_bind h
      have hla := Nat.le_of_dvd (by omega) (Nat.dvd_sub hdvd hp)
      rw [ih (Nat.dvd_add hp (dvd_refl _)) h]
      exact populateHdr_above hrn (by omega)
    · cases h
      rfl

end

namespace AreaOpts

variable {k : Checksums} {a : AreaOpts} {fuel x : Nat} {ioU ioU' : IoU}

lemma fillUnit_frame {rand : BitVec 64} {minWrite maxBs : BitVec 32}
    (h : a.fillUnit ioU rand minWrite maxBs fuel = .ok ioU')
    (hx : fillEnd a.fill minWrite maxBs ≤ x) :
    ioU'.buf x = ioU.buf x ∧ ioU'.buflen = ioU.buflen := by
  unfold fillUnit at h
  cases hfl : ioUFillBuffer a.fill rand minWrite maxBs fuel with
  | none => rw [hfl] at h; cases h
  | some log =>
    rw [hfl] at h
    cases h
    refine ⟨foldl_store_frame (fun htch => ?_) ioU.buf, rfl⟩
    have := (touched_iff_of_fill hfl x).1 htch
    omega

variable {rand seed : BitVec 64}

lemma initUnit_frame
    (h : a.initUnit ioU rand seed fuel = .ok ioU')
    (hft : fillEnd a.fill a.minWrite a.maxBs ≤ a.maxBs.toNat) (hx : a.maxBs.toNat ≤ x) :
    ioU'.buf x = ioU.buf x := by
  obtain ⟨filled, hfl, h⟩ := of_bind h
  have hfr := (fillUnit_frame hfl (hft.trans hx)).1
  split_ifs at h with hptr
  · cases h
    have hlen : (a.maxBs.setWidth 64).toNat % 2 ^ 32 = a.maxBs.toNat := by
      have := a.maxBs.isLt
      rw [BitVec.toNat_setWidth]
      omega
    have hpt' : a.PatternFits ((a.maxBs.setWidth 64).toNat % 2 ^ 32) := by
      rw [hlen, PatternFits, if_neg hptr]
    have hps : (fillPattern a.verify { filled with buflen := a.maxBs.setWidth 64 } seed).buf x =
        filled.buf x := fillPattern_frame hpt' hx
    exact hps.trans hfr
  · cases h
    exact hfr

lemma populateVerifyIoU_frame {info : MetaInfo} {seed : BitVec 64}
    (h : populateVerifyIoU k a.verify info seed ioU fuel = .ok ioU')
    (hft : a.verify.verify ≠ .verifyNull →
      a.PatternFits (ioU.buflen.toNat % 2 ^ 32) ∧ a.HeadersFit ioU) (hx : a.maxBs.toNat ≤ x) :
    ioU'.buf x = ioU.buf x := by
  unfold populateVerifyIoU at h
  split_ifs at h with hnl
  · cases h
    rfl
  · obtain ⟨hptr, hdvd, hend⟩ := hft hnl
    obtain ⟨m', hlp, h⟩ := of_bind h
    cases h
    have hlen := fillPattern_request a.verify ioU seed
    have hinc : getHdrInc a.verify (fillPattern a.verify ioU seed) = getHdrInc a.verify ioU := by
      unfold getHdrInc
      rw [hlen]
    calc m' x = (fillPattern a.verify ioU seed).buf x :=
          populateLoop_above (by rw [hinc, hlen]; exact hdvd) (by rw [hinc, hlen]; omega) fuel
            (Nat.dvd_zero _) hlp
      _ = ioU.buf x := fillPattern_frame hptr hx

lemma writeUnit_frame {info : MetaInfo} (h : a.writeUnit k ioU rand seed info fuel = .ok ioU')
    (hrfl : a.refillBuffers = true →
      fillEnd a.fill (ioU.xferBuflen.setWidth 32) (ioU.xferBuflen.setWidth 32) ≤ a.maxBs.toNat)
    (hvrf : a.verify.verify ≠ .verifyNone → a.verify.verify ≠ .verifyNull →
      a.PatternFits (ioU.buflen.toNat % 2 ^ 32) ∧ a.HeadersFit ioU) (hx : a.maxBs.toNat ≤ x)
    : ioU'.buf x = ioU.buf x := by
  obtain ⟨filled, hfl, h⟩ := of_bind h
  have hfr : filled.buf x = ioU.buf x ∧ filled.buflen = ioU.buflen := by
    unfold refillUnit at hfl
    split_ifs at hfl with hon
    · exact fillUnit_frame hfl ((hrfl hon).trans hx)
    · cases hfl
      exact ⟨rfl, rfl⟩
  split_ifs at h with hno
  · have hft : a.verify.verify ≠ .verifyNull →
        a.PatternFits (filled.buflen.toNat % 2 ^ 32) ∧ a.HeadersFit filled := by
      intro hnl
      rw [HeadersFit, getHdrInc, hfr.2]
      exact hvrf hno hnl
    exact (populateVerifyIoU_frame h hft hx).trans hfr.1
  · cases h
    exact hfr.1

lemma run_frame {m m' : Mem} {op : AreaOp a.iodepth} (h : a.Fits op)
    (hr : a.run k m op fuel = .ok m') (hx : x < a.base op.unit ∨ a.base op.unit + a.maxBs.toNat ≤ x)
    : m' x = m x := by
  obtain ⟨filled, hfl, hr⟩ := of_bind hr
  cases hr
  refine putView_frame (fun y hy => ?_) hx
  cases op with
  | init unit ioU rand seed => exact initUnit_frame hfl h hy
  | write unit ioU rand seed info => exact writeUnit_frame hfl h.1 h.2 hy

/-- **Fills that fit stay apart**: along any sequence of fills that end inside the part of their
    unit, none changes a byte of another unit's part. -/
theorem separate_of_fits (k : Checksums) (a : AreaOpts) (ops : List (AreaOp a.iodepth))
    (hfits : ∀ op ∈ ops, a.Fits op) (m : Mem) : a.Separate k m ops := by
  induction ops generalizing m with
  | nil => trivial
  | cons op rest ih =>
    intro fuel m' hr
    refine ⟨fun x hx => run_frame (hfits op (.head _)) hr hx, ?_⟩
    exact ih (fun op' hop' => hfits op' (List.mem_cons_of_mem op hop')) m'

def twoUnits (maxBs : BitVec 32) : AreaOpts :=
  { iodepth := 2, maxBs := maxBs, minWrite := maxBs, refillBuffers := true
    fill := { zeroBuffers := false, compressPercentage := 0, compressChunk := 0 }
    verify := default }

def nextWrite (maxBs : BitVec 32) : AreaOp 2 :=
  .write 0 { ddir := .write, buflen := maxBs.setWidth 64, xferBuflen := maxBs.setWidth 64 }
    0x0101010101010101 0 ⟨0, 0, 0, 0⟩

theorem separate_of_fits_eight :
    (∀ op ∈ [nextWrite 8], (twoUnits 8).Fits op) ∧
      (twoUnits 8).Separate sumChecksums (fun _ => 0) [nextWrite 8] := by
  have hft : ∀ op ∈ [nextWrite 8], (twoUnits 8).Fits op := by
    intro op hop
    rcases List.mem_singleton.1 hop with rfl
    exact ⟨fun _ => by decide, fun hno => absurd rfl hno⟩
  exact ⟨hft, separate_of_fits sumChecksums (twoUnits 8) [nextWrite 8] hft _⟩

lemma store_random_four (m : Mem) (seed : BitVec 64) :
    BufWrite.store m (.random 0 4 seed) = m.store 0 (leBytes 8 seed.toNat) := by
  change fillRandomBuf (0 + 1) m 0 seed = _
  rw [fillRandomBuf_succ]
  rfl

theorem fill_over_next_unit : ¬ (twoUnits 4).Separate sumChecksums (fun _ => 0) [nextWrite 4] := by
  intro hspr
  have hr : (twoUnits 4).run sumChecksums (fun _ => 0) (nextWrite 4) 0 =
      .ok (putView (fun _ => 0) 0
        (BufWrite.store (unitView (fun _ => 0) 0) (.random 0 4 0x0101010101010101))) := rfl
  have hby := (hspr 0 _ hr).1 4 (.inr (by decide))
  rw [store_random_four] at hby
  revert hby
  decide

end AreaOpts

end FioSsd
