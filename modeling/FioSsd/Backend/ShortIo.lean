import Mathlib.Data.BitVec
import FioSsd.Backend.Complete
import FioSsd.History.Record

/-! # Short transfers -/

namespace FioSsd

variable {len : BitVec 64} {f : FileId} {engine : IoU → Transfer → Prop} {rs : List (BitVec 32)}
  {ts : List Transfer} {draw : Nat} {t : Transfer}

open BitVec History Transfer

variable {close : Int} {a b c : IoU} {u : Nat} {td td' : Td} (k : Checksums) (hash : KeyHash)
  (o : ThreadOptions)

def Shrinks (len : Nat) : List (BitVec 32) → Prop
  | [] => True
  | r :: rs => r.toNat < len ∧ Shrinks r.toNat rs

def leftover (len : Nat) : List (BitVec 32) → Nat
  | [] => len
  | r :: rs => leftover r.toNat rs

def FitsInt (len : Nat) : List (BitVec 32) → Prop
  | [] => True
  | r :: rs => len - r.toNat < 2 ^ 31 ∧ FitsInt r.toNat rs

def moved (len : BitVec 64) : List (BitVec 32) → BitVec 64
  | [] => 0
  | r :: rs => ((len - r.setWidth 64).setWidth 32).signExtend 64 + moved (r.setWidth 64) rs

lemma Shrinks.leftover_le : ∀ {len : Nat}, Shrinks len rs → leftover len rs ≤ len := by
  induction rs with
  | nil => exact fun _ => le_rfl
  | cons r rs ih =>
    rintro len ⟨hr, hrs⟩
    exact (ih hrs).trans hr.le

lemma Shrinks.leftover_lt {len : Nat} (h : Shrinks len rs) (hne : rs ≠ []) :
    leftover len rs < len := by
  cases rs with
  | nil => exact absurd rfl hne
  | cons r rs => exact (h.2.leftover_le).trans_lt h.1

lemma Shrinks.fitsInt :
    ∀ {len : Nat}, Shrinks len rs → len - leftover len rs < 2 ^ 31 → FitsInt len rs := by
  induction rs with
  | nil => exact fun _ _ => trivial
  | cons r rs ih =>
    rintro len ⟨hr, hrs⟩ hlt
    have hle := hrs.leftover_le
    simp only [leftover] at hlt
    exact ⟨by omega, ih hrs (by omega)⟩

lemma toNat_signExtend_sub {len : BitVec 64} {r : BitVec 32} (h : len.toNat < 2 ^ 32)
    (hr : r.toNat < len.toNat) :
    (((len - r.setWidth 64).setWidth 32).signExtend 64).toNat =
      if len.toNat - r.toNat < 2 ^ 31 then len.toNat - r.toNat
      else 2 ^ 64 - 2 ^ 32 + (len.toNat - r.toNat) := by
  have hsub : ((len - r.setWidth 64).setWidth 32).toNat = len.toNat - r.toNat := by
    have hw : (r.setWidth 64).toNat = r.toNat := by simp; omega
    rw [toNat_setWidth, toNat_sub_of_le (by rw [le_def, hw]; omega), hw]
    omega
  rw [toNat_signExtend, toNat_setWidth, hsub, msb_eq_decide, hsub]
  by_cases hft : len.toNat - r.toNat < 2 ^ 31
  · rw [if_pos hft, if_neg (by simp; omega)]
    omega
  · rw [if_neg hft, if_pos (by simp; omega)]
    omega

lemma moved_toNat :
    ∀ {len : BitVec 64}, len.toNat < 2 ^ 32 → Shrinks len.toNat rs →
      (FitsInt len.toNat rs → (moved len rs).toNat = len.toNat - leftover len.toNat rs) ∧
      (¬FitsInt len.toNat rs →
        (moved len rs).toNat = 2 ^ 64 - 2 ^ 32 + (len.toNat - leftover len.toNat rs)) := by
  induction rs with
  | nil =>
    intro len hlen h
    exact ⟨fun _ => by simp [moved, leftover], fun hno => absurd trivial hno⟩
  | cons r rs ih =>
    rintro len hlen ⟨hr, hrs⟩
    have hst := toNat_signExtend_sub hlen hr
    have hw : (r.setWidth 64).toNat = r.toNat := by simp; omega
    obtain ⟨hfit, hnf⟩ := @ih (r.setWidth 64) (by omega) (by rwa [hw])
    rw [hw] at hfit hnf
    have hle := hrs.leftover_le
    simp only [moved, leftover, FitsInt, toNat_add, hst]
    by_cases hbig : len.toNat - r.toNat < 2 ^ 31
    · rw [if_pos hbig]
      constructor
      · rintro ⟨-, hft⟩
        rw [hfit hft]
        omega
      · intro hno
        rw [hnf fun hft => hno ⟨hbig, hft⟩]
        omega
    · -- a transfer of 2 GiB or more leaves less than that for the others
      rw [if_neg hbig, hfit (hrs.fitsInt (by omega))]
      exact ⟨fun hft => absurd hft.1 hbig, fun _ => by omega⟩

structure SameRange (a b : IoU) : Prop where
  offset : a.offset = b.offset
  buflen : a.buflen = b.buflen
  xferBuf : a.xferBuf = b.xferBuf
  xferBuflen : a.xferBuflen = b.xferBuflen
  file : a.file = b.file
  ddir : a.ddir = b.ddir
  uniqueVersion : a.uniqueVersion = b.uniqueVersion

structure SameRequest (a b : IoU) : Prop extends SameRange a b where
  buf : a.buf = b.buf

/-- One short round of the unit `u`, which the engine gets as `a` and gets again as `b`, whatever
    the job does in between. -/
def ShortRound (u : Nat) (a : IoU) (t : Transfer) (b : IoU) : Prop :=
  ∃ (td td₁ td₂ td₃ td₄ : Td) (hook : QueueHook) (close : Int) (draw : Nat),
    SameRequest (td.ioUs u) a ∧ hook.ret = fioQCompleted ∧ hook.transfer = t ∧
    td.tdIoQueue o u hook = .ok td₁ ∧
    td₁.queueCompleted k hash o u close draw = .ok (.requeued, td₂) ∧
    td₃.ioUs u = td₂.ioUs u ∧ td₃.ioURequeues.head? = some u ∧
    td₃.getIoU = .ok (some u, td₄) ∧ SameRequest (td₄.ioUs u) b

/-- The short rounds of a unit, for an engine that works as `engine` says. -/
inductive Resubmits (u : Nat) (engine : IoU → Transfer → Prop) : IoU → List Transfer → IoU → Prop
  | refl (a : IoU) : Resubmits u engine a [] a
  | short {a b c : IoU} {t : Transfer} {ts : List Transfer} (round : ShortRound k hash o u a t b)
      (works : engine a t) (rest : Resubmits u engine b ts c) : Resubmits u engine a (t :: ts) c

/-- The job is about to run `io_completed` on the unit `u`, first submitted as `a`. -/
inductive AtCompletion (u : Nat) (engine : IoU → Transfer → Prop) (a : IoU) :
    List Transfer → Td → Prop
  | sync {c : IoU} {ts : List Transfer} {td td₁ : Td} {hook : QueueHook}
      (rounds : Resubmits k hash o u engine a ts c) (unit : SameRequest (td.ioUs u) c)
      (works : engine c hook.transfer) (ret : hook.ret = fioQCompleted)
      (noError : hook.transfer.error = 0) (all : hook.transfer.resid = 0)
      (queued : td.tdIoQueue o u hook = .ok td₁) : AtCompletion u engine a ts td₁
  | atEnd {c : IoU} {ts : List Transfer} {td td₁ : Td} {hook : QueueHook} {f : FileId}
      (rounds : Resubmits k hash o u engine a ts c) (unit : SameRequest (td.ioUs u) c)
      (works : engine c hook.transfer) (ret : hook.ret = fioQCompleted)
      (noError : hook.transfer.error = 0) (queued : td.tdIoQueue o u hook = .ok td₁)
      (rest : hook.transfer.resid ≠ 0) (short : shortBytes (td₁.ioUs u) ≠ 0) (file : c.file = some f)
      (isEnd : (td₁.ioUs u).advance.offset = (td₁.hist.files f).realFileSize) :
      AtCompletion u engine a (ts ++ [hook.transfer]) (td₁.setIoU u (td₁.ioUs u).advance)
  | async {c : IoU} {ts : List Transfer} {td : Td} {t : Transfer}
      (rounds : Resubmits k hash o u engine a ts c) (unit : SameRequest (td.ioUs u) c)
      (works : engine c t) (noError : t.error = 0) :
      AtCompletion u engine a ts (td.setIoU u ((td.ioUs u).transferred t))

def shorts (a : IoU) : List Transfer → IoU
  | [] => a
  | t :: ts => shorts (a.transferred t).advance ts

def TransfersAtMost (a : IoU) (t : Transfer) : Prop := t.resid.toNat ≤ a.xferBuflen.toNat

variable {k hash o}

lemma SameRange.symm (h : SameRange a b) : SameRange b a :=
  ⟨h.offset.symm, h.buflen.symm, h.xferBuf.symm, h.xferBuflen.symm, h.file.symm, h.ddir.symm,
    h.uniqueVersion.symm⟩

lemma SameRange.trans (h : SameRange a b) (h' : SameRange b c) : SameRange a c :=
  ⟨h.offset.trans h'.offset, h.buflen.trans h'.buflen, h.xferBuf.trans h'.xferBuf,
    h.xferBuflen.trans h'.xferBuflen, h.file.trans h'.file, h.ddir.trans h'.ddir,
    h.uniqueVersion.trans h'.uniqueVersion⟩

lemma SameRange.advance (h : SameRange a b) (hrs : a.resid = b.resid) :
    SameRange a.advance b.advance := by
  rw [IoU.advance, shortBytes, h.xferBuflen, hrs, h.xferBuf, h.offset]
  exact ⟨rfl, h.buflen, rfl, rfl, h.file, h.ddir, h.uniqueVersion⟩

lemma SameRange.shorts :
    ∀ {a b : IoU}, SameRange a b → SameRange (FioSsd.shorts a ts) (FioSsd.shorts b ts) := by
  induction ts with
  | nil => exact fun h => h
  | cons t ts ih =>
    intro a b h
    have htrn : SameRange (a.transferred t) (b.transferred t) :=
      ⟨h.offset, h.buflen, h.xferBuf, h.xferBuflen, h.file, h.ddir, h.uniqueVersion⟩
    exact ih (htrn.advance rfl)

lemma Td.queueCompleted_requeued
    (h : td.queueCompleted k hash o u close draw = .ok (.requeued, td')) :
    (td.ioUs u).resid ≠ 0 ∧ shortBytes (td.ioUs u) ≠ 0 ∧
      td'.ioUs u = { (td.ioUs u).advance with free := true, flight := false } := by
  have hdn : ∀ td1 : Td, td1.syncDone k hash o u close draw ≠ .ok (.requeued, td') := by
    intro td1 h1
    obtain ⟨⟨ret, td2⟩, -, h1⟩ := of_bind h1
    cases h1
  unfold queueCompleted at h
  simp only at h
  split_ifs at h with herr hrs hby
  · obtain ⟨td1, -, h⟩ := of_bind h
    cases h
  · obtain ⟨td1, -, h⟩ := of_bind h
    cases h
  · cases hfl : (td.ioUs u).file with
    | none => simp [hfl] at h
    | some f =>
      simp only [hfl] at h
      split_ifs at h
      · exact absurd h (hdn _)
      · cases h
        exact ⟨hrs, hby, by simp [requeueIoU, unlink, setIoU]⟩
  · exact absurd h (hdn _)

lemma Td.getIoU_requeued (hhd : td.ioURequeues.head? = some u) (h : td.getIoU = .ok (some u, td'))
    : SameRequest (td'.ioUs u) (td.ioUs u) := by
  unfold getIoU at h
  cases hls : td.ioURequeues with
  | nil => simp [hls] at hhd
  | cons v rest =>
    obtain rfl : v = u := by simpa [hls] using hhd
    rw [hls] at h
    obtain ⟨td1, htk, h⟩ := of_bind h
    cases h
    unfold takeIoU at htk
    split_ifs at htk
    cases htk
    simp only [handOut, unlink, setIoU, Function.update_self]
    exact ⟨⟨rfl, rfl, rfl, rfl, rfl, rfl, rfl⟩, rfl⟩

lemma Td.callQueue_unit (td : Td) (u : Nat) (h : QueueHook) :
    (td.callQueue u h).ioUs u = { td.ioUs u with flight := true }.transferred h.transfer := by
  rw [callQueue_eq]
  simp [setIoU]

lemma ShortRound.spec (h : ShortRound k hash o u a t b) :
    SameRange b (a.transferred t).advance ∧ b.buf = t.buf ∧ t.resid ≠ 0 ∧
      shortBytes (a.transferred t) ≠ 0 := by
  obtain ⟨td, td1, td2, td3, td4, hook, close, draw, hun, hret, rfl, hqu, hdn, heq, hhd, hget,
    hb⟩ := h
  obtain rfl := Td.tdIoQueue_completed hret hqu
  obtain ⟨hrs, hby, hun2⟩ := Td.queueCompleted_requeued hdn
  have hgt' := Td.getIoU_requeued hhd hget
  rw [heq, hun2] at hgt'
  rw [Td.callQueue_unit] at hrs hby hgt'
  have hflg : SameRange ({ td.ioUs u with flight := true }.transferred hook.transfer)
      (a.transferred hook.transfer) :=
    ⟨hun.offset, hun.buflen, hun.xferBuf, hun.xferBuflen, hun.file, hun.ddir, hun.uniqueVersion⟩
  refine ⟨(hb.toSameRange.symm.trans hgt'.toSameRange).trans ?_, ?_, hrs, ?_⟩
  · have hadv := hflg.advance rfl
    exact ⟨hadv.offset, hadv.buflen, hadv.xferBuf, hadv.xferBuflen, hadv.file, hadv.ddir,
      hadv.uniqueVersion⟩
  · rw [← hb.buf, hgt'.buf]
    rfl
  · have hlen := hun.xferBuflen
    simpa only [shortBytes, IoU.transferred, hlen] using hby

lemma Resubmits.sameRange (h : Resubmits k hash o u engine a ts c) : SameRange c (shorts a ts) := by
  induction h with
  | refl a => exact ⟨rfl, rfl, rfl, rfl, rfl, rfl, rfl⟩
  | short round works rest ih => exact ih.trans round.spec.1.shorts

lemma resid_lt_of_shortBytes (hms : TransfersAtMost a t) (h : shortBytes (a.transferred t) ≠ 0)
    : t.resid.toNat < a.xferBuflen.toNat := by
  refine lt_of_le_of_ne hms fun heq => h ?_
  have hw : t.resid.setWidth 64 = a.xferBuflen := by
    apply eq_of_toNat_eq
    rw [← heq]
    simp
    omega
  simp [shortBytes, IoU.transferred, hw]

@[simp] lemma toNat_xferBuflen_advance (ioU : IoU) :
    ioU.advance.xferBuflen.toNat = ioU.resid.toNat := by
  simp only [IoU.advance, toNat_setWidth]
  have := ioU.resid.isLt
  omega

lemma shorts_spec (ts : List Transfer) : ∀ a : IoU,
    (shorts a ts).offset = a.offset + moved a.xferBuflen (ts.map resid) ∧
      (shorts a ts).xferBuflen.toNat = leftover a.xferBuflen.toNat (ts.map resid) ∧
      (shorts a ts).buflen = a.buflen ∧ (shorts a ts).file = a.file ∧ (shorts a ts).ddir = a.ddir := by
  induction ts with
  | nil => exact fun a => ⟨by simp [shorts, moved], rfl, rfl, rfl, rfl⟩
  | cons t ts ih =>
    intro a
    obtain ⟨hoff, hlf, hrs⟩ := ih (a.transferred t).advance
    refine ⟨?_, ?_, hrs⟩
    · rw [shorts, hoff]
      simp only [IoU.advance, IoU.transferred, shortBytes, List.map_cons, moved]
      rw [add_assoc]
    · rw [shorts, hlf, toNat_xferBuflen_advance]
      rfl

lemma Resubmits.shrinks (hms : ∀ a t, engine a t → TransfersAtMost a t)
    (h : Resubmits k hash o u engine a ts c) :
    Shrinks a.xferBuflen.toNat (ts.map resid) := by
  induction h with
  | refl a => trivial
  | short round works rest ih =>
    obtain ⟨hrn, -, -, hby⟩ := round.spec
    refine ⟨resid_lt_of_shortBytes (hms _ _ works) hby, ?_⟩
    rwa [hrn.xferBuflen, toNat_xferBuflen_advance] at ih

lemma Shrinks.snoc {r : BitVec 32} :
    ∀ {len : Nat}, Shrinks len rs → r.toNat < leftover len rs → Shrinks len (rs ++ [r]) := by
  induction rs with
  | nil => exact fun _ hr => ⟨hr, trivial⟩
  | cons r' rs ih =>
    rintro len ⟨hr', hrs⟩ hr
    exact ⟨hr', ih hrs hr⟩

lemma leftover_snoc (rs : List (BitVec 32)) (r : BitVec 32) :
    ∀ len, leftover len (rs ++ [r]) = r.toNat := by
  induction rs with
  | nil => exact fun _ => rfl
  | cons r' rs ih => exact fun _ => ih _

lemma shorts_snoc (ts : List Transfer) (t : Transfer) :
    ∀ a, shorts a (ts ++ [t]) = ((shorts a ts).transferred t).advance := by
  induction ts with
  | nil => exact fun _ => rfl
  | cons t' ts ih => exact fun a => ih _

lemma AtCompletion.spec (hms : ∀ a t, engine a t → TransfersAtMost a t)
    (h : AtCompletion k hash o u engine a ts td) :
    SameRange (td.ioUs u) (shorts a ts) ∧ Shrinks a.xferBuflen.toNat (ts.map resid) ∧
      (td.ioUs u).resid.toNat ≤ leftover a.xferBuflen.toNat (ts.map resid) ∧
      (td.ioUs u).error = 0 := by
  -- the last submission, with what its short rounds left
  have hla : ∀ {c x : IoU} {ts : List Transfer} {t : Transfer},
      Resubmits k hash o u engine a ts c → SameRange x c → engine c t →
      SameRange (x.transferred t) (shorts a ts) ∧
        t.resid.toNat ≤ leftover a.xferBuflen.toNat (ts.map resid) := by
    intro c x ts t hrnd hx hwr
    have hrn := hrnd.sameRange
    refine ⟨SameRange.trans ?_ hrn, ?_⟩
    · exact ⟨hx.offset, hx.buflen, hx.xferBuf, hx.xferBuflen, hx.file, hx.ddir, hx.uniqueVersion⟩
    · rw [← (shorts_spec ts a).2.1, ← hrn.xferBuflen]
      exact hms c t hwr
  have hflg : ∀ {c x : IoU}, SameRequest x c → SameRange { x with flight := true } c :=
    fun hx => ⟨hx.offset, hx.buflen, hx.xferBuf, hx.xferBuflen, hx.file, hx.ddir, hx.uniqueVersion⟩
  cases h with
  | sync rounds unit works ret noError all queued =>
    obtain rfl := Td.tdIoQueue_completed ret queued
    obtain ⟨hrn, hlf⟩ := hla rounds (hflg unit) works
    rw [Td.callQueue_unit]
    exact ⟨hrn, rounds.shrinks hms, hlf, noError⟩
  | atEnd rounds unit works ret noError queued rest short file isEnd =>
    obtain rfl := Td.tdIoQueue_completed ret queued
    obtain ⟨hrn, hlf⟩ := hla rounds (hflg unit) works
    rw [Td.callQueue_unit] at short
    simp only [Td.setIoU, Function.update_self, Td.callQueue_unit, List.map_append, List.map_cons,
      List.map_nil, leftover_snoc, shorts_snoc]
    refine ⟨?_, (rounds.shrinks hms).snoc ?_, le_rfl, noError⟩
    · refine SameRange.advance ?_ rfl
      exact ⟨hrn.offset, hrn.buflen, hrn.xferBuf, hrn.xferBuflen, hrn.file, hrn.ddir,
        hrn.uniqueVersion⟩
    · rw [← (shorts_spec _ a).2.1, ← rounds.sameRange.xferBuflen]
      refine resid_lt_of_shortBytes (hms _ _ works) ?_
      have hlen := unit.xferBuflen
      simpa only [shortBytes, IoU.transferred, hlen] using short
  | async rounds unit works noError =>
    obtain ⟨hrn, hlf⟩ := hla rounds unit.toSameRange works
    simp only [Td.setIoU, Function.update_self]
    exact ⟨hrn, rounds.shrinks hms, hlf, noError⟩

variable (o) in
/-- The bytes that an entry of the history stands for: on the segment path its blocks, as
    `get_next_verify` reads them back. -/
def pieceRange (file : FioFile) (ipo : IoPiece) : BitVec 64 × BitVec 64 :=
  if History.segBranch o file then
    (BitVec.ofNat 64 (ipo.block * o.rwMinBs.toNat) + file.fileOffset,
      BitVec.ofNat 64 (ipo.nrBlk * o.rwMinBs.toNat))
  else (BitVec.ofNat 64 ipo.offset, BitVec.ofNat 64 ipo.len)

variable (o) in
def Records (h h' : History) (f : FileId) (start len : BitVec 64) : Prop :=
  ∃ ipo, h'.heap h.nextAddr = some ipo ∧ pieceRange o (h.files f) ipo = (start, len)

variable (o) in
/-- A write as `fill_io_u` and `get_io_u` hand it out: lengths are `unsigned int`s, and it lies
    inside the file. -/
structure NewWrite (file : FioFile) (f : FileId) (ioU : IoU) : Prop where
  isWrite : ioU.ddir = .write
  onFile : ioU.file = some f
  whole : ioU.xferBuflen = ioU.buflen
  short : ioU.buflen.toNat < 2 ^ 32
  inFile : (ioU.offset - file.fileOffset).toNat + ioU.buflen.toNat < 2 ^ 64
  /-- The job logs its writes. -/
  logged : o.ddirWrite = true ∧ o.doVerify = true ∧ o.verify ≠ .verifyNone

variable (o) in
/-- Everything was transferred, and `offset` still stands for the original one: no short transfer, or,
    on the segment path, one by less than a block of a write of whole blocks. -/
def KeepsRange (file : FioFile) (ioU : IoU) (rs : List (BitVec 32)) (resid : BitVec 32) : Prop :=
  resid = 0 ∧
    if History.segBranch o file then
      o.rwMinBs.toNat ∣ ioU.buflen.toNat ∧ o.rwMinBs.toNat ∣ (ioU.offset - file.fileOffset).toNat ∧
        FitsInt ioU.buflen.toNat rs ∧ ioU.buflen.toNat - leftover ioU.buflen.toNat rs < o.rwMinBs.toNat
    else rs = []

lemma moved_eq_zero_iff (hlen : len.toNat < 2 ^ 32) (h : Shrinks len.toNat rs)
    : moved len rs = 0 ↔ rs = [] := by
  obtain ⟨hft, hnft⟩ := moved_toNat hlen h
  constructor
  · intro h0
    by_contra hne
    have hlt := h.leftover_lt hne
    rw [h0] at hft hnft
    by_cases hf : FitsInt len.toNat rs
    · have := hft hf
      simp at this
      omega
    · have := hnft hf
      simp at this
      omega
  · rintro rfl
    rfl

lemma blockStart_eq_iff {d : BitVec 64} {m : Nat} (hm : 0 < m) (hm' : m < 2 ^ 32)
    (hlen : len.toNat < 2 ^ 32) (h : Shrinks len.toNat rs) (hin : d.toNat + len.toNat < 2 ^ 64)
    : (d + moved len rs).toNat / m * m = d.toNat ↔
      m ∣ d.toNat ∧ FitsInt len.toNat rs ∧ len.toNat - leftover len.toNat rs < m := by
  obtain ⟨hft, hnft⟩ := moved_toNat hlen h
  rw [toNat_add]
  by_cases hf : FitsInt len.toNat rs
  · rw [hft hf, Nat.mod_eq_of_lt (by omega), div_mul_eq_iff hm]
    simp [hf]
  · rw [hnft hf]
    simp only [hf, false_and, and_false, iff_false]
    -- the sum is off by 4 GiB, further than a block
    have hle := Nat.div_mul_le_self
      ((d.toNat + (2 ^ 64 - 2 ^ 32 + (len.toNat - leftover len.toNat rs))) % 2 ^ 64) m
    have hlt := Nat.lt_div_mul_add hm
      (a := (d.toNat + (2 ^ 64 - 2 ^ 32 + (len.toNat - leftover len.toNat rs))) % 2 ^ 64)
    omega

lemma pieceRange_eq_iff {file : FioFile} {ioU x : IoU} {ipo : IoPiece}
    (hnew : NewWrite o file f ioU) (hrn : SameRange x (shorts ioU ts))
    (h : Shrinks ioU.xferBuflen.toNat (ts.map resid))
    (hrs : x.resid.toNat ≤ leftover ioU.xferBuflen.toNat (ts.map resid))
    (hipo : (ipo.block, ipo.nrBlk) = History.loggedRange o file x) :
    pieceRange o file ipo = (ioU.offset, ioU.buflen - x.resid.setWidth 64) ↔
      KeepsRange o file ioU (ts.map resid) x.resid := by
  obtain ⟨hoff, -, hbfl, -⟩ := shorts_spec ts ioU
  rw [hnew.whole] at hoff h hrs
  have hlen := hnew.short
  have hle := h.leftover_le
  have h0 : x.resid = 0 ↔ x.resid.toNat = 0 := by
    rw [← toNat_inj]
    rfl
  have hlf : (ioU.buflen - x.resid.setWidth 64).toNat = ioU.buflen.toNat - x.resid.toNat := by
    have hw : (x.resid.setWidth 64).toNat = x.resid.toNat := by simp; omega
    rw [toNat_sub_of_le (by rw [le_def, hw]; omega), hw]
  unfold pieceRange KeepsRange
  unfold History.loggedRange at hipo
  by_cases hseg : History.segBranch o file = true
  · rw [if_pos hseg] at hipo ⊢
    rw [if_pos hseg]
    obtain ⟨hblk, hnr⟩ := Prod.mk.inj hipo
    have hm := o.rwMinBs_pos
    have hm' := o.rwMinBs.isLt
    have hst : (x.offset - file.fileOffset) =
        (ioU.offset - file.fileOffset) + moved ioU.buflen (ts.map resid) := by
      rw [hrn.offset, hoff]
      ring
    have hcl : History.nrBlkOf o x = (ioU.buflen.toNat + o.rwMinBs.toNat - 1) / o.rwMinBs.toNat := by
      have hx := hrn.buflen.trans hbfl
      rw [nrBlkOf_eq (by rw [hx]; exact hlen), hx]
    rw [Prod.mk.injEq, ← eq_sub_iff_add_eq, ← toNat_inj, ← toNat_inj, hlf, hblk, hnr]
    simp only [History.blockOf, hst, hcl, toNat_ofNat]
    rw [Nat.mod_eq_of_lt, Nat.mod_eq_of_lt, blockStart_eq_iff hm hm' hlen h hnew.inFile,
      ceil_mul_eq_iff hm (by omega), h0]
    · tauto
    · exact (Nat.div_mul_le_self _ _).trans_lt (by omega)
    · exact (Nat.div_mul_le_self _ _).trans_lt (BitVec.isLt _)
  · rw [if_neg hseg] at hipo ⊢
    rw [if_neg hseg]
    obtain ⟨hblk, hnr⟩ := Prod.mk.inj hipo
    rw [← moved_eq_zero_iff hlen h, Prod.mk.injEq]
    simp only [IoPiece.offset, IoPiece.len, hblk, hnr, ofNat_toNat, setWidth_eq, hrn.offset, hoff,
      hrn.buflen, hbfl]
    have hall : ioU.buflen = ioU.buflen - x.resid.setWidth 64 ↔ x.resid = 0 := by
      rw [← toNat_inj, hlf, h0]
      omega
    rw [add_eq_left, hall]
    exact and_comm

lemma Td.settleError_hist (td : Td) (u icdError : Nat) :
    (td.settleError o u icdError).2.hist = td.hist := by
  unfold settleError
  simp only
  split_ifs <;> rfl

lemma Td.putFileLog_heap (h : td.putFileLog f close = .ok td') : td'.hist.heap = td.hist.heap := by
  obtain ⟨⟨ret, hist⟩, hput, h⟩ := of_bind h
  cases h
  have hhp := (putFile_pieces hput).1
  split_ifs
  · rw [tdVerror_eq]
    exact hhp
  · exact hhp

lemma Td.endIo_heap {ret : Nat} (h : td.endIo k o u close = .ok (ret, td'))
    : td'.hist.heap = td.hist.heap := by
  unfold endIo at h
  cases hend : (td.ioUs u).endIo with
  | none =>
    rw [hend] at h
    cases h
    rfl
  | some handler =>
    rw [hend] at h
    cases handler with
    | verifyIoU =>
      obtain ⟨res, -, h⟩ := of_bind h
      cases h
      rfl
    | verifyIoUAsync =>
      obtain ⟨td1, hasy, h⟩ := of_bind h
      cases h
      rcases verifyIoUAsync_split hasy with ⟨-, rfl⟩ | ⟨f, td2, -, hput, rfl⟩
      · rfl
      · exact (putFileLog_heap hput : td2.hist.heap = td.hist.heap)

lemma Td.ioCompleted_logs {icdError icdError' : Nat} (herr : (td.ioUs u).error = 0)
    (hwr : (td.ioUs u).ddir = .write)
    (hlog : o.ddirWrite = true ∧ o.doVerify = true ∧ o.verify ≠ .verifyNone)
    (h : td.ioCompleted k hash o u icdError close draw = .ok (icdError', td')) :
    ∃ h1, td.hist.logIoPiece hash o { td.ioUs u with flight := false, busyOk := false } draw = .ok h1 ∧
      td'.hist.heap = h1.heap := by
  have hun : (td.land u).ioUs u = { td.ioUs u with flight := false, busyOk := false } := by
    simp [land, setIoU]
  unfold ioCompleted at h
  split_ifs at h
  simp only [landed, hun, herr, hwr, ddirSync, ddirRw, Bool.false_eq_true, if_false, decide_true,
    Bool.and_true, if_true] at h
  unfold rwCompleted logWrite at h
  obtain ⟨h1, hlgd, h⟩ := of_bind h
  rw [if_pos (by simp [hun, hwr, hlog]), setLastDdir_ioUs, hun] at hlgd
  obtain ⟨⟨ret, td1⟩, hend, h⟩ := of_bind h
  obtain rfl := congrArg Prod.snd (Except.ok.inj h)
  refine ⟨h1, hlgd, ?_⟩
  rw [settleError_hist, endIo_heap hend]

/-- **What `io_completed` records of a write**: the bytes transferred from the start of the original
    request, exactly if the request kept its range. -/
theorem ioCompleted_records_iff {td td' : Td} {u icdError icdError' draw : Nat} {close : Int}
    {f : FileId} {ioU : IoU} {ts : List Transfer} (hfresh : td.hist.Fresh)
    (hnew : NewWrite o (td.hist.files f) f ioU)
    (hcompletion : AtCompletion k hash o u TransfersAtMost ioU ts td)
    (hrun : td.ioCompleted k hash o u icdError close draw = .ok (icdError', td')) :
    Records o td.hist td'.hist f ioU.offset (ioU.buflen - (td.ioUs u).resid.setWidth 64) ↔
      KeepsRange o (td.hist.files f) ioU (ts.map Transfer.resid) (td.ioUs u).resid := by
  obtain ⟨hrn, hshr, hrs, herr⟩ := hcompletion.spec fun _ _ h => h
  obtain ⟨-, -, -, hfl, hddi⟩ := shorts_spec ts ioU
  obtain ⟨h1, hlgd, hhp⟩ := Td.ioCompleted_logs herr
    (hrn.ddir.trans (hddi.trans hnew.isWrite)) hnew.logged hrun
  obtain ⟨ipo, hipo, hlog⟩ := logIoPiece_piece hfresh (hrn.file.trans (hfl.trans hnew.onFile)) hlgd
  have hcmp := pieceRange_eq_iff hnew hrn hshr hrs (Prod.mk.inj hlog).2
  rw [Records, hhp]
  constructor
  · rintro ⟨ipo', hip', heq⟩
    cases hipo.symm.trans hip'
    exact hcmp.1 heq
  · exact fun hkp => ⟨ipo, hipo, hcmp.2 hkp⟩

def writeOptions : ThreadOptions := { defaultOptions with
  ddirWrite := true, verify := .verifyMd5 }

def write8k : IoU := { ddir := .write, buflen := 8192, xferBuflen := 8192, file := some 0, flight := true }

def completedWrite (resid : BitVec 32) : Td :=
  Td.setIoU { ioUs := fun _ => write8k } 0 (write8k.transferred ⟨0, resid, fun _ => 0⟩)

lemma completedWrite_atCompletion {resid : BitVec 32} (h : resid.toNat ≤ 8192) :
    AtCompletion sumChecksums (fun _ => 0) writeOptions 0 TransfersAtMost write8k []
      (completedWrite resid) :=
  .async (.refl write8k) ⟨⟨rfl, rfl, rfl, rfl, rfl, rfl, rfl⟩, rfl⟩ h rfl

lemma write8k_newWrite : NewWrite writeOptions default 0 write8k :=
  ⟨rfl, rfl, rfl, by decide, by decide, rfl, rfl, by decide⟩

/-- Only the first half of the write was transferred, and all of it is recorded. -/
theorem ioCompleted_records_untransferred :
    AtCompletion sumChecksums (fun _ => 0) writeOptions 0 TransfersAtMost write8k []
        (completedWrite 4096) ∧
      ∃ e td', (completedWrite 4096).ioCompleted sumChecksums (fun _ => 0) writeOptions 0 0 0 0 =
          .ok (e, td') ∧
        ¬Records writeOptions (completedWrite 4096).hist td'.hist 0 write8k.offset
          (write8k.buflen - 4096) := by
  refine ⟨completedWrite_atCompletion (by decide), ?_⟩
  obtain ⟨e, td', hr, hlgd⟩ : ∃ e td',
      (completedWrite 4096).ioCompleted sumChecksums (fun _ => 0) writeOptions 0 0 0 0 = .ok (e, td') ∧
        (td'.hist.heap 0).map (pieceRange writeOptions default) = some (0, 8192) := by decide +kernel
  refine ⟨e, td', hr, ?_⟩
  rintro ⟨ipo, hipo, hrn⟩
  rw [show td'.hist.heap 0 = some ipo from hipo] at hlgd
  have heq := Option.some.inj hlgd
  cases heq.symm.trans hrn

theorem ioCompleted_records_whole :
    ∃ e td', (completedWrite 0).ioCompleted sumChecksums (fun _ => 0) writeOptions 0 0 0 0 =
        .ok (e, td') ∧
      Records writeOptions (completedWrite 0).hist td'.hist 0 write8k.offset (write8k.buflen - 0) := by
  obtain ⟨e, td', hr, -⟩ : ∃ e td', (completedWrite 0).ioCompleted sumChecksums (fun _ => 0)
      writeOptions 0 0 0 0 = .ok (e, td') ∧ True := by decide +kernel
  refine ⟨e, td', hr, ?_⟩
  exact (ioCompleted_records_iff ⟨fun _ => List.not_mem_nil, List.not_mem_nil⟩ write8k_newWrite
    (completedWrite_atCompletion (by decide)) hr).2 ⟨rfl, by rw [if_neg (by decide)]; rfl⟩

end FioSsd
