import Mathlib.Data.BitVec
import FioSsd.History.Record
import FioSsd.Generator.Fill
import FioSsd.Setup.Maps

/-! # The range that is read back

On the segment branch `log_io_piece` divides the range of a write into blocks of `rw_min_bs`, counted
from the `file_offset` of the time the write is logged, and `get_next_verify` multiplies them out from
that of the time it is fetched; in between, `fill_io_u` may have switched to another zone. -/

namespace FioSsd.History

open BitVec

variable {hash : KeyHash} {o : ThreadOptions} {h h' h₁ h₂ h₃ : History} {p : Nat}
  {ipo : IoPiece} {w ioU ioU' : IoU} {f : FileId}

lemma iohistHashDel_rangeOf {ipo' : IoPiece} (hp : h.heap p = some ipo)
    (hr : h.iohistHashDel p = .ok h') (hp' : h'.heap p = some ipo') : rangeOf ipo' = rangeOf ipo := by
  obtain ⟨piece, hpc, hcs⟩ := iohistHashDel_cases hr
  cases hp.symm.trans hpc
  rcases hcs with ⟨-, rfl⟩ | ⟨b, -, -, rfl⟩
  · rw [Option.some.inj (hp'.symm.trans hp)]
  · simp only [setPiece, Function.update_self, Option.some.injEq] at hp'
    rw [← hp']
    rfl

lemma takeNext_segment {rest : List Nat} {taken : Option Nat} (htr : h.ioHistTree = [])
    (hls : h.ioHistList = p :: rest) (hp : h.heap p = some ipo) (hhsh : ipo.hashed)
    (hr : h.takeNext o = .ok (taken, h')) : taken = some p ∧ ∃ ipo', h'.heap p = some ipo' ∧
      ipo'.block =
        (BitVec.ofNat 64 (ipo.block * o.rwMinBs.toNat) + (h.files ipo.file).fileOffset).toNat ∧
      ipo'.nrBlk = (BitVec.ofNat 64 (ipo.nrBlk * o.rwMinBs.toNat)).toNat := by
  rw [takeNext, htr, hls] at hr
  simp only [deref, hp] at hr
  obtain ⟨_, hipo, hr⟩ := of_bind hr
  cases hipo
  split_ifs at hr
  obtain ⟨m, -, hr⟩ := of_bind hr
  obtain ⟨h₁, hdel, hr⟩ := of_bind hr
  obtain ⟨ipo1, hder, hr⟩ := of_bind hr
  cases hr
  have hkp := iohistHashDel_rangeOf (Function.update_self ..) hdel (heap_of_deref hder)
  obtain ⟨-, hblk, hnr⟩ : ipo1.file = ipo.file ∧ ipo1.block = ipo.block ∧ ipo1.nrBlk = ipo.nrBlk := by
    simpa [rangeOf] using hkp
  refine ⟨rfl, _, Function.update_self .., ?_, ?_⟩
  · rw [hblk]
    simp [setPiece]
  · rw [hnr]

lemma fillVerify_range {outcome : OpenOutcome} {failed : Bool} (hp : h.heap p = some ipo)
    (hr : h.fillVerify o p ioU outcome = .ok (failed, ioU', h')) :
    ioU'.offset = BitVec.ofNat 64 ipo.block ∧ ioU'.buflen = BitVec.ofNat 64 ipo.nrBlk := by
  obtain ⟨_, hder, hr⟩ := of_bind hr
  rw [deref, hp, Except.ok.injEq] at hder
  subst hder
  obtain ⟨⟨failed1, h₁⟩, -, hr⟩ := of_bind hr
  cases failed1 with
  | true =>
    cases hr
    exact ⟨rfl, rfl⟩
  | false =>
    simp only [Bool.false_eq_true, if_false] at hr
    obtain ⟨h₂, -, hr⟩ := of_bind hr
    by_cases hopn : (h₂.files ipo.file).isOpen
    · rw [if_pos hopn] at hr
      obtain ⟨h₃, -, hr⟩ := of_bind hr
      cases hr
      exact ⟨rfl, rfl⟩
    · rw [if_neg hopn] at hr
      cases hr

lemma blockStart_add_eq_iff {x fro to' : BitVec 64} {m : Nat} :
    BitVec.ofNat 64 ((x - fro).toNat / m * m) + to' = x ↔
      to' = fro + BitVec.ofNat 64 ((x - fro).toNat % m) := by
  have hsp : BitVec.ofNat 64 ((x - fro).toNat / m * m) + BitVec.ofNat 64 ((x - fro).toNat % m) =
      x - fro := by
    rw [← ofNat_add, Nat.div_add_mod', ofNat_toNat, setWidth_eq]
  constructor
  · intro h
    linear_combination h - hsp
  · intro h
    linear_combination h + hsp

/-- The entry that logging made at `p` is the next to be fetched, and no later write has changed its
    range. -/
structure NextAsLogged (h₁ h₂ : History) (p : Nat) : Prop where
  tree : h₂.ioHistTree = []
  list : ∃ rest, h₂.ioHistList = p :: rest
  piece : ∃ ipo₁ ipo₂, h₁.heap p = some ipo₁ ∧ h₂.heap p = some ipo₂ ∧ ipo₂.hashed = true ∧
    rangeOf ipo₂ = rangeOf ipo₁

/-- **A write is read back as it was written** exactly when it is a whole number of blocks long and
    `file_offset` has moved, since it was logged, by what its own offset is past a block. -/
theorem getNextVerify_range_iff {outcome : OpenOutcome} {failed : Bool} {r : Nat} (hfresh : h.Fresh)
    (hf : w.file = some f) (hseg : segBranch o (h.files f) = true) (hlen : w.buflen.toNat < 2 ^ 32)
    (hlog : h.logIoPiece hash o w r = .ok h₁) (hnext : NextAsLogged h₁ h₂ h.nextAddr)
    (hfile : ioU.file = none) (hfetch : h₂.getNextVerify o ioU outcome = .ok (failed, ioU', h₃)) :
    ioU'.offset = w.offset ∧ ioU'.buflen = w.buflen ↔
      (h₂.files f).fileOffset = (h.files f).fileOffset +
          BitVec.ofNat 64 ((w.offset - (h.files f).fileOffset).toNat % o.rwMinBs.toNat) ∧
        o.rwMinBs.toNat ∣ w.buflen.toNat := by
  obtain ⟨rest, hls⟩ := hnext.list
  obtain ⟨ipo1, ipo2, hp1, hp2, hhsh, heq⟩ := hnext.piece
  obtain ⟨ipo, hipo, hrn⟩ := logIoPiece_piece hfresh hf hlog
  cases hipo.symm.trans hp1
  -- the entry still has the blocks of the write
  rw [hrn, loggedRange, if_pos hseg] at heq
  obtain ⟨rfl, hblk, hnr⟩ : ipo2.file = f ∧ ipo2.block = blockOf o (h.files f) w ∧
      ipo2.nrBlk = nrBlkOf o w := by
    simpa [rangeOf] using heq
  rw [getNextVerify, if_neg (by simp [hfile])] at hfetch
  obtain ⟨⟨taken, h4⟩, htk, hfl⟩ := of_bind hfetch
  obtain ⟨rfl, ipo4, hp4, hst, hby⟩ := takeNext_segment hnext.tree hls hp2 hhsh htk
  obtain ⟨hoff, hbfl⟩ := fillVerify_range hp4 hfl
  rw [hoff, hbfl, hst, hby, hblk, hnr, nrBlkOf_eq hlen]
  simp only [ofNat_toNat, setWidth_eq]
  refine and_congr blockStart_add_eq_iff ?_
  have hpos := o.rwMinBs_pos
  have hwd := o.rwMinBs.isLt
  have hcl : (w.buflen.toNat + o.rwMinBs.toNat - 1) / o.rwMinBs.toNat * o.rwMinBs.toNat < 2 ^ 64 :=
    (Nat.div_mul_le_self _ _).trans_lt (by omega)
  rw [← toNat_inj, toNat_ofNat, Nat.mod_eq_of_lt hcl]
  have hwh := ceil_mul_eq_iff (n := w.buflen.toNat) hpos (Nat.zero_le _)
  simpa using hwh

def zonedSpec (zoneSkip : BitVec 64) : JobSpec := randwriteSpec { defaultOptions with
  maxBs := 8192, randomagain := true, openFiles := 0, zoneSize := 4096, zoneSkip := zoneSkip }

def opened (s : JobSpec) (job : Job) : History := { s.history job with
  files := fun f => { (s.history job).files f with
    ioSize := s.sizes f, isOpen := true, fdOpen := true, references := 1 } }

def withFile (h : History) (file : FioFile) : History :=
  { h with files := Function.update h.files 0 file }

/-- `fill_io_u` for a write to file 0 that draws the first block and the smallest size. -/
def fills (o : ThreadOptions) (h : History) (nr : BitVec 32) (zoneBytes : BitVec 64) :
    Except Fault (Bool × Fill) :=
  fillIoU exactScale (2 ^ 32 - 1) o false h.ioHistLen
    ⟨{ file := some 0 }, h.files 0, nr, zoneBytes⟩
    ⟨.write, false, ⟨fun _ => 0, fun _ => 0⟩, [0]⟩

/-- One write is generated and logged, another one generated, and the first one fetched. -/
structure WritesFetches (zoneSkip : BitVec 64) (job : Job) (s₁ s₂ : Fill) (h₁ h₃ : History)
    (ioU' : IoU) : Prop where
  starts : (zonedSpec zoneSkip).start = some job
  first : fills job.o (opened (zonedSpec zoneSkip) job) 1 0 = .ok (false, s₁)
  logs : (withFile (opened (zonedSpec zoneSkip) job) s₁.file).logIoPiece (fun _ => 0) job.o s₁.ioU 0 =
    .ok h₁
  second : fills job.o h₁ s₁.ddirSeqNr s₁.zoneBytes = .ok (false, s₂)
  fetches : (withFile h₁ s₂.file).getNextVerify job.o default .succeeds = .ok (false, ioU', h₃)

lemma writesFetches_of_run (zoneSkip : BitVec 64) {job : Job} (P : Fill → History → Fill → IoU → Prop)
    (h : (zonedSpec zoneSkip).start = some job)
    (hr : ∃ s1, fills job.o (opened (zonedSpec zoneSkip) job) 1 0 = .ok (false, s1) ∧
      ∃ h₁, (withFile (opened (zonedSpec zoneSkip) job) s1.file).logIoPiece (fun _ => 0) job.o s1.ioU 0 =
          .ok h₁ ∧
      ∃ s2, fills job.o h₁ s1.ddirSeqNr s1.zoneBytes = .ok (false, s2) ∧
      ∃ r, (withFile h₁ s2.file).getNextVerify job.o default .succeeds = .ok (false, r) ∧
        P s1 h₁ s2 r.1) :
    ∃ s1 s2 h₁ h₃ ioU', WritesFetches zoneSkip job s1 s2 h₁ h₃ ioU' ∧ P s1 h₁ s2 ioU' := by
  obtain ⟨s1, hfr, h₁, hlg, s2, hscn, r, hftc, hP⟩ := hr
  exact ⟨s1, s2, h₁, r.2, r.1, ⟨h, hfr, hlg, hscn, hftc⟩, hP⟩

theorem getNextVerify_range_no_zone :
    ∃ job s₁ s₂ h₁ h₃ ioU', WritesFetches 0 job s₁ s₂ h₁ h₃ ioU' ∧ s₁.ioU.buflen = 4096 ∧
      (ioU'.offset = s₁.ioU.offset ∧ ioU'.buflen = s₁.ioU.buflen) := by
  obtain ⟨s₁, s₂, h₁, h₃, ioU', hr, hlen, hoff, hfl, hpre, hps, htr, hls, hpc⟩ :=
    writesFetches_of_run 0 (fun s₁ h₁ s₂ _ =>
      s₁.ioU.buflen = 4096 ∧ s₁.ioU.offset = 0 ∧ s₁.ioU.file = some 0 ∧ s₁.file.fileOffset = 0 ∧
        s₂.file.fileOffset = 0 ∧ h₁.ioHistTree = [] ∧ h₁.ioHistList = [0] ∧
        (h₁.heap 0).map IoPiece.hashed = some true) rfl (by decide +kernel)
  obtain ⟨ipo, hipo, hhsh⟩ := Option.map_eq_some_iff.1 hpc
  have hnx : NextAsLogged h₁ (withFile h₁ s₂.file) 0 :=
    ⟨htr, ⟨[], hls⟩, ipo, ipo, hipo, hipo, hhsh, rfl⟩
  refine ⟨_, s₁, s₂, h₁, h₃, ioU', hr, hlen, ?_⟩
  refine (getNextVerify_range_iff ⟨fun _ => List.not_mem_nil, List.not_mem_nil⟩ hfl rfl
    (by rw [hlen]; decide) hr.logs hnx rfl hr.fetches).2 ⟨?_, ?_⟩
  · simp only [withFile, Function.update_self, hpre, hps, hoff]
    rfl
  · rw [hlen]
    decide

/-- With zones 4k apart, the second write moves on to the zone at 8k, and the first one, of the 4k at the
    start of the file, is looked for there. -/
theorem getNextVerify_range_zone :
    ∃ job s₁ s₂ h₁ h₃ ioU', WritesFetches 4096 job s₁ s₂ h₁ h₃ ioU' ∧
      segBranch job.o s₁.file = true ∧ (s₁.ioU.offset, s₁.ioU.buflen) = (0, 4096) ∧
      (ioU'.offset, ioU'.buflen) = (8192, 4096) := by
  obtain ⟨s₁, s₂, h₁, h₃, ioU', hr, hrng⟩ := writesFetches_of_run 4096 (fun s₁ _ _ ioU' =>
      (s₁.ioU.offset, s₁.ioU.buflen) = (0, 4096) ∧ (ioU'.offset, ioU'.buflen) = (8192, 4096)) rfl
    (by decide +kernel)
  exact ⟨_, s₁, s₂, h₁, h₃, ioU', hr, rfl, hrng⟩

end FioSsd.History
