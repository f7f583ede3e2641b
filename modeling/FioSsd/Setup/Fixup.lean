import FioSsd.Types

/-! # Options that depend on each other

`fixup_options` (`init.c`) runs once per job, after parsing. -/

namespace FioSsd

namespace ThreadOptions

variable (o : ThreadOptions)

def fixupZoneSize : BitVec 64 := if o.zoneSize ≠ 0 ∧ o.openFiles = 1 then 0 else o.zoneSize

def fixupZoneRange : BitVec 64 :=
  if o.fixupZoneSize ≠ 0 ∧ o.zoneRange = 0 then o.fixupZoneSize else o.zoneRange

def randomWritesAgain : Bool := if !o.ddirRand || !o.ddirWrite then false else o.randomagain

def fixupRandomagain : Bool :=
  if o.randomWritesAgain && o.verify = .verifyNone then false else o.randomWritesAgain

def againNorandommap : Bool :=
  if o.randomWritesAgain && o.verify = .verifyNone then true
  else if o.randomWritesAgain && o.verify ≠ .verifyNone && o.norandommap then false
  else o.norandommap

def fixupOverwrite : Bool := if o.ddirRead || o.tdRw then true else o.overwrite

def orBs (val bs : BitVec 32) : BitVec 32 := if val = 0 then bs else val

lemma orBs_pos {val bs : BitVec 32} (h : 0 < bs.toNat) : 0 < (orBs val bs).toNat := by
  unfold orBs
  split_ifs with hval
  · exact h
  · refine pos_of_ne_zero fun h0 => hval (BitVec.eq_of_toNat_eq ?_)
    simpa using h0

def fixupMinBs : BitVec 32 := orBs o.minBs o.bs
def fixupMaxBs : BitVec 32 := orBs o.maxBs o.bs
def fixupReadMinBs : BitVec 32 := orBs o.readMinBs o.readBs
def fixupReadMaxBs : BitVec 32 := orBs o.readMaxBs o.readBs

def fixupRwMinBs : BitVec 32 :=
  if o.fixupReadMinBs < o.fixupMinBs then o.fixupReadMinBs else o.fixupMinBs

lemma fixupRwMinBs_pos : 0 < o.fixupRwMinBs.toNat := by
  unfold fixupRwMinBs
  split_ifs
  · exact orBs_pos o.readBs_pos
  · exact orBs_pos o.bs_pos

def fixupBa : BitVec 32 := if o.ba = 0 ∨ !o.ddirRand then o.fixupMinBs else o.ba
def fixupReadBa : BitVec 32 :=
  if o.readBa = 0 ∨ !o.ddirRand then o.fixupReadMinBs else o.readBa

def alignsBlocks : Bool := o.fixupReadBa ≠ o.fixupReadMinBs || o.fixupBa ≠ o.fixupMinBs

def blockalignTurnsOffMap : Bool := o.alignsBlocks && !o.againNorandommap

def fixupNorandommap : Bool := if o.blockalignTurnsOffMap then true else o.againNorandommap

def fixedBlockSize : Bool :=
  o.fixupReadMinBs = o.fixupReadMaxBs && o.fixupMinBs = o.fixupMaxBs &&
    o.fixupReadMinBs = o.fixupMinBs

def norandommapDisablesVerify : Bool :=
  o.fixupNorandommap && o.verify ≠ .verifyNone && !o.fixedBlockSize

def fixupVerify : VerifyType := if o.norandommapDisablesVerify then .verifyNone else o.verify

def fixupVerifyInterval : BitVec 32 :=
  if o.fixupVerify ≠ .verifyNone ∧ o.fixupMaxBs ≠ o.fixupMinBs ∧ o.verifyInterval = 0 then
    o.fixupMinBs
  else o.verifyInterval

/-- What `fixup_options` reads besides the options that other functions use. -/
structure FixupEnv where
  (warningsFatal writeIologFile readIologFile : Bool := false)
  /-- The engine is `"syslet-rw"`, or has `FIO_PIPEIO`. -/
  (sysletRw pipeio : Bool := false)
  (filesIndex numjobs : Nat := 1)
  preRead : Bool := false
  /-- The rate options for reads and for writes. -/
  (rate ratemin rateIops rateIopsMin : BitVec 32 × BitVec 32 := (0, 0))

instance : Inhabited FixupEnv := ⟨{}⟩

variable (e : FixupEnv)

/-- "rate and rate_iops are mutually exclusive", or a minimum exceeds its rate. -/
def FixupEnv.ratesClash : Bool :=
  (e.rate.1 + e.rate.2 ≠ 0 && e.rateIops.1 + e.rateIops.2 ≠ 0) ||
    (e.ratemin.1 + e.ratemin.2 ≠ 0 && e.rateIopsMin.1 + e.rateIopsMin.2 ≠ 0) ||
    e.rate.1 < e.ratemin.1 || e.rate.2 < e.ratemin.2 || e.rateIops.1 < e.rateIopsMin.1 ||
    e.rateIops.2 < e.rateIopsMin.2

def fixupRet : Bool :=
  let ret := if e.writeIologFile && e.readIologFile then e.warningsFatal else false
  let ret := if o.blockalignTurnsOffMap then e.warningsFatal else ret
  let ret := if o.norandommapDisablesVerify then e.warningsFatal else ret
  let ret := if e.ratesClash then true else ret
  let ret := if o.timeout = 0 && o.timeBased then e.warningsFatal else ret
  let ret :=
    if o.fixupVerify ≠ .verifyNone && o.ddirWrite && o.doVerify && 1 < e.numjobs then e.warningsFatal
    else ret
  if e.preRead && e.pipeio then e.warningsFatal else ret

def fixupOptions : Bool × ThreadOptions :=
  let nrFiles := if e.filesIndex < o.nrFiles then e.filesIndex else o.nrFiles
  (o.fixupRet e, { o with
      zoneSize := o.fixupZoneSize, randomagain := o.fixupRandomagain, zoneRange := o.fixupZoneRange
      overwrite := o.fixupOverwrite
      readMinBs := o.fixupReadMinBs, readMaxBs := o.fixupReadMaxBs
      minBs := o.fixupMinBs, maxBs := o.fixupMaxBs
      rwMinBs := o.fixupRwMinBs, rwMinBs_pos := o.fixupRwMinBs_pos
      readBa := o.fixupReadBa, ba := o.fixupBa
      norandommap := o.fixupNorandommap, verify := o.fixupVerify
      iodepthLow :=
        if o.iodepth < o.iodepthLow ∨ o.iodepthLow = 0 then
          if e.sysletRw && !o.ddirRand then 1 else o.iodepth
        else o.iodepthLow
      iodepthBatch :=
        if o.iodepth < o.iodepthBatch ∨ o.iodepthBatch = 0 then o.iodepth else o.iodepthBatch
      nrFiles := nrFiles
      openFiles := if nrFiles < o.openFiles ∨ o.openFiles = 0 then nrFiles else o.openFiles
      timeBased := if o.timeout = 0 && o.timeBased then false else o.timeBased
      size := if o.fillDevice && o.size = 0 then -1 else o.size
      verifyInterval := o.fixupVerifyInterval })

section Verifying

variable {o}

section

variable (h : o.fixupVerify ≠ .verifyNone)

include h

lemma verify_of_fixup : o.verify ≠ .verifyNone := by
  intro hno
  refine h ?_
  rw [fixupVerify, hno, ite_self]

lemma fixupRandomagain_eq :
    o.fixupRandomagain = o.randomWritesAgain := by
  rw [fixupRandomagain, decide_eq_false (verify_of_fixup h), Bool.and_false, if_neg (by simp)]

/-- **When a verifying job goes without random map**: it asked for that and not for `randomagain`, or
    it aligns its blocks to something else. -/
lemma fixupNorandommap_eq :
    o.fixupNorandommap = ((o.norandommap && !o.randomWritesAgain) || o.alignsBlocks) := by
  have hag : o.againNorandommap = (o.norandommap && !o.randomWritesAgain) := by
    rw [againNorandommap, decide_eq_false (verify_of_fixup h), decide_eq_true (verify_of_fixup h)]
    cases o.randomWritesAgain <;> cases o.norandommap <;> rfl
  rw [fixupNorandommap, blockalignTurnsOffMap, hag]
  cases o.alignsBlocks <;> cases o.norandommap <;> cases o.randomWritesAgain <;> rfl

lemma minBs_eq_of_fixup (hmap : o.fixupNorandommap) :
    o.fixupMinBs = o.fixupMaxBs := by
  by_contra hne
  refine h ?_
  rw [fixupVerify, if_pos]
  simp [norandommapDisablesVerify, hmap, verify_of_fixup h, fixedBlockSize, hne]

end

end Verifying

section Mapped

variable {o}

lemma ba_eq_of_fixup (h : o.fixupNorandommap = false) :
    o.fixupReadBa = o.fixupReadMinBs ∧ o.fixupBa = o.fixupMinBs := by
  unfold fixupNorandommap blockalignTurnsOffMap at h
  split_ifs at h with htr
  rw [h, Bool.not_false, Bool.and_true] at htr
  simpa [alignsBlocks] using htr

lemma fixupRwMinBs_le :
    o.fixupRwMinBs.toNat ≤ o.fixupReadMinBs.toNat ∧ o.fixupRwMinBs.toNat ≤ o.fixupMinBs.toNat := by
  unfold fixupRwMinBs
  split_ifs with hlt
  · exact ⟨le_rfl, le_of_lt hlt⟩
  · exact ⟨Nat.le_of_not_lt hlt, le_rfl⟩

end Mapped

end ThreadOptions

end FioSsd
