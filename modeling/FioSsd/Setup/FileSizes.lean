import Mathlib.Tactic

/-! # The regions of the files -/

namespace FioSsd

structure SizeOptions where
  (startOffset offsetIncrement : BitVec 64)
  threadNumber : Nat
  size : BitVec 64
  nrFiles : BitVec 32
  (fileSizeLow fileSizeHigh : BitVec 64)
  rwMinBs : BitVec 32
  (noio fillDevice : Bool)

/-- A file: the size that is found for it, -1 if there is none, and what is drawn between `file_size_low` and
    `file_size_high`. -/
structure SizedFile where
  (found draw : BitVec 64)

namespace SizeOptions

variable (o : SizeOptions)

def share : BitVec 64 := o.size / o.nrFiles.setWidth 64

variable (f : SizedFile)

def realFileSize : BitVec 64 :=
  if f.found = -1 ∧ o.size ≠ 0 then o.share else f.found

def getRandFileSize : BitVec 64 :=
  f.draw + o.fileSizeLow - (f.draw + o.fileSizeLow) % o.rwMinBs.setWidth 64

def fileOffset : BitVec 64 :=
  o.startOffset + BitVec.ofNat 64 (o.threadNumber - 1) * o.offsetIncrement

/-- The `io_size` of `setup_files`, if the smallest size reaches the offset. -/
def ioSize : Option (BitVec 64) :=
  if o.fileSizeLow = 0 then
    if o.share = 0 then some (o.realFileSize f - o.fileOffset) else some o.share
  else if o.realFileSize f < o.fileSizeLow ∨ o.fileSizeHigh < o.realFileSize f then
    if o.fileSizeLow < o.fileOffset then none
    else if o.fileSizeLow = o.fileSizeHigh then some (o.fileSizeLow - o.fileOffset)
    else some (o.getRandFileSize f - o.fileOffset)
  else some (o.realFileSize f - o.fileOffset)

def totalSize (files : List SizedFile) : BitVec 64 :=
  files.foldl (fun total f => if o.realFileSize f = -1 then -1 else total + o.realFileSize f) 0

def setupFiles (files : List SizedFile) : Option (List (BitVec 64)) :=
  if (o.totalSize files = 0 ∨ o.totalSize files = -1) ∧ o.size = 0 ∧ !o.noio ∧ !o.fillDevice then none
  else files.mapM o.ioSize

/-- What `file_offset` is subtracted from, for a file without a share. -/
def wholeSize : BitVec 64 :=
  if o.fileSizeLow = 0 then o.realFileSize f
  else if o.realFileSize f < o.fileSizeLow ∨ o.fileSizeHigh < o.realFileSize f then
    if o.fileSizeLow = o.fileSizeHigh then o.fileSizeLow else o.getRandFileSize f
  else o.realFileSize f

def Shares : Prop := o.fileSizeLow = 0 ∧ o.share ≠ 0
deriving Decidable

/-- `io_size` is the share or the difference as an integer, and the region ends below 2^64. -/
structure RegionRight (f : SizedFile) (ioSize : BitVec 64) : Prop where
  exact : (ioSize.toNat : Int) =
    if o.Shares then (o.share.toNat : Int) else (o.wholeSize f).toNat - o.fileOffset.toNat
  below : o.fileOffset.toNat + ioSize.toNat < 2 ^ 64

def HasRoom : Prop :=
  if o.Shares then o.fileOffset.toNat + o.share.toNat < 2 ^ 64
  else o.fileOffset.toNat ≤ (o.wholeSize f).toNat
deriving Decidable

variable {o} {f : SizedFile} {files : List SizedFile} {io : BitVec 64}

lemma ioSize_eq (hio : o.ioSize f = some io) :
    io = if o.Shares then o.share else o.wholeSize f - o.fileOffset := by
  unfold ioSize at hio
  by_cases hlow : o.fileSizeLow = 0
  · rw [if_pos hlow] at hio
    by_cases hsh : o.share = 0
    · rw [if_pos hsh] at hio
      rw [if_neg (fun h : o.Shares => h.2 hsh), wholeSize, if_pos hlow]
      exact (Option.some.inj hio).symm
    · rw [if_neg hsh] at hio
      rw [if_pos ⟨hlow, hsh⟩]
      exact (Option.some.inj hio).symm
  · rw [if_neg hlow] at hio
    rw [if_neg (fun h : o.Shares => hlow h.1), wholeSize, if_neg hlow]
    split_ifs at hio ⊢ <;> cases hio <;> rfl

lemma regionRight_iff (hio : o.ioSize f = some io) : o.RegionRight f io ↔ o.HasRoom f := by
  have heq := ioSize_eq hio
  have hwh := (o.wholeSize f).isLt
  have hoff := o.fileOffset.isLt
  unfold HasRoom
  split_ifs with hshr
  · rw [if_pos hshr] at heq
    subst heq
    exact ⟨fun h => h.below, fun h => ⟨by rw [if_pos hshr], h⟩⟩
  · rw [if_neg hshr] at heq
    subst heq
    have hsub := BitVec.toNat_sub (o.wholeSize f) o.fileOffset
    constructor
    · intro h
      have hexa := h.exact
      rw [if_neg hshr] at hexa
      omega
    · intro hle
      exact ⟨by rw [if_neg hshr]; omega, by omega⟩

/-- The regions do not wrap exactly if every file has room behind its offset. -/
theorem setupFiles_right_iff (o : SizeOptions) (files : List SizedFile) (sizes : List (BitVec 64))
    (hrun : o.setupFiles files = some sizes) :
    List.Forall₂ o.RegionRight files sizes ↔ ∀ f ∈ files, o.HasRoom f := by
  unfold setupFiles at hrun
  split_ifs at hrun with hsz
  clear hsz
  induction files generalizing sizes with
  | nil =>
    cases hrun
    simp
  | cons f rest ih =>
    rw [List.mapM_cons] at hrun
    obtain ⟨io, hio, hrun⟩ := Option.bind_eq_some_iff.1 hrun
    obtain ⟨ios, hrs, hrun⟩ := Option.bind_eq_some_iff.1 hrun
    cases hrun
    rw [List.forall₂_cons, List.forall_mem_cons, regionRight_iff hio, ih ios hrs]

def oneFile (offset size : BitVec 64) : SizeOptions :=
  ⟨offset, 0, 1, size, 1, 0, 0, 4096, false, false⟩

theorem setupFiles_right_half : List.Forall₂ (oneFile 32768 0).RegionRight [⟨65536, 0⟩] [32768] :=
  (setupFiles_right_iff (oneFile 32768 0) [⟨65536, 0⟩] [32768] (by decide)).2 (by decide)

/-- An offset behind the end of the file makes a region of almost 2^64 bytes. -/
theorem setupFiles_wraps : (oneFile 131072 0).setupFiles [⟨65536, 0⟩] = some [-65536] ∧
    ¬(oneFile 131072 0).RegionRight ⟨65536, 0⟩ (-65536) :=
  ⟨by decide, fun h => absurd h.below (by decide)⟩

end SizeOptions

end FioSsd
