import Mathlib.Order.Lattice
import Mathlib.Tactic.Linarith

/-! # Mappings in the mmap engine

`engines/mmap.c`: `fio_mmapio_prep` looks for the file range of a unit in the mapping the file has,
and otherwise maps the file anew, as a whole or, where that fails, a part of it from the unit's
offset on. -/

namespace FioSsd

variable {mapSize : Nat}

structure Mapping where
  addr : Int
  (len off : Nat)
  deriving DecidableEq

/-- The fields of `struct fio_file` that the engine reads and writes, and the mapping that is really
there. -/
structure MmapFile where
  mmapPtr : Int
  (mmapSz mmapOff : Nat)
  partialMmap : Bool
  (fileOffset ioSize : Nat)
  mapping : Option Mapping
  deriving DecidableEq

def MmapFile.new (fileOffset ioSize : Nat) : MmapFile :=
  { mmapPtr := 0, mmapSz := 0, mmapOff := 0, partialMmap := false, fileOffset := fileOffset
    ioSize := ioSize, mapping := none }

/-- What `mmap` and the `posix_madvise` behind it return: an error number, or an address and the
    error number of a negative `posix_madvise`, 0 for none. -/
inductive MmapResult
  | fails (errno : Nat) (pos : 0 < errno)
  | maps (addr : Nat) (madvise : Nat)

def MmapResult.succeeds : MmapResult → Bool
  | .fails _ _ => false
  | .maps _ madvise => madvise = 0

/-- A read or write unit that `fio_mmapio_prep` is called for, with `td->error` at that time and
    what the system calls return, should they be made. -/
structure MmapPrep where
  (offset buflen error munmap : Nat)
  (full limited : MmapResult)

namespace MmapFile

variable (f : MmapFile)

/-- `fio_mmap_file`, with `td->error`: the error it returns and the file. -/
def fioMmapFile (error length off : Nat) : MmapResult → Nat × MmapFile
  | .fails errno _ => (if error = 0 then errno else error, { f with mmapPtr := 0 })
  | .maps addr madvise =>
    let error := if error = 0 then madvise else error
    let f := { f with mmapPtr := addr, mapping := some ⟨addr, length, off⟩ }
    -- an error unmaps what was just mapped, also an error from before the call
    if error ≠ 0 ∧ f.mmapPtr ≠ 0 then (error, { f with mapping := none }) else (error, f)

variable (p : MmapPrep)

def prepFull : Nat × MmapFile :=
  if f.partialMmap then (22, f)
  else
    let f := { f with mmapSz := f.ioSize, mmapOff := 0 }
    let (ret, f) := f.fioMmapFile p.error f.mmapSz f.mmapOff p.full
    if ret ≠ 0 then (ret, { f with partialMmap := true }) else (ret, f)

/-- `fio_mmapio_prep_limited`, which is called with `td->error` cleared; `mapSize` is
    `mmap_map_size`. -/
def prepLimited (mapSize : Nat) (f : MmapFile) (p : MmapPrep) : Nat × MmapFile :=
  if mapSize < p.buflen then (5, f)
  else
    let f := { f with mmapSz := if f.ioSize < mapSize then f.ioSize else mapSize, mmapOff := p.offset }
    f.fioMmapFile 0 f.mmapSz f.mmapOff p.limited

/-- The test of `fio_mmapio_prep`: the range of the unit fits within the existing mapping. -/
def fits : Bool :=
  f.mmapOff ≤ p.offset ∧ p.offset + p.buflen < f.mmapOff + f.mmapSz

def mmapData : Int :=
  f.mmapPtr + p.offset - f.mmapOff - f.fileOffset

/-- `fio_mmapio_prep`: `io_u->mmap_data` or the error it returns, and the file. -/
def prep (mapSize : Nat) (f : MmapFile) (p : MmapPrep) : Except Nat Int × MmapFile :=
  if f.fits p then (.ok (f.mmapData p), f)
  else if f.mmapPtr ≠ 0 ∧ p.munmap ≠ 0 then (.error p.munmap, f)
  else
    let f := if f.mmapPtr ≠ 0 then { f with mmapPtr := 0, mapping := none } else f
    let (ret, f) := f.prepFull p
    if ret ≠ 0 then
      let (ret, f) := f.prepLimited mapSize p
      if ret ≠ 0 then (.error ret, f) else (.ok (f.mmapData p), f)
    else (.ok (f.mmapData p), f)

/-- The units of a sequence in order, each with what its `fio_mmapio_prep` returned and the file
    behind it. -/
def run (mapSize : Nat) : MmapFile → List MmapPrep → List (MmapPrep × Except Nat Int × MmapFile)
  | _, [] => []
  | f, p :: ps => (p, f.prep mapSize p) :: run mapSize (f.prep mapSize p).2 ps

def Transfers (data : Int) : Prop :=
  ∃ m, f.mapping = some m ∧ m.addr ≤ data ∧ data + p.buflen ≤ m.addr + m.len ∧
    m.off + (data - m.addr) = p.offset

def InRange : Prop :=
  f.fileOffset ≤ p.offset ∧ p.offset + p.buflen ≤ f.fileOffset + f.ioSize

def Described : Prop :=
  f.mapping = some ⟨f.mmapPtr, f.mmapSz, f.mmapOff⟩ ∨ (f.mmapSz = 0 ∧ f.mmapOff = 0)

/-- `fio_mmapio_prep` has to map the file and cannot map all of it: that failed before, an old
    error stands, or it fails now. -/
def NeedsLimited : Prop :=
  f.fits p = false ∧ (f.partialMmap = true ∨ p.error ≠ 0 ∨ p.full.succeeds = false)

def Served (mapSize : Nat) (f : MmapFile) (p : MmapPrep) : Prop :=
  f.NeedsLimited p → p.buflen ≤ mapSize ∧ p.limited.succeeds = true

lemma fioMmapFile_succeeds (length off : Nat) {res : MmapResult}
    (h : res.succeeds = true) : ∃ addr, f.fioMmapFile 0 length off res = (0, { f with
      mmapPtr := addr, mapping := some ⟨addr, length, off⟩ }) := by
  cases res with
  | fails errno hpos => exact absurd h (by simp [MmapResult.succeeds])
  | maps addr madvise =>
    have hadv : madvise = 0 := by simpa [MmapResult.succeeds] using h
    exact ⟨addr, by simp [fioMmapFile, hadv]⟩

lemma fioMmapFile_fails {error : Nat} (length off : Nat) {res : MmapResult}
    (h : error ≠ 0 ∨ res.succeeds = false) : (f.fioMmapFile error length off res).1 ≠ 0 := by
  cases res with
  | fails errno hpos =>
    simp only [fioMmapFile]
    split_ifs <;> omega
  | maps addr madvise =>
    have hne : error = 0 → madvise ≠ 0 := by
      intro h0
      simpa [MmapResult.succeeds, h0] using h
    simp only [fioMmapFile]
    split_ifs <;> simp_all

lemma fioMmapFile_sizes (error length off : Nat) (res : MmapResult) :
    (f.fioMmapFile error length off res).2.fileOffset = f.fileOffset ∧
      (f.fioMmapFile error length off res).2.ioSize = f.ioSize := by
  cases res with
  | fails errno hpos => exact ⟨rfl, rfl⟩
  | maps addr madvise =>
    simp only [fioMmapFile]
    split_ifs <;> exact ⟨rfl, rfl⟩

lemma prepFull_cases : (∃ addr, f.prepFull p = (0, { f with
        mmapPtr := addr, mmapSz := f.ioSize, mmapOff := 0
        mapping := some ⟨addr, f.ioSize, 0⟩ })) ∨
      (f.partialMmap = true ∨ p.error ≠ 0 ∨ p.full.succeeds = false) ∧ (f.prepFull p).1 ≠ 0 ∧
        (f.prepFull p).2.fileOffset = f.fileOffset ∧ (f.prepFull p).2.ioSize = f.ioSize := by
  have hsz := fioMmapFile_sizes { f with mmapSz := f.ioSize, mmapOff := 0 } p.error f.ioSize 0
    p.full
  by_cases hprt : f.partialMmap = true
  · refine .inr ⟨.inl hprt, ?_⟩
    rw [prepFull, if_pos hprt]
    exact ⟨by simp, rfl, rfl⟩
  by_cases hfl : p.error ≠ 0 ∨ p.full.succeeds = false
  · refine .inr ⟨.inr hfl, ?_⟩
    have hret := fioMmapFile_fails { f with mmapSz := f.ioSize, mmapOff := 0 } f.ioSize 0 hfl
    rw [prepFull, if_neg hprt]
    simp only [hret, ne_eq, not_false_eq_true, if_true]
    exact ⟨trivial, hsz⟩
  · obtain ⟨herr, hful⟩ : p.error = 0 ∧ p.full.succeeds = true := by simpa using hfl
    obtain ⟨addr, hmp⟩ := fioMmapFile_succeeds
      { f with mmapSz := f.ioSize, mmapOff := 0 } f.ioSize 0 hful
    refine .inl ⟨addr, ?_⟩
    rw [prepFull, if_neg hprt]
    simp [herr, hmp]

variable {p : MmapPrep}

lemma prepLimited_spec (hbs : p.buflen ≤ mapSize)
    (h : p.limited.succeeds = true) : ∃ addr, f.prepLimited mapSize p = (0, { f with
      mmapPtr := addr, mmapSz := min f.ioSize mapSize, mmapOff := p.offset
      mapping := some ⟨addr, min f.ioSize mapSize, p.offset⟩ }) := by
  have hmin : (if f.ioSize < mapSize then f.ioSize else mapSize) = min f.ioSize mapSize := by
    split_ifs <;> omega
  obtain ⟨addr, hlmt⟩ := fioMmapFile_succeeds
    { f with mmapSz := min f.ioSize mapSize, mmapOff := p.offset } (min f.ioSize mapSize) p.offset
    h
  refine ⟨addr, ?_⟩
  rw [prepLimited, if_neg (by omega)]
  simp [hmin, hlmt]

variable {f : MmapFile}

lemma transfers_mmapData
    (hmap : f.mapping = some ⟨f.mmapPtr, f.mmapSz, f.mmapOff⟩) (h : f.fileOffset = 0)
    (hfr : f.mmapOff ≤ p.offset) (hto : p.offset + p.buflen ≤ f.mmapOff + f.mmapSz) :
    f.Transfers p (f.mmapData p) := by
  refine ⟨_, hmap, ?_, ?_, ?_⟩ <;> simp only [mmapData, h] <;> omega

lemma prep_spec (h : f.Described)
    (h0 : f.fileOffset = 0) (hin : f.InRange p) (hsrv : f.Served mapSize p) :
    (f.prep mapSize p).2.Described ∧ (f.prep mapSize p).2.fileOffset = f.fileOffset ∧
      (f.prep mapSize p).2.ioSize = f.ioSize ∧
      ∀ data, (f.prep mapSize p).1 = .ok data → (f.prep mapSize p).2.Transfers p data := by
  have hrn : p.offset + p.buflen ≤ f.ioSize := by
    have hto := hin.2
    omega
  unfold prep
  by_cases hft : f.fits p = true
  · rw [if_pos hft]
    obtain ⟨hfr, hto⟩ : f.mmapOff ≤ p.offset ∧ p.offset + p.buflen < f.mmapOff + f.mmapSz := by
      simpa [fits] using hft
    refine ⟨h, rfl, rfl, fun data hdt => ?_⟩
    cases hdt
    rcases h with hmap | ⟨hsz, hoff⟩
    · exact transfers_mmapData hmap h0 hfr hto.le
    · omega
  rw [if_neg hft]
  by_cases hun : f.mmapPtr ≠ 0 ∧ p.munmap ≠ 0
  · rw [if_pos hun]
    exact ⟨h, rfl, rfl, nofun⟩
  rw [if_neg hun]
  -- the file without its old mapping
  obtain ⟨g, hg, hgz, hgs, hgp⟩ : ∃ g, (if f.mmapPtr ≠ 0 then
      { f with mmapPtr := 0, mapping := none } else f) = g ∧ g.fileOffset = f.fileOffset ∧
        g.ioSize = f.ioSize ∧ g.partialMmap = f.partialMmap := by
    refine ⟨_, rfl, ?_⟩
    split_ifs <;> exact ⟨rfl, rfl, rfl⟩
  simp only [hg]
  rcases g.prepFull_cases p with ⟨addr, hfl⟩ | ⟨hnd, hret, hfz, hfs⟩
  · simp only [hfl, ne_eq, not_true_eq_false, if_false]
    refine ⟨.inl rfl, hgz, hgs, fun data hdt => ?_⟩
    cases hdt
    exact transfers_mmapData rfl (hgz.trans h0) (Nat.zero_le _) (by simp only; omega)
  · obtain ⟨hbs, hmp⟩ := hsrv ⟨Bool.eq_false_iff.2 hft, hgp ▸ hnd⟩
    obtain ⟨addr, hlmt⟩ := prepLimited_spec (g.prepFull p).2 hbs hmp
    simp only [hret, hlmt, ne_eq, not_false_eq_true, not_true_eq_false, if_true, if_false]
    refine ⟨.inl rfl, hfz.trans hgz, hfs.trans hgs, fun data hdt => ?_⟩
    cases hdt
    refine transfers_mmapData rfl ((hfz.trans hgz).trans h0) (le_refl _) ?_
    simp only
    omega

def ServedRun (mapSize : Nat) : MmapFile → List MmapPrep → Prop
  | _, [] => True
  | f, p :: ps =>
    f.InRange p ∧ f.Served mapSize p ∧ ServedRun mapSize (f.prep mapSize p).2 ps

lemma run_transfers (ps : List MmapPrep) (hds : f.Described)
    (h : f.fileOffset = 0) (hsrv : ServedRun mapSize f ps) {data : Int}
    {f' : MmapFile} (hmem : (p, .ok data, f') ∈ run mapSize f ps) : f'.Transfers p data := by
  induction ps generalizing f with
  | nil => exact absurd hmem (by simp [run])
  | cons q ps ih =>
    obtain ⟨hin, hq, hlat⟩ := hsrv
    obtain ⟨hds', h0', -, htrn⟩ := prep_spec hds h hin hq
    rcases List.mem_cons.1 hmem with hnow | hth
    · obtain ⟨rfl, hpr⟩ := Prod.mk.inj hnow
      have hok : (f.prep mapSize p).1 = .ok data := by rw [← hpr]
      have hfl : (f.prep mapSize p).2 = f' := by rw [← hpr]
      rw [← hfl]
      exact htrn data hok
    · exact ih hds' (h0'.trans h) hlat hth

/-- **The requested range is transferred** in a job that starts at the beginning of the file, after
    every successful `fio_mmapio_prep`, as long as no needed limited mapping fails. -/
theorem mmap_prep_transfers (mapSize ioSize : Nat) (ps : List MmapPrep)
    (hserved : ServedRun mapSize (MmapFile.new 0 ioSize) ps) (p : MmapPrep) (data : Int)
    (f : MmapFile) (hmem : (p, .ok data, f) ∈ run mapSize (MmapFile.new 0 ioSize) ps) :
    f.Transfers p data :=
  run_transfers ps (.inr ⟨rfl, rfl⟩) rfl hserved hmem

def blockAt (offset : Nat) : MmapPrep :=
  { offset := offset, buflen := 4096, error := 0, munmap := 0, full := .maps 65536 0
    limited := .maps 65536 0 }

theorem mmap_prep_transfers_second :
    (((MmapFile.new 0 8192).prep 4096 (blockAt 0)).2.prep 4096 (blockAt 4096)).2.Transfers
      (blockAt 4096) 69632 := by
  refine mmap_prep_transfers 4096 8192 [blockAt 0, blockAt 4096] ?_ _ _ _ ?_
  · refine ⟨⟨by decide, by decide⟩, ?_, ⟨by decide, by decide⟩, ?_, trivial⟩
    all_goals exact fun _ => ⟨by decide, by decide⟩
  · exact List.mem_cons_of_mem _ (List.mem_cons_self ..)

/-- A job on the second block of a file: the whole-file mapping starts at byte 0 and the data
    pointer goes back by `file_offset`, so the unit for `[4096, 8192)` gets the bytes `[0, 4096)`.
    -/
theorem mmap_prep_shifted :
    let f := MmapFile.new 4096 4096
    f.InRange (blockAt 4096) ∧ f.Served 4096 (blockAt 4096) ∧
      (f.prep 4096 (blockAt 4096)).1 = .ok 65536 ∧
      (f.prep 4096 (blockAt 4096)).2.mapping = some ⟨65536, 4096, 0⟩ ∧
      ¬ (f.prep 4096 (blockAt 4096)).2.Transfers (blockAt 4096) 65536 := by
  refine ⟨⟨by decide, by decide⟩, fun _ => ⟨by decide, by decide⟩, rfl, rfl, ?_⟩
  rintro ⟨m, hm, -, -, hoff⟩
  cases hm
  cases hoff

end MmapFile

end FioSsd
