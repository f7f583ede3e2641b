import FioSsd.History.Ops
import FioSsd.Lib.Bitmap

/-! # The random map

`file_map` has a bit for every block of `rw_min_bs` bytes of a file. -/

namespace FioSsd

open FioFile Bitmap

def randMapIdx (block : Nat) : Nat := block / 64 % 2 ^ 32

def randMapBit (block : Nat) : Nat := block % 64

namespace FioFile

variable (file : FioFile)

def mapWord (idx : Nat) : Except Fault (BitVec 64) :=
  match file.fileMap with
  | none => .error .badPointer
  | some map => if idx < file.numMaps then .ok (map idx) else .error .mapOverrun

def setMapWord (idx : Nat) (word : BitVec 64) : FioFile :=
  { file with fileMap := file.fileMap.map fun map => Function.update map idx word }

def randomMapFree (block : Nat) : Except Fault Bool := do
  let word ← file.mapWord (randMapIdx block)
  return word &&& (1#64 <<< randMapBit block) = 0

def thisBlocks (block nrBlocks : Nat) : Nat :=
  if 64 < nrBlocks + randMapBit block then 64 - randMapBit block else nrBlocks

end FioFile

section

variable (o : ThreadOptions)

def markBitMapLoop : Nat → Nat → Nat → Bool → FioFile → Except Fault (Bool × FioFile)
  | _, _, 0, again, file => .ok (again, file)
  | 0, _, _ + 1, _, _ => .error .outOfFuel
  | fuel + 1, block, nrBlocks, again, file =>
    let idx := randMapIdx block
    if idx < file.numMaps then do
      let n := FioFile.thisBlocks block nrBlocks
      let mask := Bitmap.mask 64 (randMapBit block) n
      let word ← file.mapWord idx
      markBitMapLoop fuel (block + n) (nrBlocks - n) (again || word &&& mask ≠ 0)
        (file.setMapWord idx (word ||| mask))
    else .error (.assertFailed .markBitMap)

def mapBlocksOf (ioU : IoU) : Nat := History.nrBlkOf o ioU % 2 ^ 32

variable (file : FioFile)

def markBitMap (ioU : IoU) : Except Fault (IoU × FioFile) :=
  if ioU.busyOk then .ok ({ ioU with randomagain := true }, file)
  else do
    let nrBlocks := mapBlocksOf o ioU
    let (again, file) ←
      markBitMapLoop nrBlocks (History.blockOf o file ioU) nrBlocks ioU.randomagain file
    return ({ ioU with randomagain := again }, file)

def startsFree (block : Nat) : Except Fault Bool :=
  if o.ddirSeqNr = 1 then file.randomMapFree block else .ok true

/-- The loop of `mark_random_map` for a unit without `IO_U_F_BUSY_OK`, with the number of blocks it has
    marked. -/
def markRandomMapLoop : Nat → Nat → Nat → Nat → FioFile → Except Fault (Nat × FioFile)
  | _, _, 0, blocks, file => .ok (blocks, file)
  | 0, _, _ + 1, _, _ => .error .outOfFuel
  | fuel + 1, block, nrBlocks, blocks, file => do
    if !(← startsFree o file block) then return (blocks, file)
    else
      let idx := randMapIdx block
      if idx < file.numMaps then
        let word ← file.mapWord idx
        let n := Bitmap.freeRun word (randMapBit block) (FioFile.thisBlocks block nrBlocks)
        if n = 0 then return (blocks, file)
        else
          markRandomMapLoop fuel (block + n) (nrBlocks - n) (blocks + n)
            (file.setMapWord idx (word ||| Bitmap.mask 64 (randMapBit block) n))
      else .error (.assertFailed .markRandomMap)

def markFree (ioU : IoU) : Except Fault (Nat × FioFile) :=
  let nrBlocks := mapBlocksOf o ioU
  if ioU.busyOk then .ok (nrBlocks, file)
  else markRandomMapLoop o nrBlocks (History.blockOf o file ioU) nrBlocks 0 file

def markRandomMap (ioU : IoU) : Except Fault (IoU × FioFile) := do
  let (blocks, file) ← markFree o file ioU
  let bytes := BitVec.ofNat 64 (blocks * o.rwMinBs.toNat % 2 ^ 32)
  return (if bytes < ioU.buflen then { ioU with buflen := bytes } else ioU, file)

end

namespace FioFile

variable {file file' : FioFile} {block n b idx : Nat} {word : BitVec 64}

def Marked (file : FioFile) (block : Nat) : Prop :=
  ∃ map, file.fileMap = some map ∧ (map (randMapIdx block)).getLsbD (randMapBit block) = true

structure Grows (file file' : FioFile) : Prop where
  same : ∃ map, file' = { file with fileMap := map }
  marked : ∀ {b}, file.Marked b → file'.Marked b

lemma Grows.refl (file : FioFile) : Grows file file := ⟨⟨_, rfl⟩, id⟩

lemma Grows.trans {file'' : FioFile} (hgr : Grows file file') (h : Grows file' file'') :
    Grows file file'' := by
  obtain ⟨map, rfl⟩ := hgr.same
  obtain ⟨map', rfl⟩ := h.same
  exact ⟨⟨map', rfl⟩, fun hmrk => h.marked (hgr.marked hmrk)⟩

lemma mapWord_eq_ok (h : file.mapWord idx = .ok word) :
    ∃ map, file.fileMap = some map ∧ map idx = word := by
  unfold mapWord at h
  cases hmap : file.fileMap with
  | none => simp [hmap] at h
  | some map =>
    simp only [hmap] at h
    split_ifs at h
    exact ⟨map, rfl, Except.ok.inj h⟩

lemma setMapWord_fileMap {map : Nat → BitVec 64} (h : file.fileMap = some map) (idx : Nat)
    (word : BitVec 64) :
    (file.setMapWord idx word).fileMap = some (Function.update map idx word) := by
  simp [setMapWord, h]

lemma thisBlocks_fits (block nrBlocks : Nat) : randMapBit block + thisBlocks block nrBlocks ≤ 64 := by
  have hbit : randMapBit block < 64 := Nat.mod_lt _ (by decide)
  unfold thisBlocks
  split_ifs <;> omega

lemma thisBlocks_le (block nrBlocks : Nat) : thisBlocks block nrBlocks ≤ nrBlocks := by
  unfold thisBlocks
  split_ifs <;> omega

lemma thisBlocks_pos (block nrBlocks : Nat) : 0 < thisBlocks block (nrBlocks + 1) := by
  have hbit : randMapBit block < 64 := Nat.mod_lt _ (by decide)
  unfold thisBlocks
  split_ifs <;> omega

lemma randMap_of_mem_run (h : randMapBit block + n ≤ 64) (hle : block ≤ b) (hlt : b < block + n) :
    randMapIdx b = randMapIdx block ∧ randMapBit block ≤ randMapBit b ∧
      randMapBit b < randMapBit block + n := by
  unfold randMapIdx randMapBit at *
  have hdiv : b / 64 = block / 64 := by omega
  rw [hdiv]
  omega

lemma setMapWord_grows (h : randMapBit block + n ≤ 64)
    (hwr : file.mapWord (randMapIdx block) = .ok word) :
    Grows file (file.setMapWord (randMapIdx block) (word ||| mask 64 (randMapBit block) n)) ∧
      ∀ b, block ≤ b → b < block + n → (file.setMapWord (randMapIdx block)
          (word ||| mask 64 (randMapBit block) n)).Marked b := by
  obtain ⟨map, hmap, rfl⟩ := mapWord_eq_ok hwr
  refine ⟨⟨⟨_, rfl⟩, ?_⟩, ?_⟩
  · rintro b ⟨map', hmp', hbit⟩
    cases hmap.symm.trans hmp'
    refine ⟨_, setMapWord_fileMap hmap _ _, ?_⟩
    by_cases hidx : randMapIdx b = randMapIdx block
    · rw [hidx] at hbit ⊢
      rw [Function.update_self, BitVec.getLsbD_or, hbit, Bool.true_or]
    · rw [Function.update_of_ne hidx]
      exact hbit
  · intro b hle hlt
    obtain ⟨hidx, hlow, hhg⟩ := randMap_of_mem_run h hle hlt
    have hb : randMapBit b < 64 := Nat.mod_lt _ (by decide)
    refine ⟨_, setMapWord_fileMap hmap _ _, ?_⟩
    rw [hidx, Function.update_self, BitVec.getLsbD_or, getLsbD_mask h hb]
    simp [hlow, hhg]

lemma not_marked_of_clear (hft : randMapBit block + n ≤ 64)
    (hwr : file.mapWord (randMapIdx block) = .ok word)
    (h : ∀ i, randMapBit block ≤ i → i < randMapBit block + n → word.getLsbD i = false)
    (hle : block ≤ b) (hlt : b < block + n) : ¬file.Marked b := by
  rintro ⟨map', hmp', hbit⟩
  obtain ⟨map, hmap, rfl⟩ := mapWord_eq_ok hwr
  cases hmap.symm.trans hmp'
  obtain ⟨hidx, hlow, hhg⟩ := randMap_of_mem_run hft hle hlt
  rw [hidx, h _ hlow hhg] at hbit
  cases hbit

end FioFile

section

variable {o : ThreadOptions} {file file' : FioFile} {ioU ioU' : IoU} {fuel block nrBlocks : Nat}

lemma markBitMapLoop_spec {again again' : Bool}
    (h : markBitMapLoop fuel block nrBlocks again file = .ok (again', file')) :
    FioFile.Grows file file' ∧ (again = true → again' = true) ∧
      ∀ b, block ≤ b → b < block + nrBlocks → file'.Marked b ∧ (file.Marked b → again' = true) := by
  fun_induction markBitMapLoop fuel block nrBlocks again file with
  | case1 =>
    cases h
    exact ⟨.refl _, id, fun b hle hlt => absurd hlt (by omega)⟩
  | case2 => cases h
  | case3 fuel block nrBlocks again file _ idx _ n mask ih =>
    obtain ⟨word, hwr, h⟩ := of_bind h
    have hft := thisBlocks_fits block nrBlocks
    obtain ⟨hgr, hmr⟩ := setMapWord_grows hft hwr
    obtain ⟨hgr', hkp, hrs⟩ := ih word h
    refine ⟨hgr.trans hgr', fun hag => hkp (by simp [hag]), fun b hle hlt => ?_⟩
    -- the block is in the run of this round or in the rest
    by_cases hhr : b < block + n
    · refine ⟨hgr'.marked (hmr b hle hhr), fun hmrk => hkp ?_⟩
      by_contra hnot
      have h0 := (by simpa using hnot : _ ∧ _).2
      exact not_marked_of_clear hft hwr
        ((and_mask_eq_zero_iff hft).1 h0) hle hhr hmrk
    · obtain ⟨hmr', hag⟩ := hrs b (by omega) (by omega)
      exact ⟨hmr', fun hmrk => hag (hgr.marked hmrk)⟩
  | case4 => cases h

/-- **`mark_bit_map` on a first request**: all its blocks are marked afterwards, and `randomagain` is
    set if one of them was before. -/
lemma markBitMap_spec (hbs : ioU.busyOk = false) (h : markBitMap o file ioU = .ok (ioU', file')) :
    FioFile.Grows file file' ∧ (∃ again, ioU' = { ioU with randomagain := again }) ∧
      ∀ b, History.blockOf o file ioU ≤ b → b < History.blockOf o file ioU + mapBlocksOf o ioU →
        file'.Marked b ∧ (file.Marked b → ioU'.randomagain = true) := by
  rw [markBitMap, if_neg (by simp [hbs])] at h
  obtain ⟨⟨again, file1⟩, hlp, h⟩ := of_bind h
  cases h
  obtain ⟨hgr, -, hblk⟩ := markBitMapLoop_spec hlp
  exact ⟨hgr, ⟨again, rfl⟩, hblk⟩

lemma markRandomMapLoop_grows {blocks blocks' : Nat}
    (h : markRandomMapLoop o fuel block nrBlocks blocks file = .ok (blocks', file')) :
    FioFile.Grows file file' := by
  fun_induction markRandomMapLoop o fuel block nrBlocks blocks file with
  | case1 =>
    cases h
    exact .refl _
  | case2 => cases h
  | case3 fuel block nrBlocks blocks file _ ih =>
    obtain ⟨free, -, h⟩ := of_bind h
    split_ifs at h
    · cases h
      exact .refl _
    simp only at h ih
    split_ifs at h
    obtain ⟨word, hwr, h⟩ := of_bind h
    have hft := thisBlocks_fits block nrBlocks
    have hrnl := freeRun_le word (randMapBit block) (FioFile.thisBlocks block nrBlocks)
    have hih := ih word
    generalize freeRun word (randMapBit block) (FioFile.thisBlocks block nrBlocks) = n
      at h hrnl hih
    split_ifs at h
    · cases h
      exact .refl _
    have hft' : randMapBit block + n ≤ 64 := by omega
    exact (setMapWord_grows hft' hwr).1.trans (hih h)

end

end FioSsd
